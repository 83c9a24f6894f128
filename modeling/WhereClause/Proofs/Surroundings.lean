import WhereClause.Proofs.Piecewise

/-!
# What building leaves around

Building conditions for a tree, whether or not it fails, makes new nodes and binders and takes
identifiers. Of what was there before it changes the tree and its binder only, and at most one list:
a list that is declared for the type of a membership test is lengthened by the letters of the marker
before it is refused.

* `Workspace.Around`: what is as it was, apart from a tree, a binder and a list.
* `contained_extend`: building leaves all of this, and if it succeeds, no list is lengthened.
-/

namespace WhereClause

namespace Forest

variable {forest other : Forest}

theorem additions_extendList (additions : other.additions = forest.additions) (v : Value)
    (more : List Value) :
    (other.extendList v more).additions = (forest.extendList v more).additions := by
  cases v with
  | list mark vs => simp only [extendList, kept, additions]
  | conditions tree stage =>
      have same (forest : Forest) :
          (forest.extendList (.conditions tree stage) more).additions = forest.additions := by
        unfold extendList
        dsimp only
        split <;> rfl
      rw [same, same, additions]
  | _ => exact additions

theorem node_extendList_congr {id : NodeId} (same : other.node id = forest.node id) (v : Value)
    (more : List Value) :
    (other.extendList v more).node id = (forest.extendList v more).node id := by
  cases v with
  | conditions tree stage =>
      by_cases here : tree = id
      · subst here
        have read : other.junction? tree = forest.junction? tree := by
          simp only [junction?, same]
        cases found : forest.junction? tree with
        | none => simp only [extendList, read, found, same]
        | some j =>
            simp only [extendList, read, found]
            rw [node_setNode_of_tree (read.trans found), node_setNode_of_tree found, if_pos rfl,
              if_pos rfl]
      · have apart (forest : Forest) :
            (forest.extendList (.conditions tree stage) more).node id = forest.node id := by
          unfold extendList
          dsimp only
          split
          · rw [node_setNode_of_tree ‹_›, if_neg here]
          · rfl
        rw [apart, apart, same]
  | _ => exact same

theorem size_extendList (forest : Forest) (v : Value) (more : List Value) :
    (forest.extendList v more).nodes.size = forest.nodes.size := by
  unfold extendList
  split
  · rfl
  · split
    · simp [setNode]
    · rfl
  · rfl

theorem nextMark_extendList (forest : Forest) (v : Value) (more : List Value) :
    (forest.extendList v more).nextMark = forest.nextMark := by
  unfold extendList
  split
  · rfl
  · split <;> rfl
  · rfl

end Forest

namespace Workspace

variable {tree inner : NodeId} {own other : BinderId} {grown : Option Value}
  {w middle after : Workspace}

/-- The forest once a list is lengthened by the letters of the marker. -/
def lengthened (w : Workspace) : Option Value → Forest
  | none => w.toForest
  | some v => w.extendList v w.settings.markerLetters

theorem junction?_lengthened {j : Junction} (found : w.junction? tree = some j)
    (grown : Option Value) : ∃ k, (w.lengthened grown).junction? tree = some k ∧
      k.binder = j.binder ∧ k.connective = j.connective := by
  cases grown with
  | none => exact ⟨j, found, rfl, rfl⟩
  | some v =>
      rcases w.junction?_extendList v w.settings.markerLetters tree with
        same | ⟨k, stage, before, later⟩
      · exact ⟨j, same.trans found, rfl, rfl⟩
      · cases before.symm.trans found
        refine ⟨_, later, by simp, ?_⟩
        unfold Junction.appendAt
        split <;> rfl

theorem binder_lengthened (w : Workspace) (grown : Option Value) (id : BinderId) :
    (w.lengthened grown).binder id = w.binder id := by
  cases grown with
  | none => rfl
  | some v => simp only [lengthened, Forest.binder, Forest.binders_extendList]

/-- All is as it was, but for the tree, the binder, a list that is lengthened, and what is new. -/
structure Around (tree : NodeId) (own : BinderId) (grown : Option Value) (w after : Workspace) :
    Prop where
  settings : after.settings = w.settings
  nextMark : after.nextMark = w.nextMark
  nextIdentifier : w.nextIdentifier ≤ after.nextIdentifier
  nodes : w.nodes.size ≤ after.nodes.size
  binders : w.binders.size ≤ after.binders.size
  additions : after.additions = (w.lengthened grown).additions
  node : ∀ id, id.index < w.nodes.size → id ≠ tree → after.node id = (w.lengthened grown).node id
  binder : ∀ id, id.index < w.binders.size → id ≠ own → after.binder id = w.binder id

namespace Around

theorem refl (tree : NodeId) (own : BinderId) (w : Workspace) : w.Around tree own none w :=
  ⟨rfl, rfl, le_rfl, le_rfl, le_rfl, rfl, fun _ _ _ => rfl, fun _ _ _ => rfl⟩

/-- A tree and a binder that are new do not count, nor does the order in which a list is
lengthened. -/
theorem trans_lengthened (first : w.Around tree own none middle)
    (second : middle.Around inner other grown after)
    (newTree : inner = tree ∨ w.nodes.size ≤ inner.index)
    (newBinder : other = own ∨ w.binders.size ≤ other.index) :
    w.Around tree own grown after where
  settings := second.settings.trans first.settings
  nextMark := second.nextMark.trans first.nextMark
  nextIdentifier := first.nextIdentifier.trans second.nextIdentifier
  nodes := first.nodes.trans second.nodes
  binders := first.binders.trans second.binders
  additions := by
    rw [second.additions]
    cases grown with
    | none => exact first.additions
    | some v =>
        simp only [lengthened, first.settings]
        exact Forest.additions_extendList first.additions v _
  node id bound outside := by
    have apart : id ≠ inner := by
      rcases newTree with rfl | new
      · exact outside
      · rintro rfl
        exact absurd bound (Nat.not_lt.mpr new)
    rw [second.node id (bound.trans_le first.nodes) apart]
    have same := first.node id bound outside
    cases grown with
    | none => exact same
    | some v =>
        simp only [lengthened, first.settings]
        exact Forest.node_extendList_congr same v _
  binder id bound outside := by
    have apart : id ≠ other := by
      rcases newBinder with rfl | new
      · exact outside
      · rintro rfl
        exact absurd bound (Nat.not_lt.mpr new)
    rw [second.binder id (bound.trans_le first.binders) apart, first.binder id bound outside]

theorem trans (first : w.Around tree own none middle)
    (second : middle.Around tree own grown after) : w.Around tree own grown after :=
  first.trans_lengthened second (.inl rfl) (.inl rfl)

/-- What comes after a list is lengthened changes none. -/
theorem lengthened_trans (first : w.Around tree own grown middle)
    (second : middle.Around tree own none after) : w.Around tree own grown after where
  settings := second.settings.trans first.settings
  nextMark := second.nextMark.trans first.nextMark
  nextIdentifier := first.nextIdentifier.trans second.nextIdentifier
  nodes := first.nodes.trans second.nodes
  binders := first.binders.trans second.binders
  additions := second.additions.trans first.additions
  node id bound outside :=
    (second.node id (bound.trans_le first.nodes) outside).trans (first.node id bound outside)
  binder id bound outside :=
    (second.binder id (bound.trans_le first.binders) outside).trans
      (first.binder id bound outside)

theorem of_same (settings : after.settings = w.settings) (nextMark : after.nextMark = w.nextMark)
    (nextIdentifier : w.nextIdentifier ≤ after.nextIdentifier)
    (nodes : after.nodes = w.nodes) (binders : after.binders = w.binders)
    (additions : after.additions = w.additions) : w.Around tree own none after :=
  ⟨settings, nextMark, nextIdentifier, nodes ▸ le_rfl, binders ▸ le_rfl, additions,
    fun _ _ _ => by simp only [Forest.node, lengthened, nodes],
    fun _ _ _ => by simp only [Forest.binder, binders]⟩

theorem of_lengthen (tree : NodeId) (own : BinderId) (w : Workspace) (v : Value) :
    w.Around tree own (some v) { w with toForest := w.lengthened (some v) } where
  settings := rfl
  nextMark := Forest.nextMark_extendList ..
  nextIdentifier := le_rfl
  nodes := (Forest.size_extendList ..).ge
  binders := by rw [lengthened, Forest.binders_extendList]
  additions := rfl
  node _ _ _ := rfl
  binder id _ _ := binder_lengthened w (some v) id

end Around

end Workspace

/-- The item is a membership test that binds its values with the binder of the tree. -/
def Item.Binds (item : Item) : Prop :=
  ∃ key value, item = .field key value ∧ key.isMembership = true ∧ value.node? = none

namespace WorkspaceM

variable {α β : Type} {tree inner : NodeId} {own other : BinderId} {lengthens : Value → Prop}
  {w middle after : Workspace}

/-- The operation leaves what is around the tree and the binder. If it fails, it may have lengthened
one list of this kind. -/
structure Contained (tree : NodeId) (own : BinderId) (lengthens : Value → Prop)
    (operation : WorkspaceM α) (w : Workspace) : Prop where
  ok : ∀ a after, run operation w = (.ok a, after) → w.Around tree own none after
  error : ∀ fault after, run operation w = (.error fault, after) →
    ∃ grown, (∀ v, grown = some v → lengthens v) ∧ w.Around tree own grown after

namespace Contained

theorem of_run {operation : WorkspaceM α} {result : Except Fault α}
    (done : run operation w = (result, after)) (around : w.Around tree own none after) :
    Contained tree own lengthens operation w where
  ok a last ok := by
    obtain ⟨-, rfl⟩ := Prod.mk.inj (done.symm.trans ok)
    exact around
  error fault last failed := by
    obtain ⟨-, rfl⟩ := Prod.mk.inj (done.symm.trans failed)
    exact ⟨none, nofun, around⟩

theorem pure (a : α) : Contained tree own lengthens (Pure.pure a : WorkspaceM α) w :=
  .of_run rfl (.refl tree own w)

theorem throw (fault : Fault) :
    Contained tree own lengthens (MonadExcept.throw fault : WorkspaceM α) w :=
  .of_run rfl (.refl tree own w)

/-- What comes later may be about a tree and a binder that are new. -/
theorem bind_new {operation : WorkspaceM α} {next : α → WorkspaceM β}
    (first : Contained tree own lengthens operation w)
    (later : ∀ a middle, run operation w = (.ok a, middle) → ∃ inner other,
      (inner = tree ∨ w.nodes.size ≤ inner.index) ∧
      (other = own ∨ w.binders.size ≤ other.index) ∧
      Contained inner other lengthens (next a) middle) :
    Contained tree own lengthens (operation >>= next) w where
  ok b last ok := by
    rw [run_bind] at ok
    rcases done : run operation w with ⟨result, middle⟩
    rw [done] at ok
    cases result with
    | error fault => cases ok
    | ok a =>
        obtain ⟨inner, other, newTree, newBinder, contained⟩ := later a middle done
        exact (first.ok a middle done).trans_lengthened (contained.ok b last ok) newTree newBinder
  error fault last failed := by
    rw [run_bind] at failed
    rcases done : run operation w with ⟨result, middle⟩
    rw [done] at failed
    cases result with
    | error fault =>
        cases failed
        exact first.error _ _ done
    | ok a =>
        obtain ⟨inner, other, newTree, newBinder, contained⟩ := later a middle done
        obtain ⟨grown, declared, around⟩ := contained.error fault last failed
        exact ⟨grown, declared,
          (first.ok a middle done).trans_lengthened around newTree newBinder⟩

theorem bind {operation : WorkspaceM α} {next : α → WorkspaceM β}
    (first : Contained tree own lengthens operation w)
    (later : ∀ a middle, run operation w = (.ok a, middle) →
      Contained tree own lengthens (next a) middle) :
    Contained tree own lengthens (operation >>= next) w :=
  first.bind_new fun a middle done => ⟨tree, own, .inl rfl, .inl rfl, later a middle done⟩

theorem map {operation : WorkspaceM α} (contained : Contained tree own lengthens operation w)
    (f : α → β) : Contained tree own lengthens (f <$> operation) w := by
  rw [map_eq_pure_bind]
  exact contained.bind fun _ _ _ => .pure _

/-- The first part only looks something up. -/
theorem look {operation : WorkspaceM α} {next : α → WorkspaceM β}
    (same : (run operation w).2 = w)
    (later : ∀ a, run operation w = (.ok a, w) → Contained tree own lengthens (next a) w) :
    Contained tree own lengthens (operation >>= next) w := by
  apply Contained.bind (.of_run Prod.mk.eta.symm (same.symm ▸ .refl tree own w))
  intro a middle done
  obtain rfl : middle = w := by rw [← same, done]
  exact later a done

theorem mono {operation : WorkspaceM α} {more : Value → Prop}
    (contained : Contained tree own lengthens operation w) (less : ∀ v, lengthens v → more v) :
    Contained tree own more operation w where
  ok := contained.ok
  error fault after failed := by
    obtain ⟨grown, declared, around⟩ := contained.error fault after failed
    exact ⟨grown, fun v same => less v (declared v same), around⟩

theorem onBinder (own : BinderId) (operation : Binder → Except Fault α × Binder) :
    Contained tree own lengthens (WorkspaceM.onBinder own operation) w := by
  have around : w.Around tree own none { w with
      toForest := w.setBinder own (operation (w.binder own)).2 } := by
    refine ⟨rfl, rfl, le_rfl, le_rfl, ?_, rfl, fun _ _ _ => rfl, fun id _ outside => ?_⟩
    · simp [Forest.setBinder]
    · rw [Forest.binder_setBinder, if_neg]
      rintro ⟨rfl, -⟩
      exact outside rfl
  rcases done : operation (w.binder own) with ⟨result, b⟩
  rw [done] at around
  have answered : run (WorkspaceM.onBinder own operation) w =
      (result, { w with toForest := w.setBinder own b }) := by
    simp only [WorkspaceM.onBinder, run_bind, run_get, done, run_changeForest]
    cases result <;> rfl
  exact .of_run answered around

theorem addNode (node : Node) : Contained tree own lengthens (WorkspaceM.addNode node) w := by
  refine .of_run (run_addNode node w) ⟨rfl, rfl, le_rfl, ?_, le_rfl, rfl, fun id bound _ => ?_,
    fun _ _ _ => rfl⟩
  · simp
  · rw [Forest.node_of_push rfl, if_neg bound.ne]
    rfl

theorem addBinder (b : Binder) : Contained tree own lengthens (WorkspaceM.addBinder b) w := by
  refine .of_run (run_addBinder b w) ⟨rfl, rfl, le_rfl, le_rfl, ?_, rfl, fun _ _ _ => rfl,
    fun id bound _ => ?_⟩
  · simp
  · rw [Forest.binder_of_push rfl, if_neg bound.ne]

theorem takeIdentifier : Contained tree own lengthens WorkspaceM.takeIdentifier w :=
  .of_run (run_takeIdentifier w) (.of_same rfl rfl (Nat.le_succ _) rfl rfl rfl)

theorem log (events : List Event) : Contained tree own lengthens (WorkspaceM.log events) w :=
  .of_run (run_log events w) (.of_same rfl rfl le_rfl rfl rfl rfl)

theorem newJunction (connective : String) :
    Contained tree own lengthens (WorkspaceM.newJunction connective) w :=
  (takeIdentifier.bind fun _ _ _ => addBinder _).bind fun _ _ _ => addNode _

theorem attach (tree : NodeId) (condition : Value) :
    Contained tree own lengthens (WorkspaceM.attach tree condition) w := by
  refine .look (same_junction tree w) fun j done => .of_run rfl ?_
  refine ⟨rfl, rfl, le_rfl, ?_, le_rfl, rfl, fun id _ outside => ?_, fun _ _ _ => rfl⟩
  · simp [Forest.setNode]
  · show (w.setNode tree _).node id = _
    rw [Forest.node_setNode_of_tree (found_of_junction done), if_neg (Ne.symm outside)]
    rfl

theorem newOperand (own : BinderId) (field : String) (value : Value) (type : Option String) :
    Contained tree own lengthens (WorkspaceM.newOperand own field value type) w := by
  unfold WorkspaceM.newOperand
  split
  · exact .pure _
  · exact .look rfl fun _ _ => (onBinder _ _).bind fun _ _ _ => .pure _

theorem newComparison (field value type operator : Option Value) :
    Contained tree own lengthens (WorkspaceM.newComparison field value type operator) w := by
  refine takeIdentifier.bind fun identifier middle _ => ?_
  dsimp only
  split
  · refine (addBinder _).bind_new fun b last done => ?_
    have new : b = ⟨middle.binders.size⟩ := by
      cases done
      rfl
    refine ⟨tree, b, .inl rfl, .inr (new ▸ le_rfl), ?_⟩
    exact (newOperand b _ _ _).bind fun _ _ _ => addNode _
  · exact .throw _

theorem buildComparison (key : Key) (value type : Value) :
    Contained tree own lengthens (WorkspaceM.buildComparison key value type) w :=
  (newComparison ..).bind fun _ _ _ => .pure _

theorem buildMembership {owner : NodeId} {j : Junction} (found : w.junction? owner = some j)
    (key : Key) (value type : Value) :
    Contained tree j.binder lengthens (WorkspaceM.buildMembership owner key value type) w := by
  refine .look (same_junction owner w) fun k done => ?_
  cases (found_of_junction done).symm.trans found
  exact .look rfl fun _ _ => (onBinder _ _).bind fun _ _ _ => .pure _

/-- A list is lengthened before what fails. -/
theorem of_lengthened {operation : WorkspaceM α} {next : α → WorkspaceM β} {v : Value} {a : α}
    (done : run operation w = (.ok a, { w with toForest := w.lengthened (some v) }))
    (allowed : lengthens v)
    (failed : ∃ fault, (run (next a) { w with toForest := w.lengthened (some v) }).1 = .error fault)
    (later : Contained tree own (fun _ => False) (next a)
      { w with toForest := w.lengthened (some v) }) :
    Contained tree own lengthens (operation >>= next) w := by
  have same := run_bind_ok done next
  obtain ⟨fault, failed⟩ := failed
  refine ⟨fun b last ok => ?_, fun fault' last ends => ?_⟩
  · rw [← same, ok] at failed
    cases failed
  · obtain ⟨grown, declared, around⟩ := later.error fault' last (same ▸ ends)
    obtain rfl : grown = none := by
      cases grown with
      | none => rfl
      | some u => exact (declared u rfl).elim
    refine ⟨some v, ?_, (Workspace.Around.of_lengthen tree own w v).lengthened_trans around⟩
    rintro u same
    cases same
    exact allowed

end Contained

/-- The list is declared for the type of a membership test in the items. -/
def Lengthens (types : Value) (items : List Item) (v : Value) : Prop :=
  v.isList = true ∧ ∃ key value, Leaf.entry key value ∈ Item.allLeaves items ∧
    key.isMembership = true ∧ declaredType types key.field = .ok v

theorem Lengthens.mono {types v : Value} {items more : List Item}
    (less : ∀ leaf ∈ Item.allLeaves items, leaf ∈ Item.allLeaves more)
    (lengthens : Lengthens types items v) : Lengthens types more v := by
  obtain ⟨list, key, value, member, membership, declared⟩ := lengthens
  exact ⟨list, key, value, less _ member, membership, declared⟩

theorem contained_of_membershipType {owner : NodeId} {j : Junction}
    (found : w.junction? owner = some j) {next : Value → WorkspaceM Value}
    (contained : ∀ {v : Workspace} {k : Junction} {lengthens : Value → Prop},
      v.junction? owner = some k → k.binder = j.binder → ∀ type,
        Contained tree own lengthens (next type) v)
    (refused : ∀ type, type.isList = true → ∀ v, ∃ fault, (run (next type) v).1 = .error fault)
    {declared : Value} (allowed : declared.isList = true → lengthens declared) :
    Contained tree own lengthens (membershipType declared >>= next) w := by
  rcases run_membershipType_cases declared w with
    ⟨fault, failed⟩ | ⟨s, typed, -⟩ | ⟨type, reason, typed, -⟩ | ⟨list, typed⟩
  · exact .look (by rw [failed]) fun type _ => contained found rfl type
  · exact .look (by rw [typed]) fun type _ => contained found rfl type
  · exact .look (by rw [typed]) fun type _ => contained found rfl type
  · obtain ⟨k, later, same, -⟩ := Workspace.junction?_lengthened found (some declared)
    exact .of_lengthened typed (allowed list) (refused declared list _)
      (contained later same declared)

theorem contained_buildField {owner : NodeId} {j : Junction} (found : w.junction? owner = some j)
    (types : Value) (key : Key) (value : Value) (tree : NodeId) {own : BinderId}
    (mine : Item.Binds (.field key value) → own = j.binder) :
    Contained tree own (Lengthens types [.field key value])
      (buildField owner types key value) w := by
  unfold buildField
  cases declared : declaredType types key.field with
  | error fault => exact .of_run rfl (.refl tree own w)
  | ok type =>
      refine .look rfl fun declared' done => ?_
      cases done
      split
      · rename_i membership
        refine contained_of_membershipType found (fun found' same type => ?_)
          (fun type list v => ?_) fun list => ⟨list, key, value, ?_, membership, declared⟩
        · split
          · exact .buildComparison ..
          · rename_i notNode
            have flat : value.node? = none := by
              cases value <;> first | rfl | exact absurd rfl (notNode _)
            rw [mine ⟨key, value, rfl, membership, flat⟩, ← same]
            exact .buildMembership found' ..
        · split
          · exact buildComparison_of_list list ..
          · exact buildMembership_of_list list ..
        · simp [Item.allLeaves, Item.leaves]
      · exact .buildComparison ..

theorem found_newJunction (connective : String) (w : Workspace) {inner : NodeId}
    (done : run (newJunction connective) w = (.ok inner, middle)) :
    inner = ⟨w.nodes.size⟩ ∧ middle.junction? inner =
      some { connective := .text connective, binder := ⟨w.binders.size⟩ } := by
  rw [run_newJunction] at done
  cases done
  refine ⟨rfl, ?_⟩
  rw [Forest.junction?_eq_some, Forest.node_of_push rfl, if_pos rfl]

theorem junction?_of_around {j : Junction} (found : w.junction? tree = some j)
    (around : w.Around ⟨w.nodes.size⟩ own none middle) : middle.junction? tree = some j := by
  have bound := Forest.index_lt_of_tree found
  have same := around.node tree bound (by rintro rfl; exact bound.ne rfl)
  exact (Forest.junction?_congr same).trans found

mutual
/-- Making a condition for a tree changes no node, and its binder only if values are bound with
it. -/
theorem contained_build (types : Value) :
    (item : Item) → {w : Workspace} → {owner : NodeId} → {j : Junction} →
      w.junction? owner = some j → (tree : NodeId) → {own : BinderId} →
        (item.Binds → own = j.binder) →
          Contained tree own (Lengthens types [item]) (build owner types item) w
  | .raw text, _, _, _, _, _, _, _ => .pure _
  | .nested node, _, _, _, _, _, _, _ => .pure _
  | .field key value, _, _, _, found, tree, _, mine =>
    (contained_buildField found types key value tree mine).map _
  | .group connective items, w, _, _, _, _, _, _ => by
      rw [build]
      split
      · exact (Contained.log _).bind fun _ _ _ => .pure _
      · refine (Contained.newJunction _).bind_new fun inner middle done => ?_
        obtain ⟨rfl, new⟩ := found_newJunction _ w done
        refine ⟨_, _, .inr le_rfl, .inr le_rfl,
          Contained.bind ((contained_extend types items new).mono ?_) fun _ _ _ => .pure _⟩
        exact fun v => Lengthens.mono fun leaf member => by
          simpa [Item.allLeaves, Item.leaves] using member
  | .negation items, w, _, _, _, _, _, _ => by
      rw [build]
      split
      · exact (Contained.log _).bind fun _ _ _ => .pure _
      · refine .look rfl fun _ _ => (Contained.newJunction _).bind_new fun inner middle done => ?_
        obtain ⟨rfl, new⟩ := found_newJunction _ w done
        refine ⟨_, _, .inr le_rfl, .inr le_rfl,
          Contained.bind ((contained_extend types items new).mono ?_) fun _ _ _ =>
            (Contained.addNode _).bind fun _ _ _ => .pure _⟩
        exact fun v => Lengthens.mono fun leaf member => by
          simpa [Item.allLeaves, Item.leaves] using member

theorem contained_extend (types : Value) :
    (items : List Item) → {w : Workspace} → {owner : NodeId} → {j : Junction} →
      w.junction? owner = some j →
        Contained owner j.binder (Lengthens types items) (extend owner types items) w
  | [], _, _, _, _ => .pure _
  | item :: rest, w, owner, j, found => by
      rw [extend]
      have first : ∀ v, Lengthens types [item] v → Lengthens types (item :: rest) v := fun v =>
        Lengthens.mono fun leaf member => by
          simp only [Item.allLeaves, List.append_nil] at member ⊢
          exact List.mem_append_left _ member
      have later : ∀ v, Lengthens types rest v → Lengthens types (item :: rest) v := fun v =>
        Lengthens.mono fun leaf member => List.mem_append_right _ member
      have builds (tree : NodeId) := contained_build types item found tree fun _ => rfl
      refine ((builds owner).mono first).bind fun condition middle done => ?_
      have built := (builds ⟨w.nodes.size⟩).ok condition middle done
      have still := junction?_of_around found built
      cases condition with
      | none => exact (contained_extend types rest still).mono later
      | some condition =>
          refine (Contained.attach owner condition).bind fun _ last attached => ?_
          rw [run_attach still] at attached
          cases attached
          have again := Forest.junction?_setNode still
            { j with conditions := j.conditions ++ [condition] } owner
          rw [if_pos rfl] at again
          exact (contained_extend (j := { j with conditions := j.conditions ++ [condition] })
            types rest again).mono later
end

end WorkspaceM
end WhereClause
