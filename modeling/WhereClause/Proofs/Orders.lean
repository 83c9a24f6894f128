import WhereClause.Proofs.Operations

/-!
# The order of rendering

A node that can be rendered is rendered to the same end whatever is rendered before it, as long as
no two trees at or below it have one binder. How a tree ends is known before it is compiled: a tree
is ripe as it would be compiled now. While the nodes are rendered in some order, every one of them
is as it was at first or ripe already, and the binder of a tree that is still open is as it was.

* `reliable_within`: on the way, every node is rendered with the texts that it yields at first.
* `sql_after_renders`: whatever is rendered first, all nodes end in one way.
-/

namespace WhereClause

/-- Everything is allowed. -/
def Policy.free : Policy where
  argument _ := True
  type _ := True
  untyped := trivial
  given := True
  builds := True
  renders := True

/-! ## Lists and results that compiling makes -/

namespace Forest

variable {forest other : Forest}

/-- What compiling a tree makes belongs to a tree that is compiled. -/
def Made (forest : Forest) (v : Value) : Prop :=
  ∀ tree, v = .conditions tree .compiled ∨ v = .compiled tree →
    ∃ j, forest.junction? tree = some j ∧ j.compiled.isSome = true

/-- No value stands for what is not made yet. -/
structure Present (forest : Forest) : Prop where
  kept : ∀ v, ∀ u ∈ forest.kept v, u.Throughout forest.Made
  argument : ∀ id u, forest.node id = .unary u → u.argument.Throughout forest.Made
  bound : ∀ id, ∀ entry ∈ (forest.binder id).bindings, entry.2.value.Throughout forest.Made

theorem Present.condition (present : forest.Present) {id : NodeId} {j : Junction}
    (found : forest.junction? id = some j) {v : Value} (member : v ∈ j.conditions) :
    v.Throughout forest.Made :=
  present.kept (.conditions id j.stage) v (by simpa [Forest.kept, found] using member)

/-- Where nothing was added to lists, only what nodes and binders hold is to be looked at. -/
theorem Present.of_conditions (additions : forest.additions = [])
    (conditions : ∀ id j, forest.junction? id = some j →
      ∀ v ∈ j.conditions ++ j.retired, v.Throughout forest.Made)
    (argument : ∀ id u, forest.node id = .unary u → u.argument.Throughout forest.Made)
    (bound : ∀ id, ∀ entry ∈ (forest.binder id).bindings,
      entry.2.value.Throughout forest.Made) : forest.Present where
  kept v u member := by
    cases v with
    | conditions tree stage =>
        cases found : forest.junction? tree with
        | none => simp [Forest.kept, found] at member
        | some j =>
            refine conditions tree j found u (List.mem_append.mpr ?_)
            simp only [Forest.kept, found, Option.map_some, Option.getD_some,
              Junction.listAt] at member
            split at member
            · exact .inl member
            · exact .inr member
    | _ => simp [Forest.kept, additions, Table.get?] at member
  argument := argument
  bound := bound

/-- Lists that are made hold the same in both forests. -/
structure Shares (forest other : Forest) : Prop where
  additions : other.additions = forest.additions
  size : other.nodes.size = forest.nodes.size
  listAt : ∀ tree stage, forest.Made (.conditions tree stage) →
    (other.junction? tree).map (·.listAt stage) = (forest.junction? tree).map (·.listAt stage)

theorem Shares.kept (shares : forest.Shares other) {v : Value} (list : v.isList = true)
    (made : ∀ tree stage, v = .conditions tree stage → forest.Made v) :
    other.kept v = forest.kept v := by
  cases v with
  | list mark vs => simp only [Forest.kept, shares.additions]
  | conditions tree stage =>
      simp only [Forest.kept, shares.listAt tree stage (made tree stage rfl)]
  | _ => simp [Value.isList] at list

theorem Shares.viewWithin (shares : forest.Shares other) (present : forest.Present) (depth : Nat)
    {v : Value} (made : v.Throughout forest.Made) :
    other.viewWithin depth v = forest.viewWithin depth v := by
  induction depth generalizing v with
  | zero => rfl
  | succ depth ih =>
      apply View.ofValue_congr (p := forest.Made) _ v made
      intro u list allowed
      simp only [shares.kept list allowed]
      exact List.map_congr_left fun e member => ih (present.kept u e member)

theorem Shares.plainText (shares : forest.Shares other) (present : forest.Present) {v : Value}
    (made : v.Throughout forest.Made) : other.plainText v = forest.plainText v := by
  have views : other.view v = forest.view v := by
    simp only [view, shares.additions, shares.size, shares.viewWithin present _ made]
  unfold Forest.plainText
  split
  · rfl
  · rw [views]

theorem Shares.elements (shares : forest.Shares other) {v : Value}
    (made : v.Throughout forest.Made) : other.elements v = forest.elements v := by
  apply elements_congr shares.additions
  rintro tree stage rfl
  exact shares.listAt tree stage made

end Forest

/-! ## What trees ripen to -/

namespace Workspace

variable {w : Workspace} {id : NodeId} {j : Junction}

def rewriting (w : Workspace) (j : Junction) : Value → Value :=
  (w.binder j.binder).rewriting w.toForest w.settings

theorem rewrites (w : Workspace) (j : Junction) : Rewrites (w.rewriting j) := Binder.rewrites _ _ _

def final (w : Workspace) (j : Junction) : Bindings :=
  (w.binder j.binder).final w.toForest w.settings

/-- A tree is read with its conditions as compiling would make them now. -/
def reading (w : Workspace) : Reading := fun j =>
  some (if j.compiled.isSome then j.conditions else j.conditions.map (w.rewriting j))

theorem reading_of_compiled (w : Workspace) (compiled : j.compiled.isSome = true) :
    w.reading j = some j.conditions := by
  rw [reading, if_pos compiled]

theorem reading_of_open (w : Workspace) (isOpen : j.compiled = none) :
    w.reading j = some (j.conditions.map (w.rewriting j)) := by
  simp [reading, isOpen]

theorem reading_faithful (w : Workspace) : w.reading.Faithful := by
  rintro j conditions ⟨⟩ id
  split
  · rfl
  · rw [List.mem_map]
    constructor
    · rintro ⟨v, member, same⟩
      exact (w.rewrites j).node_iff.mp same ▸ member
    · exact fun member => ⟨_, member, (w.rewrites j).node_iff.mpr rfl⟩

/-- The texts that the value yields, if it yields any. -/
noncomputable def texts (w : Workspace) (v : Value) : Texts :=
  w.toForest.texts w.reading v

theorem texts_eq {v : Value} {texts : Texts} (yields : Yields w.toForest w.reading v texts) :
    w.texts v = texts :=
  yields.texts_eq w.reading_faithful

theorem texts_of_tree {texts : Texts} (found : w.junction? id = some j)
    (yields : Yields w.toForest w.reading (.node id) texts) :
    ∃ conditions, w.reading j = some conditions ∧
      (∀ v ∈ conditions, Yields w.toForest w.reading v (w.texts v)) ∧
      w.texts (.node id) = j.around conditions w.texts := by
  obtain ⟨conditions, parts, read, each, -⟩ := yields.of_tree found
  have chosen : ∀ v ∈ conditions, Yields w.toForest w.reading v (w.texts v) :=
    fun v member => (each v member).chosen
  exact ⟨conditions, read, chosen, texts_eq (.tree found read chosen)⟩

/-- The tree as it is once it is compiled. -/
noncomputable def ripened (w : Workspace) (id : NodeId) (j : Junction) : Junction :=
  j.settle (j.conditions.map (w.rewriting j)) ⟨(w.texts (.node id)).alone, w.final j⟩

/-- The tree was open at first, and it is compiled now as it would have been then. -/
def Ripe (w v : Workspace) (id : NodeId) : Prop :=
  ∃ j, w.junction? id = some j ∧ j.compiled = none ∧ v.junction? id = some (w.ripened id j)

/-- No two trees at or below the node have one binder. -/
def Separate (w : Workspace) (root : NodeId) : Prop :=
  ∀ id other j k, w.Reaches root id → w.Reaches root other → w.junction? id = some j →
    w.junction? other = some k → j.binder = k.binder → id = other

/-- What is known of everything at and below a node that can be rendered. -/
structure Orderly (w : Workspace) (root : NodeId) : Prop where
  yields : ∀ id, w.Reaches root id → Yields w.toForest w.reading (.node id) (w.texts (.node id))
  separate : w.Separate root
  present : w.toForest.Present

/-- On the way: every node is as it was or ripe, and a tree in the scope that is still open has its
binder as it was. -/
structure Underway (w : Workspace) (scope : NodeId → Prop) (v : Workspace) : Prop where
  ripens : w.Ripens v
  node : ∀ id, v.node id = w.node id ∨ w.Ripe v id
  binder : ∀ id j, scope id → v.junction? id = some j → j.compiled = none →
    v.binder j.binder = w.binder j.binder

/-- What rendering does on the way: trees in the scope ripen, and no binder is used but that of a
tree that ripens. -/
structure Ripening (w : Workspace) (scope : NodeId → Prop) (v after : Workspace) : Prop where
  ripens : v.Ripens after
  bindings : ∀ b, (after.binder b).bindings = (v.binder b).bindings
  node : ∀ id, after.node id = v.node id ∨ scope id ∧ w.Ripe after id
  binder : ∀ b, after.binder b = v.binder b ∨ ∃ id j, scope id ∧ w.junction? id = some j ∧
    j.binder = b ∧ w.Ripe after id

variable {root : NodeId} {scope wider : NodeId → Prop} {v middle after : Workspace}

theorem Ripe.congr (same : after.node id = v.node id) (ripe : w.Ripe v id) : w.Ripe after id := by
  obtain ⟨j, found, isOpen, now⟩ := ripe
  exact ⟨j, found, isOpen, by rw [← now]; exact Forest.junction?_congr same⟩

theorem Ripe.closed (ripe : w.Ripe v id) (found : v.junction? id = some j) :
    j.compiled.isSome = true := by
  obtain ⟨k, -, -, now⟩ := ripe
  cases found.symm.trans now
  rfl

namespace Underway

theorem refl (w : Workspace) : w.Underway scope w :=
  ⟨.refl w, fun _ => .inl rfl, fun _ _ _ _ _ => rfl⟩

theorem mono (more : ∀ id, scope id → wider id) (underway : w.Underway wider v) :
    w.Underway scope v :=
  { underway with binder := fun id j inside => underway.binder id j (more id inside) }

theorem open_tree (underway : w.Underway scope v) (found : v.junction? id = some j)
    (isOpen : j.compiled = none) : w.junction? id = some j := by
  rcases underway.node id with same | ripe
  · rw [← found]
    exact (Forest.junction?_congr same).symm
  · have closed := ripe.closed found
    simp [isOpen] at closed

theorem deep (underway : w.Underway scope v) : w.rank id < v.depthBound := by
  rw [Forest.depthBound, underway.ripens.size]
  exact Nat.lt_succ_of_le (w.rank_le id)

theorem same (underway : w.Underway scope v) (other : v.junction? id = none) :
    v.node id = w.node id := by
  rcases underway.node id with same | ⟨j, -, -, now⟩
  · exact same
  · simp [now] at other

theorem shares (underway : w.Underway scope v) : w.Shares v.toForest where
  additions := underway.ripens.additions
  size := underway.ripens.size
  listAt tree stage made := by
    rcases underway.node tree with same | ⟨j, found, isOpen, now⟩
    · rw [Forest.junction?_congr same]
    · rw [found, now]
      cases stage with
      | built => simp [ripened, Junction.settle, Junction.listAt, Junction.stage, isOpen]
      | compiled =>
          obtain ⟨k, tree, closed⟩ := made tree (.inl rfl)
          cases found.symm.trans tree
          simp [isOpen] at closed

end Underway

namespace Ripening

theorem refl (w v : Workspace) : w.Ripening scope v v :=
  ⟨.refl v, fun _ => rfl, fun _ => .inl rfl, fun _ => .inl rfl⟩

theorem ripe (ripening : w.Ripening scope middle after) (done : w.Ripe middle id) :
    w.Ripe after id := by
  rcases ripening.node id with same | ⟨-, ripe⟩
  · exact done.congr same
  · exact ripe

theorem trans (first : w.Ripening scope v middle) (second : w.Ripening scope middle after) :
    w.Ripening scope v after where
  ripens := first.ripens.trans second.ripens
  bindings b := (second.bindings b).trans (first.bindings b)
  node id := by
    rcases first.node id with before | ⟨inside, done⟩
    · rw [← before]
      exact second.node id
    · exact .inr ⟨inside, second.ripe done⟩
  binder b := by
    rcases second.binder b with same | used
    · rw [same]
      rcases first.binder b with before | ⟨id, j, inside, found, own, done⟩
      · exact .inl before
      · exact .inr ⟨id, j, inside, found, own, second.ripe done⟩
    · exact .inr used

theorem mono (more : ∀ id, scope id → wider id) (ripening : w.Ripening scope v after) :
    w.Ripening wider v after where
  ripens := ripening.ripens
  bindings := ripening.bindings
  node id := (ripening.node id).imp_right fun ⟨inside, done⟩ => ⟨more id inside, done⟩
  binder b := (ripening.binder b).imp_right fun ⟨id, j, inside, rest⟩ =>
    ⟨id, j, more id inside, rest⟩

end Ripening

/-- What ripens uses the binders of other trees than those that are still open. -/
theorem Underway.later (separate : w.Separate root) (inside : ∀ id, scope id → w.Reaches root id)
    (inside' : ∀ id, wider id → w.Reaches root id) (underway : w.Underway scope v)
    (ripening : w.Ripening wider v after) : w.Underway scope after where
  ripens := underway.ripens.trans ripening.ripens
  node id := by
    rcases ripening.node id with same | ⟨-, done⟩
    · rw [same]
      exact (underway.node id).imp_right (.congr same)
    · exact .inr done
  binder id j here found isOpen := by
    have still : v.junction? id = some j := by
      rcases ripening.node id with same | ⟨-, done⟩
      · rw [← found]
        exact (Forest.junction?_congr same).symm
      · simpa [isOpen] using done.closed found
    rcases ripening.binder j.binder with same | ⟨other, k, there, tree, own, done⟩
    · rw [same, underway.binder id j here still isOpen]
    · have first := underway.open_tree still isOpen
      cases separate other id k j (inside' other there) (inside id here) tree first own
      simpa [isOpen] using done.closed found

section Compile

variable {spent made : Workspace} (found : w.junction? id = some j)
  (spends : v.Spends j.binder spent)

include spends in
theorem Spends.ripens : v.Ripens spent where
  settings := spends.settings
  nextIdentifier := spends.nextIdentifier
  size := by rw [spends.nodes]
  additions := spends.additions
  node other := .inl (spends.node other)

include found spends in
/-- The binder of a tree is none that the trees below it have. -/
theorem Underway.spend (separate : w.Separate root) (reached : w.Reaches root id)
    (finite : ¬ w.Below id id) (underway : w.Underway (w.Reaches id) v) :
    w.Underway (w.Below id) spent where
  ripens := underway.ripens.trans spends.ripens
  node other := by
    rw [spends.node]
    exact (underway.node other).imp_right (.congr (spends.node other))
  binder other k below tree isOpen := by
    rw [spends.junction?] at tree
    have inside : w.Reaches id other := below.to_reflTransGen
    rw [spends.binder, if_neg]
    · exact underway.binder other k inside tree isOpen
    · intro shared
      cases separate other id k j (reached.trans inside) reached (underway.open_tree tree isOpen)
        found shared
      exact finite below

theorem ripe_settle (found : w.junction? id = some j) (isOpen : j.compiled = none)
    (still : made.junction? id = some j) :
    w.Ripe { made with toForest := made.setNode id (.junction (w.ripened id j)) } id :=
  ⟨j, found, isOpen, (Forest.junction?_setNode still _ id).trans (if_pos rfl)⟩

include found spends in
theorem Ripening.settle (isOpen : j.compiled = none) (ripening : w.Ripening (w.Below id) spent made)
    (still : made.junction? id = some j) :
    w.Ripening (w.Reaches id) v { made with
      toForest := made.setNode id (.junction (w.ripened id j)) } where
  ripens := spends.ripens.trans (ripening.ripens.trans (.settle still isOpen (w.rewrites j)))
  bindings b := (ripening.bindings b).trans (spends.bindings b)
  node other := by
    by_cases same : id = other
    · exact .inr ⟨same ▸ .refl, same ▸ ripe_settle found isOpen still⟩
    · have node : (made.setNode id (.junction (w.ripened id j))).node other = made.node other := by
        rw [Forest.node_setNode_of_tree still, if_neg same]
      rcases ripening.node other with before | ⟨below, done⟩
      · exact .inl (node.trans (before.trans (spends.node other)))
      · exact .inr ⟨below.to_reflTransGen, done.congr node⟩
  binder b := by
    rcases ripening.binder b with before | ⟨other, k, below, tree, own, done⟩
    · by_cases own : b = j.binder
      · exact .inr ⟨id, j, .refl, found, own.symm, ripe_settle found isOpen still⟩
      · exact .inl (before.trans ((spends.binder b).trans (if_neg own)))
    · refine .inr ⟨other, k, below.to_reflTransGen, tree, own, ?_⟩
      by_cases same : id = other
      · exact same ▸ ripe_settle found isOpen still
      · exact done.congr (by rw [Forest.node_setNode_of_tree still, if_neg same])

end Compile

end Workspace

/-! ## Rendering on the way -/

namespace WorkspaceM

open Workspace (Orderly Underway Ripening texts_eq)

variable {w v : Workspace} {root id : NodeId} {scope : NodeId → Prop} {depth : Nat}
  {sql wrapped : NodeId → WorkspaceM String}

/-- Whatever was rendered before, a node is rendered with the texts that it yields at first, if
there are more levels left than nodes below it. -/
def Reliable (w : Workspace) (root : NodeId) (depth : Nat) (ask : NodeId → WorkspaceM String)
    (text : Texts → String) : Prop :=
  ∀ v id, w.Reaches root id → w.rank id < depth → w.Underway (w.Reaches id) v →
    ∃ after, run (ask id) v = (.ok (text (w.texts (.node id))), after) ∧
      w.Ripening (w.Reaches id) v after

theorem renderCondition_ripe (asked : Reliable w root depth sql Texts.alone)
    (underway : w.Underway scope v) {u : Value} {texts : Texts}
    (yields : Yields w.toForest w.reading u texts)
    (below : ∀ id, u = .node id → w.Reaches root id ∧ w.rank id < depth ∧
      ∀ other, w.Reaches id other → scope other) :
    ∃ after, run (renderCondition sql u) v = (.ok texts.alone, after) ∧
      w.Ripening scope v after := by
  cases u with
  | text s =>
      cases yields
      exact ⟨v, rfl, .refl w v⟩
  | node id =>
      obtain ⟨reached, low, inside⟩ := below id rfl
      obtain ⟨after, done, ripening⟩ := asked v id reached low (underway.mono inside)
      rw [texts_eq yields] at done
      exact ⟨after, done, ripening.mono inside⟩
  | compiled tree =>
      cases yields with
      | compiled found compiled =>
          have still := underway.ripens.keeps.tree _ _ found (by simp [compiled])
          refine ⟨v, ?_, .refl w v⟩
          simp only [renderCondition, run_bind, run_junction still, compiled, run_pure,
            Texts.wrapping]
  | outcome mark text parameters types positional =>
      cases yields
      exact ⟨v, rfl, .refl w v⟩
  | _ => cases yields

theorem renderAll_ripe (separate : w.Separate root) (asked : Reliable w root depth sql Texts.alone)
    (inside : ∀ id, scope id → w.Reaches root id) {conditions : List Value}
    (underway : w.Underway scope v)
    (yields : ∀ u ∈ conditions, Yields w.toForest w.reading u (w.texts u))
    (below : ∀ id, .node id ∈ conditions → w.rank id < depth ∧
      ∀ other, w.Reaches id other → scope other) :
    ∃ after, run (renderAll sql conditions) v =
        (.ok (conditions.map fun u => (w.texts u).alone), after) ∧ w.Ripening scope v after := by
  induction conditions generalizing v with
  | nil => exact ⟨v, rfl, .refl w v⟩
  | cons u rest ih =>
      obtain ⟨middle, first, ripening⟩ :=
        renderCondition_ripe asked underway (yields u (by simp)) fun id here => by
          obtain ⟨low, reach⟩ := below id (by simp [here])
          exact ⟨inside id (reach id .refl), low, reach⟩
      obtain ⟨after, others, later⟩ := ih (underway.later separate inside inside ripening)
        (fun u member => yields u (by simp [member])) (fun id member => below id (by simp [member]))
      refine ⟨after, ?_, ripening.trans later⟩
      rw [renderAll, run_bind_ok first, run_bind_ok others, run_pure, List.map_cons]

/-- What is expanded on the way is what would have been expanded at first. -/
theorem expandTree_ripe (present : w.Present) (underway : w.Underway scope v) {j : Junction}
    (own : v.binder j.binder = w.binder j.binder) :
    ∃ spent, run (expandTree j) v = (.ok (j.conditions.map (w.rewriting j), w.final j), spent) ∧
      v.Spends j.binder spent := by
  have elements (entry : Int × Binding) (member : entry ∈ (w.binder j.binder).bindings) :
      v.elements entry.2.value = w.elements entry.2.value :=
    underway.shares.elements (present.bound _ entry member)
  obtain ⟨spent, expanded, spends⟩ := run_expandTree j v
  refine ⟨spent, ?_, spends⟩
  rw [own, underway.ripens.settings,
    Binder.rewriting_congr v.toForest w.toForest _ fun _ => elements,
    Binder.final_congr v.toForest w.toForest _ fun _ => elements] at expanded
  exact expanded

/-- What holds of a node holds of the nodes below it, with one level less. -/
theorem Reliable.child {ask : NodeId → WorkspaceM String} {text : Texts → String}
    (asks : Reliable w root depth ask text) (orderly : w.Orderly root)
    (reached : w.Reaches root id) (low : w.rank id < depth + 1)
    (underway : w.Underway (w.Reaches id) v) {child : NodeId} (step : w.Child id child) :
    ∃ after, run (ask child) v = (.ok (text (w.texts (.node child))), after) ∧
      w.Ripening (w.Reaches id) v after := by
  have wider (other : NodeId) (path : w.Reaches child other) : w.Reaches id other :=
    .head step path
  have lower := (orderly.yields id reached).rank_lt w.reading_faithful step
  obtain ⟨after, done, ripening⟩ := asks v child (reached.tail step)
    (lower.trans_le (Nat.le_of_lt_succ low)) (underway.mono wider)
  exact ⟨after, done, ripening.mono wider⟩

section Node

variable (orderly : w.Orderly root) (asked : Reliable w root depth sql Texts.alone)
  (wraps : Reliable w root depth wrapped Texts.beside) (reached : w.Reaches root id)
  (low : w.rank id < depth + 1) (underway : w.Underway (w.Reaches id) v)

include orderly asked reached low underway

theorem compileJunction_ripe {j : Junction} (found : v.junction? id = some j) :
    ∃ rendered after, run (compileJunction sql id j) v = (.ok rendered, after) ∧
      rendered.sql = (w.texts (.node id)).alone ∧ w.Ripening (w.Reaches id) v after := by
  have yields := orderly.yields id reached
  cases compiled : j.compiled with
  | some rendered =>
      refine ⟨rendered, v, by simp only [compileJunction, compiled, run_pure], ?_, .refl w v⟩
      rcases underway.node id with same | ⟨k, -, -, now⟩
      · rw [Forest.junction?_congr same] at found
        exact (yields.alone_of_compiled found compiled).symm
      · cases found.symm.trans now
        cases compiled
        rfl
  | none =>
      have first := underway.open_tree found compiled
      have own : v.binder j.binder = w.binder j.binder :=
        underway.binder id j .refl found compiled
      obtain ⟨conditions, read, each, texts⟩ := Workspace.texts_of_tree first yields
      have nodes := w.reading_faithful j _ read
      rw [Workspace.reading_of_open w compiled, Option.some.injEq] at read
      subst read
      have text : joined j.connective.written ((j.conditions.map (w.rewriting j)).map
          fun u => (w.texts u).alone) = (w.texts (.node id)).alone := by
        rw [texts, Junction.alone_around, Junction.text, compiled]
      obtain ⟨spent, expanded, spends⟩ := expandTree_ripe orderly.present underway own
      have finite := yields.not_below_self w.reading_faithful
      have waiting := underway.spend first spends orderly.separate reached finite
      obtain ⟨made, done, ripening⟩ := renderAll_ripe orderly.separate asked
        (fun other below => reached.trans below.to_reflTransGen) waiting each fun child member => by
          have step : w.Child id child :=
            (Forest.child_of_tree first).mpr ((nodes child).mp member)
          exact ⟨(yields.rank_lt w.reading_faithful step).trans_le (Nat.le_of_lt_succ low),
            fun other path => .head' step path⟩
      have still : made.junction? id = some j := by
        rcases ripening.node id with same | ⟨below, -⟩
        · rw [Forest.junction?_congr same, spends.junction?, found]
        · exact absurd below finite
      refine ⟨⟨_, w.final j⟩, _, ?_, rfl, ripening.settle first spends compiled still⟩
      simp only [compileJunction, compiled]
      rw [run_bind_ok expanded]
      dsimp only
      rw [run_bind_ok done, text]
      rfl

include wraps

omit asked in
theorem renderComparison_ripe {c : Comparison} (kind : w.node id = .comparison c) :
    ∃ after, run (renderComparison wrapped c) v = (.ok (w.texts (.node id)).alone, after) ∧
      w.Ripening (w.Reaches id) v after := by
  have yields := orderly.yields id reached
  have known := yields.of_node
  rw [kind] at known
  obtain ⟨operator, ⟨_, _, operand, -, same⟩ | ⟨child, inner, nested, below, same⟩⟩ := known
  · refine ⟨v, ?_, .refl w v⟩
    simp only [renderComparison, if_neg operator, operand, run_pure, run_bind, same,
      Comparison.around, Texts.wrapping]
  · obtain ⟨after, done, ripening⟩ :=
      wraps.child orderly reached low underway (child_of_nested kind nested)
    rw [texts_eq below] at done
    refine ⟨after, ?_, ripening⟩
    simp only [renderComparison, if_neg operator, nested, done, run_pure, run_bind, same,
      Comparison.around, Texts.wrapping]

theorem renderUnary_ripe {u : Unary} (kind : w.node id = .unary u) :
    ∃ after, run (renderUnary sql wrapped u) v = (.ok (w.texts (.node id)).alone, after) ∧
      w.Ripening (w.Reaches id) v after := by
  have yields := orderly.yields id reached
  have known := yields.of_node
  rw [kind] at known
  obtain ⟨symbol, ⟨given, flat, same⟩ | ⟨child, inner, nested, below, same⟩⟩ := known
  · refine ⟨v, ?_, .refl w v⟩
    have text := underway.shares.plainText orderly.present (orderly.present.argument id u kind)
    simp only [renderUnary, if_neg symbol, same, Unary.around, Texts.wrapping]
    split
    · contradiction
    · rename_i child nested
      simp [nested, Value.node?] at flat
    · simp only [run_bind, run_get, text]
      split <;> rfl
  · have step := child_of_unary kind nested
    simp only [renderUnary, if_neg symbol, nested, same, Unary.around, Texts.wrapping]
    split
    · obtain ⟨after, done, ripening⟩ := asked.child orderly reached low underway step
      rw [texts_eq below] at done
      exact ⟨after, by simp only [run_bind, done, run_pure], ripening⟩
    · obtain ⟨after, done, ripening⟩ := wraps.child orderly reached low underway step
      rw [texts_eq below] at done
      exact ⟨after, by simp only [run_bind, done, run_pure], ripening⟩

theorem renderNode_ripe :
    ∃ after, run (renderNode sql wrapped id) v = (.ok (w.texts (.node id)).alone, after) ∧
      w.Ripening (w.Reaches id) v after := by
  cases tree : v.junction? id with
  | some j =>
      obtain ⟨rendered, after, done, text, ripening⟩ :=
        compileJunction_ripe orderly asked reached low underway tree
      refine ⟨after, ?_, ripening⟩
      simp only [renderNode, run_bind, run_get, Forest.junction?_eq_some.mp tree]
      rw [run_map_ok done, text]
  | none =>
      have same := underway.same tree
      have known := (orderly.yields id reached).of_node
      cases kind : w.node id with
      | junction j =>
          rw [Forest.junction?_congr same, Forest.junction?_eq_some.mpr kind] at tree
          cases tree
      | comparison c =>
          obtain ⟨after, done, ripening⟩ :=
            renderComparison_ripe orderly wraps reached low underway kind
          refine ⟨after, ?_, ripening⟩
          simp only [renderNode, run_bind, run_get, same, kind, done]
      | unary u =>
          obtain ⟨after, done, ripening⟩ :=
            renderUnary_ripe orderly asked wraps reached low underway kind
          refine ⟨after, ?_, ripening⟩
          simp only [renderNode, run_bind, run_get, same, kind, done]
      | fragment s =>
          rw [kind] at known
          refine ⟨v, ?_, .refl w v⟩
          simp only [renderNode, run_bind, run_get, same, kind, run_pure, known, Texts.wrapping]
      | abstract => simp [kind] at known

theorem wrapNode_ripe :
    ∃ after, run (wrapNode sql wrapped id) v = (.ok (w.texts (.node id)).beside, after) ∧
      w.Ripening (w.Reaches id) v after := by
  have yields := orderly.yields id reached
  obtain ⟨after, done, ripening⟩ := renderNode_ripe orderly asked wraps reached low underway
  have own := run_askAgain_ok done
  cases tree : v.junction? id with
  | none =>
      have other : w.junction? id = none := by
        rw [← tree]
        exact (Forest.junction?_congr (underway.same tree)).symm
      refine ⟨after, ?_, ripening⟩
      rw [run_wrapNode tree, run_map_ok own, yields.beside_of_not_tree other]
  | some j =>
      obtain ⟨k, first⟩ : ∃ k, w.junction? id = some k :=
        Option.ne_none_iff_exists'.mp fun other => by simp [underway.ripens.junction? other] at tree
      obtain ⟨_, rewrite, now, rewrites, conditions⟩ := underway.ripens.tree first
      cases tree.symm.trans now
      have beside := yields.beside_of_tree w.reading_faithful first
      rw [← solitary?_map rewrites, ← grouped_map rewrite, ← conditions] at beside
      rw [run_wrapNode_of_tree tree, beside]
      cases single : solitary? j.conditions with
      | none => exact ⟨after, by simp only [run_map_ok own], ripening⟩
      | some child =>
          have step : w.Child id child := by
            rw [← underway.ripens.child, Forest.child_of_tree tree, solitary?_eq_some.mp single]
            simp
          obtain ⟨rendered, middle, compiled, -, first⟩ :=
            compileJunction_ripe orderly asked reached low underway tree
          have inside (other : NodeId) (path : w.Reaches id other) : w.Reaches root other :=
            reached.trans path
          obtain ⟨last, wrapping, later⟩ := wraps.child orderly reached low
            (underway.later orderly.separate inside inside first) step
          refine ⟨last, ?_, first.trans later⟩
          simp only [run_bind_ok (run_discard_ok compiled)]
          exact wrapping

end Node

/-- On the way, nodes at or below the root are rendered with the texts that they yield at first. -/
theorem reliable_within (orderly : w.Orderly root) (depth : Nat) :
    Reliable w root depth (sqlWithin depth) Texts.alone ∧
      Reliable w root depth (wrappedWithin depth) Texts.beside := by
  induction depth with
  | zero => exact ⟨fun _ _ _ low => absurd low (Nat.not_lt_zero _),
      fun _ _ _ low => absurd low (Nat.not_lt_zero _)⟩
  | succ depth ih =>
      obtain ⟨asked, wraps⟩ := ih
      constructor <;> intro v id reached low underway
      · obtain ⟨after, done, ripening⟩ := renderNode_ripe orderly asked wraps reached low underway
        exact ⟨after, by rw [sqlWithin, run_askAgain_ok done], ripening⟩
      · rw [wrappedWithin]
        exact wrapNode_ripe orderly asked wraps reached low underway

theorem sql_ripe (orderly : w.Orderly root) (reached : w.Reaches root id)
    (underway : w.Underway (w.Reaches id) v) :
    ∃ after, run (WorkspaceM.sql id) v = (.ok (w.texts (.node id)).alone, after) ∧
      w.Ripening (w.Reaches id) v after := by
  simp only [WorkspaceM.sql, run_bind, run_get]
  exact (reliable_within orderly v.depthBound).1 v id reached underway.deep underway

end WorkspaceM

/-- The operation renders the node. -/
def Operation.Renders (id : NodeId) : Operation → Prop
  | sql other | wrapped other | compile other | collectBindings other | collectParameters other =>
    other = id
  | _ => False

namespace Workspace

open WorkspaceM (run)

variable {w v after : Workspace} {root id : NodeId}

theorem Ripening.underway (orderly : w.Orderly root) (start : w.Ripening (w.Reaches root) w v) :
    w.Underway (w.Reaches root) v :=
  (Underway.refl w).later orderly.separate (fun _ path => path) (fun _ path => path) start

theorem made_node (id : NodeId) : (Value.node id).Throughout w.Made := by
  rintro tree (same | same) <;> cases same

/-- What is settled in the end yields its texts at first. -/
theorem yields_before (present : w.Present) (ripens : w.Ripens after) {u : Value} {texts : Texts}
    (settled : Settled after.toForest u texts) (made : u.Throughout w.Made) :
    ∃ others, Yields w.toForest w.reading u others := by
  have early {id : NodeId} {node : Node} (kind : after.node id = node)
      (notTree : ∀ j, node ≠ .junction j) : w.node id = node := (ripens.kind notTree).mp kind
  induction settled with
  | text s => exact ⟨_, .text s⟩
  | outcome => exact ⟨_, .outcome⟩
  | @compiled tree j rendered found compiled =>
      obtain ⟨k, first, closed⟩ := made tree (.inr rfl)
      cases found.symm.trans (ripens.keeps.tree tree k first closed)
      exact ⟨_, .compiled first compiled⟩
  | fragment kind => exact ⟨_, .fragment (early kind nofun)⟩
  | bound kind operator operand flat =>
      exact ⟨_, .bound (early kind nofun) operator operand flat⟩
  | nested kind operator nested _ ih =>
      obtain ⟨_, yields⟩ := ih (made_node _)
      exact ⟨_, .nested (early kind nofun) operator nested yields⟩
  | plain kind symbol given flat =>
      exact ⟨_, .plain (early kind nofun) symbol given flat⟩
  | unary kind symbol nested _ ih =>
      obtain ⟨_, yields⟩ := ih (made_node _)
      exact ⟨_, .unary (early kind nofun) symbol nested yields⟩
  | @tree id k conditions texts found read each ih =>
      obtain ⟨closed, rfl⟩ := compiledReading_eq_some.mp read
      have parts : ∃ j conditions, w.junction? id = some j ∧ w.reading j = some conditions ∧
          ∀ u ∈ conditions, ∃ others, Yields w.toForest w.reading u others := by
        rcases ripens.node id with same | ⟨j, rewrite, rendered, first, isOpen, rewrites, now⟩
        · have first : w.junction? id = some k := (Forest.junction?_congr same).symm.trans found
          exact ⟨k, _, first, w.reading_of_compiled closed,
            fun u member => ih u member (present.condition first member)⟩
        · cases (Forest.junction?_eq_some.mp found).symm.trans now
          refine ⟨j, _, first, w.reading_of_open isOpen, fun u member => ?_⟩
          obtain ⟨u, inside, rfl⟩ := List.mem_map.mp member
          rcases w.rewrites j u with ⟨_, t, -, same⟩ | ⟨notText, same⟩
          · exact ⟨_, by rw [same]; exact .text t⟩
          · rcases rewrites u with ⟨s, _, rfl, -⟩ | ⟨-, same'⟩
            · cases notText
            · rw [same]
              exact ih u (List.mem_map.mpr ⟨u, inside, same'⟩) (present.condition first inside)
      obtain ⟨j, conditions, first, read, yields⟩ := parts
      choose! others yields using yields
      exact ⟨_, .tree first read yields⟩

/-- The node and all below it are rendered, and nothing else is changed. -/
structure Finished (w : Workspace) (root : NodeId) (after : Workspace) : Prop where
  ripening : w.Ripening (w.Reaches root) w after
  closed : ∀ id j, w.Reaches root id → after.junction? id = some j → j.compiled.isSome = true

theorem Finished.node {other : Workspace} (finished : w.Finished root after)
    (finished' : w.Finished root other) (id : NodeId) : after.node id = other.node id := by
  -- A tree that is ripe in one workspace is not open in the other.
  have closes {v u : Workspace} (rendered : w.Finished root v) (inside : w.Reaches root id)
      (same : v.node id = w.node id) (ripe : w.Ripe u id) : False := by
    obtain ⟨j, found, isOpen, -⟩ := ripe
    have closed := rendered.closed id j inside ((Forest.junction?_congr same).trans found)
    simp [isOpen] at closed
  rcases finished.ripening.node id with same | ⟨inside, ripe⟩ <;>
    rcases finished'.ripening.node id with same' | ⟨inside', ripe'⟩
  · rw [same, same']
  · exact (closes finished inside' same ripe').elim
  · exact (closes finished' inside same' ripe).elim
  · obtain ⟨j, found, -, now⟩ := ripe
    obtain ⟨k, found', -, now'⟩ := ripe'
    cases found.symm.trans found'
    rw [Forest.junction?_eq_some.mp now, Forest.junction?_eq_some.mp now']

theorem Finished.ownBindings {other : Workspace} (finished : w.Finished root after)
    (finished' : w.Finished root other) (id : NodeId) :
    after.ownBindings id = other.ownBindings id := by
  have bindings (b : BinderId) : (after.binder b).bindings = (other.binder b).bindings :=
    (finished.ripening.bindings b).trans (finished'.ripening.bindings b).symm
  simp only [Forest.ownBindings, finished.node finished' id, bindings]

theorem sql_finishes (orderly : w.Orderly root) (made : v.WellMade)
    (start : w.Ripening (w.Reaches root) w v) :
    ∃ after, run (WorkspaceM.sql root) v = (.ok (w.texts (.node root)).alone, after) ∧
      w.Finished root after := by
  obtain ⟨after, done, ripening⟩ := WorkspaceM.sql_ripe orderly .refl (start.underway orderly)
  have whole := start.trans ripening
  refine ⟨after, done, whole, fun id j inside found => ?_⟩
  obtain ⟨-, gives⟩ := WorkspaceM.settles_sql made root
  rw [done] at gives
  obtain ⟨texts, settled, -⟩ := gives _ rfl
  rw [Forest.Reaches, ← whole.ripens.child] at inside
  obtain ⟨_, yields⟩ := settled.reached compiledReading_faithful inside
  obtain ⟨_, _, read, -⟩ := yields.of_tree found
  exact (compiledReading_eq_some.mp read).1

/-- What can be rendered is orderly, if its trees have binders of their own. -/
theorem orderly_of_sql (made : w.WellMade) (present : w.Present) (separate : w.Separate root)
    {s : String} {direct : Workspace} (done : run (WorkspaceM.sql root) w = (.ok s, direct)) :
    w.Orderly root where
  present := present
  separate := separate
  yields := by
    obtain ⟨compiles, gives⟩ := WorkspaceM.settles_sql made root
    rw [done] at compiles gives
    obtain ⟨texts, settled, -⟩ := gives s rfl
    obtain ⟨_, yields⟩ := yields_before present compiles.ripens settled (made_node root)
    intro id reached
    obtain ⟨_, inner⟩ := yields.reached w.reading_faithful reached
    exact inner.chosen

/-- A tree with a membership test, and a tree over it and its negation. -/
def sharing : List Operation :=
  [.newTree (.dict .passing [(.text "a IN", .list .passing [.int 1, .int 2])]) .null .null none,
    .newTree .null .null .null none, .append ⟨1⟩ (.node ⟨0⟩),
    .newUnary (some (.text "NOT")) (some (.node ⟨0⟩)) none, .append ⟨1⟩ (.node ⟨2⟩)]

theorem allows_sharing : Workspace.Allows .free { nextIdentifier := 1 } sharing :=
  ⟨⟨fun _ _ _ => trivial, by simp⟩, ⟨fun _ _ _ => trivial, by simp⟩, trivial, fun _ => trivial,
    trivial, trivial⟩

def shared : Workspace := Workspace.after { nextIdentifier := 1 } sharing

def sharedTree : Junction := ⟨.text "AND", [.text "a IN (:c1_0)"], [], ⟨0⟩, none⟩

def aboveShared : Junction := ⟨.text "AND", [.node ⟨0⟩, .node ⟨2⟩], [], ⟨1⟩, none⟩

theorem nodes_shared : shared.nodes =
    #[.junction sharedTree, .junction aboveShared, .unary ⟨"NOT", .node ⟨0⟩, false⟩] := rfl

theorem binders_shared : shared.binders =
    #[⟨"1", 1, [(0, ⟨"c1_0", .list .passing [.int 1, .int 2], some "string[]"⟩)], [], true⟩,
      ⟨"2", 0, [], [], false⟩] := rfl

theorem tree_shared {id : NodeId} {j : Junction} (found : shared.junction? id = some j) :
    (id = ⟨0⟩ ∧ j = sharedTree) ∨ (id = ⟨1⟩ ∧ j = aboveShared) := by
  obtain ⟨_ | _ | _ | i⟩ := id <;> simp [Forest.junction?, Forest.node, nodes_shared] at found
  · exact .inl ⟨rfl, found.symm⟩
  · exact .inr ⟨rfl, found.symm⟩

theorem separate_shared : shared.Separate ⟨1⟩ := by
  intro id other j k _ _ found found' same
  rcases tree_shared found with ⟨rfl, rfl⟩ | ⟨rfl, rfl⟩ <;>
    rcases tree_shared found' with ⟨rfl, rfl⟩ | ⟨rfl, rfl⟩ <;>
    first
    | rfl
    | cases same

theorem present_shared : shared.Present := by
  refine .of_conditions rfl ?_ ?_ ?_
  · intro id j found v member
    rcases tree_shared found with ⟨-, rfl⟩ | ⟨-, rfl⟩ <;>
      simp only [sharedTree, aboveShared, List.append_nil, List.mem_cons, List.not_mem_nil,
        or_false] at member
    · subst member
      simp [Value.Throughout, Forest.Made]
    · rcases member with rfl | rfl <;> exact made_node _
  · intro id u kind
    obtain ⟨_ | _ | _ | i⟩ := id <;> simp [Forest.node, nodes_shared] at kind
    subst kind
    exact made_node _
  · intro id entry member
    obtain ⟨_ | _ | i⟩ := id <;> simp [Forest.binder, binders_shared] at member
    subst member
    simp [Value.Throughout, AllThroughout, Forest.Made]

end Workspace
end WhereClause
