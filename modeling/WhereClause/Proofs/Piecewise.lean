import WhereClause.Proofs.Apart
import WhereClause.Proofs.Comparing
import WhereClause.Proofs.Unlogged

/-!
# Adding piece by piece

A description may be added to a tree at once or piece by piece: the conditions, the bindings and the
identifiers are the same. All of a description is read before anything is made, and what is made for
one piece does not change what the next one is read as, as long as the tree has no part in it. Only
the log is told in another order.

* `spared_extend`: building changes no node that was there before but the tree.
* `add_pieces`: adding at once and piece by piece.
-/

namespace WhereClause

namespace WorkspaceM

variable {α β : Type} {w v : Workspace}

/-! ## What building leaves as it was -/

/-- If the operation succeeds, the nodes are as they were, apart from the tree. -/
structure Spared (tree : NodeId) (operation : WorkspaceM α) (w : Workspace) : Prop where
  spares : ∀ a after, run operation w = (.ok a, after) → w.Spares tree after.toForest

namespace Spared

variable {tree : NodeId} {after : Workspace}

theorem of_run {operation : WorkspaceM α} {result : Except Fault α}
    (done : run operation w = (result, after)) (spares : w.Spares tree after.toForest) :
    Spared tree operation w where
  spares a last ok := by
    obtain ⟨-, rfl⟩ := Prod.mk.inj (done.symm.trans ok)
    exact spares

theorem of_error {operation : WorkspaceM α}
    (failed : ∃ fault, (run operation w).1 = .error fault) : Spared tree operation w where
  spares a last ok := by
    obtain ⟨fault, failed⟩ := failed
    rw [ok] at failed
    cases failed

theorem pure (a : α) : Spared tree (Pure.pure a : WorkspaceM α) w := .of_run rfl (.refl _ tree)

theorem throw (fault : Fault) : Spared tree (MonadExcept.throw fault : WorkspaceM α) w :=
  .of_error ⟨fault, rfl⟩

theorem bind {operation : WorkspaceM α} {next : α → WorkspaceM β}
    (first : Spared tree operation w)
    (later : ∀ a after, run operation w = (.ok a, after) → Spared tree (next a) after) :
    Spared tree (operation >>= next) w where
  spares b last ok := by
    rw [run_bind] at ok
    rcases done : run operation w with ⟨result, after⟩
    rw [done] at ok
    cases result with
    | error fault => cases ok
    | ok a => exact (first.spares a after done).trans ((later a after done).spares b last ok)

theorem map {operation : WorkspaceM α} (spared : Spared tree operation w) (f : α → β) :
    Spared tree (f <$> operation) w := by
  rw [map_eq_pure_bind]
  exact spared.bind fun _ _ _ => .pure _

/-- The first part only looks something up. -/
theorem look {operation : WorkspaceM α} {next : α → WorkspaceM β}
    (same : (run operation w).2 = w) (later : ∀ a, Spared tree (next a) w) :
    Spared tree (operation >>= next) w := by
  apply Spared.bind (.of_run (Prod.mk.eta.symm) (same.symm ▸ .refl _ tree))
  intro a after done
  obtain rfl : after = w := by rw [← same, done]
  exact later a

/-- What is done to a tree that is new leaves the ones before as they were. -/
theorem bind_new {operation : WorkspaceM NodeId} {next : NodeId → WorkspaceM β} {inner : NodeId}
    {middle : Workspace} (done : run operation w = (.ok inner, middle))
    (spares : w.Spares tree middle.toForest) (new : w.nodes.size ≤ inner.index)
    (later : Spared inner (next inner) middle) : Spared tree (operation >>= next) w where
  spares b last ok := by
    rw [run_bind_ok done] at ok
    exact spares.trans_new new (later.spares b last ok)

theorem onBinder (id : BinderId) (operation : Binder → Except Fault α × Binder) :
    Spared tree (WorkspaceM.onBinder id operation) w := by
  refine .of_run Prod.mk.eta.symm (.of_nodes ?_ ?_) <;>
  · simp only [WorkspaceM.onBinder, run_bind, run_get, run_changeForest]
    cases (operation (w.binder id)).1 <;> rfl

theorem addNode (node : Node) : Spared tree (WorkspaceM.addNode node) w :=
  .of_run (run_addNode node w) (.of_push rfl rfl)

theorem log (events : List Event) : Spared tree (WorkspaceM.log events) w :=
  .of_run (run_log events w) (.of_nodes rfl rfl)

theorem attach (tree : NodeId) (condition : Value) :
    Spared tree (WorkspaceM.attach tree condition) w :=
  .look (same_junction tree w) fun _ => .of_run rfl (.setNode w.toForest tree _)

theorem newOperand (binder : BinderId) (field : String) (value : Value) (type : Option String) :
    Spared tree (WorkspaceM.newOperand binder field value type) w := by
  unfold WorkspaceM.newOperand
  split
  · exact .pure _
  · exact .look rfl fun _ => (onBinder _ _).bind fun _ _ _ => .pure _

theorem newComparison (field value type operator : Option Value) :
    Spared tree (WorkspaceM.newComparison field value type operator) w := by
  apply Spared.bind (.of_run (run_takeIdentifier w) (.of_nodes rfl rfl))
  intro identifier middle _
  dsimp only
  split
  · apply Spared.bind (.of_run (run_addBinder _ middle) (.of_nodes rfl rfl))
    intro binder _ _
    exact (newOperand ..).bind fun _ _ _ => addNode _
  · exact .throw _

theorem buildComparison (key : Key) (value type : Value) :
    Spared tree (WorkspaceM.buildComparison key value type) w :=
  (newComparison ..).bind fun _ _ _ => .pure _

theorem buildMembership (owner : NodeId) (key : Key) (value type : Value) :
    Spared tree (WorkspaceM.buildMembership owner key value type) w :=
  .look (same_junction owner w) fun _ => .look rfl fun _ => (onBinder _ _).bind fun _ _ _ => .pure _

end Spared

/-- The type of a membership test is a text that holds the marker, or one that is refused when it is
bound. Nothing is changed to find it, unless it is a list. -/
theorem run_membershipType_cases (declared : Value) (w : Workspace) :
    (∃ fault, run (membershipType declared) w = (.error fault, w)) ∨
      (∃ s, run (membershipType declared) w = (.ok (.text s), w) ∧ w.settings.marks s = true) ∨
      (∃ type reason, run (membershipType declared) w = (.ok type, w) ∧
        type.toType = .error reason) ∨
      declared.isList = true ∧ run (membershipType declared) w = (.ok declared,
        { w with toForest := w.extendList declared w.settings.markerLetters }) := by
  unfold membershipType
  rw [run_bind, run_get]
  by_cases given : w.isTruthy declared = true
  · simp only [if_pos given]
    split
    · exact .inr (.inl ⟨_, rfl, w.settings.marks_withMarker _⟩)
    · split
      · exact .inr (.inr (.inl ⟨_, _, rfl, rfl⟩))
      · exact .inl ⟨_, rfl⟩
    · split
      · exact .inl ⟨_, rfl⟩
      · rename_i found
        have refused : declared.toType = .error .notText := by
          cases declared <;> first | rfl | cases found
        split
        · exact .inr (.inr (.inl ⟨_, _, rfl, refused⟩))
        · split
          · exact .inr (.inr (.inr ⟨‹_›, rfl⟩))
          · exact .inl ⟨_, rfl⟩
  · simp only [if_neg given]
    exact .inr (.inl ⟨_, rfl, w.settings.marks_withMarker _⟩)

section Lists

variable {type : Value} (list : type.isList = true)

include list

theorem toType_of_list : type.toType = .error .notText := by
  cases type <;> first | rfl | cases list

theorem buildComparison_of_list (key : Key) (value : Value) (w : Workspace) :
    ∃ fault, (run (buildComparison key value type) w).1 = .error fault := by
  simp only [buildComparison, newComparison, run_bind, run_takeIdentifier, Value.givenText,
    Value.toText, Option.getD_some, toType_of_list list]
  exact ⟨_, rfl⟩

theorem buildMembership_of_list (owner : NodeId) (key : Key) (value : Value) (w : Workspace) :
    ∃ fault, (run (buildMembership owner key value type) w).1 = .error fault := by
  simp only [buildMembership, junction, onBinder, run_bind, run_get]
  cases w.junction? owner with
  | none => exact ⟨_, rfl⟩
  | some j =>
      simp only [run_pure, Binder.register, Binder.bindName, toType_of_list list]
      exact ⟨_, rfl⟩

end Lists

/-- Where a list is lengthened, it is given for the type, which then is refused. -/
theorem spared_of_membershipType {tree : NodeId} {next : Value → WorkspaceM Value}
    (spared : ∀ type, Spared tree (next type) w)
    (refused : ∀ type, type.isList = true → ∀ v, ∃ fault, (run (next type) v).1 = .error fault)
    (declared : Value) : Spared tree (membershipType declared >>= next) w := by
  rcases run_membershipType_cases declared w with
    ⟨fault, failed⟩ | ⟨s, found, -⟩ | ⟨type, reason, found, -⟩ | ⟨list, found⟩
  · exact .look (by rw [failed]) spared
  · exact .look (by rw [found]) spared
  · exact .look (by rw [found]) spared
  · apply Spared.of_error
    rw [run_bind_ok found]
    exact refused _ list _

theorem spared_buildField (tree owner : NodeId) (types : Value) (key : Key) (value : Value)
    (w : Workspace) : Spared tree (buildField owner types key value) w := by
  unfold buildField
  cases declaredType types key.field with
  | error fault => exact .of_error ⟨fault, rfl⟩
  | ok declared =>
      apply Spared.look rfl
      intro declared
      split
      · refine spared_of_membershipType (fun type => ?_) (fun type list v => ?_) declared
        · split
          · exact .buildComparison ..
          · exact .buildMembership ..
        · split
          · exact buildComparison_of_list list ..
          · exact buildMembership_of_list list ..
      · exact .buildComparison ..

theorem run_newJunction (connective : String) (w : Workspace) :
    run (newJunction connective) w = (.ok ⟨w.nodes.size⟩, { w with
      nextIdentifier := w.nextIdentifier + 1
      binders := w.binders.push (.fresh w.nextIdentifier)
      nodes := w.nodes.push
        (.junction { connective := .text connective, binder := ⟨w.binders.size⟩ }) }) := rfl

mutual
theorem spared_build (tree owner : NodeId) (types : Value) :
    (item : Item) → (w : Workspace) → Spared tree (build owner types item) w
  | .raw text, _ => .pure _
  | .nested node, _ => .pure _
  | .field key value, w => (spared_buildField tree owner types key value w).map _
  | .group connective items, w => by
      rw [build]
      split
      · exact (Spared.log _).bind fun _ _ _ => .pure _
      · apply Spared.bind_new (run_newJunction _ w) (.of_push rfl rfl) le_rfl
        exact (spared_extend _ types items _).bind fun _ _ _ => .pure _
  | .negation items, w => by
      rw [build]
      split
      · exact (Spared.log _).bind fun _ _ _ => .pure _
      · apply Spared.look rfl
        intro _
        apply Spared.bind_new (run_newJunction _ w) (.of_push rfl rfl) le_rfl
        exact (spared_extend _ types items _).bind fun _ _ _ =>
          (Spared.addNode _).bind fun _ _ _ => .pure _

/-- Building changes no node that was there before but the tree. -/
theorem spared_extend (tree : NodeId) (types : Value) :
    (items : List Item) → (w : Workspace) → Spared tree (extend tree types items) w
  | [], _ => .pure _
  | item :: rest, w => by
      rw [extend]
      apply (spared_build tree tree types item w).bind
      intro condition after _
      cases condition with
      | none => exact spared_extend tree types rest after
      | some condition =>
          exact (Spared.attach tree condition).bind fun _ last _ =>
            spared_extend tree types rest last
end

/-- Making a condition changes no node that was there before. -/
theorem isOpen_build {tree : NodeId} {types : Value} {item : Item} {condition : Option Value}
    {after : Workspace} (isOpen : IsOpen w tree)
    (done : run (build tree types item) w = (.ok condition, after)) : IsOpen after tree := by
  obtain ⟨j, found, still⟩ := isOpen
  have spares := (spared_build ⟨w.nodes.size⟩ tree types item w).spares condition after done
  have bound := Forest.index_lt_of_tree found
  have beside : w.Beside ⟨w.nodes.size⟩ tree := by
    refine ⟨?_, bound⟩
    rintro rfl
    exact bound.ne rfl
  exact ⟨j, (spares.junction? beside).trans found, still⟩

theorem isOpen_extend {tree : NodeId} {types : Value} {items : List Item} {after : Workspace}
    (isOpen : IsOpen w tree) (done : run (extend tree types items) w = (.ok (), after)) :
    IsOpen after tree := by
  induction items generalizing w with
  | nil =>
      cases done
      exact isOpen
  | cons item rest ih =>
      rw [extend, run_bind] at done
      rcases built : run (build tree types item) w with ⟨_ | condition, middle⟩ <;>
        rw [built] at done
      · cases done
      · have middleOpen := isOpen_build isOpen built
        cases condition with
        | none => exact ih middleOpen done
        | some condition =>
            obtain ⟨j, found, still⟩ := middleOpen
            dsimp only at done
            rw [run_bind_ok (run_attach found condition)] at done
            refine ih ⟨{ j with conditions := j.conditions ++ [condition] }, ?_, still⟩ done
            exact (Forest.junction?_setNode found _ tree).trans (if_pos rfl)

theorem run_read (description : Value) (w : Workspace) :
    run (Item.read description) w = (.ok (Item.ofView w.toForest (w.view description)),
      (run (log (Item.eventsOfView w.toForest (w.view description))) w).2) := rfl

theorem extend_append (tree : NodeId) (types : Value) (items more : List Item) :
    extend tree types (items ++ more) =
      extend tree types items >>= fun _ => extend tree types more := by
  induction items with
  | nil => rw [List.nil_append, extend, pure_bind]
  | cons item rest ih =>
      rw [List.cons_append, extend, extend, bind_assoc]
      congr 1
      funext condition
      cases condition <;> simp only [ih, bind_assoc]

/-! ## Pieces -/

/-- One of the calls by which a description is added piece by piece: a part of it, a negation, a
comparison by name, or a test without a value. -/
inductive Piece
  | description (v : Value)
  | negation (v : Value)
  | comparison (comparator : Comparator) (field : String) (value : Value) (type : Option String)
  | test (field ending : String)

namespace Piece

/-- The call, with the types that are given for the whole description. -/
def run (tree : NodeId) (types : Value) : Piece → WorkspaceM Unit
  | description v => add tree v types
  | negation v => addNegation tree v types
  | comparison comparator field value type =>
    addComparison tree comparator.operator (.text field) value (.ofText? type)
  | test field ending => addTest tree (.text field) ending

/-- The entries of the whole description that the call stands for. -/
def entries? (forest : Forest) : Piece → Option (List (Value × Value))
  | description v => forest.entries? v
  | negation v => some [(.text "NOT", v)]
  | comparison comparator field value _ => some [(.text (comparator.key field), value)]
  | test field ending => forest.entries? (.text (field ++ ending))

/-- The tree has no part in what is added, and a comparison is given the type that is declared in
the whole description for the field that is read. -/
def Fits (forest : Forest) (tree : NodeId) (types : Value) : Piece → Prop
  | description v => (forest.view v).Apart forest tree
  | negation v => (forest.view (.dict .passing [(.text "NOT", v)])).Apart forest tree
  | comparison comparator field value type =>
    (∀ id, value = .node id → forest.Beside tree id) ∧
      ∀ name, name = (Key.split (comparator.key field)).field →
        (declaredType types name).toOption.getD .null = .ofText? (declaredFor field type name)
  | test _ _ => True

end Piece

variable {tree : NodeId} {types given : Value}

/-- The types that a description is built with. -/
def InForce (types given : Value) : Prop :=
  (∀ forest : Forest, (if forest.isTruthy types then types else .dict .passing []) = given) ∧
    ∀ name, declaredType given name = .ok ((declaredType types name).toOption.getD .null)

theorem exists_inForce (map : types = .null ∨ ∃ mark table, types = .dict mark table) :
    ∃ given, InForce types given := by
  rcases map with rfl | ⟨mark, table, rfl⟩
  · exact ⟨.dict .passing [], fun _ => rfl, fun _ => rfl⟩
  · cases table with
    | nil => exact ⟨.dict .passing [], fun _ => rfl, fun _ => rfl⟩
    | cons entry rest => exact ⟨.dict mark (entry :: rest), fun _ => rfl, fun _ => rfl⟩

/-- A description is added by building what is read from it. -/
theorem run_add (isOpen : IsOpen w tree) (inForce : InForce types given) (v : Value) :
    SameRun (run (add tree v types) w)
      (run (extend tree given (Item.ofView w.toForest (w.view v))) w) := by
  obtain ⟨j, found, still⟩ := isOpen
  have opened := run_discard_ok (run_openJunction found still)
  rw [add, run_bind_ok opened, Item.read]
  simp only [bind_assoc, run_bind, run_forest, run_log, run_pure, run_get, inForce.1]
  exact ((unlogged_extend tree given _).same w _).symm

/-- What is built from one item depends on the types through the one of its field. -/
theorem extend_field_congr {key : Key} {value : Value}
    (same : declaredType types key.field = declaredType given key.field) :
    extend tree types [.field key value] = extend tree given [.field key value] := by
  simp only [extend, build, buildField, same]

section Single

variable (spares : w.Spares tree v.toForest) (isOpen : IsOpen v tree)
  (inForce : InForce types given)

include spares isOpen inForce

theorem run_description {d : Value} {entries : List (Value × Value)}
    (apart : (w.view d).Apart w.toForest tree) (read : w.entries? d = some entries) :
    SameRun (run (add tree d types) v)
      (run (extend tree given (entries.flatMap w.entryItems)) v) := by
  rw [← Forest.ofView_apart apart read, ← Forest.ofView_spared spares apart]
  exact run_add isOpen inForce d

theorem run_comparison (comparator : Comparator) (field : String) {value : Value}
    {type : Option String} (beside : ∀ id, value = .node id → w.Beside tree id)
    (declares : ∀ name, name = (Key.split (comparator.key field)).field →
      (declaredType types name).toOption.getD .null = .ofText? (declaredFor field type name)) :
    run (addComparison tree comparator.operator (.text field) value (.ofText? type)) v =
      run (extend tree given (w.entryItems (.text (comparator.key field), value))) v := by
  obtain ⟨j, found, still⟩ := isOpen
  have filled : v.filledTree? value = w.filledTree? value := by
    cases value with
    | node id =>
        simp only [Forest.filledTree?, Value.node?, Option.filter_some,
          spares.isFilledTree (beside id rfl)]
    | _ => rfl
  have items : w.entryItems (.text (comparator.key field), value) =
      [comparator.item v.toForest field value] := by
    simp only [Forest.entryItems, comparator.classify_key, Comparator.entry, Comparator.item,
      filled]
    cases w.filledTree? value <;> rfl
  rw [run_addComparison found still, items, Comparator.item]
  cases v.filledTree? value with
  | some id => rfl
  | none =>
      rw [extend_field_congr]
      rw [declaredType_declaring, inForce.2, declares _ rfl]

omit inForce in
theorem run_test {field ending : String} {entries : List (Value × Value)}
    (read : w.entries? (.text (field ++ ending)) = some entries) :
    SameRun (run (addTest tree (.text field) ending) v)
      (run (extend tree given (entries.flatMap w.entryItems)) v) := by
  have untyped : InForce .null (.dict .passing []) := ⟨fun _ => rfl, fun _ => rfl⟩
  have apart : (w.view (.text (field ++ ending))).Apart w.toForest tree := nofun
  have items : entries.flatMap w.entryItems = [.raw (field ++ ending)] := by
    rw [← Forest.ofView_apart apart read, Forest.view_eq]
    simp only [View.ofValue, Item.ofView]
  have raw := run_description spares isOpen untyped apart read
  rw [items] at raw ⊢
  -- A text is built alike whatever the types are.
  exact raw

theorem run_piece {piece : Piece} {entries : List (Value × Value)}
    (fits : piece.Fits w.toForest tree types) (read : piece.entries? w.toForest = some entries) :
    SameRun (run (piece.run tree types) v)
      (run (extend tree given (entries.flatMap w.entryItems)) v) := by
  cases piece with
  | description d => exact run_description spares isOpen inForce fits read
  | negation d =>
      have read : w.entries? (.dict .passing [(.text "NOT", d)]) = some entries := read
      exact run_description spares isOpen inForce fits read
  | comparison comparator field value type =>
      cases read
      rw [Piece.run, run_comparison spares isOpen inForce comparator field fits.1 fits.2,
        List.flatMap_cons, List.flatMap_nil, List.append_nil]
      exact .refl _
  | test field ending => exact run_test spares isOpen read

end Single

/-- The pieces are added one after the other as what is read from their entries is built. -/
theorem run_pieces (inForce : InForce types given) {pieces : List Piece}
    {entries : List (List (Value × Value))}
    (fits : ∀ piece ∈ pieces, piece.Fits w.toForest tree types)
    (read : List.Forall₂ (fun piece es => Piece.entries? w.toForest piece = some es) pieces entries)
    {last : Workspace} (spares : w.Spares tree v.toForest) (isOpen : IsOpen v tree)
    (alike : v.Alike last) :
    SameRun (run (pieces.forM (Piece.run tree types)) v)
      (run (extend tree given (entries.flatten.flatMap w.entryItems)) last) := by
  induction read generalizing v last with
  | nil => exact ⟨rfl, alike⟩
  | @cons piece es pieces entries first _ ih =>
      have here := fits piece List.mem_cons_self
      have rest := fun other member => fits other (List.mem_cons_of_mem piece member)
      have single := (run_piece spares isOpen inForce here first).trans
        ((unlogged_extend tree given _).alike alike)
      rw [List.forM, List.flatten_cons, List.flatMap_append, extend_append]
      apply single.bind
      intro _ after later _ built alikeLater
      -- What was built tells what the calls have left as it was: only the log is another one.
      obtain ⟨records, rfl⟩ := alike
      have spared : w.Spares tree later.toForest :=
        spares.trans ((spared_extend tree given _ { v with records }).spares _ _ built)
      have alsoOpen : IsOpen { v with records } tree := isOpen
      have stillOpen : IsOpen later tree := isOpen_extend alsoOpen built
      refine ih rest ?_ ?_ alikeLater
      · obtain ⟨others, rfl⟩ := alikeLater
        exact spared
      · obtain ⟨others, rfl⟩ := alikeLater
        exact stillOpen

/-- A description may be added at once, in two parts, or in any number of pieces: the results are
the same, and the workspaces differ in the log at most. -/
theorem add_pieces (isOpen : IsOpen w tree)
    (map : types = .null ∨ ∃ mark table, types = .dict mark table) {whole : Value}
    (fresh : w.kept whole = []) :
    (∀ first second xs ys, w.entries? first = some xs → w.entries? second = some ys →
      w.entries? whole = some (xs ++ ys) → (w.view first).Apart w.toForest tree →
      (w.view second).Apart w.toForest tree →
      SameRun (run (add tree whole types) w)
        (run (add tree first types >>= fun _ => add tree second types) w)) ∧
    ∀ (pieces : List Piece) (entries : List (List (Value × Value))),
      List.Forall₂ (fun piece es => Piece.entries? w.toForest piece = some es) pieces entries →
      w.entries? whole = some entries.flatten →
      (∀ piece ∈ pieces, piece.Fits w.toForest tree types) →
      SameRun (run (add tree whole types) w) (run (pieces.forM (Piece.run tree types)) w) := by
  obtain ⟨given, inForce⟩ := exists_inForce map
  have once (entries : List (Value × Value)) (read : w.entries? whole = some entries) :
      SameRun (run (add tree whole types) w)
        (run (extend tree given (entries.flatMap w.entryItems)) w) := by
    rw [← Forest.ofView_fresh fresh read]
    exact run_add isOpen inForce whole
  have inPieces (pieces : List Piece) (entries : List (List (Value × Value)))
      (read : List.Forall₂ (fun piece es => Piece.entries? w.toForest piece = some es) pieces
        entries)
      (all : w.entries? whole = some entries.flatten)
      (fits : ∀ piece ∈ pieces, piece.Fits w.toForest tree types) :
      SameRun (run (add tree whole types) w) (run (pieces.forM (Piece.run tree types)) w) :=
    (once _ all).trans (run_pieces inForce fits read (.refl _ tree) isOpen (.refl w)).symm
  refine ⟨fun first second xs ys readFirst readSecond all apartFirst apartSecond => ?_, inPieces⟩
  have both := inPieces [.description first, .description second] [xs, ys]
    (.cons readFirst (.cons readSecond .nil)) (by simpa using all) (by
      simp only [List.mem_cons, List.not_mem_nil, or_false, forall_eq_or_imp, forall_eq]
      exact ⟨apartFirst, apartSecond⟩)
  simpa only [List.forM, Piece.run, bind_pure_unit] using both

/-! A comparison and a membership test, which are given at once, in two parts, or by one part and a
call that compares by name. -/

def comparisons : Value :=
  .dict .passing [(.text "x =", .int 1), (.text "y IN", .text "z")]

def firstComparison : Value := .dict .passing [(.text "x =", .int 1)]

def secondComparison : Value := .dict .passing [(.text "y IN", .text "z")]

def intForX : Value := .dict .passing [(.text "x", .text "int")]

theorem apart_entry (forest : Forest) (tree : NodeId) (key : String) {v : Value}
    (atom : ∀ later, View.ofValue later v = .atom v) (flat : v.node? = none) :
    (forest.view (.dict .passing [(.text key, v)])).Apart forest tree := by
  have noNode : ∀ id, v = .node id → forest.Beside tree id := by
    rintro id rfl
    cases flat
  rw [Forest.view_eq]
  simp only [View.ofValue, View.ofEntries, View.Apart, View.EntriesApart, View.value, atom]
  refine ⟨trivial, ?_, trivial⟩
  split <;> exact noNode

theorem add_pieces_comparisons :
    let w := Workspace.after { nextIdentifier := 1 } bare
    IsOpen w ⟨0⟩ ∧ w.kept comparisons = [] ∧
      (run (add ⟨0⟩ comparisons intForX) w).1.toOption = some () ∧
      SameRun (run (add ⟨0⟩ comparisons intForX) w)
        (run (add ⟨0⟩ firstComparison intForX >>= fun _ => add ⟨0⟩ secondComparison intForX) w) ∧
      SameRun (run (add ⟨0⟩ comparisons intForX) w)
        (run ([.description firstComparison, .comparison .among "y" (.text "z") none].forM
          (Piece.run ⟨0⟩ intForX)) w) := by
  intro w
  have isOpen : IsOpen w ⟨0⟩ := ⟨bareTree, rfl, rfl⟩
  have first := apart_entry w.toForest ⟨0⟩ "x =" (v := .int 1)
    (fun _ => by simp only [View.ofValue]) rfl
  have second := apart_entry w.toForest ⟨0⟩ "y IN" (v := .text "z")
    (fun _ => by simp only [View.ofValue]) rfl
  have carries : Key.Carries "y" := ⟨by decide, by decide, by rintro c ⟨⟩; decide⟩
  obtain ⟨inTwo, inPieces⟩ := add_pieces isOpen
    (show intForX = .null ∨ ∃ mark table, intForX = .dict mark table from .inr ⟨_, _, rfl⟩)
    (show w.kept comparisons = [] from rfl)
  refine ⟨isOpen, rfl, by decide +kernel, ?_, ?_⟩
  · exact inTwo firstComparison secondComparison _ _ rfl rfl rfl first second
  · apply inPieces _ [_, _] (.cons rfl (.cons rfl .nil)) rfl
    simp only [List.mem_cons, List.not_mem_nil, or_false, forall_eq_or_imp, forall_eq]
    refine ⟨first, nofun, ?_⟩
    rintro name rfl
    rw [Comparator.split_key _ carries]
    rfl

/-- The list of conditions that the tree itself has is empty when it is read together with what is
added before it, and not when it is read later. -/
theorem add_pieces_own :
    let w := Workspace.after { nextIdentifier := 1 } bare
    let own : Value := .conditions ⟨0⟩ .built
    let once := run (add ⟨0⟩ (.list .passing [.text "a", own]) .null) w
    let twice := run (add ⟨0⟩ (.list .passing [.text "a"]) .null >>= fun _ =>
      add ⟨0⟩ (.list .passing [own]) .null) w
    once.1.toOption = some () ∧ twice.1.toOption = some () ∧
      (once.2.junction? ⟨0⟩).map (·.conditions.length) = some 1 ∧
      (twice.2.junction? ⟨0⟩).map (·.conditions.length) = some 2 := by
  decide +kernel

end WorkspaceM
end WhereClause
