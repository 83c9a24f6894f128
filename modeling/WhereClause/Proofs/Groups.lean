import WhereClause.Proofs.Piecewise

/-!
# Groups and trees made beforehand

A description may be added to a tree under a keyword or at a position, or a tree may be made from it
and appended. Both ways take the same identifiers and numbers in the same order, so that they differ
in the log at most: what is told of reading is told before the inner tree is made, or after it.

* `run_newTree_made`: a tree is made from a description as a group is built from its items.
* `add_nested`: adding a description under a keyword or at a position, and appending a tree.
-/

namespace WhereClause

namespace Value

/-- What a position groups: lists, tuples and dictionaries. -/
def isGrouped : Value → Bool
  | list .. | conditions .. | tuple .. | dict .. => true
  | _ => false

end Value

namespace Forest

variable {forest : Forest} {d : Value} {name word : String}

/-- The description is followed to its end, and the nodes in it are made. -/
def Holds (forest : Forest) (d : Value) : Prop :=
  (forest.view d).Apart forest ⟨forest.nodes.size⟩

theorem Holds.apart (holds : forest.Holds d) : forest.Apart ⟨forest.nodes.size⟩ d := by
  rw [Holds, view_eq] at holds
  exact View.apart_of_view holds

theorem entryItems_connective (keyword : Key.connective? name = some word) :
    forest.entryItems (.text name, d) = [.group word (Item.ofView forest (forest.view d))] := by
  simp [entryItems, Entry.classify, Entry.underName, plainText, Entry.item?, Value.isNumeric,
    Key.not_isNumeral_of_connective? keyword, keyword]

theorem entryItems_negation (keyword : Key.isNegation name = true) :
    forest.entryItems (.text name, d) = [.negation (Item.ofView forest (forest.view d))] := by
  have other : Key.connective? name = none := by
    have capital : Key.capitals name = "NOT" := by simpa [Key.isNegation] using keyword
    simp [Key.connective?, capital]
  simp [entryItems, Entry.classify, Entry.underName, plainText, Entry.item?, Value.isNumeric,
    Key.not_isNumeral_of_isNegation keyword, other, keyword]

theorem entryItems_position (given : forest.isTruthy d = true) (grouped : d.isGrouped = true) :
    forest.entryItems (.int 0, d) = [.group "AND" (Item.ofView forest (forest.view d))] := by
  cases d with
  | list | conditions | tuple | dict =>
      simp [entryItems, Entry.classify, Entry.atPosition, Entry.item?, Value.isNumeric, given,
        Entry.positionConnective]
  | _ => cases grouped

end Forest

namespace WorkspaceM

variable {α β : Type} {w : Workspace} {tree : NodeId} {types given d : Value}

/-- The two operations run the same, and so does what is asked of any node after them. -/
structure Interchangeable (operation other : WorkspaceM Unit) (w : Workspace) : Prop where
  run : SameRun (run operation w) (run other w)
  sql : ∀ id, SameRun (WorkspaceM.run (operation >>= fun _ => sql id) w)
    (WorkspaceM.run (other >>= fun _ => sql id) w)
  collected : ∀ id, SameRun (WorkspaceM.run (operation >>= fun _ => collectBindings id) w)
    (WorkspaceM.run (other >>= fun _ => collectBindings id) w)

theorem SameRun.interchangeable {operation other : WorkspaceM Unit}
    (same : SameRun (WorkspaceM.run operation w) (WorkspaceM.run other w)) :
    Interchangeable operation other w where
  run := same
  sql id := same.bind fun _ _ _ _ _ alike => (unlogged_sql id).alike alike
  collected id := same.bind fun _ _ _ _ _ alike => (unlogged_collectBindings id).alike alike

/-- A tree of its own with what was read from a description. -/
def newGroup (word : String) (types : Value) (items : List Item) : WorkspaceM NodeId := do
  let inner ← newJunction word
  extend inner types items
  return inner

theorem spared_newGroup (tree : NodeId) (word : String) (types : Value) (items : List Item)
    (w : Workspace) : Spared tree (newGroup word types items) w :=
  .bind_new (run_newJunction word w) (.of_push rfl rfl) le_rfl <|
    (spared_extend _ types items _).bind fun _ _ _ => .pure _

theorem build_group (tree : NodeId) (types : Value) {items : List Item} (filled : items ≠ [])
    (connective : String) :
    build tree types (.group connective items) =
      newGroup (Text.upper connective) types items >>= fun inner => pure (some (.node inner)) := by
  have given : items.isEmpty = false := by simpa using filled
  simp only [build, given, newGroup, bind_assoc, pure_bind]
  rfl

theorem build_negation (tree : NodeId) (types : Value) {items : List Item} (filled : items ≠ []) :
    build tree types (.negation items) = do
      let inner ← newGroup (Text.upper (← get).settings.defaultConnective) types items
      return some (.node (← addNode (.unary ⟨"NOT", .node inner, false⟩))) := by
  have given : items.isEmpty = false := by simpa using filled
  simp only [build, given, newGroup, bind_assoc, pure_bind]
  rfl

/-- A condition is appended as it is attached, when what is done before leaves the tree open. -/
theorem run_append_later {operation : WorkspaceM Value} (isOpen : IsOpen w tree)
    (spared : Spared ⟨w.nodes.size⟩ operation w) :
    run (operation >>= append tree) w = run (operation >>= attach tree) w := by
  rw [run_bind, run_bind]
  rcases done : run operation w with ⟨result, after⟩
  cases result with
  | error fault => rfl
  | ok condition =>
      obtain ⟨j, found, still⟩ := isOpen
      have bound := Forest.index_lt_of_tree found
      have beside : w.Beside ⟨w.nodes.size⟩ tree := by
        refine ⟨?_, bound⟩
        rintro rfl
        exact bound.ne rfl
      have later := ((spared.spares condition after done).junction? beside).trans found
      exact run_bind_ok (run_discard_ok (run_openJunction later still)) _

section Made

variable (isGiven : w.isTruthy d = true) (holds : w.Holds d)
  (filled : Item.ofView w.toForest (w.view d) ≠ []) (inForce : InForce types given)

include isGiven holds filled inForce

theorem run_newGroup_filled (word : String) :
    SameRun
      (run (newJunction word >>= fun inner => do
        if (← MonadState.get).isTruthy d then add inner d types
        return inner) w)
      (run (newGroup word given (Item.ofView w.toForest (w.view d))) w) := by
  have spares : w.Spares ⟨w.nodes.size⟩ (run (newJunction word) w).2.toForest := .of_push rfl rfl
  have notBinder : ∀ id, d ≠ .binder id := by
    rintro id rfl
    simp [Forest.view_eq, View.ofValue, Item.ofView] at filled
  have still := (spares.isTruthy holds.apart notBinder).trans isGiven
  have isOpen : IsOpen (run (newJunction word) w).2 ⟨w.nodes.size⟩ :=
    ⟨{ connective := .text word, binder := ⟨w.binders.size⟩ },
      by simp [run_newJunction, Forest.junction?, Forest.node], rfl⟩
  rw [newGroup, run_bind_ok (run_newJunction word w), run_bind_ok (run_newJunction word w),
    ← Forest.ofView_spared spares holds]
  rw [run_newJunction] at still isOpen ⊢
  rw [run_bind_ok (run_get _)]
  simp only [still, if_true]
  exact (run_add isOpen inForce d).bind fun _ _ _ _ _ alike => ⟨rfl, alike⟩

/-- A tree is made from a description as a group is built from its items. -/
theorem run_newTree_made {connective : Value} {word : String}
    (decoded : Connective.ofValue? connective = some (.text word)) :
    SameRun (run (newTree d types connective none) w)
      (run (newGroup word given (Item.ofView w.toForest (w.view d))) w) := by
  have plain : run (newTree d types connective none) w =
      run (newJunction word >>= fun inner => do
        if (← MonadState.get).isTruthy d then add inner d types
        return inner) w := by
    cases connective with
    | text s =>
        cases decoded
        simp only [newTree, connectiveOf, Connective.ofValue?, pure_bind, newJunction, bind_assoc]
        rfl
    | bytes b => cases decoded
    | _ => cases decoded
  rw [plain]
  exact run_newGroup_filled isGiven holds filled inForce word

theorem run_newTree_default :
    SameRun (run (newTree d types .null none) w)
      (run (newGroup (Text.upper w.settings.defaultConnective) given
        (Item.ofView w.toForest (w.view d))) w) := by
  have named : run (newTree d types .null none) w =
      run (newTree d types (.text w.settings.defaultConnective) none) w := rfl
  rw [named]
  exact run_newTree_made isGiven holds filled inForce rfl

end Made

/-! ## Both ways -/

theorem unlogged_append (tree : NodeId) (condition : Value) : Unlogged (append tree condition) := by
  have opened : Unlogged (openJunction tree) := by
    apply (Unlogged.junction tree).bind
    intro j
    split
    · exact .get (fun _ _ => rfl) fun _ => (Unlogged.throw _).bind fun _ => .pure _
    · exact .pure _
  exact (opened.map _).bind fun _ => .attach tree condition

/-- What is read as one item is added as the condition that the item comes to is appended. -/
theorem interchangeable_of_item (operation : WorkspaceM Value) {other : WorkspaceM Value}
    (isOpen : IsOpen w tree) (inForce : InForce types given) {v : Value} {entry : Value × Value}
    {item : Item}
    (fresh : w.kept v = []) (read : w.entries? v = some [entry])
    (single : w.entryItems entry = [item])
    (built : run (build tree given item) w = run (some <$> operation) w)
    (spared : Spared ⟨w.nodes.size⟩ operation w)
    (same : SameRun (run other w) (run operation w)) :
    Interchangeable (add tree v types) (other >>= append tree) w := by
  have items : Item.ofView w.toForest (w.view v) = [item] := by
    rw [Forest.ofView_fresh fresh read, List.flatMap_singleton, single]
  have attached : run (extend tree given [item]) w = run (operation >>= attach tree) w := by
    rw [extend, run_bind, built, ← run_bind, map_eq_pure_bind, bind_assoc]
    simp only [pure_bind, extend, bind_pure_unit]
  have added : SameRun (run (add tree v types) w) (run (operation >>= append tree) w) := by
    rw [run_append_later isOpen spared, ← attached, ← items]
    exact run_add isOpen inForce v
  have appended := same.bind fun a _ _ _ _ alike => (unlogged_append tree a).alike alike
  exact (added.trans appended.symm).interchangeable

/-- A description under a keyword or at a position is added as a tree is appended that is made from
it. -/
theorem add_nested (isOpen : IsOpen w tree)
    (map : types = .null ∨ ∃ mark table, types = .dict mark table) (isGiven : w.isTruthy d = true)
    (holds : w.Holds d) (filled : Item.ofView w.toForest (w.view d) ≠ []) :
    (∀ mark name word, Key.connective? name = some word →
      Interchangeable (add tree (.dict mark [(.text name, d)]) types)
        (Value.node <$> newTree d types (.text word) none >>= append tree) w) ∧
    (∀ mark name, Key.isNegation name = true →
      Interchangeable (add tree (.dict mark [(.text name, d)]) types)
        ((do
          let inner ← newTree d types .null none
          Value.node <$> newUnary (some (.text "NOT")) (some (.node inner)) none) >>=
          append tree) w) ∧
    ∀ mark, w.kept (.list mark [d]) = [] → d.isGrouped = true →
      Interchangeable (add tree (.list mark [d]) types)
        (Value.node <$> newTree d types (.text "AND") none >>= append tree) w := by
  obtain ⟨given, inForce⟩ := exists_inForce map
  have spared (word : String) :=
    spared_newGroup ⟨w.nodes.size⟩ word given (Item.ofView w.toForest (w.view d)) w
  have group (connective : String) (v : Value) (entry : Value × Value) (fresh : w.kept v = [])
      (read : w.entries? v = some [entry])
      (single : w.entryItems entry = [.group connective (Item.ofView w.toForest (w.view d))]) :
      Interchangeable (add tree v types)
        (Value.node <$> newTree d types (.text connective) none >>= append tree) w := by
    refine interchangeable_of_item (Value.node <$> newGroup (Text.upper connective) given
      (Item.ofView w.toForest (w.view d))) isOpen inForce fresh read single ?_
      ((spared _).map _) ?_
    · rw [build_group tree given filled, map_eq_pure_bind, map_eq_pure_bind, bind_assoc]
      simp only [pure_bind]
    · exact (run_newTree_made isGiven holds filled inForce rfl).map _
  refine ⟨fun mark name word keyword => ?_, fun mark name keyword => ?_,
    fun mark fresh grouped => ?_⟩
  · exact group word _ _ rfl rfl (Forest.entryItems_connective keyword)
  · refine interchangeable_of_item (newGroup _ given (Item.ofView w.toForest (w.view d)) >>=
      fun inner => Value.node <$> addNode (.unary ⟨"NOT", .node inner, false⟩)) isOpen inForce rfl
      rfl (Forest.entryItems_negation keyword) ?_
      ((spared (Text.upper w.settings.defaultConnective)).bind fun _ _ _ =>
        (Spared.addNode _).map _) ?_
    · rw [build_negation tree given filled, run_bind_ok (run_get w)]
      simp only [map_eq_pure_bind, bind_assoc, pure_bind]
    · exact (run_newTree_default isGiven holds filled inForce).bind fun inner _ _ _ _ alike =>
        ((Unlogged.addNode (.unary ⟨"NOT", .node inner, false⟩)).map _).alike alike
  · refine group "AND" _ (.int 0, d) fresh ?_
      (Forest.entryItems_position isGiven grouped)
    simp [Forest.entries?, Value.isOrdered, Forest.sequence?, Value.written?, fresh]

/-! A comparison and a membership test below one more position, beside a text. -/

def testsBesideText : Value :=
  .list ⟨1⟩ [.dict ⟨2⟩ [(.text "x =", .int 1), (.text "y IN", .tuple ⟨3⟩ [.int 2, .null])],
    .text "z IS NULL"]

theorem add_nested_tests :
    let w := Workspace.after { nextIdentifier := 1 } bare
    let all := add ⟨0⟩ (.dict ⟨4⟩ [(.text "Xor", testsBesideText)]) intForX
    let refused := add ⟨0⟩ (.dict ⟨4⟩ [(.text "not", testsBesideText)])
      (.dict ⟨5⟩ [(.text "y", .int 0), (.text "x", .int 5)])
    ((run all w).1.toOption = some () ∧
      Interchangeable all
        (Value.node <$> newTree testsBesideText intForX (.text "XOR") none >>= append ⟨0⟩) w) ∧
    ((run refused w).1.toOption = none ∧
      Interchangeable refused
        ((do
          let inner ← newTree testsBesideText (.dict ⟨5⟩ [(.text "y", .int 0), (.text "x", .int 5)])
            .null none
          Value.node <$> newUnary (some (.text "NOT")) (some (.node inner)) none) >>=
          append ⟨0⟩) w) ∧
    Interchangeable (add ⟨0⟩ (.list ⟨4⟩ [testsBesideText]) .null)
      (Value.node <$> newTree testsBesideText .null (.text "AND") none >>= append ⟨0⟩) w := by
  intro w
  have isOpen : IsOpen w ⟨0⟩ := ⟨bareTree, rfl, rfl⟩
  have comparison : w.fieldKey? (.text "x =") = some ⟨"x", "="⟩ := by decide +kernel
  have membership : w.fieldKey? (.text "y IN") = some ⟨"y", "IN"⟩ := by decide +kernel
  have describes : w.Describes testsBesideText := by
    simp only [testsBesideText, Forest.Describes, Forest.EntriesDescribe, Forest.AllDescribe,
      comparison, membership]
    exact ⟨⟨trivial, ⟨rfl, nofun⟩, trivial, ⟨rfl, nofun⟩, trivial⟩, trivial, trivial⟩
  have holds : w.Holds testsBesideText :=
    View.apart_of_plain _ (Forest.plain_of_describes rfl describes)
  have read : w.entries? testsBesideText = some [(.int 0, .dict ⟨2⟩ [(.text "x =", .int 1),
      (.text "y IN", .tuple ⟨3⟩ [.int 2, .null])]), (.int 0, .text "z IS NULL")] := rfl
  have filled : Item.ofView w.toForest (w.view testsBesideText) ≠ [] := by
    rw [Forest.ofView_fresh rfl read, List.flatMap_cons, Forest.entryItems_position rfl rfl]
    exact List.cons_ne_nil _ _
  obtain ⟨keywords, -, -⟩ := add_nested isOpen (.inr ⟨_, _, rfl⟩ :
    intForX = .null ∨ ∃ mark table, intForX = .dict mark table) rfl holds filled
  obtain ⟨-, negations, -⟩ := add_nested isOpen (.inr ⟨⟨5⟩, _, rfl⟩) rfl holds filled
  obtain ⟨-, -, positions⟩ := add_nested isOpen (.inl rfl) rfl holds filled
  exact ⟨⟨by decide +kernel, keywords ⟨4⟩ "Xor" "XOR" (by decide)⟩,
    ⟨by decide +kernel, negations ⟨4⟩ "not" (by decide)⟩, positions ⟨4⟩ rfl rfl⟩

end WorkspaceM
end WhereClause
