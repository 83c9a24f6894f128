import WhereClause.Proofs.Operations

/-!
# Compiled trees are frozen

Once a tree is compiled, nothing that is done later changes what it holds or what it renders as, as
long as the unary conditions stand over nodes and plain data. Everything below it is compiled too,
its text is that of its conditions as they are now, and what would change it is refused.

* `frozen_forever`: all of this, at every point of every run.
* `wrapped_changes`: a unary condition over the list of another tree is not frozen.
-/

namespace WhereClause

/-- Types are texts, and unary conditions stand over nodes and the values allowed. -/
def Policy.typed (argument : Value → Prop) : Policy where
  argument := argument
  type v := v = .null ∨ ∃ s, v = .text s
  untyped := .inl rfl
  given := True
  builds := True
  renders := True

theorem Policy.typed_noList (argument : Value → Prop) (v : Value)
    (allowed : (Policy.typed argument).type v) : v.isList = false := by
  rcases allowed with rfl | ⟨s, rfl⟩ <;> rfl

namespace Forest.Keeps

variable {forest middle other : Forest}

theorem refl (forest : Forest) : forest.Keeps forest := ⟨fun _ _ _ => rfl, fun _ _ found _ => found⟩

theorem trans (first : forest.Keeps middle) (second : middle.Keeps other) : forest.Keeps other where
  node id present notTree := by
    have same := first.node id present notTree
    have still := Forest.junction?_congr same
    rw [second.node id (same ▸ present) (still.trans notTree), same]
  tree id j found compiled := second.tree id j (first.tree id j found compiled) compiled

end Forest.Keeps

namespace Workspace

variable {w middle after : Workspace}

/-- The text of a compiled tree is made of the texts that its conditions have. -/
structure Firm (w : Workspace) : Prop where
  made : w.WellMade
  steady : w.Steady
  coherent : ∀ id j rendered, w.junction? id = some j → j.compiled = some rendered →
    ∃ texts : Value → Texts, (∀ v ∈ j.conditions, Settled w.toForest v (texts v)) ∧
      rendered.sql = joined j.connective.written (j.conditions.map fun v => (texts v).alone)

/-- What is complete stays as it is, with the texts it has. -/
structure Lasts (w after : Workspace) : Prop where
  keeps : w.Keeps after.toForest
  settled : ∀ v texts, Settled w.toForest v texts → Settled after.toForest v texts

theorem Lasts.refl (w : Workspace) : w.Lasts w := ⟨.refl _, fun _ _ => id⟩

theorem Lasts.trans (first : w.Lasts middle) (second : middle.Lasts after) : w.Lasts after :=
  ⟨first.keeps.trans second.keeps, fun v texts yields =>
    second.settled v texts (first.settled v texts yields)⟩

theorem Firm.empty (n : Nat) : Firm { nextIdentifier := n } where
  made := .empty n
  steady := ⟨rfl, fun _ _ kind => by simp [Forest.node] at kind⟩
  coherent _ _ _ found := by simp [Forest.junction?, Forest.node] at found

theorem steady_move (steady : w.Steady) {trace : List Handout}
    (move : Move (.typed Value.Steady) w trace after) : after.Steady := by
  have setNode {id : NodeId} {j k : Junction} (found : w.junction? id = some j) :
      (w.setNode id (.junction k)).Steady := by
    refine ⟨steady.additions, fun other u kind => ?_⟩
    rw [Forest.node_setNode_of_tree found] at kind
    split at kind
    · cases kind
    · exact steady.argument other u kind
  cases move with
  | plant builds fits =>
      refine ⟨steady.additions, fun id u kind => ?_⟩
      rw [Forest.node_of_push rfl] at kind
      split at kind
      · subst kind
        exact fits
      · exact steady.argument id u kind
  | change builds found => exact setNode found
  | settle renders found => exact setNode found
  | lengthen builds allowed list => simp [Policy.typed_noList _ _ allowed] at list
  | _ => exact ⟨steady.additions, steady.argument⟩

theorem Firm.lasts_move (firm : w.Firm) {trace : List Handout}
    (move : Move (.typed Value.Steady) w trace after) : w.Lasts after := by
  have keeps := move.keeps (Policy.typed_noList _)
  have steady := steady_move firm.steady move
  refine ⟨keeps, fun v texts yields => yields.keep keeps fun id u kind flat => ?_⟩
  exact Forest.plainText_steady firm.steady.additions steady.additions
    (firm.steady.argument id u kind flat)

theorem Firm.move (firm : w.Firm) {trace : List Handout}
    (move : Move (.typed Value.Steady) w trace after) : after.Firm := by
  have lasts := firm.lasts_move move
  refine ⟨firm.made.move move, steady_move firm.steady move, fun id j rendered found compiled => ?_⟩
  have before (tree : w.junction? id = some j) :
      ∃ texts : Value → Texts, (∀ v ∈ j.conditions, Settled after.toForest v (texts v)) ∧
        rendered.sql = joined j.connective.written
          (j.conditions.map fun v => (texts v).alone) := by
    obtain ⟨texts, each, same⟩ := firm.coherent id j rendered tree compiled
    exact ⟨texts, fun v member => lasts.settled v _ (each v member), same⟩
  cases move with
  | plant builds fits =>
      rcases Forest.junction?_push rfl found with ⟨-, rfl⟩ | tree
      · simp [fits.1] at compiled
      · exact before tree
  | change builds tree isOpen still =>
      rw [Forest.junction?_setNode tree] at found
      split at found
      · cases found
        simp [still] at compiled
      · exact before found
  | lengthen builds allowed list => simp [Policy.typed_noList _ _ allowed] at list
  | settle renders tree isOpen rewrites each text =>
      rw [Forest.junction?_setNode tree] at found
      split at found
      · cases found
        cases compiled
        exact ⟨_, fun v member => lasts.settled v _ (each v member), text firm.steady⟩
      · exact before found
  | _ => exact before found

theorem Firm.moves (firm : w.Firm) {trace : List Handout}
    (moves : Moves (.typed Value.Steady) w trace after) : after.Firm ∧ w.Lasts after := by
  induction moves with
  | refl => exact ⟨firm, .refl w⟩
  | tail _ move ih =>
      obtain ⟨firm, lasts⟩ := ih
      exact ⟨firm.move move, lasts.trans (firm.lasts_move move)⟩

theorem Firm.perform (firm : w.Firm) {operation : Operation}
    (fits : operation.Fits (.typed Value.Steady) w) :
    (w.perform operation).Firm ∧ w.Lasts (w.perform operation) := by
  obtain ⟨trace, moves⟩ := moves_perform trivial trivial firm.made fits
  obtain ⟨⟨made, steady, coherent⟩, lasts⟩ := firm.moves moves
  exact ⟨⟨made.withSettings _, steady, coherent⟩, ⟨lasts.keeps, lasts.settled⟩⟩

theorem Firm.run (firm : w.Firm) {operations : List Operation}
    (allows : w.Allows (.typed Value.Steady) operations) :
    (w.after operations).Firm ∧ w.Lasts (w.after operations) := by
  induction operations generalizing w with
  | nil => exact ⟨firm, .refl w⟩
  | cons operation rest ih =>
      obtain ⟨next, lasts⟩ := firm.perform allows.1
      obtain ⟨last, later⟩ := ih next allows.2
      exact ⟨last, lasts.trans later⟩

end Workspace

/-- The operation changes what is in a tree, or what is bound in it. A field that is compared is
named by a text: one that is a node would be rendered before it is refused. -/
def Operation.Changes (tree : NodeId) : Operation → Prop
  | add other _ _ | append other _ | negate other _ _ | setConnective other _
  | bindInTree other _ _ _ => other = tree
  | compare other _ field _ _ | isNull other field | isNotNull other field =>
    other = tree ∧ ∃ s, field = .text s
  | _ => False

namespace WorkspaceM

variable {w : Workspace}

theorem run_renderCondition_settled {v : Value} {texts : Texts}
    (yields : Settled w.toForest v texts) :
    run (renderCondition sql v) w = (.ok texts.alone, w) := by
  cases v with
  | node id => exact run_sql_settled yields
  | text s =>
      cases yields
      rfl
  | outcome mark text parameters types positional =>
      cases yields
      rfl
  | compiled tree =>
      cases yields with
      | compiled found compiled =>
          simp only [renderCondition, run_bind, run_junction found, compiled, run_pure,
            Texts.wrapping]
  | _ => cases yields

theorem run_discard_error {α : Type} {operation : WorkspaceM α} {fault : Fault}
    (failed : run operation w = (.error fault, w)) :
    run (discard operation) w = (.error fault, w) := by
  show run (_ <$> operation) w = _
  rw [run_map, failed]

theorem run_openJunction_frozen {tree : NodeId} {j : Junction}
    (found : w.junction? tree = some j) (compiled : j.compiled.isSome = true) :
    run (openJunction tree) w = (.error (.frozen (w.binder j.binder).identifier), w) := by
  simp only [openJunction, run_bind, run_junction found, compiled, if_true, run_get, run_throw]

section Frozen

variable {tree : NodeId} {fault : Fault}

theorem run_add_frozen (refused : run (openJunction tree) w = (.error fault, w))
    (description types : Value) : run (add tree description types) w = (.error fault, w) := by
  rw [add, run_bind, run_discard_error refused]

theorem run_addTest_frozen (refused : run (openJunction tree) w = (.error fault, w))
    (field test : String) : run (addTest tree (.text field) test) w = (.error fault, w) := by
  simp only [addTest, textOf, run_bind, run_get, run_pure]
  exact run_add_frozen refused _ _

theorem run_changes_frozen (refused : run (openJunction tree) w = (.error fault, w))
    {operation : Operation} (changes : operation.Changes tree) :
    run operation.run w = (.error fault, w) := by
  cases operation with
  | add other description types =>
      obtain rfl := changes
      exact run_add_frozen refused _ _
  | append other condition =>
      obtain rfl := changes
      show run (append other condition) w = _
      rw [append, run_bind, run_discard_error refused]
  | negate other description types =>
      obtain rfl := changes
      show run (addNegation other description types) w = _
      exact run_add_frozen refused _ _
  | setConnective other connective =>
      obtain rfl := changes
      show run (setConnective other connective) w = _
      rw [setConnective, run_bind, run_discard_error refused]
  | bindInTree other name value type =>
      obtain rfl := changes
      show run (bindInTree other name value type) w = _
      rw [bindInTree, run_bind, refused]
  | compare other comparator field value type =>
      obtain ⟨rfl, s, rfl⟩ := changes
      show run (addComparison other comparator.operator (.text s) value type) w = _
      simp only [addComparison, textOf, run_bind, run_get, run_pure, Value.isHashable]
      cases w.isTruthy type <;> exact run_add_frozen refused _ _
  | isNull other field =>
      obtain ⟨rfl, s, rfl⟩ := changes
      exact run_addTest_frozen refused s _
  | isNotNull other field =>
      obtain ⟨rfl, s, rfl⟩ := changes
      exact run_addTest_frozen refused s _
  | _ => exact changes.elim

end Frozen

/-- In every run, for every tree that is compiled at some point of it: everything below the tree is
compiled; its text is that of its conditions as they are; whatever is done later, the tree and its
bindings stay, and both its texts, which are given without any change of the workspace; and what
would change the tree is refused, again without any change. -/
theorem frozen_forever (n : Nat) {before later : List Operation}
    (allows : Workspace.Allows (.typed Value.Steady) { nextIdentifier := n } (before ++ later))
    {w last : Workspace} (made : w = Workspace.after { nextIdentifier := n } before)
    (ended : last = w.after later) {tree : NodeId} {j : Junction} {rendered : Rendered}
    (found : w.junction? tree = some j) (compiled : j.compiled = some rendered) :
    (∀ id k, w.Reaches tree id → w.junction? id = some k → k.compiled.isSome = true) ∧
      (∃ parts : List String,
        List.Forall₂ (fun v s => run (renderCondition sql v) w = (.ok s, w)) j.conditions parts ∧
          rendered.sql = joined j.connective.written parts) ∧
      (last.junction? tree = some j ∧ last.ownBindings tree = w.ownBindings tree ∧
        run (sql tree) last = (.ok rendered.sql, last) ∧
        ∃ beside, run (wrapped tree) w = (.ok beside, w) ∧
          run (wrapped tree) last = (.ok beside, last)) ∧
      ∀ operation : Operation, operation.Changes tree →
        run operation.run w = (.error (.frozen (w.binder j.binder).identifier), w) := by
  obtain ⟨first, rest⟩ := Workspace.allows_append.mp allows
  obtain ⟨firm, -⟩ := (Workspace.Firm.empty n).run first
  rw [← made] at firm rest
  obtain ⟨-, lasts⟩ := firm.run rest
  rw [← ended] at lasts
  have closed : j.compiled.isSome = true := by simp [compiled]
  obtain ⟨texts, yields⟩ := firm.made.settled tree j found closed
  have yieldsLater := lasts.settled _ _ yields
  have stays := lasts.keeps.tree tree j found closed
  refine ⟨fun id k path inside => ?_, ?_, ⟨stays, ?_, ?_, texts.beside, ?_, ?_⟩, ?_⟩
  · obtain ⟨inner, yields⟩ := yields.reached compiledReading_faithful path
    obtain ⟨_, _, read, -⟩ := yields.of_tree inside
    exact (compiledReading_eq_some.mp read).1
  · obtain ⟨parts, each, same⟩ := firm.coherent tree j rendered found compiled
    refine ⟨j.conditions.map fun v => (parts v).alone, ?_, same⟩
    rw [List.forall₂_map_right_iff, List.forall₂_same]
    exact fun v member => run_renderCondition_settled (each v member)
  · simp only [Forest.ownBindings, Forest.junction?_eq_some.mp found,
      Forest.junction?_eq_some.mp stays, compiled]
  · rw [run_sql_settled yieldsLater, yieldsLater.alone_of_compiled stays compiled]
  · exact run_wrapped_settled yields
  · exact run_wrapped_settled yieldsLater
  · intro operation changes
    exact run_changes_frozen (run_openJunction_frozen found closed) changes

/-- A tree that is compiled by way of the tree above it. -/
def compilingBelow : List Operation :=
  [.newTree .null .null .null none, .append ⟨0⟩ (.text "a"), .newTree .null .null .null none,
    .append ⟨1⟩ (.node ⟨0⟩), .sql ⟨1⟩]

/-- Other trees and other settings, an attempt on the tree, and a name of its binder. -/
def changingLater : List Operation :=
  [.append ⟨0⟩ (.text "b"), .newTree .null .null .null none, .append ⟨2⟩ (.node ⟨0⟩), .sql ⟨2⟩,
    .placeholder ⟨0⟩ (.text "c"), .configure [("placeholder_prefix", .text "p")]]

def compiledBelow : Junction :=
  ⟨.text "AND", [.text "a"], [.text "a"], ⟨0⟩, some ⟨"a", []⟩⟩

theorem allows_changingLater :
    Workspace.Allows (.typed Value.Steady) { nextIdentifier := 1 }
      (compilingBelow ++ changingLater) := by
  have untyped : (Policy.typed Value.Steady).Types .null := fun _ _ same => nomatch same
  refine ⟨⟨untyped, by simp⟩, trivial, ⟨untyped, by simp⟩, trivial, trivial, trivial,
    ⟨untyped, by simp⟩, trivial, trivial, ?_, ?_, trivial⟩
  · show (_ : Nat) < _
    decide +kernel
  · show (Table.keys _).Nodup
    decide

theorem frozen_forever_below :
    let w := Workspace.after { nextIdentifier := 1 } compilingBelow
    let last := w.after changingLater
    Workspace.Allows (.typed Value.Steady) { nextIdentifier := 1 }
        (compilingBelow ++ changingLater) ∧
      w.junction? ⟨0⟩ = some compiledBelow ∧ last.junction? ⟨0⟩ = some compiledBelow ∧
      run (sql ⟨0⟩) last = (.ok "a", last) ∧
      run (append ⟨0⟩ (.text "b")) w = (.error (.frozen "1"), w) := by
  have found : (Workspace.after { nextIdentifier := 1 } compilingBelow).junction? ⟨0⟩ =
      some compiledBelow := rfl
  obtain ⟨-, -, ⟨stays, -, text, -⟩, refuses⟩ :=
    frozen_forever 1 allows_changingLater rfl rfl found rfl
  exact ⟨allows_changingLater, found, stays, text, refuses (.append ⟨0⟩ (.text "b")) rfl⟩

/-- A tree over a negation whose argument is the list of conditions of another tree. -/
def overList : List Operation :=
  [.newTree .null .null .null none,
    .newUnary (some (.text "NOT")) (some (.conditions ⟨0⟩ .built)) none,
    .newTree .null .null .null none, .append ⟨2⟩ (.node ⟨1⟩), .sql ⟨2⟩]

/-- What stands in the list of another tree is not frozen with the tree that shows it. -/
theorem wrapped_changes :
    let w := Workspace.after { nextIdentifier := 1 } overList
    Workspace.Allows (.typed fun _ => True) { nextIdentifier := 1 }
        (overList ++ [.append ⟨0⟩ (.text "a")]) ∧
      (w.junction? ⟨2⟩).map (fun j => j.compiled.map Rendered.sql) = some (some "NOT ([])") ∧
      (run (wrapped ⟨2⟩) w).1.toOption = some "(NOT ([]))" ∧
      (run (wrapped ⟨2⟩) (w.after [.append ⟨0⟩ (.text "a")])).1.toOption =
        some "(NOT (['a']))" := by
  have untyped : (Policy.typed fun _ => True).Types .null := fun _ _ same => nomatch same
  refine ⟨⟨⟨untyped, by simp⟩, fun _ => trivial, ⟨untyped, by simp⟩, trivial, trivial, trivial,
    trivial⟩, ?_, ?_, ?_⟩
  all_goals decide +kernel

end WorkspaceM
end WhereClause
