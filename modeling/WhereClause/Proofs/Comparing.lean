import WhereClause.Proofs.Fields
import WhereClause.Proofs.Levels

/-!
# Comparisons by name

A call that compares a field by name adds exactly one condition. It is read as one entry, whose key
gives the field back if the key can carry it. A literal value is bound: by a binder of its own in a
comparison, and by the binder of the tree in a membership test. A node is compared as it is and
nothing is bound, but a tree that holds conditions is added in the place of a comparison.

* `run_read_key`: what the call is read as.
* `compare_literal`: what is added for a value that is no node.
* `compare_node`: what is added for a node, and how it is rendered later.
-/

namespace WhereClause

/-- The tree that is nested in the place of a comparison, if the value is one with conditions. -/
def Forest.filledTree? (forest : Forest) (value : Value) : Option NodeId :=
  value.node?.filter forest.isFilledTree

theorem Forest.filledTree?_of_flat (forest : Forest) {value : Value} (flat : value.node? = none) :
    forest.filledTree? value = none := by
  rw [filledTree?, flat, Option.filter_none]

namespace Comparator

variable (comparator : Comparator)

def isMembership : Comparator → Bool
  | among | notAmong => true
  | _ => false

theorem isMembership_operator (field : String) :
    Key.isMembership ⟨field, comparator.operator⟩ = comparator.isMembership := by
  show Key.isMembership ⟨"", comparator.operator⟩ = _
  cases comparator <;> decide +kernel

theorem trim_operator_ne : Text.trim comparator.operator ≠ "" := by
  cases comparator <;> decide +kernel

/-- What a comparison by name is read as. -/
def item (forest : Forest) (field : String) (value : Value) : Item :=
  match forest.filledTree? value with
  | some id => .nested id
  | none => .field (Key.split (comparator.key field)) value

def entry (forest : Forest) (field : String) (value : Value) : Entry :=
  match forest.filledTree? value with
  | some id => .nested id
  | none => .field (Key.split (comparator.key field))

theorem classify_key (forest : Forest) (field : String) (value : Value) :
    Entry.classify forest (.text (comparator.key field)) value =
      comparator.entry forest field value := by
  simp only [Entry.classify, Value.isNumeric, comparator.not_isNumeral_key, Bool.false_eq_true,
    if_false, Entry.underName, Forest.plainText, comparator.connective?_key,
    comparator.not_isNegation_key, entry, Forest.filledTree?]
  cases value with
  | node id =>
      by_cases filled : forest.isFilledTree id = true <;>
        simp [Value.node?, Option.filter_some, filled]
  | _ => rfl

end Comparator

/-- The types that are given with a comparison by name. -/
def declaring (field : String) (type : Option String) : Value :=
  .dict .passing ((type.filter (· ≠ "")).toList.map fun s => (.text field, .text s))

/-- The type that a name has when a comparison by name declares one for its own field. -/
def declaredFor (field : String) (type : Option String) (name : String) : Option String :=
  if field = name then type.filter (· ≠ "") else none

theorem declaredType_declaring (field : String) (type : Option String) (name : String) :
    declaredType (declaring field type) name = .ok (.ofText? (declaredFor field type name)) := by
  unfold declaring declaredFor
  cases type.filter (· ≠ "") with
  | none => simp [declaredType, Value.ofText?]
  | some s => by_cases same : field = name <;> simp [declaredType, Value.ofText?, Value.text?, same]

/-! ## Names that were handed out -/

namespace Binder

variable (settings : Settings) (value : Value) (type : Option String)

theorem placeholder_fragmentOf (name : String) :
    (⟨fragmentOf name, value, type⟩ : Binding).placeholder settings =
      if name.toList.head? = some ':' ∧ name ≠ ":" then name else settings.positionalMark := by
  unfold BindingOf.placeholder fragmentOf
  split
  · rename_i rest chars
    have whole : ":" ++ String.ofList rest = name := by
      rw [← String.toList_inj]
      simp [chars]
    cases rest with
    | nil =>
        have alone : name = ":" := whole.symm
        simp [alone]
    | cons c rest =>
        have longer : name ≠ ":" := by
          rintro rfl
          cases chars
        simp only [chars, List.head?_cons, longer, ne_eq, not_false_eq_true, and_self, if_true,
          whole]
        simp
  · rename_i other
    have unnamed : ¬ name.toList.head? = some ':' := by
      intro first
      obtain ⟨rest, chars⟩ := List.head?_eq_some_iff.mp first
      exact other rest chars
    simp [unnamed]

/-- What is bound for a field is bound under the name that is handed out for it, unless the field is
a colon. -/
theorem placeholder_nextName (field : String) (b : Binder) :
    (⟨fragmentOf (b.nextName settings field), value, type⟩ : Binding).placeholder settings =
      if field = ":" then settings.positionalMark else b.nextName settings field := by
  rw [placeholder_fragmentOf]
  simp only [nextName, next, nameFor, Value.isNumeric]
  by_cases numeral : isNumeral field = true
  · have other : field ≠ ":" := by
      rintro rfl
      revert numeral
      decide
    simp only [numeral, if_true, ite_self]
  · by_cases colon : field.toList.head? = some ':'
    · by_cases alone : field = ":"
      · subst alone
        simp [numeral]
      · simp [numeral, colon, alone]
    · have other : field ≠ ":" := by
        rintro rfl
        exact colon rfl
      have named : (synthesized settings b.identifier b.count).toList.head? = some ':' := by
        simp [synthesized]
      have longer : synthesized settings b.identifier b.count ≠ ":" := by
        intro same
        have marked : '_' ∈ (synthesized settings b.identifier b.count).toList := by
          simp [synthesized]
        rw [same] at marked
        revert marked
        decide
      simp [numeral, colon, other, named, longer]

end Binder

theorem Settings.memberType_filter (settings : Settings) (type : Option String) :
    settings.memberType (type.filter (· ≠ "")) =
      settings.withMarker ((type.filter (· ≠ "")).getD settings.defaultMultiType) := by
  cases type with
  | none => rfl
  | some s => by_cases empty : s = "" <;> simp [Settings.memberType, Option.filter_some, empty]

namespace Workspace

/-- The condition is a comparison of the field with the operand, on a binder that is made for it. -/
structure Compares (w after : Workspace) (field operator : String) (operand : Operand)
    (type : Option String) (own : Binder) (condition : Value) : Prop where
  condition : condition = .node ⟨w.nodes.size⟩
  node : after.node ⟨w.nodes.size⟩ = .comparison {
    field
    operand
    type
    operator
    binder := ⟨w.binders.size⟩ }
  own : after.binder ⟨w.binders.size⟩ = own
  binder : ∀ b, b.index < w.binders.size → after.binder b = w.binder b

/-- The condition is a text with a placeholder, to which the binder has bound the value with a type
that holds the marker. -/
structure Tests (w after : Workspace) (b : BinderId) (field operator name : String) (value : Value)
    (type : String) (condition : Value) : Prop where
  condition : condition = .text (field ++ " " ++ operator ++ " (" ++ name ++ ")")
  binder : (after.binder b).bindings =
    Table.put (w.binder b).count ⟨fragmentOf name, value, some type⟩ (w.binder b).bindings
  count : (after.binder b).count = (w.binder b).count + 1
  marked : w.settings.marks type = true
  named : field ≠ ":" →
    (⟨fragmentOf name, value, some type⟩ : Binding).placeholder w.settings = name

section Kinds

variable {p : Policy} {w after : Workspace} {id : NodeId} {node : Node}

theorem kind_of_moves {trace : List Handout} (moves : Moves p w trace after)
    (kind : w.node id = node) (present : node ≠ .abstract) (notTree : ∀ j, node ≠ .junction j) :
    after.node id = node := by
  induction moves with
  | refl => exact kind
  | tail _ move ih => exact move.endures.of_kind ih present notTree

/-- A node that is no tree stays what it is, whatever is done. -/
theorem kind_after (builds : p.builds) (renders : p.renders) (made : w.WellMade)
    {operations : List Operation} (allows : w.Allows p operations) (kind : w.node id = node)
    (present : node ≠ .abstract) (notTree : ∀ j, node ≠ .junction j) :
    (w.after operations).node id = node := by
  induction operations generalizing w with
  | nil => exact kind
  | cons operation rest ih =>
      obtain ⟨trace, moves⟩ := moves_perform builds renders made allows.1
      have kept := kind_of_moves moves kind present notTree
      exact ih (made.perform builds renders allows.1) allows.2 kept

end Kinds

end Workspace

namespace WorkspaceM

variable {w middle : Workspace} {tree : NodeId} {j : Junction} {comparator : Comparator}
  {field : String} {value : Value} {type : Option String}

theorem run_log_nil (w : Workspace) : run (log []) w = (.ok (), w) := by
  rw [run_log, List.map_nil, List.append_nil]

theorem run_read_key (comparator : Comparator) (field : String) (value : Value) (w : Workspace) :
    run (Item.read (.dict .passing [(.text (comparator.key field), value)])) w =
      (.ok [comparator.item w.toForest field value], w) := by
  have view : w.view (.dict .passing [(.text (comparator.key field), value)]) =
      .dict (.dict .passing [(.text (comparator.key field), value)])
        [(.atom (.text (comparator.key field)), w.view value)] := by
    simp only [Forest.view, Forest.viewWithin_eq, View.ofValue, View.ofEntries]
  have key : (View.atom (.text (comparator.key field))).value = .text (comparator.key field) := rfl
  have events : Item.eventsOfView w.toForest
      (w.view (.dict .passing [(.text (comparator.key field), value)])) = [] := by
    rw [view, Item.eventsOfView, Item.eventsOfEntries, Item.eventsOfEntries, key,
      Forest.value_view, comparator.classify_key, Comparator.entry]
    cases w.filledTree? value <;> rfl
  have items : Item.ofView w.toForest
      (w.view (.dict .passing [(.text (comparator.key field), value)])) =
      [comparator.item w.toForest field value] := by
    rw [view, Item.ofView, Item.ofEntries, Item.ofEntries, key, Forest.value_view,
      comparator.classify_key, Comparator.entry, Comparator.item]
    cases w.filledTree? value <;> rfl
  rw [Item.read, run_bind, run_forest]
  dsimp only
  rw [events, items, run_bind_ok (run_log_nil w), run_pure]

theorem run_addComparison (found : w.junction? tree = some j) (isOpen : j.compiled = none) :
    run (addComparison tree comparator.operator (.text field) value (.ofText? type)) w =
      run (extend tree (declaring field type) [comparator.item w.toForest field value]) w := by
  have opened := run_discard_ok (run_openJunction found isOpen)
  have adds (types : Value) :
      run (add tree (.dict .passing [(.text (comparator.key field), value)]) types) w =
        run (extend tree (if w.isTruthy types then types else .dict .passing [])
          [comparator.item w.toForest field value]) w := by
    rw [add, run_bind_ok opened, run_bind_ok (run_read_key comparator field value w), run_bind,
      run_get]
  have text : run (textOf (.text field)) w = (.ok field, w) := rfl
  have given (types : Value) (same : declaring field type =
      if w.isTruthy types then types else .dict .passing []) :
      run (add tree (.dict .passing [(.text (comparator.key field), value)]) types) w =
        run (extend tree (declaring field type) [comparator.item w.toForest field value]) w := by
    rw [adds, same]
  rw [addComparison, run_bind_ok text]
  cases type with
  | none => exact given (.dict .passing []) rfl
  | some s =>
      by_cases empty : s = ""
      · subst empty
        exact given (.dict .passing []) rfl
      · have truthy : w.isTruthy (.text s) = true := by simp [Forest.isTruthy, empty]
        simp only [Value.ofText?, run_bind, run_get, truthy, Bool.not_true, Bool.false_eq_true,
          if_false, Value.isHashable, if_true, run_pure]
        exact given _ (by simp [declaring, empty, Forest.isTruthy])

theorem run_extend_single {types condition : Value} {item : Item}
    (built : run (build tree types item) w = (.ok (some condition), middle))
    (found : middle.junction? tree = some j) :
    run (extend tree types [item]) w = (.ok (), { middle with
      toForest := middle.setNode tree
        (.junction { j with conditions := j.conditions ++ [condition] }) }) := by
  rw [extend, run_bind_ok built]
  dsimp only
  rw [run_bind_ok (run_attach found condition), extend, run_pure]

/-! ## Literals -/

variable (field type) in
theorem run_buildField_test (key : Key) (member : key.isMembership = true)
    (flat : value.node? = none) (found : w.junction? tree = some j) :
    let bound := w.settings.memberType (declaredFor field type key.field)
    run (buildField tree (declaring field type) key value) w =
      (.ok (.text (key.membership ((w.binder j.binder).nextName w.settings key.field))), { w with
        toForest := w.setBinder j.binder
          ((w.binder j.binder).registered w.settings key.field value (.text bound)) }) := by
  have test := run_buildMembership key value
    (w.settings.memberType (declaredFor field type key.field)) found
  simp only [buildField, declaredType_declaring, run_bind, run_ofExcept_ok, member, if_true,
    run_membershipType]
  cases value with
  | node id => cases flat
  | _ => exact test

variable (field type) in
theorem run_buildField_bound (key : Key) (single : key.isMembership = false)
    (flat : value.node? = none) (w : Workspace) :
    let own := Binder.fresh w.nextIdentifier
    let given := declaredFor field type key.field
    ∃ after, run (buildField tree (declaring field type) key value) w =
        (.ok (.node ⟨w.nodes.size⟩), after) ∧
      after.binders = w.binders.push
        (own.registered w.settings key.field value (.ofText? given)) ∧
      after.nodes = w.nodes.push (.comparison {
        field := key.field
        operand := .bound value (own.nextName w.settings key.field)
        type := given
        operator := key.operator
        binder := ⟨w.binders.size⟩ }) := by
  obtain ⟨after, build, -, -, -, binders, nodes⟩ :=
    run_buildComparison key flat (declaredFor field type key.field) w
  refine ⟨after, ?_, binders, nodes⟩
  simp only [buildField, declaredType_declaring, run_bind, run_ofExcept_ok, single,
    Bool.false_eq_true, if_false]
  exact build

section Adding

variable (found : w.junction? tree = some j) (isOpen : j.compiled = none)

include found isOpen

theorem run_addComparison_of_field {condition : Value} (unfilled : w.filledTree? value = none)
    (built : run (buildField tree (declaring field type) (Key.split (comparator.key field)) value)
      w = (.ok condition, middle))
    (still : middle.junction? tree = some j) :
    run (addComparison tree comparator.operator (.text field) value (.ofText? type)) w =
      (.ok (), { middle with
        toForest := middle.setNode tree
          (.junction { j with conditions := j.conditions ++ [condition] }) }) := by
  have item : comparator.item w.toForest field value =
      .field (Key.split (comparator.key field)) value := by
    rw [Comparator.item, unfilled]
  rw [run_addComparison found isOpen, item]
  exact run_extend_single (by rw [build, run_map_ok built]) still

variable (comparator field type) in
theorem run_addComparison_of_filled {operand : NodeId} (filled : w.isFilledTree operand = true) :
    run (addComparison tree comparator.operator (.text field) (.node operand) (.ofText? type)) w =
      (.ok (), { w with
        toForest := w.setNode tree
          (.junction { j with conditions := j.conditions ++ [.node operand] }) }) := by
  have item : comparator.item w.toForest field (.node operand) = .nested operand := by
    simp [Comparator.item, Forest.filledTree?, Value.node?, Option.filter_some, filled]
  rw [run_addComparison found isOpen, item]
  exact run_extend_single rfl found

theorem adds_comparison {key : Key} {operand : Operand} {given : Option String} {own : Binder}
    (unfilled : w.filledTree? value = none)
    (built : run (buildField tree (declaring field type) (Key.split (comparator.key field)) value)
      w = (.ok (.node ⟨w.nodes.size⟩), middle))
    (binders : middle.binders = w.binders.push own)
    (nodes : middle.nodes = w.nodes.push (.comparison {
      field := key.field
      operand
      type := given
      operator := key.operator
      binder := ⟨w.binders.size⟩ })) :
    ∃ after,
      run (addComparison tree comparator.operator (.text field) value (.ofText? type)) w =
        (.ok (), after) ∧
      after.junction? tree =
        some { j with conditions := j.conditions ++ [.node ⟨w.nodes.size⟩] } ∧
      w.Compares after key.field key.operator operand given own (.node ⟨w.nodes.size⟩) := by
  have bound : tree.index < w.nodes.size := Forest.index_lt_of_tree found
  have still : middle.junction? tree = some j :=
    (Forest.junction?_of_push nodes bound).trans found
  have other : tree ≠ ⟨w.nodes.size⟩ := by
    rintro rfl
    exact bound.ne rfl
  refine ⟨_, run_addComparison_of_field found isOpen unfilled built still, ?_, rfl, ?_, ?_, ?_⟩
  · rw [Forest.junction?_setNode still, if_pos rfl]
  · rw [Forest.node_setNode_of_tree still, if_neg other, Forest.node_of_push nodes, if_pos rfl]
  · rw [Forest.binder_setNode, Forest.binder_of_push binders, if_pos rfl]
  · intro b old
    rw [Forest.binder_setNode, Forest.binder_of_push binders, if_neg old.ne]

variable (flat : value.node? = none)

include flat

variable (type) in
theorem adds_test (member : (Key.split (comparator.key field)).isMembership = true)
    (known : j.binder.index < w.binders.size) :
    ∃ condition after,
      run (addComparison tree comparator.operator (.text field) value (.ofText? type)) w =
        (.ok (), after) ∧
      after.junction? tree = some { j with conditions := j.conditions ++ [condition] } ∧
      (Key.Carries field → w.Tests after j.binder field comparator.operator
        ((w.binder j.binder).nextName w.settings field) value
        (w.settings.withMarker ((type.filter (· ≠ "")).getD w.settings.defaultMultiType))
        condition) := by
  have built := run_buildField_test field type _ member flat found
  have adds := run_addComparison_of_field found isOpen (w.filledTree?_of_flat flat) built found
  refine ⟨_, _, adds, (Forest.junction?_setNode found _ tree).trans (if_pos rfl), fun carries => ?_⟩
  have split := comparator.split_key carries
  have own := Binder.registered_eq w.settings field value
    (some (w.settings.memberType (declaredFor field type field))) (w.binder j.binder)
  have declared : declaredFor field type field = type.filter (· ≠ "") := if_pos rfl
  rw [declared, w.settings.memberType_filter] at own
  simp only [split, declared, w.settings.memberType_filter]
  constructor
  · rfl
  · simp only [Forest.binder_setNode, Forest.binder_setBinder, known, and_self, if_true]
    exact congrArg Binder.bindings own
  · simp only [Forest.binder_setNode, Forest.binder_setBinder, known, and_self, if_true]
    exact congrArg Binder.count own
  · exact w.settings.marks_withMarker _
  · intro other
    rw [Binder.placeholder_nextName, if_neg other]

variable (type) in
theorem adds_bound (single : (Key.split (comparator.key field)).isMembership = false) :
    let own := Binder.fresh w.nextIdentifier
    let declared := type.filter (· ≠ "")
    ∃ condition after,
      run (addComparison tree comparator.operator (.text field) value (.ofText? type)) w =
        (.ok (), after) ∧
      after.junction? tree = some { j with conditions := j.conditions ++ [condition] } ∧
      (Key.Carries field → w.Compares after field comparator.operator
        (.bound value (own.nextName w.settings field)) declared
        (own.registered w.settings field value (.ofText? declared)) condition) := by
  intro own declared
  obtain ⟨middle, built, binders, nodes⟩ :=
    run_buildField_bound field type _ single flat w
  obtain ⟨after, adds, last, compares⟩ :=
    adds_comparison found isOpen (w.filledTree?_of_flat flat) built binders nodes
  refine ⟨_, after, adds, last, fun carries => ?_⟩
  have given : declaredFor field type field = declared := if_pos rfl
  simp only [comparator.split_key carries, given] at compares
  exact compares

end Adding

/-- A value that is no node is compared by one condition: the call is read as one field, which is
the field that was given if a key can carry it. -/
theorem compare_literal (n : Nat) {operations : List Operation}
    (allows : Workspace.Allows .free { nextIdentifier := n } operations)
    (ran : Workspace.after { nextIdentifier := n } operations = w)
    (found : w.junction? tree = some j) (isOpen : j.compiled = none) (comparator : Comparator)
    (field : String) (flat : value.node? = none) (type : Option String) :
    let key := Key.split (comparator.key field)
    let declared := type.filter (· ≠ "")
    let own := Binder.fresh w.nextIdentifier
    run (Item.read (.dict .passing [(.text (comparator.key field), value)])) w =
        (.ok [.field key value], w) ∧
      (key = ⟨field, comparator.operator⟩ ↔ Key.Carries field) ∧
      ∃ condition after,
        run (addComparison tree comparator.operator (.text field) value (.ofText? type)) w =
          (.ok (), after) ∧
        after.junction? tree = some { j with conditions := j.conditions ++ [condition] } ∧
        (Key.Carries field →
          (comparator.isMembership = false →
            w.Compares after field comparator.operator
              (.bound value (own.nextName w.settings field)) declared
              (own.registered w.settings field value (.ofText? declared)) condition) ∧
          (comparator.isMembership = true →
            w.Tests after j.binder field comparator.operator
              ((w.binder j.binder).nextName w.settings field) value
              (w.settings.withMarker (declared.getD w.settings.defaultMultiType)) condition)) := by
  have made : w.WellMade := ran ▸ (Workspace.WellMade.empty n).after trivial trivial allows
  have read := run_read_key comparator field value w
  rw [Comparator.item, w.filledTree?_of_flat flat] at read
  refine ⟨read, comparator.split_key_iff, ?_⟩
  have same (carries : Key.Carries field) :
      (Key.split (comparator.key field)).isMembership = comparator.isMembership := by
    rw [comparator.split_key carries, comparator.isMembership_operator]
  cases member : (Key.split (comparator.key field)).isMembership with
  | true =>
      obtain ⟨condition, after, adds, last, tests⟩ :=
        adds_test type found isOpen flat member (made.binder tree j found)
      refine ⟨condition, after, adds, last, fun carries => ⟨fun single => ?_, fun _ => ?_⟩⟩
      · simp [← same carries, member] at single
      · exact tests carries
  | false =>
      obtain ⟨condition, after, adds, last, compares⟩ :=
        adds_bound type found isOpen flat member
      refine ⟨condition, after, adds, last, fun carries => ⟨fun _ => ?_, fun test => ?_⟩⟩
      · exact compares carries
      · simp [← same carries, member] at test

/-- A tree without conditions and a fragment. -/
def bare : List Operation :=
  [.newTree .null .null .null none, .newFragment (some (.text "SELECT 1"))]

def bareTree : Junction := ⟨.text "AND", [], [], ⟨0⟩, none⟩

theorem allows_bare (p : Policy) : Workspace.Allows p { nextIdentifier := 1 } bare :=
  ⟨⟨nofun, by simp⟩, trivial, trivial⟩

theorem carries_x : Key.Carries "x" := ⟨by decide, by decide, by rintro c ⟨⟩; decide⟩

theorem compare_literal_among :
    let w := Workspace.after { nextIdentifier := 1 } bare
    let values : Value := .list .passing [.int 1, .int 2]
    Workspace.Allows .free { nextIdentifier := 1 } bare ∧ w.junction? ⟨0⟩ = some bareTree ∧
      values.node? = none ∧ Key.Carries "x" ∧
      ∃ after, run (addComparison ⟨0⟩ "IN" (.text "x") values (.text "int")) w = (.ok (), after) ∧
        after.junction? ⟨0⟩ = some { bareTree with conditions := [.text "x IN (:c1_0)"] } ∧
        (after.binder ⟨0⟩).bindings = [(0, ⟨"c1_0", values, some "int[]"⟩)] := by
  intro w values
  obtain ⟨-, -, condition, after, adds, tree, named⟩ := compare_literal 1 (allows_bare .free) rfl
    (show w.junction? ⟨0⟩ = some bareTree from rfl) rfl .among "x"
    (show values.node? = none from rfl) (some "int")
  have tests := (named carries_x).2 rfl
  have name : (w.binder bareTree.binder).nextName w.settings "x" = ":c1_0" := by decide +kernel
  have fragment : fragmentOf ":c1_0" = "c1_0" := by decide +kernel
  have condition_eq : condition = .text "x IN (:c1_0)" := by
    rw [tests.condition, name]
    rfl
  have bindings_eq : (after.binder bareTree.binder).bindings =
      [(0, ⟨"c1_0", values, some "int[]"⟩)] := by
    rw [tests.binder, name, fragment]
    rfl
  rw [condition_eq] at tree
  exact ⟨allows_bare .free, rfl, rfl, carries_x, after, adds, tree, bindings_eq⟩

/-- A colon is carried by a key, but it is handed out as it is, and what is bound under it is
positional. -/
theorem compare_literal_colon :
    let w := Workspace.after { nextIdentifier := 1 } bare
    let values : Value := .list .passing [.int 1]
    Key.Carries ":" ∧
      ∃ after binding, run (addComparison ⟨0⟩ "IN" (.text ":") values .null) w = (.ok (), after) ∧
        after.junction? ⟨0⟩ = some { bareTree with conditions := [.text ": IN (:)"] } ∧
        (after.binder ⟨0⟩).bindings = [(0, binding)] ∧
        binding.placeholder w.settings = "?" ∧ "?" ≠ ":" := by
  intro w values
  have carries : Key.Carries ":" := ⟨by decide, by decide, by rintro c ⟨⟩; decide⟩
  have found : w.junction? ⟨0⟩ = some bareTree := rfl
  have member : (Key.split (Comparator.key .among ":")).isMembership = true := by decide +kernel
  obtain ⟨condition, after, adds, tree, tests⟩ :=
    adds_test none found rfl (show values.node? = none from rfl) member (by decide)
  have name : (w.binder bareTree.binder).nextName w.settings ":" = ":" := by decide +kernel
  have fragment : fragmentOf ":" = "" := by decide +kernel
  have condition_eq : condition = .text ": IN (:)" := by
    rw [(tests carries).condition, name]
    rfl
  have marked : w.settings.withMarker w.settings.defaultMultiType = "string[]" := by
    decide +kernel
  have bindings_eq : (after.binder bareTree.binder).bindings =
      [(0, ⟨"", values, some "string[]"⟩)] := by
    rw [(tests carries).binder, name, fragment, Option.filter_none, Option.getD_none, marked]
    rfl
  rw [condition_eq] at tree
  exact ⟨carries, after, _, adds, tree, bindings_eq, by decide +kernel, by decide⟩

/-! ## Nodes -/

variable (tree field type) in
theorem run_buildField_nested (key : Key) (operand : NodeId) (w : Workspace) :
    let declared := declaredFor field type key.field
    ∃ after, run (buildField tree (declaring field type) key (.node operand)) w =
        (.ok (.node ⟨w.nodes.size⟩), after) ∧
      after.binders = w.binders.push (.fresh w.nextIdentifier) ∧
      after.nodes = w.nodes.push (.comparison {
        field := key.field
        operand := .nested operand
        type := if key.isMembership then some (w.settings.memberType declared) else declared
        operator := key.operator
        binder := ⟨w.binders.size⟩ }) := by
  have typed (given : Option String) : (Value.ofText? given).toType = .ok given := by
    cases given <;> rfl
  have build (given : Option String) :
      ∃ after, run (buildComparison key (.node operand) (.ofText? given)) w =
          (.ok (.node ⟨w.nodes.size⟩), after) ∧
        after.binders = w.binders.push (.fresh w.nextIdentifier) ∧
        after.nodes = w.nodes.push (.comparison {
          field := key.field
          operand := .nested operand
          type := given
          operator := key.operator
          binder := ⟨w.binders.size⟩ }) := by
    simp only [buildComparison, newComparison, newOperand, run_bind, run_takeIdentifier,
      Value.givenText, Value.toText, Option.getD_some, typed, run_addBinder, run_addNode, run_pure]
    exact ⟨_, rfl, rfl, rfl⟩
  intro declared
  cases member : key.isMembership with
  | true =>
      simp only [buildField, declaredType_declaring, run_bind, run_ofExcept_ok, member, if_true,
        run_membershipType]
      exact build (some (w.settings.memberType declared))
  | false =>
      simp only [buildField, declaredType_declaring, run_bind, run_ofExcept_ok, member,
        Bool.false_eq_true, if_false]
      exact build declared

variable (comparator type) in
theorem adds_nested (found : w.junction? tree = some j) (isOpen : j.compiled = none)
    {operand : NodeId} (unfilled : w.isFilledTree operand = false)
    (carries : Key.Carries field) :
    let declared := type.filter (· ≠ "")
    ∃ after, run (addComparison tree comparator.operator (.text field) (.node operand)
        (.ofText? type)) w = (.ok (), after) ∧
      after.junction? tree =
        some { j with conditions := j.conditions ++ [.node ⟨w.nodes.size⟩] } ∧
      w.Compares after field comparator.operator (.nested operand)
        (if comparator.isMembership then
          some (w.settings.withMarker (declared.getD w.settings.defaultMultiType))
        else declared) (.fresh w.nextIdentifier) (.node ⟨w.nodes.size⟩) := by
  intro declared
  have notFilled : w.filledTree? (.node operand) = none := by
    simp [Forest.filledTree?, Value.node?, Option.filter_some, unfilled]
  obtain ⟨middle, built, binders, nodes⟩ := run_buildField_nested tree field type
    (Key.split (comparator.key field)) operand w
  obtain ⟨after, adds, last, compares⟩ :=
    adds_comparison found isOpen notFilled built binders nodes
  have given : declaredFor field type field = type.filter (· ≠ "") := if_pos rfl
  simp only [comparator.split_key carries, given, comparator.isMembership_operator,
    w.settings.memberType_filter] at compares
  exact ⟨after, adds, last, compares⟩

/-- A comparison with a node is rendered by wrapping the node. -/
theorem run_sql_nested {last final : Workspace} {id operand : NodeId} {c : Comparison} {s : String}
    (made : last.WellMade) (present : last.Present) (kind : last.node id = .comparison c)
    (operator : Text.trim c.operator ≠ "") (nested : c.operand = .nested operand)
    (done : run (wrapped operand) last = (.ok s, final)) :
    run (sql id) last = (.ok (c.field ++ " " ++ c.operator ++ " " ++ s), final) := by
  have low := run_wrappedWithin_of_wrapped made present done
  have once : run (renderNode (sqlWithin last.nodes.size) (wrappedWithin last.nodes.size) id) last =
      (.ok (c.field ++ " " ++ c.operator ++ " " ++ s), final) := by
    simp only [renderNode, run_bind, run_get, kind, renderComparison, if_neg operator, nested, low,
      run_pure]
  rw [sql, run_bind, run_get]
  exact run_askAgain_ok once

/-- A node is compared as it is and nothing is bound: by one comparison, which is rendered with the
node wrapped whenever that can be, or, if the node is a tree with conditions, by no comparison at
all, and the tree takes its place. -/
theorem compare_node (n : Nat) {before later : List Operation} {last : Workspace}
    {operand : NodeId}
    (allows : Workspace.Allows .free { nextIdentifier := n } (before ++
      .compare tree comparator (.text field) (.node operand) (.ofText? type) :: later))
    (ran : Workspace.after { nextIdentifier := n } before = w)
    (performed : w.perform (.compare tree comparator (.text field) (.node operand)
      (.ofText? type)) = middle)
    (ended : middle.after later = last) (found : w.junction? tree = some j)
    (isOpen : j.compiled = none) (carries : Key.Carries field) :
    let declared := type.filter (· ≠ "")
    run (addComparison tree comparator.operator (.text field) (.node operand) (.ofText? type)) w =
        (.ok (), middle) ∧
      (w.isFilledTree operand = true → middle = { w with
        toForest := w.setNode tree
          (.junction { j with conditions := j.conditions ++ [.node operand] }) }) ∧
      (w.isFilledTree operand = false →
        middle.junction? tree =
          some { j with conditions := j.conditions ++ [.node ⟨w.nodes.size⟩] } ∧
        w.Compares middle field comparator.operator (.nested operand)
          (if comparator.isMembership then
            some (w.settings.withMarker (declared.getD w.settings.defaultMultiType))
          else declared) (.fresh w.nextIdentifier) (.node ⟨w.nodes.size⟩) ∧
        (last.Present → ∀ s final, run (wrapped operand) last = (.ok s, final) →
          run (sql ⟨w.nodes.size⟩) last =
            (.ok (field ++ " " ++ comparator.operator ++ " " ++ s), final))) := by
  obtain ⟨allowed, fits, rest⟩ := Workspace.allows_append.mp allows
  rw [ran] at fits rest
  have made : w.WellMade := ran ▸ (Workspace.WellMade.empty n).after trivial trivial allowed
  have called {after : Workspace} (adds : run (addComparison tree comparator.operator (.text field)
      (.node operand) (.ofText? type)) w = (.ok (), after)) : after = middle := by
    rw [← performed]
    exact (congrArg Prod.snd adds).symm
  cases filled : w.isFilledTree operand with
  | true =>
      have adds := run_addComparison_of_filled comparator field type found isOpen filled
      have same := called adds
      exact ⟨same ▸ adds, fun _ => same.symm, nofun⟩
  | false =>
      obtain ⟨after, adds, tree, compares⟩ :=
        adds_nested comparator type found isOpen filled carries
      obtain rfl := called adds
      refine ⟨adds, nofun, fun _ => ⟨tree, compares, fun present s final done => ?_⟩⟩
      rw [performed] at rest
      have middleMade : after.WellMade := performed ▸ made.perform trivial trivial fits
      have kind := Workspace.kind_after trivial trivial middleMade rest compares.node nofun nofun
      rw [ended] at kind
      have lastMade : last.WellMade := ended ▸ middleMade.after trivial trivial rest
      have text := run_sql_nested lastMade present kind comparator.trim_operator_ne rfl done
      exact text

/-- The fragment is taken for the values of a membership test. -/
def subquery : Operation := .compare ⟨0⟩ .among (.text "x") (.node ⟨1⟩) (.ofText? none)

def tested : Workspace := (Workspace.after { nextIdentifier := 1 } bare).perform subquery

def testedTree : Junction := ⟨.text "AND", [.node ⟨2⟩], [], ⟨0⟩, none⟩

theorem nodes_tested : tested.nodes = #[.junction testedTree, .fragment "SELECT 1",
    .comparison ⟨"x", .nested ⟨1⟩, some ("string" ++ "[]"), "IN", ⟨1⟩⟩] := rfl

theorem binders_tested : tested.binders = #[.fresh 1, .fresh 2] := rfl

theorem present_tested : tested.Present := by
  refine .of_conditions rfl ?_ ?_ ?_
  · intro id j found v member
    obtain ⟨_ | _ | _ | i⟩ := id <;> simp [Forest.junction?, Forest.node, nodes_tested] at found
    subst found
    simp [testedTree] at member
    exact member ▸ Workspace.made_node _
  · intro id u kind
    obtain ⟨_ | _ | _ | i⟩ := id <;> simp [Forest.node, nodes_tested] at kind
  · intro id entry member
    obtain ⟨_ | _ | i⟩ := id <;> simp [Forest.binder, binders_tested, Binder.fresh] at member

theorem compare_node_fragment :
    let w := Workspace.after { nextIdentifier := 1 } bare
    Workspace.Allows .free { nextIdentifier := 1 } (bare ++ [subquery]) ∧
      w.junction? ⟨0⟩ = some bareTree ∧ Key.Carries "x" ∧ w.isFilledTree ⟨1⟩ = false ∧
      tested.Present ∧ tested.junction? ⟨0⟩ = some testedTree ∧
      ∃ final, run (sql ⟨2⟩) tested = (.ok "x IN (SELECT 1)", final) := by
  intro w
  have allows : Workspace.Allows .free { nextIdentifier := 1 } (bare ++ [subquery]) :=
    ⟨⟨nofun, by simp⟩, trivial, trivial, trivial⟩
  have wraps : (run (wrapped ⟨1⟩) tested).1.toOption = some "(SELECT 1)" := by decide +kernel
  obtain ⟨-, -, unfilled⟩ := compare_node 1 allows (show Workspace.after _ bare = w from rfl)
    (show _ = tested from rfl) (show tested.after [] = tested from rfl)
    (show w.junction? ⟨0⟩ = some bareTree from rfl) rfl carries_x
  obtain ⟨tree, -, renders⟩ := unfilled rfl
  have text := renders present_tested _ _ (run_ok_of_toOption wraps)
  exact ⟨allows, rfl, carries_x, rfl, present_tested, tree, _, text⟩

/-- A tree with two conditions beside the others. -/
def besideGroup : List Operation :=
  bare ++ [.newTree (.list .passing [.text "a = 1", .text "b = 2"]) .null .null none]

/-- The field and the operator are not kept if the node is a tree with conditions. -/
theorem compare_node_filled :
    let w := Workspace.after { nextIdentifier := 1 } besideGroup
    Key.Carries "x" ∧ w.isFilledTree ⟨2⟩ = true ∧
      ∃ after, run (addComparison ⟨0⟩ "=" (.text "x") (.node ⟨2⟩) .null) w = (.ok (), after) ∧
        after.junction? ⟨0⟩ = some { bareTree with conditions := [.node ⟨2⟩] } ∧
        ∀ c, after.node ⟨2⟩ ≠ .comparison c := by
  intro w
  have found : w.junction? ⟨0⟩ = some bareTree := rfl
  have filled : w.isFilledTree ⟨2⟩ = true := rfl
  have adds := run_addComparison_of_filled .equal "x" none found rfl filled
  exact ⟨carries_x, filled, _, adds, rfl, nofun⟩

end WorkspaceM
end WhereClause
