import WhereClause.Proofs.Calm
import WhereClause.Proofs.Collecting
import WhereClause.Proofs.Outcomes

/-!
# Values in positions

After a calm run the positional marks in the text of a tree are those of the comparisons below it,
and their values are collected in the order of the marks. Nothing else is bound without a name: what
a membership test binds by position is expanded into names when its tree is compiled.

* `marked_of_spells`: the values below a node come in the order in which its writing marks them.
-/

namespace WhereClause

namespace Segment

def isMarked (segment : Segment) : Bool := segment.text.toList.contains '?'

/-- The segment is the positional mark of a comparison with the value. -/
def Marks (forest : Forest) (segment : Segment) (v : Value) : Prop :=
  ∃ owner c, segment = .placeholder owner "?" ∧ forest.node owner = .comparison c ∧
    c.operand = .bound v "?"

theorem not_isMarked_words {s : String} (noMark : '?' ∉ s.toList) :
    isMarked (.words s) = false := by
  simpa [isMarked, text] using noMark

end Segment

namespace Writing

def marks (writing : Writing) : List Segment := writing.filter Segment.isMarked

@[simp] theorem marks_nil : marks [] = [] := rfl

@[simp] theorem marks_append (writing more : Writing) :
    marks (writing ++ more) = marks writing ++ marks more := List.filter_append _ _

theorem marks_words {s : String} (noMark : '?' ∉ s.toList) (writing : Writing) :
    marks (.words s :: writing) = writing.marks := by
  rw [marks, List.filter_cons, if_neg (by simp [Segment.not_isMarked_words noMark])]
  rfl

theorem marks_enclosed (writing : Writing) : marks writing.enclosed = writing.marks := by
  rw [enclosed, marks_words (by decide), marks_append, marks_words (by decide), marks_nil,
    List.append_nil]

theorem marks_joined {connective : String} (noMark : '?' ∉ connective.toList)
    (parts : List Writing) : marks (joined connective parts) = parts.flatMap marks := by
  have between : '?' ∉ (" " ++ connective ++ " ").toList := by simp [noMark]
  have body : marks (List.intercalate [.words (" " ++ connective ++ " ")] parts) =
      parts.flatMap marks := by
    induction parts with
    | nil => rfl
    | cons part rest ih =>
        cases rest with
        | nil => simp
        | cons second rest =>
            rw [List.intercalate_cons_cons, marks_append, marks_append, marks_words between, ih]
            simp
  match parts with
  | [] | [_] => exact body
  | _ :: _ :: _ => exact (marks_enclosed _).trans body

theorem marks_applied {u : Unary} (bare : Text.Bare u.symbol) (argument : Writing) :
    marks (u.applied argument) = argument.marks := by
  have noMark := bare.mark
  unfold Unary.applied
  split
  · rw [marks_append, marks_words (by simp [noMark]), marks_nil, List.append_nil]
  · exact marks_words (by simp [noMark]) argument

theorem count_mark {writing : Writing} (alone : ∀ segment ∈ writing.marks, segment.text = "?") :
    writing.letters.count '?' = writing.marks.length := by
  induction writing with
  | nil => rfl
  | cons segment rest ih =>
      have later : ∀ other ∈ marks rest, other.text = "?" := fun other member =>
        alone other (by
          rw [marks, List.filter_cons]
          split
          · exact List.mem_cons_of_mem _ member
          · exact member)
      rw [letters_cons, List.count_append, ih later, marks, marks, List.filter_cons]
      split
      · rename_i marked
        have text := alone segment (List.mem_filter.mpr ⟨List.mem_cons_self, marked⟩)
        rw [text, List.length_cons, Nat.add_comm]
        rfl
      · rename_i unmarked
        have absent : '?' ∉ segment.text.toList := by simpa [Segment.isMarked] using unmarked
        rw [List.count_eq_zero.mpr absent, Nat.zero_add]

end Writing

/-! ## Positional values of nodes -/

/-- What joins conditions holds no positional mark. -/
def Wording.marking : Wording where
  named := False
  joins word := '?' ∉ word.toList
  keyword word known := by
    rcases known with rfl | rfl | rfl <;> decide +kernel

theorem positionalValues_append (bindings more : List Binding) :
    positionalValues (bindings ++ more) = positionalValues bindings ++ positionalValues more := by
  simp [positionalValues]

theorem positionalValues_of_named {bindings : List Binding}
    (named : ∀ binding ∈ bindings, binding.isNamed = true) : positionalValues bindings = [] := by
  simpa [positionalValues] using named

section

variable {forest : Forest} {id : NodeId}

/-- A part marks the positional values that are collected for its condition. -/
def Marked (forest : Forest) (v : Value) (writing : Writing) : Prop :=
  (∀ s, v = .text s → '?' ∉ s.toList → writing.marks = []) ∧
    ∀ id, v = .node id → ∀ texts, Settled forest (.node id) texts → ∀ depth,
      forest.rank id < depth → List.Forall₂ (Segment.Marks forest) writing.marks
        (positionalValues (forest.bindingsWithin depth [id]))

theorem Marked.of_node {writing : Writing}
    (each : ∀ texts, Settled forest (.node id) texts → ∀ depth, forest.rank id < depth + 1 →
      List.Forall₂ (Segment.Marks forest) writing.marks
        (positionalValues (forest.bindingsWithin depth (forest.node id).children) ++
          positionalValues (Table.values (forest.ownBindings id)))) :
    Marked forest (.node id) writing := by
  refine ⟨nofun, ?_⟩
  rintro _ ⟨⟩ texts settled depth deep
  obtain ⟨depth, rfl⟩ := Nat.exists_eq_succ_of_ne_zero (Nat.ne_of_gt (Nat.zero_lt_of_lt deep))
  rw [Forest.bindingsWithin_succ, positionalValues_append]
  exact each texts settled depth deep

theorem Marked.of_child (child : NodeId) (children : (forest.node id).children = [child])
    (own : positionalValues (Table.values (forest.ownBindings id)) = []) {writing inner : Writing}
    (same : writing.marks = inner.marks) (below : Marked forest (.node child) inner) :
    Marked forest (.node id) writing := by
  apply Marked.of_node
  intro texts settled depth deep
  have step : forest.Child id child := by simp [Forest.Child, children]
  obtain ⟨_, settled'⟩ := settled.child compiledReading_faithful step
  have lower := settled.rank_lt compiledReading_faithful step
  rw [own, children, List.append_nil, same]
  exact below.2 child rfl _ settled' depth (by omega)

theorem Marked.of_leaf (children : (forest.node id).children = [])
    (own : forest.ownBindings id = []) {writing : Writing} (none' : writing.marks = []) :
    Marked forest (.node id) writing := by
  apply Marked.of_node
  intro texts settled depth deep
  rw [own, children, none']
  exact .nil

theorem mark_notMem_intercalate {names : List String} (each : ∀ name ∈ names, '?' ∉ name.toList) :
    '?' ∉ (", ".intercalate names).toList := by
  induction names with
  | nil => simp
  | cons name rest ih =>
      obtain ⟨here, later⟩ := List.forall_mem_cons.mp each
      cases rest with
      | nil => simpa using here
      | cons second rest =>
          rw [String.intercalate_cons_cons]
          simpa [here] using ih later

/-- No condition of a compiled tree holds a positional mark: names stand in the place of members. -/
theorem Condition.mark_notMem_served {named : Prop} {own : Nat} {serving : Seat → List Seat}
    {condition : Condition} (fits : condition.Fits named)
    (seated : ∀ member ∈ condition.member?, ∀ seat ∈ serving member, seat.named = true) {s : String}
    (same : condition.served own serving = .text s) : '?' ∉ s.toList := by
  cases condition with
  | raw s =>
      cases same
      exact fits.mark
  | test key member =>
      cases same
      obtain ⟨field, operator, -⟩ := fits
      have inside : '?' ∉ (", ".intercalate ((serving member).map (Seat.name own))).toList := by
        apply mark_notMem_intercalate
        intro name given
        obtain ⟨seat, served, rfl⟩ := List.mem_map.mp given
        rw [Seat.name_of_named (seated member rfl seat served)]
        exact mark_notMem_mention own seat.number
      have opening : '?' ∉ key.opening := by simp [Key.opening, field.mark, operator.mark]
      rw [toList_membership, List.mem_append, List.mem_append, not_or, not_or]
      exact ⟨opening, inside, by decide⟩
  | node id => cases same

/-- A compiled tree binds names only, and its conditions are nodes and texts without marks. -/
theorem Junction.Neat.unmarked {wording : Wording} {j : Junction} {b : Binder}
    (neat : j.Neat wording b) (closed : j.compiled.isSome = true) :
    wording.joins j.connective.written ∧
      (∃ rendered, j.compiled = some rendered ∧
        ∀ entry ∈ rendered.bindings, entry.2.isNamed = true) ∧
      ∀ v ∈ j.conditions, (∃ s, v = .text s ∧ '?' ∉ s.toList) ∨ ∃ child, v = .node child := by
  obtain ⟨joins, roster, conditions, serving, seats, rendered, compiled, enlists, serves, -, -,
    same, own⟩ := neat.closed closed
  refine ⟨joins, ⟨rendered, compiled, fun entry member => ?_⟩, fun v member => ?_⟩
  · rw [own] at member
    obtain ⟨seat, inside, rfl⟩ := List.mem_map.mp member
    exact (Seat.isNamed_binding seat).trans (serves.seated seat inside)
  · rw [same] at member
    obtain ⟨condition, listed, rfl⟩ := List.mem_map.mp member
    have seated := serves.named enlists listed
    cases text : condition.served roster.own serving with
    | text s =>
        exact .inl ⟨s, rfl, Condition.mark_notMem_served (enlists.fits _ listed) seated text⟩
    | node child => exact .inr ⟨child, rfl⟩
    | _ => cases condition <;> cases text

theorem positionalValues_own {j : Junction} (found : forest.junction? id = some j)
    {rendered : Rendered} (compiled : j.compiled = some rendered)
    (named : ∀ entry ∈ rendered.bindings, entry.2.isNamed = true) :
    positionalValues (Table.values (forest.ownBindings id)) = [] := by
  rw [Forest.ownBindings, Forest.junction?_eq_some.mp found]
  simp only [compiled]
  apply positionalValues_of_named
  intro binding member
  obtain ⟨entry, inside, rfl⟩ := List.mem_map.mp member
  exact named entry inside

theorem marks_conditions {conditions : List Value} {parts : List Writing}
    (each : List.Forall₂ (Marked forest) conditions parts) {depth : Nat}
    (kinds : ∀ v ∈ conditions, (∃ s, v = .text s ∧ '?' ∉ s.toList) ∨ ∃ child, v = .node child ∧
      (∃ texts, Settled forest (.node child) texts) ∧ forest.rank child < depth) :
    List.Forall₂ (Segment.Marks forest) (parts.flatMap Writing.marks)
      (positionalValues (forest.bindingsWithin depth (conditions.filterMap Value.node?))) := by
  induction each with
  | nil => exact .nil
  | @cons v part rest parts first _ ih =>
      obtain ⟨here, later⟩ := List.forall_mem_cons.mp kinds
      rw [List.flatMap_cons, List.filterMap_cons]
      rcases here with ⟨s, rfl, noMark⟩ | ⟨child, rfl, ⟨texts, settled⟩, deep⟩
      · rw [first.1 s rfl noMark]
        exact ih later
      · have split : forest.bindingsWithin depth (child :: rest.filterMap Value.node?) =
            forest.bindingsWithin depth [child] ++
              forest.bindingsWithin depth (rest.filterMap Value.node?) := by
          simp [Forest.bindingsWithin]
        simp only [Value.node?, split, positionalValues_append]
        exact List.rel_append (first.2 child rfl texts settled depth deep) (ih later)

theorem Marked.tree (neat : ∀ id, (forest.node id).Neat .marking forest.binder) {j : Junction}
    (found : forest.junction? id = some j) (closed : j.compiled.isSome = true)
    {parts : List Writing} (each : List.Forall₂ (Marked forest) j.conditions parts) :
    Marked forest (.node id) (.joined j.connective.written parts) := by
  have here := neat id
  rw [Forest.junction?_eq_some.mp found] at here
  obtain ⟨joins, ⟨rendered, compiled, named⟩, kinds⟩ := Junction.Neat.unmarked here closed
  apply Marked.of_node
  intro texts settled depth deep
  rw [Writing.marks_joined joins, positionalValues_own found compiled named, List.append_nil,
    Forest.junction?_eq_some.mp found]
  apply marks_conditions each
  intro v member
  refine (kinds v member).imp_right ?_
  rintro ⟨child, rfl⟩
  have step := (Forest.child_of_tree found).mpr member
  have lower := settled.rank_lt compiledReading_faithful step
  exact ⟨child, rfl, settled.child compiledReading_faithful step, by omega⟩

theorem Marked.bound {c : Comparison} (kind : forest.node id = .comparison c) {value : Value}
    {placeholder : String} (operand : c.operand = .bound value placeholder)
    (flat : value.node? = none) (neat : c.Neat False (forest.binder c.binder)) :
    Marked forest (.node id) [.words c.opening, .placeholder id placeholder] := by
  obtain ⟨own, seat, -, holding, -, rfl, held⟩ := neat.own_bound kind operand
  apply Marked.of_node
  intro texts settled depth deep
  rw [Writing.marks_words neat.opening.mark, Comparison.children_bound kind operand flat, held]
  cases named : seat.named with
  | true =>
      have unmarked : '?' ∉ (seat.name own).toList := by
        rw [Seat.name_of_named named]
        exact mark_notMem_mention own seat.number
      have values : positionalValues (Table.values [seat.entry "c" 0 own]) = [] := by
        apply positionalValues_of_named
        simp [Table.values, Seat.entry, Seat.isNamed_binding, named]
      have marks : Writing.marks [.placeholder id (seat.name own)] = [] := by
        simpa [Writing.marks, Segment.isMarked, Segment.text] using unmarked
      rw [values, marks]
      exact .nil
  | false =>
      have name : seat.name own = "?" := by
        rw [Seat.name, Seat.text_piece, named]
        rfl
      have values : positionalValues (Table.values [seat.entry "c" 0 own]) = [value] := by
        have unnamed : (seat.binding "c" 0 own).isNamed = false :=
          (Seat.isNamed_binding seat).trans named
        show ((List.filter _ [seat.binding "c" 0 own]).map BindingOf.value) = [value]
        rw [List.filter_cons, if_pos (by simp [unnamed])]
        exact congrArg (fun v => [v]) holding
      have marked : Writing.marks [.placeholder id "?"] = [.placeholder id "?"] := by
        simp [Writing.marks, Segment.isMarked, Segment.text]
      have marks : Segment.Marks forest (.placeholder id "?") value :=
        ⟨id, c, rfl, kind, by rw [operand, name]⟩
      rw [values, name, marked]
      exact .cons marks .nil

/-- The values below a node come in the order in which its writing marks them. -/
theorem marked_of_spells (neat : ∀ id, (forest.node id).Neat .marking forest.binder)
    (flat : ∀ id c value placeholder, forest.node id = .comparison c →
      c.operand = .bound value placeholder → value.node? = none) {v : Value} {writing : Writing}
    (spells : Spells Text.Bare forest v writing) : Marked forest v writing := by
  have of_kind {id : NodeId} {node : Node} (kind : forest.node id = node) :
      node.Neat .marking forest.binder := kind ▸ neat id
  -- a tree binds by name only, so what is collected for it is what its conditions have, in order
  induction spells with
  | text s =>
      refine ⟨?_, nofun⟩
      rintro _ ⟨⟩ noMark
      exact Writing.marks_words noMark []
  | other notNode notText s =>
      refine ⟨?_, ?_⟩
      · rintro _ rfl
        cases notText
      · rintro _ rfl
        cases notNode
  | @fragment id s kind =>
      have bare : Text.Bare s := of_kind kind
      exact .of_leaf (by rw [kind]; rfl) (by rw [Forest.ownBindings, kind])
        (Writing.marks_words bare.mark [])
  | bound kind operand => exact .bound kind operand (flat _ _ _ _ kind operand) (of_kind kind)
  | @nested id operand c inner kind nested below ih =>
      have here : c.Neat False (forest.binder c.binder) := of_kind kind
      refine .of_child operand ?_ ?_ (Writing.marks_words here.opening.mark inner) ih
      · rw [kind, Node.children, nested]
        rfl
      · rw [here.own_nested kind nested]
        rfl
  | @plain id u s kind flat shown =>
      have symbol : Text.Bare u.symbol := of_kind kind
      refine .of_leaf (by rw [kind, Node.children, flat]; rfl) (by rw [Forest.ownBindings, kind]) ?_
      rw [Writing.marks_applied symbol]
      split
      · exact Writing.marks_words shown.mark []
      · rw [Writing.marks_enclosed, Writing.marks_words shown.mark, Writing.marks_nil]
  | @unary id argument u inner kind nested below ih =>
      have symbol : Text.Bare u.symbol := of_kind kind
      refine .of_child argument ?_ ?_ (Writing.marks_applied symbol inner) ih
      · rw [kind, Node.children, nested]
        rfl
      · rw [Forest.ownBindings, kind]
        rfl
  | tree found compiled lengths each ih =>
      refine .tree neat found compiled (List.forall₂_iff_zip.mpr ⟨lengths, fun {v part} => ?_⟩)
      exact ih v part
  | @single id child j inner found compiled only below ih =>
      have here := of_kind (Forest.junction?_eq_some.mp found)
      obtain ⟨-, ⟨rendered, compiled, named⟩, -⟩ := Junction.Neat.unmarked here compiled
      refine .of_child child ?_ (positionalValues_own found compiled named) rfl ih
      rw [Forest.junction?_eq_some.mp found, Node.children, only]
      rfl
  | enclosed below ih =>
      simp only [Marked, Writing.marks_enclosed]
      exact ih

end

namespace WorkspaceM

/-- After a calm run, the positional values of a tree are those of the comparisons that rendered the
marks in its text, in the order of the marks. -/
theorem compileDescription_positions (n : Nat) {operations : List Operation}
    (calm : Workspace.Calm .marking { nextIdentifier := n } operations) {w after : Workspace}
    (ended : w = Workspace.after { nextIdentifier := n } operations)
    (hushed : w.Hushed Text.Bare) {tree : NodeId} {j : Junction} (found : w.junction? tree = some j)
    {s : String} (done : run (sql tree) w = (.ok s, after)) (types connective : Value) :
    ∃ outcome writing,
      run (compileDescription (.node tree) types connective) w = (.ok outcome, after) ∧
      outcome.sql = s ∧ Spells Text.Bare after.toForest (.node tree) writing ∧ s = writing.text ∧
      s.toList.count '?' = outcome.positional.length ∧
      List.Forall₂ (Segment.Marks after.toForest) writing.marks outcome.positional := by
  obtain ⟨tidy, drawn⟩ :=
    Workspace.tidy_after (Workspace.tidy_empty .marking n) (Workspace.recorded_empty n).drawn calm
  rw [← ended] at tidy drawn
  obtain ⟨kempt, -, ⟨writing, spells, text⟩, texts, settled⟩ := tidy.rendered drawn hushed done
  have outcome := run_compileDescription_of_tree tidy.kempt.made found done types connective
  have collected : after.bindingsWithin after.depthBound [tree] = after.allBindings tree := by
    simp [Forest.bindingsWithin, Forest.allBindings, Forest.postorder]
  have marked := (marked_of_spells kempt.neat.node kempt.made.flat spells).2 tree rfl texts settled
    after.depthBound (Nat.lt_succ_of_le (after.rank_le tree))
  rw [collected] at marked
  refine ⟨_, writing, outcome, rfl, spells, text, ?_, marked⟩
  rw [text, Writing.toList_text, Writing.count_mark, marked.length_eq]
  intro segment member
  obtain ⟨i, inside, rfl⟩ := List.getElem_of_mem member
  obtain ⟨owner, c, same, -⟩ := marked.get inside (marked.length_eq ▸ inside)
  exact congrArg Segment.text same

/-- A comparison by position that stands on both sides of a membership test by position. -/
def comparingTwice : List Operation :=
  [.newComparison (some (.text "3")) (some (.int 7)) none (some (.text ">")),
    .newTree (.dict .passing [(.text "2 IN", .list .passing [.int 8, .int 9]),
      (.text "5 <", .int 6)]) .null .null none,
    .join "OR" (.node ⟨0⟩) (.node ⟨1⟩), .join "AND" (.node ⟨3⟩) (.node ⟨0⟩)]

def comparedTwice : Workspace := Workspace.after { nextIdentifier := 1 } comparingTwice

theorem calm_comparingTwice : Workspace.Calm .marking { nextIdentifier := 1 } comparingTwice := by
  have untyped : Policy.tame.Types .null := nofun
  have filled : (Workspace.after { nextIdentifier := 1 } (comparingTwice.take 1)).Sows .marking
      (.dict .passing [(.text "2 IN", .list .passing [.int 8, .int 9]), (.text "5 <", .int 6)])
      .null .null := by
    refine ⟨untyped, nofun, ?_⟩
    intro leaf member
    have leaves : leaf ∈ [.entry ⟨"2", "IN"⟩ (.list .passing [.int 8, .int 9]),
        .entry ⟨"5", "<"⟩ (.int 6)] := member
    rcases List.mem_cons.mp leaves with rfl | last
    · exact ⟨⟨by decide, by decide⟩, ⟨by decide, by decide⟩, nofun⟩
    · rw [List.mem_singleton.mp last]
      exact ⟨⟨by decide, by decide⟩, ⟨by decide, by decide⟩, nofun⟩
  refine ⟨⟨?_, ?_⟩, ⟨rfl, filled⟩, ⟨?_, .inr ⟨_, rfl⟩⟩, ⟨?_, .inr ⟨_, rfl⟩⟩, trivial⟩
  · rintro s ⟨⟩
    exact ⟨⟨by decide, by decide⟩, nofun⟩
  · rintro s ⟨⟩
    exact ⟨by decide, by decide⟩
  · show '?' ∉ "OR".toList
    decide
  · show '?' ∉ "AND".toList
    decide

theorem hushed_comparedTwice : comparedTwice.Hushed Text.Bare :=
  Workspace.hushed_of_nested (by decide +kernel)

theorem compileDescription_positions_shared :
    Workspace.Calm .marking { nextIdentifier := 1 } comparingTwice ∧
    comparedTwice.Hushed Text.Bare ∧ ∃ after outcome writing,
      run (compileDescription (.node ⟨4⟩) .null .null) comparedTwice = (.ok outcome, after) ∧
      outcome.sql = "((3 > ? OR (2 IN (:c2_1, :c2_2) AND 5 < ?)) AND 3 > ?)" ∧
      Spells Text.Bare after.toForest (.node ⟨4⟩) writing ∧ outcome.sql = writing.text ∧
      outcome.positional.length = 3 ∧
      List.Forall₂ (Segment.Marks after.toForest) writing.marks outcome.positional := by
  have text : (run (sql ⟨4⟩) comparedTwice).1.toOption =
      some "((3 > ? OR (2 IN (:c2_1, :c2_2) AND 5 < ?)) AND 3 > ?)" := by decide +kernel
  have tree : (comparedTwice.junction? ⟨4⟩).isSome = true := by decide +kernel
  obtain ⟨j, found⟩ := Option.isSome_iff_exists.mp tree
  have done := run_ok_of_toOption text
  obtain ⟨outcome, writing, compiled, sql, spells, same, count, marks⟩ :=
    compileDescription_positions 1 calm_comparingTwice rfl hushed_comparedTwice found done .null
      .null
  refine ⟨calm_comparingTwice, hushed_comparedTwice, _, outcome, writing, compiled, sql, spells,
    sql.trans same, ?_, marks⟩
  rw [← count]
  decide

/-- A tree whose connective is a mark. -/
def joinedByMark : Workspace :=
  Workspace.after {} [.newTree (.list ⟨1⟩ [.text "a", .text "b"]) .null (.text "?") none]

theorem connective_unmatched : ∃ outcome after,
    run (compileDescription (.node ⟨0⟩) .null .null) joinedByMark = (.ok outcome, after) ∧
    outcome.sql.toList.count '?' = 1 ∧ outcome.positional = [] := by
  have compiled : (run (compileDescription (.node ⟨0⟩) .null .null) joinedByMark).1.toOption.map
      (fun outcome => (outcome.sql, outcome.positional.length)) = some ("(a ? b)", 0) := by
    decide +kernel
  obtain ⟨outcome, given, same⟩ := Option.map_eq_some_iff.mp compiled
  obtain ⟨text, count⟩ := Prod.mk.inj same
  exact ⟨outcome, _, run_ok_of_toOption given, by rw [text]; decide,
    List.length_eq_zero_iff.mp count⟩

end WorkspaceM

end WhereClause
