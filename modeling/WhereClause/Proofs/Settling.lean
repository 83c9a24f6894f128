import Mathlib.Data.Finset.Card
import Mathlib.Logic.Relation
import WhereClause.Proofs.Outline
import WhereClause.Proofs.Runs

/-!
# The texts that values yield

A value yields its texts if everything below it has one, where a reading says which trees are read,
and with which conditions. Unlike a picture this covers every condition that can be rendered, also
one that was compiled before and a plain value under a unary condition.

Read by the compiled trees alone, a value that yields its texts is settled: nothing below it is
open, it is below itself nowhere, and rendering it changes nothing.

* `Yields.unique`: a value yields its texts in one way only.
* `run_within_settled`: a settled node is rendered with the texts that it yields, and nothing is
  changed by it.
-/

namespace WhereClause

instance : Inhabited Texts := ⟨.wrapping ""⟩

/-- The conditions with which a tree is read, if it is read at all. -/
abbrev Reading := Junction → Option (List Value)

/-- Rewriting texts leaves the nodes among the conditions where they are. -/
def Reading.Faithful (reading : Reading) : Prop :=
  ∀ j conditions, reading j = some conditions →
    ∀ id, Value.node id ∈ conditions ↔ Value.node id ∈ j.conditions

def compiledReading : Reading := fun j => if j.compiled.isSome then some j.conditions else none

theorem compiledReading_eq_some {j : Junction} {conditions : List Value} :
    compiledReading j = some conditions ↔ j.compiled.isSome = true ∧ j.conditions = conditions := by
  simp [compiledReading]

theorem compiledReading_faithful : compiledReading.Faithful := by
  intro j conditions read id
  rw [(compiledReading_eq_some.mp read).2]

def Comparison.around (c : Comparison) (operand : String) : Texts :=
  .wrapping (c.field ++ " " ++ c.operator ++ " " ++ operand)

def Unary.around (u : Unary) (argument : Texts) : Texts :=
  .wrapping (if u.trailing then argument.alone ++ " " ++ u.symbol
    else u.symbol ++ " " ++ argument.beside)

/-- The node that is the only condition, if there is one. -/
def solitary? : List Value → Option NodeId
  | [.node child] => some child
  | _ => none

/-- The text of a tree beside an operator, unless a single node stands there in its place. -/
def grouped (conditions : List Value) (alone : String) : String :=
  if conditions.length ≤ 1 then parenthesized alone else alone

theorem solitary?_eq_some {conditions : List Value} {child : NodeId} :
    solitary? conditions = some child ↔ conditions = [.node child] := by
  unfold solitary?
  split
  · simp
  · rename_i other
    simpa using other child

def Texts.group (alone : String) (texts : Value → Texts) (conditions : List Value) : Texts :=
  ⟨alone, match solitary? conditions with
    | some child => (texts (.node child)).beside
    | none => grouped conditions alone⟩

namespace Junction

def text (j : Junction) (conditions : List Value) (texts : Value → Texts) : String :=
  match j.compiled with
  | some rendered => rendered.sql
  | none => joined j.connective.written (conditions.map fun v => (texts v).alone)

def around (j : Junction) (conditions : List Value) (texts : Value → Texts) : Texts :=
  .group (j.text conditions texts) texts j.conditions

end Junction

@[simp] theorem Junction.alone_around (j : Junction) (conditions : List Value)
    (texts : Value → Texts) : (j.around conditions texts).alone = j.text conditions texts := rfl

theorem Junction.beside_around_of_solitary {j : Junction} {child : NodeId}
    (single : solitary? j.conditions = some child) (conditions : List Value)
    (texts : Value → Texts) :
    (j.around conditions texts).beside = (texts (.node child)).beside := by
  simp only [around, Texts.group, single]

theorem Junction.beside_around {j : Junction} (several : solitary? j.conditions = none)
    (conditions : List Value) (texts : Value → Texts) :
    (j.around conditions texts).beside = grouped j.conditions (j.text conditions texts) := by
  simp only [around, Texts.group, several]

theorem Junction.text_of_compiled {j : Junction} {rendered : Rendered}
    (compiled : j.compiled = some rendered) (conditions : List Value) (texts : Value → Texts) :
    j.text conditions texts = rendered.sql := by
  simp only [text, compiled]

theorem Junction.around_congr {j : Junction} {conditions : List Value}
    {texts others : Value → Texts}
    (nodes : ∀ id, Value.node id ∈ conditions ↔ Value.node id ∈ j.conditions)
    (same : ∀ v ∈ conditions, texts v = others v) :
    j.around conditions texts = j.around conditions others := by
  have text : j.text conditions texts = j.text conditions others := by
    unfold Junction.text
    split
    · rfl
    · rw [List.map_congr_left fun v member => by rw [same v member]]
  simp only [around, text, Texts.group]
  cases single : solitary? j.conditions with
  | none => rfl
  | some child =>
      have member := (nodes child).mpr (by simp [solitary?_eq_some.mp single])
      simp only [same _ member]

/-- The value yields the texts when trees are read as the reading says. -/
inductive Yields (forest : Forest) (reading : Reading) : Value → Texts → Prop
  | text (s : String) : Yields forest reading (.text s) (.wrapping s)
  | outcome {mark : Mark} {sql : String} {parameters : List (String × Value)}
      {types : List (String × Option String)} {positional : List Value} :
      Yields forest reading (.outcome mark sql parameters types positional) (.wrapping sql)
  | compiled {tree : NodeId} {j : Junction} {rendered : Rendered}
      (found : forest.junction? tree = some j) (compiled : j.compiled = some rendered) :
      Yields forest reading (.compiled tree) (.wrapping rendered.sql)
  | fragment {id : NodeId} {text : String} (kind : forest.node id = .fragment text) :
      Yields forest reading (.node id) (.wrapping text)
  | bound {id : NodeId} {c : Comparison} {value : Value} {placeholder : String}
      (kind : forest.node id = .comparison c) (operator : Text.trim c.operator ≠ "")
      (operand : c.operand = .bound value placeholder) (flat : value.node? = none) :
      Yields forest reading (.node id) (c.around placeholder)
  | nested {id operand : NodeId} {c : Comparison} {texts : Texts}
      (kind : forest.node id = .comparison c) (operator : Text.trim c.operator ≠ "")
      (nested : c.operand = .nested operand) (inner : Yields forest reading (.node operand) texts) :
      Yields forest reading (.node id) (c.around texts.beside)
  | plain {id : NodeId} {u : Unary} (kind : forest.node id = .unary u) (symbol : u.symbol ≠ "")
      (given : u.argument ≠ .null) (flat : u.argument.node? = none) :
      Yields forest reading (.node id) (u.around (.wrapping (forest.plainText u.argument)))
  | unary {id argument : NodeId} {u : Unary} {texts : Texts} (kind : forest.node id = .unary u)
      (symbol : u.symbol ≠ "") (nested : u.argument = .node argument)
      (inner : Yields forest reading (.node argument) texts) :
      Yields forest reading (.node id) (u.around texts)
  | tree {id : NodeId} {j : Junction} {conditions : List Value} {texts : Value → Texts}
      (found : forest.junction? id = some j) (read : reading j = some conditions)
      (each : ∀ v ∈ conditions, Yields forest reading v (texts v)) :
      Yields forest reading (.node id) (j.around conditions texts)

/-- The texts that the value yields, if it yields any. -/
noncomputable def Forest.texts (forest : Forest) (reading : Reading) (v : Value) : Texts :=
  Classical.epsilon (Yields forest reading v)

abbrev Settled (forest : Forest) : Value → Texts → Prop := Yields forest compiledReading

namespace Yields

variable {forest other : Forest} {reading : Reading} {id : NodeId} {texts : Texts}

/-- What is known of a node that yields texts, by the kind of the node. -/
theorem of_node (yields : Yields forest reading (.node id) texts) :
    match forest.node id with
    | .junction j => ∃ conditions parts, reading j = some conditions ∧
        (∀ v ∈ conditions, Yields forest reading v (parts v)) ∧ texts = j.around conditions parts
    | .comparison c => Text.trim c.operator ≠ "" ∧
        ((∃ value placeholder, c.operand = .bound value placeholder ∧ value.node? = none ∧
            texts = c.around placeholder) ∨
          ∃ operand inner, c.operand = .nested operand ∧
            Yields forest reading (.node operand) inner ∧ texts = c.around inner.beside)
    | .unary u => u.symbol ≠ "" ∧
        ((u.argument ≠ .null ∧ u.argument.node? = none ∧
            texts = u.around (.wrapping (forest.plainText u.argument))) ∨
          ∃ argument inner, u.argument = .node argument ∧
            Yields forest reading (.node argument) inner ∧ texts = u.around inner)
    | .fragment s => texts = .wrapping s
    | .abstract => False := by
  cases yields with
  | fragment kind => rw [kind]
  | bound kind operator operand flat =>
      rw [kind]
      exact ⟨operator, .inl ⟨_, _, operand, flat, rfl⟩⟩
  | nested kind operator nested inner =>
      rw [kind]
      exact ⟨operator, .inr ⟨_, _, nested, inner, rfl⟩⟩
  | plain kind symbol given flat =>
      rw [kind]
      exact ⟨symbol, .inl ⟨given, flat, rfl⟩⟩
  | unary kind symbol nested inner =>
      rw [kind]
      exact ⟨symbol, .inr ⟨_, _, nested, inner, rfl⟩⟩
  | tree found read each =>
      rw [Forest.junction?_eq_some.mp found]
      exact ⟨_, _, read, each, rfl⟩

theorem of_tree {j : Junction} (found : forest.junction? id = some j)
    (yields : Yields forest reading (.node id) texts) :
    ∃ conditions parts, reading j = some conditions ∧
      (∀ v ∈ conditions, Yields forest reading v (parts v)) ∧
      texts = j.around conditions parts := by
  have known := yields.of_node
  rwa [Forest.junction?_eq_some.mp found] at known

theorem alone_of_compiled {j : Junction} {rendered : Rendered}
    (yields : Yields forest reading (.node id) texts) (found : forest.junction? id = some j)
    (compiled : j.compiled = some rendered) : texts.alone = rendered.sql := by
  obtain ⟨conditions, parts, -, -, rfl⟩ := yields.of_tree found
  rw [Junction.alone_around, Junction.text_of_compiled compiled]

theorem unique (faithful : reading.Faithful) {v : Value} {texts others : Texts}
    (first : Yields forest reading v texts) (second : Yields forest reading v others) :
    texts = others := by
  induction first generalizing others with
  | text s =>
      cases second
      rfl
  | outcome =>
      cases second
      rfl
  | compiled found compiled =>
      cases second with
      | compiled found' compiled' =>
          cases found.symm.trans found'
          cases compiled.symm.trans compiled'
          rfl
  | fragment kind =>
      have known := second.of_node
      rw [kind] at known
      exact known.symm
  | bound kind operator operand flat =>
      have known := second.of_node
      rw [kind] at known
      obtain ⟨-, ⟨_, _, operand', -, rfl⟩ | ⟨_, _, operand', -, -⟩⟩ := known
      · cases operand.symm.trans operand'
        rfl
      · cases operand.symm.trans operand'
  | nested kind operator nested inner ih =>
      have known := second.of_node
      rw [kind] at known
      obtain ⟨-, ⟨_, _, operand', -, -⟩ | ⟨_, _, nested', inner', rfl⟩⟩ := known
      · cases nested.symm.trans operand'
      · cases nested.symm.trans nested'
        rw [ih inner']
  | plain kind symbol given flat =>
      have known := second.of_node
      rw [kind] at known
      obtain ⟨-, ⟨-, -, rfl⟩ | ⟨_, _, nested', -, -⟩⟩ := known
      · rfl
      · simp [nested', Value.node?] at flat
  | unary kind symbol nested inner ih =>
      have known := second.of_node
      rw [kind] at known
      obtain ⟨-, ⟨-, flat, -⟩ | ⟨_, _, nested', inner', rfl⟩⟩ := known
      · simp [nested, Value.node?] at flat
      · cases nested.symm.trans nested'
        rw [ih inner']
  | tree found read each ih =>
      obtain ⟨conditions, parts, read', each', rfl⟩ := second.of_tree found
      cases read.symm.trans read'
      exact Junction.around_congr (faithful _ _ read) fun v member => ih v member (each' v member)

theorem beside_of_not_tree (yields : Yields forest reading (.node id) texts)
    (other : forest.junction? id = none) : texts.beside = parenthesized texts.alone := by
  cases yields with
  | tree found => simp [found] at other
  | _ => rfl

theorem texts_eq (faithful : reading.Faithful) {v : Value} {texts : Texts}
    (yields : Yields forest reading v texts) : forest.texts reading v = texts :=
  (Classical.epsilon_spec ⟨texts, yields⟩).unique faithful yields

theorem chosen {v : Value} {texts : Texts} (yields : Yields forest reading v texts) :
    Yields forest reading v (forest.texts reading v) := Classical.epsilon_spec ⟨texts, yields⟩

/-- How a tree stands beside an operator: as its only condition does if that is a node. -/
theorem beside_of_tree (faithful : reading.Faithful) {j : Junction}
    (found : forest.junction? id = some j) (yields : Yields forest reading (.node id) texts) :
    texts.beside = match solitary? j.conditions with
      | some child => (forest.texts reading (.node child)).beside
      | none => grouped j.conditions texts.alone := by
  obtain ⟨conditions, parts, read, each, rfl⟩ := yields.of_tree found
  cases single : solitary? j.conditions with
  | none => rw [Junction.beside_around single, Junction.alone_around]
  | some child =>
      have member : .node child ∈ conditions :=
        (faithful j conditions read child).mpr (by simp [solitary?_eq_some.mp single])
      simp only [Junction.beside_around_of_solitary single, (each _ member).texts_eq faithful]

theorem index_lt (yields : Yields forest reading (.node id) texts) :
    id.index < forest.nodes.size := by
  apply Forest.index_lt_of_node
  intro absent
  have known := yields.of_node
  rwa [absent] at known

end Yields

theorem Value.node?_eq_some {v : Value} {id : NodeId} : v.node? = some id ↔ v = .node id := by
  cases v <;> simp [node?]

namespace Forest

variable {forest other : Forest}

def Child (forest : Forest) (id child : NodeId) : Prop := child ∈ (forest.node id).children

/-- One node is below another, by any number of steps but none. -/
abbrev Below (forest : Forest) : NodeId → NodeId → Prop := Relation.TransGen forest.Child

abbrev Reaches (forest : Forest) : NodeId → NodeId → Prop := Relation.ReflTransGen forest.Child

theorem child_of_tree {id child : NodeId} {j : Junction} (found : forest.junction? id = some j) :
    forest.Child id child ↔ .node child ∈ j.conditions := by
  simp only [Child, junction?_eq_some.mp found, Node.children, List.mem_filterMap,
    Value.node?_eq_some, exists_eq_right]

end Forest

namespace Yields

variable {forest other : Forest} {reading : Reading} {id : NodeId} {texts : Texts}

/-- The nodes below one that yields texts yield theirs. -/
theorem child (faithful : reading.Faithful) (yields : Yields forest reading (.node id) texts)
    {child : NodeId} (below : forest.Child id child) :
    ∃ inner, Yields forest reading (.node child) inner := by
  have known := yields.of_node
  cases kind : forest.node id with
  | junction j =>
      rw [kind] at known
      obtain ⟨conditions, parts, read, each, -⟩ := known
      have member := (Forest.child_of_tree (Forest.junction?_eq_some.mpr kind)).mp below
      exact ⟨_, each _ ((faithful _ _ read child).mpr member)⟩
  | comparison c =>
      rw [kind] at known
      simp only [Forest.Child, kind, Node.children, Option.mem_toList] at below
      obtain ⟨-, ⟨_, _, operand, flat, -⟩ | ⟨_, _, nested, inner, -⟩⟩ := known
      · simp [operand, Operand.value, flat] at below
      · simp only [nested, Operand.value, Value.node?, Option.some.injEq] at below
        exact ⟨_, below ▸ inner⟩
  | unary u =>
      rw [kind] at known
      simp only [Forest.Child, kind, Node.children, Option.mem_toList] at below
      obtain ⟨-, ⟨-, flat, -⟩ | ⟨_, _, nested, inner, -⟩⟩ := known
      · simp [flat] at below
      · simp only [nested, Value.node?, Option.some.injEq] at below
        exact ⟨_, below ▸ inner⟩
  | fragment s => simp [Forest.Child, kind, Node.children] at below
  | abstract => simp [Forest.Child, kind, Node.children] at below

theorem reached (faithful : reading.Faithful) (yields : Yields forest reading (.node id) texts)
    {lower : NodeId} (path : forest.Reaches id lower) :
    ∃ inner, Yields forest reading (.node lower) inner := by
  induction path with
  | refl => exact ⟨texts, yields⟩
  | tail _ step ih =>
      obtain ⟨_, upper⟩ := ih
      exact upper.child faithful step

/-- Induction from the nodes below to the nodes above. -/
theorem ascend (faithful : reading.Faithful) {motive : NodeId → Prop}
    (step : ∀ id texts, Yields forest reading (.node id) texts →
      (∀ child, forest.Child id child → motive child) → motive id)
    {v : Value} (yields : Yields forest reading v texts) : ∀ id, v = .node id → motive id := by
  induction yields with
  | text s => rintro id ⟨⟩
  | outcome => rintro id ⟨⟩
  | compiled => rintro id ⟨⟩
  | fragment kind =>
      rintro id ⟨⟩
      refine step _ _ (.fragment kind) fun child below => ?_
      simp [Forest.Child, kind, Node.children] at below
  | bound kind operator operand flat =>
      rintro id ⟨⟩
      refine step _ _ (.bound kind operator operand flat) fun child below => ?_
      simp [Forest.Child, kind, Node.children, operand, Operand.value, flat] at below
  | nested kind operator nested inner ih =>
      rintro id ⟨⟩
      refine step _ _ (.nested kind operator nested inner) fun child below => ?_
      simp only [Forest.Child, kind, Node.children, nested, Operand.value, Value.node?,
        Option.mem_toList, Option.some.injEq] at below
      exact ih child (by rw [below])
  | plain kind symbol given flat =>
      rintro id ⟨⟩
      refine step _ _ (.plain kind symbol given flat) fun child below => ?_
      simp [Forest.Child, kind, Node.children, flat] at below
  | unary kind symbol nested inner ih =>
      rintro id ⟨⟩
      refine step _ _ (.unary kind symbol nested inner) fun child below => ?_
      simp only [Forest.Child, kind, Node.children, nested, Value.node?, Option.mem_toList,
        Option.some.injEq] at below
      exact ih child (by rw [below])
  | tree found read each ih =>
      rintro id ⟨⟩
      refine step _ _ (.tree found read each) fun child below => ?_
      exact ih _ ((faithful _ _ read child).mpr ((Forest.child_of_tree found).mp below)) child rfl

/-- What yields texts is finite, so that it is not below itself. -/
theorem not_below_self (faithful : reading.Faithful)
    (yields : Yields forest reading (.node id) texts) : ¬ forest.Below id id := by
  refine yields.ascend faithful (motive := fun id => ¬ forest.Below id id) ?_ id rfl
  intro id texts _ ih cycle
  obtain ⟨child, first, rest⟩ := Relation.TransGen.head'_iff.mp cycle
  exact ih child first (.tail' rest first)

end Yields

namespace Forest

variable {forest : Forest} {id child : NodeId}

open Classical in
/-- How many nodes are below a node. -/
noncomputable def rank (forest : Forest) (id : NodeId) : Nat :=
  ((Finset.range forest.nodes.size).filter fun i => forest.Below id ⟨i⟩).card

open Classical in
theorem rank_le (forest : Forest) (id : NodeId) : forest.rank id ≤ forest.nodes.size := by
  have bound := Finset.card_filter_le (Finset.range forest.nodes.size)
    fun i => forest.Below id ⟨i⟩
  rwa [Finset.card_range] at bound

open Classical in
theorem rank_lt (step : forest.Child id child) (inside : child.index < forest.nodes.size)
    (finite : ¬ forest.Below child child) : forest.rank child < forest.rank id := by
  apply Finset.card_lt_card
  rw [Finset.ssubset_iff_of_subset]
  · exact ⟨child.index, by simpa using ⟨inside, .single step⟩, by simp [finite]⟩
  · intro i member
    rw [Finset.mem_filter] at member ⊢
    exact ⟨member.1, .head step member.2⟩

end Forest

theorem Yields.rank_lt {forest : Forest} {reading : Reading} {id child : NodeId} {texts : Texts}
    (faithful : reading.Faithful) (yields : Yields forest reading (.node id) texts)
    (step : forest.Child id child) : forest.rank child < forest.rank id := by
  obtain ⟨inner, below⟩ := yields.child faithful step
  exact Forest.rank_lt step below.index_lt (below.not_below_self faithful)

namespace Forest

/-- The nodes that are complete stay so: a compiled tree at most gets more texts. -/
structure Endures (forest other : Forest) : Prop where
  node : ∀ id, forest.node id ≠ .abstract → forest.junction? id = none →
    other.node id = forest.node id
  tree : ∀ id j, forest.junction? id = some j → j.compiled.isSome = true →
    ∃ k letters, other.junction? id = some k ∧ k.compiled = j.compiled ∧
      k.conditions = j.conditions ++ List.map Value.text letters

/-- What rendering a settled node depends on: the nodes that are complete do not change. -/
structure Keeps (forest other : Forest) : Prop where
  node : ∀ id, forest.node id ≠ .abstract → forest.junction? id = none →
    other.node id = forest.node id
  tree : ∀ id j, forest.junction? id = some j → j.compiled.isSome = true →
    other.junction? id = some j

variable {forest other : Forest}

theorem Endures.of_kind (endures : forest.Endures other) {id : NodeId} {node : Node}
    (kind : forest.node id = node) (present : node ≠ .abstract)
    (notTree : ∀ j, node ≠ .junction j) :
    other.node id = node := by
  rw [← kind]
  exact endures.node id (kind ▸ present) (junction?_eq_none kind notTree)

theorem Keeps.endures (keeps : forest.Keeps other) : forest.Endures other where
  node := keeps.node
  tree id j found compiled := ⟨j, [], keeps.tree id j found compiled, rfl, by simp⟩

end Forest

namespace Yields

variable {forest other : Forest} {v : Value} {texts : Texts}

/-- What is settled stays settled, though perhaps with other texts. -/
theorem endure (endures : forest.Endures other) (settled : Settled forest v texts) :
    ∃ others, Settled other v others := by
  induction settled with
  | text s => exact ⟨_, .text s⟩
  | outcome => exact ⟨_, .outcome⟩
  | compiled found compiled =>
      obtain ⟨k, _, found, same, -⟩ := endures.tree _ _ found (by simp [compiled])
      exact ⟨_, .compiled found (same.trans compiled)⟩
  | fragment kind => exact ⟨_, .fragment (endures.of_kind kind nofun nofun)⟩
  | bound kind operator operand flat =>
      exact ⟨_, .bound (endures.of_kind kind nofun nofun) operator operand flat⟩
  | nested kind operator nested _ ih =>
      obtain ⟨inner, yields⟩ := ih
      exact ⟨_, .nested (endures.of_kind kind nofun nofun) operator nested yields⟩
  | plain kind symbol given flat =>
      exact ⟨_, .plain (endures.of_kind kind nofun nofun) symbol given flat⟩
  | unary kind symbol nested _ ih =>
      obtain ⟨inner, yields⟩ := ih
      exact ⟨_, .unary (endures.of_kind kind nofun nofun) symbol nested yields⟩
  | tree found read _ ih =>
      obtain ⟨compiled, rfl⟩ := compiledReading_eq_some.mp read
      obtain ⟨k, letters, found, same, conditions⟩ := endures.tree _ _ found compiled
      have each : ∀ v ∈ k.conditions, ∃ texts, Settled other v texts := by
        intro v member
        rw [conditions, List.mem_append, List.mem_map] at member
        rcases member with member | ⟨letter, -, rfl⟩
        · exact ih v member
        · exact ⟨_, .text letter⟩
      choose! texts yields using each
      exact ⟨_, .tree found (compiledReading_eq_some.mpr ⟨by rw [same, compiled], rfl⟩) yields⟩

theorem keep (keeps : forest.Keeps other)
    (plainText : ∀ id u, forest.node id = .unary u → u.argument.node? = none →
      other.plainText u.argument = forest.plainText u.argument)
    (settled : Settled forest v texts) : Settled other v texts := by
  have same := @(keeps.endures).of_kind
  induction settled with
  | text s => exact .text s
  | outcome => exact .outcome
  | compiled found compiled => exact .compiled (keeps.tree _ _ found (by simp [compiled])) compiled
  | fragment kind => exact .fragment (same kind nofun nofun)
  | bound kind operator operand flat => exact .bound (same kind nofun nofun) operator operand flat
  | nested kind operator nested _ ih => exact .nested (same kind nofun nofun) operator nested ih
  | plain kind symbol given flat =>
      rw [← plainText _ _ kind flat]
      exact .plain (same kind nofun nofun) symbol given flat
  | unary kind symbol nested _ ih => exact .unary (same kind nofun nofun) symbol nested ih
  | tree found read _ ih =>
      exact .tree (keeps.tree _ _ found (compiledReading_eq_some.mp read).1) read ih

end Yields

/-! A settled node is rendered in the workspace as it is. -/

namespace WorkspaceM

variable {w : Workspace} {sql wrapped : NodeId → WorkspaceM String} {id : NodeId} {texts : Texts}

/-- How the nodes below a settled node are rendered. -/
def Answers (w : Workspace) (id : NodeId) (ask : NodeId → WorkspaceM String)
    (text : Texts → String) : Prop :=
  ∀ child texts, w.Child id child → Settled w.toForest (.node child) texts →
    run (ask child) w = (.ok (text texts), w)

theorem compileJunction_settled (sql : NodeId → WorkspaceM String) {j : Junction}
    (found : w.junction? id = some j) (settled : Settled w.toForest (.node id) texts) :
    ∃ rendered, run (compileJunction sql id j) w = (.ok rendered, w) ∧
      rendered.sql = texts.alone := by
  obtain ⟨_, _, read, -⟩ := settled.of_tree found
  obtain ⟨rendered, compiled⟩ := Option.isSome_iff_exists.mp (compiledReading_eq_some.mp read).1
  exact ⟨rendered, by simp only [compileJunction, compiled, run_pure],
    (settled.alone_of_compiled found compiled).symm⟩

theorem renderNode_settled (settled : Settled w.toForest (.node id) texts)
    (asked : Answers w id sql Texts.alone) (wraps : Answers w id wrapped Texts.beside) :
    run (renderNode sql wrapped id) w = (.ok texts.alone, w) := by
  have known := settled.of_node
  cases kind : w.node id with
  | junction j =>
      obtain ⟨rendered, done, text⟩ :=
        compileJunction_settled sql (Forest.junction?_eq_some.mpr kind) settled
      simp only [renderNode, run_bind, run_get, kind]
      rw [run_map_ok done, text]
  | comparison c =>
      rw [kind] at known
      obtain ⟨operator, ⟨_, _, operand, -, rfl⟩ | ⟨child, inner, nested, yields, rfl⟩⟩ := known
      · simp only [renderNode, run_bind, run_get, kind, renderComparison, if_neg operator, operand,
          run_pure, Comparison.around, Texts.wrapping]
      · have done := wraps child inner
          (by simp [Forest.Child, kind, Node.children, nested, Operand.value, Value.node?]) yields
        simp only [renderNode, run_bind, run_get, kind, renderComparison, if_neg operator, nested,
          done, run_pure, Comparison.around, Texts.wrapping]
  | unary u =>
      rw [kind] at known
      obtain ⟨symbol, ⟨given, flat, rfl⟩ | ⟨child, inner, nested, yields, rfl⟩⟩ := known
      · simp only [renderNode, run_bind, run_get, kind, renderUnary, if_neg symbol, Unary.around,
          Texts.wrapping]
        split
        · contradiction
        · rename_i child nested
          simp [nested, Value.node?] at flat
        · simp only [run_bind, run_get]
          split <;> rfl
      · have step : w.Child id child := by
          simp [Forest.Child, kind, Node.children, nested, Value.node?]
        have doneAlone := asked child inner step yields
        have doneBeside := wraps child inner step yields
        simp only [renderNode, run_bind, run_get, kind, renderUnary, if_neg symbol, nested,
          Unary.around, Texts.wrapping]
        split
        · simp only [run_bind, doneAlone, run_pure]
        · simp only [run_bind, doneBeside, run_pure]
  | fragment s =>
      rw [kind] at known
      simp only [renderNode, run_bind, run_get, kind, run_pure, known, Texts.wrapping]
  | abstract => simp [kind] at known

theorem run_wrapNode (other : w.junction? id = none) :
    run (wrapNode sql wrapped id) w =
      run (parenthesized <$> askAgain (renderNode sql wrapped id)) w := by
  simp only [wrapNode, run_bind, run_get]
  cases kind : w.node id with
  | junction j => simp [Forest.junction?_eq_some.mpr kind] at other
  | _ => rfl

theorem run_wrapNode_of_tree {j : Junction} (found : w.junction? id = some j) :
    run (wrapNode sql wrapped id) w =
      match solitary? j.conditions with
      | some child => run (discard (compileJunction sql id j) >>= fun _ => wrapped child) w
      | none => run (grouped j.conditions <$> askAgain (renderNode sql wrapped id)) w := by
  rw [wrapNode, run_bind, run_get]
  simp only [Forest.junction?_eq_some.mp found]
  cases conditions : j.conditions with
  | nil => rfl
  | cons v rest =>
      cases rest with
      | nil => cases v <;> rfl
      | cons second rest =>
          have several (alone : String) : grouped (v :: second :: rest) alone = alone := by
            simp [grouped]
          cases v <;> simp only [solitary?, funext several, id_map']

theorem wrapNode_settled (settled : Settled w.toForest (.node id) texts)
    (asked : Answers w id sql Texts.alone) (wraps : Answers w id wrapped Texts.beside) :
    run (wrapNode sql wrapped id) w = (.ok texts.beside, w) := by
  have own := run_askAgain_ok (renderNode_settled settled asked wraps)
  cases tree : w.junction? id with
  | none =>
      rw [run_wrapNode tree, run_map_ok own, settled.beside_of_not_tree tree]
  | some j =>
      obtain ⟨conditions, parts, read, each, rfl⟩ := settled.of_tree tree
      obtain ⟨-, rfl⟩ := compiledReading_eq_some.mp read
      rw [run_wrapNode_of_tree tree]
      cases single : solitary? j.conditions with
      | none => simp only [run_map_ok own, Junction.beside_around single, Junction.alone_around]
      | some child =>
          have member : .node child ∈ j.conditions := by simp [solitary?_eq_some.mp single]
          obtain ⟨rendered, done, -⟩ := compileJunction_settled sql tree settled
          simp only [run_bind_ok (run_discard_ok done), Junction.beside_around_of_solitary single]
          exact wraps child _ ((Forest.child_of_tree tree).mpr member) (each _ member)

/-- With more levels than there are nodes below it, a settled node is rendered to its end. -/
theorem run_within_settled (depth : Nat) {id : NodeId} {texts : Texts}
    (settled : Settled w.toForest (.node id) texts) (enough : w.rank id < depth) :
    run (sqlWithin depth id) w = (.ok texts.alone, w) ∧
      run (wrappedWithin depth id) w = (.ok texts.beside, w) := by
  induction depth generalizing id texts with
  | zero => exact absurd enough (Nat.not_lt_zero _)
  | succ depth ih =>
      have lower {child : NodeId} (step : w.Child id child) : w.rank child < depth :=
        (settled.rank_lt compiledReading_faithful step).trans_le (Nat.le_of_lt_succ enough)
      have asked : Answers w id (sqlWithin depth) Texts.alone := fun child inner step yields =>
        (ih yields (lower step)).1
      have wraps : Answers w id (wrappedWithin depth) Texts.beside := fun child inner step yields =>
        (ih yields (lower step)).2
      exact ⟨run_askAgain_ok (renderNode_settled settled asked wraps),
        wrapNode_settled settled asked wraps⟩

theorem run_sql_settled (settled : Settled w.toForest (.node id) texts) :
    run (WorkspaceM.sql id) w = (.ok texts.alone, w) := by
  simp only [WorkspaceM.sql, run_bind, run_get]
  exact (run_within_settled _ settled (Nat.lt_succ_of_le (w.rank_le id))).1

theorem run_wrapped_settled (settled : Settled w.toForest (.node id) texts) :
    run (WorkspaceM.wrapped id) w = (.ok texts.beside, w) := by
  simp only [WorkspaceM.wrapped, run_bind, run_get]
  exact (run_within_settled _ settled (Nat.lt_succ_of_le (w.rank_le id))).2

end WorkspaceM
end WhereClause
