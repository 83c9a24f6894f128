import WhereClause.Proofs.Servings
import WhereClause.Proofs.Writings

/-!
# Neat workspaces

What trees and comparisons hold when every one has a binder of its own and nobody else uses it. A
tree that is built mentions the members of its roster and nothing else, and a compiled tree the
elements that were served for them. A comparison binds its one value. No other text can hold a
placeholder.

* `Neat.frame`, `Neat.plant`, `Neat.revise`: a workspace stays neat when binders are added, a node
  is added, or one tree changes with its binder.
-/

namespace WhereClause

/-- What the texts of a run may be: whether no field is a number, and what may join conditions. -/
structure Wording where
  named : Prop
  joins : String → Prop
  keyword : ∀ word, Key.IsKeyword word → joins (Text.upper word)

/-- The conditions are fit, and they mention the members in turn. -/
structure Roster.Enlists (named : Prop) (roster : Roster) (conditions : List Condition) : Prop where
  fits : ∀ condition ∈ conditions, condition.Fits named
  members : roster.members = conditions.filterMap Condition.member?

theorem Roster.Enlists.known {named : Prop} {roster : Roster} {conditions : List Condition}
    (enlists : roster.Enlists named conditions) {condition : Condition}
    (listed : condition ∈ conditions) {member : Seat} (has : member ∈ condition.member?) :
    member ∈ roster.members := by
  rw [enlists.members]
  exact List.mem_filterMap.mpr ⟨condition, listed, has⟩

theorem Roster.Enlists.snoc {named : Prop} {roster longer : Roster} {conditions : List Condition}
    (enlists : roster.Enlists named conditions) {condition : Condition}
    (fits : condition.Fits named)
    (members : longer.members = roster.members ++ condition.member?.toList) :
    longer.Enlists named (conditions ++ [condition]) where
  fits other member := by
    rcases List.mem_append.mp member with before | last
    · exact enlists.fits other before
    · exact List.mem_singleton.mp last ▸ fits
  members := by
    rw [members, enlists.members, List.filterMap_append]
    cases condition <;> rfl

/-- A member is mentioned by a membership test, and is named if every field is no number. -/
theorem Roster.Enlists.test {named : Prop} {roster : Roster} {conditions : List Condition}
    (enlists : roster.Enlists named conditions) {member : Seat} (known : member ∈ roster.members) :
    (∃ key, .test key member ∈ conditions) ∧ (named → member.named = true) := by
  rw [enlists.members] at known
  obtain ⟨condition, listed, has⟩ := List.mem_filterMap.mp known
  have fits := enlists.fits condition listed
  cases condition with
  | test key member' =>
      cases has
      exact ⟨⟨key, listed⟩, fits.2.2.2⟩
  | raw | node => cases has

/-- What the members are served: named seats, each with a number of its own that comes after those
of the members. If all members are named, every seat is served. -/
structure Roster.Serves (named : Prop) (roster : Roster) (serving : Seat → List Seat)
    (seats : List Seat) : Prop where
  seated : ∀ seat ∈ seats, seat.named = true
  distinct : (seats.map Seat.number).Nodup
  later : ∀ member ∈ roster.members, ∀ seat ∈ seats, member.number < seat.number
  given : ∀ member ∈ roster.members, ∀ seat ∈ serving member, seat ∈ seats
  whole : named → ∀ seat ∈ seats, ∃ member ∈ roster.members, seat ∈ serving member

theorem Roster.Serves.named {named : Prop} {roster : Roster} {conditions : List Condition}
    {serving : Seat → List Seat} {seats : List Seat} (serves : roster.Serves named serving seats)
    (enlists : roster.Enlists named conditions) {condition : Condition}
    (listed : condition ∈ conditions) :
    ∀ member ∈ condition.member?, ∀ seat ∈ serving member, seat.named = true :=
  fun member has seat served =>
    serves.seated seat (serves.given member (enlists.known listed has) seat served)

/-- A tree with its binder, while it is built and once it is compiled. -/
inductive Junction.Neat (wording : Wording) (j : Junction) (b : Binder) : Prop
  | built (roster : Roster) (conditions : List Condition) (isOpen : j.compiled = none)
      (joins : wording.joins j.connective.written) (sound : roster.Sound {})
      (enlists : roster.Enlists wording.named conditions) (binder : b = roster.binder "c" 0)
      (same : j.conditions = conditions.map (Condition.value roster.own))
  | finished (roster : Roster) (conditions : List Condition) {serving : Seat → List Seat}
      {seats : List Seat} {rendered : Rendered} (compiled : j.compiled = some rendered)
      (joins : wording.joins j.connective.written)
      (enlists : roster.Enlists wording.named conditions)
      (serves : roster.Serves wording.named serving seats)
      (identifier : b.identifier = toString roster.own)
      (bindings : b.bindings = roster.members.map (Seat.entry "c" 0 roster.own))
      (same : j.conditions = conditions.map (Condition.served roster.own serving))
      (own : rendered.bindings = seats.map (Seat.entry "c" 0 roster.own))

/-- What a compiled tree holds: its conditions, with named seats served in the places of members;
and the seats, if all members are named, are those that are served. -/
theorem Junction.Neat.closed {j : Junction} {b : Binder} (neat : j.Neat wording b)
    (closed : j.compiled.isSome = true) : wording.joins j.connective.written ∧
      ∃ (roster : Roster) (conditions : List Condition) (serving : Seat → List Seat)
        (seats : List Seat) (rendered : Rendered), j.compiled = some rendered ∧
        roster.Enlists wording.named conditions ∧
        roster.Serves wording.named serving seats ∧ b.identifier = toString roster.own ∧
        b.bindings = roster.members.map (Seat.entry "c" 0 roster.own) ∧
        j.conditions = conditions.map (Condition.served roster.own serving) ∧
        rendered.bindings = seats.map (Seat.entry "c" 0 roster.own) := by
  cases neat with
  | built _ _ isOpen => simp [isOpen] at closed
  | finished roster conditions compiled joins enlists serves identifier bindings same own =>
      exact ⟨joins, roster, conditions, _, _, _, compiled, enlists, serves, identifier, bindings,
        same, own⟩

/-- What a comparison holds in its binder: its one value, or nothing if it compares with a node. -/
def Operand.Neat (named : Prop) (b : Binder) : Operand → Prop
  | nested _ => b.bindings = []
  | bound value placeholder => ∃ (own : Nat) (seat : Seat), b.identifier = toString own ∧
      seat.number = 0 ∧ seat.value = value ∧ (named → seat.named = true) ∧
      b.bindings = [seat.entry "c" 0 own] ∧ placeholder = seat.name own

structure Comparison.Neat (named : Prop) (c : Comparison) (b : Binder) : Prop where
  field : Text.Bare c.field
  operator : Text.Bare c.operator
  operand : c.operand.Neat named b

theorem Comparison.Neat.opening {named : Prop} {c : Comparison} {b : Binder}
    (neat : c.Neat named b) : Text.Bare c.opening := by
  obtain ⟨field, operator, -⟩ := neat
  exact ⟨by simp [Comparison.opening, field.colon, operator.colon],
    by simp [Comparison.opening, field.mark, operator.mark]⟩

section

variable {named : Prop} {forest : Forest} {id : NodeId} {c : Comparison}

theorem Comparison.Neat.own_nested (neat : c.Neat named (forest.binder c.binder))
    (kind : forest.node id = .comparison c) {operand : NodeId}
    (nested : c.operand = .nested operand) : forest.ownBindings id = [] := by
  have holds := neat.operand
  rw [nested] at holds
  rw [Forest.ownBindings, kind]
  exact holds

/-- A comparison with a value binds the value, and nothing else. -/
theorem Comparison.Neat.own_bound (neat : c.Neat named (forest.binder c.binder))
    (kind : forest.node id = .comparison c) {value : Value} {placeholder : String}
    (operand : c.operand = .bound value placeholder) : ∃ (own : Nat) (seat : Seat),
      (forest.binder c.binder).identifier = toString own ∧ seat.value = value ∧
      (named → seat.named = true) ∧ placeholder = seat.name own ∧
      forest.ownBindings id = [seat.entry "c" 0 own] := by
  have holds := neat.operand
  rw [operand] at holds
  obtain ⟨own, seat, identifier, -, holding, named, bindings, name⟩ := holds
  refine ⟨own, seat, identifier, holding, named, name, ?_⟩
  rw [Forest.ownBindings, kind]
  exact bindings

theorem Comparison.children_bound (kind : forest.node id = .comparison c) {value : Value}
    {placeholder : String} (operand : c.operand = .bound value placeholder)
    (flat : value.node? = none) : (forest.node id).children = [] := by
  rw [kind, Node.children, operand]
  simp only [Operand.value, flat, Option.toList_none]

end

def Node.Neat (wording : Wording) (binder : BinderId → Binder) : Node → Prop
  | junction j => j.Neat wording (binder j.binder)
  | comparison c => c.Neat wording.named (binder c.binder)
  | unary u => Text.Bare u.symbol
  | fragment s => Text.Bare s
  | abstract => True

def Node.binder? : Node → Option BinderId
  | junction j => some j.binder
  | comparison c => some c.binder
  | unary _ | fragment _ | abstract => none

theorem Node.Neat.congr {wording : Wording} {binder other : BinderId → Binder} {node : Node}
    (same : ∀ b, node.binder? = some b → other b = binder b) (neat : node.Neat wording binder) :
    node.Neat wording other := by
  cases node with
  | junction j =>
      rw [Node.Neat, same j.binder rfl]
      exact neat
  | comparison c =>
      rw [Node.Neat, same c.binder rfl]
      exact neat
  | _ => exact neat

namespace Workspace

/-- Every node is neat, and has a binder of its own if it has one. -/
structure Neat (wording : Wording) (w : Workspace) : Prop where
  node : ∀ id, (w.node id).Neat wording w.toForest.binder
  known : ∀ id b, (w.node id).binder? = some b → b.index < w.binders.size
  alone : ∀ id other b, (w.node id).binder? = some b → (w.node other).binder? = some b → id = other

variable {wording : Wording} {w after : Workspace}

theorem neat_empty (wording : Wording) (n : Nat) : Neat wording { nextIdentifier := n } where
  node _ := trivial
  known _ _ has := nomatch has
  alone _ _ _ has := nomatch has

theorem Neat.frame (neat : w.Neat wording) (nodes : after.nodes = w.nodes)
    (size : w.binders.size ≤ after.binders.size)
    (binder : ∀ b : BinderId, b.index < w.binders.size → after.binder b = w.binder b) :
    after.Neat wording := by
  have node (id : NodeId) : after.node id = w.node id := by simp only [Forest.node, nodes]
  refine ⟨fun id => ?_, fun id b has => ?_, fun id other b has has' => ?_⟩
  · rw [node]
    exact (neat.node id).congr fun b has => binder b (neat.known id b has)
  · rw [node] at has
    exact (neat.known id b has).trans_le size
  · rw [node] at has has'
    exact neat.alone id other b has has'

theorem Neat.plant (neat : w.Neat wording) {node : Node} (nodes : after.nodes = w.nodes.push node)
    (size : w.binders.size ≤ after.binders.size)
    (binder : ∀ b : BinderId, b.index < w.binders.size → node.binder? ≠ some b →
      after.binder b = w.binder b)
    (fits : node.Neat wording after.toForest.binder)
    (fresh : ∀ b, node.binder? = some b → b.index < after.binders.size ∧
      ∀ id, (w.node id).binder? ≠ some b) : after.Neat wording := by
  have here := Forest.node_of_push nodes
  refine ⟨fun id => ?_, fun id b has => ?_, fun id other b has has' => ?_⟩
  · rw [here]
    split
    · exact fits
    · refine (neat.node id).congr fun b has => binder b (neat.known id b has) fun owns => ?_
      exact (fresh b owns).2 id has
  · rw [here] at has
    split at has
    · exact (fresh b has).1
    · exact (neat.known id b has).trans_le size
  · rw [here] at has has'
    split at has <;> split at has'
    · rename_i first second
      exact congrArg NodeId.mk (first.trans second.symm)
    · exact absurd has' ((fresh b has).2 other)
    · exact absurd has ((fresh b has').2 id)
    · exact neat.alone id other b has has'

theorem Neat.revise (neat : w.Neat wording) {id : NodeId} {j k : Junction}
    (found : w.junction? id = some j) (same : k.binder = j.binder)
    (nodes : ∀ other, after.node other = if id = other then .junction k else w.node other)
    (size : w.binders.size ≤ after.binders.size)
    (binder : ∀ b, b ≠ j.binder → after.binder b = w.binder b)
    (fits : k.Neat wording (after.binder j.binder)) : after.Neat wording := by
  have owns : (w.node id).binder? = some j.binder := by
    rw [Forest.junction?_eq_some.mp found]
    rfl
  have keeps (other : NodeId) : (after.node other).binder? = (w.node other).binder? := by
    rw [nodes]
    split
    · rename_i here
      rw [← here, owns]
      exact congrArg some same
    · rfl
  refine ⟨fun other => ?_, fun other b has => ?_, fun first second b has has' => ?_⟩
  · rw [nodes]
    split
    · rw [Node.Neat, same]
      exact fits
    · rename_i other'
      refine (neat.node other).congr fun b has => binder b ?_
      rintro rfl
      exact other' (neat.alone id other j.binder owns has)
  · rw [keeps] at has
    exact (neat.known other b has).trans_le size
  · rw [keeps] at has has'
    exact neat.alone first second b has has'

theorem Neat.tree (neat : w.Neat wording) {id : NodeId} {j : Junction}
    (found : w.junction? id = some j) : j.Neat wording (w.binder j.binder) := by
  have here := neat.node id
  rwa [Forest.junction?_eq_some.mp found] at here

theorem Neat.built (neat : w.Neat wording) {id : NodeId} {j : Junction}
    (found : w.junction? id = some j) (isOpen : j.compiled = none) :
    wording.joins j.connective.written ∧ ∃ (roster : Roster) (conditions : List Condition),
      roster.Sound {} ∧ roster.Enlists wording.named conditions ∧
      w.binder j.binder = roster.binder "c" 0 ∧
      j.conditions = conditions.map (Condition.value roster.own) := by
  cases neat.tree found with
  | built _ _ _ joins sound enlists binder same =>
      exact ⟨joins, _, _, sound, enlists, binder, same⟩
  | finished _ _ compiled => simp [isOpen] at compiled

end Workspace
end WhereClause
