import WhereClause.Proofs.Picture

/-!
# The outlines of a forest

The outline of a tree says what its conditions and bindings are once it is compiled. A compiled tree
has them already. For any other tree they come from expanding the bindings of its binder as they are
now, and expanding changes the count of a binder only.
-/

namespace WhereClause

namespace Expansion

variable (forest other : Forest) (settings : Settings)

theorem reserveEach_binder (token : Value) (vs : List Value) (b : Binder) :
    (reserveEach settings token vs b).2 = { b with count := b.count + vs.length } := by
  induction vs generalizing b with
  | nil => simp [reserveEach]
  | cons v rest ih =>
      simp only [reserveEach, Binder.reserve, ih, Binder.advance, List.length_cons]
      simp
      omega

theorem ofBindings_binder (bindings : Bindings) (b : Binder) :
    ∃ n : Nat, (ofBindings forest settings bindings b).2 = { b with count := b.count + n } := by
  induction bindings generalizing b with
  | nil => exact ⟨0, by simp [ofBindings]⟩
  | cons entry rest ih =>
      simp only [ofBindings]
      split
      · obtain ⟨n, later⟩ := ih
          (reserveEach settings (.text entry.2.fragment) (forest.elements entry.2.value) b).2
        refine ⟨(forest.elements entry.2.value).length + n, ?_⟩
        rw [later, reserveEach_binder]
        congr 1
        push_cast
        omega
      · exact ih b

theorem ofBindings_congr {bindings : Bindings}
    (same : ∀ entry ∈ bindings, forest.elements entry.2.value = other.elements entry.2.value)
    (b : Binder) :
    ofBindings forest settings bindings b = ofBindings other settings bindings b := by
  induction bindings generalizing b with
  | nil => rfl
  | cons entry rest ih =>
      have later := ih fun entry member => same entry (by simp [member])
      simp only [ofBindings, same entry (by simp), later]

end Expansion

namespace Binder

variable (forest other : Forest) (settings : Settings)

def rewriting (b : Binder) : Value → Value :=
  if b.expands then (b.expand forest settings).1.substitute else id

def final (b : Binder) : Bindings :=
  if b.expands then (b.expand forest settings).1.bindings else b.bindings

def spent (b : Binder) : Binder := if b.expands then (b.expand forest settings).2 else b

theorem spent_eq (b : Binder) :
    ∃ n : Nat, b.spent forest settings = { b with count := b.count + n } := by
  unfold spent
  split
  · exact Expansion.ofBindings_binder forest settings b.bindings b
  · exact ⟨0, by simp⟩

@[simp] theorem bindings_spent (b : Binder) : (b.spent forest settings).bindings = b.bindings := by
  obtain ⟨n, same⟩ := b.spent_eq forest settings
  rw [same]

@[simp] theorem expands_spent (b : Binder) : (b.spent forest settings).expands = b.expands := by
  obtain ⟨n, same⟩ := b.spent_eq forest settings
  rw [same]

theorem spent_of_not_expands {b : Binder} (still : b.expands = false) :
    b.spent forest settings = b := by
  simp [spent, still]

theorem rewriting_congr {b : Binder} (same : b.expands = true → ∀ entry ∈ b.bindings,
    forest.elements entry.2.value = other.elements entry.2.value) :
    b.rewriting forest settings = b.rewriting other settings := by
  unfold rewriting
  split
  · rename_i expands
    rw [expand, expand, Expansion.ofBindings_congr forest other settings (same expands)]
  · rfl

theorem final_congr {b : Binder} (same : b.expands = true → ∀ entry ∈ b.bindings,
    forest.elements entry.2.value = other.elements entry.2.value) :
    b.final forest settings = b.final other settings := by
  unfold final
  split
  · rename_i expands
    rw [expand, expand, Expansion.ofBindings_congr forest other settings (same expands)]
  · rfl

@[simp] theorem rewriting_node (b : Binder) (id : NodeId) :
    b.rewriting forest settings (.node id) = .node id := by
  unfold rewriting
  split <;> rfl

theorem rewriting_eq_node {b : Binder} {v : Value} {id : NodeId}
    (same : b.rewriting forest settings v = .node id) : v = .node id := by
  unfold rewriting at same
  split at same
  · cases v <;> simp_all [Expansion.substitute]
  · exact same

end Binder

namespace Forest

/-- The outlines of the nodes that can be rendered. -/
def outline (forest : Forest) (settings : Settings) : Outlines := fun id =>
  match forest.node id with
  | .junction j =>
    match j.compiled with
    | some rendered => some (.tree j.connective.written rendered.bindings j.conditions)
    | none =>
      let b := forest.binder j.binder
      some (.tree j.connective.written (b.final forest settings)
        (j.conditions.map (b.rewriting forest settings)))
  | .comparison c =>
    if Text.trim c.operator = "" then none
    else
      let own := (forest.binder c.binder).bindings
      match c.operand with
      | .nested operand => some (.nested c.field c.operator own operand)
      | .bound value placeholder =>
        if value.node?.isSome then none
        else some (.leaf (c.field ++ " " ++ c.operator ++ " " ++ placeholder) own)
  | .unary u =>
    if u.symbol = "" then none
    else
      match u.argument with
      | .node argument => some (.unary u.symbol u.trailing argument)
      | .text s => some (.leaf (if u.trailing then s ++ " " ++ u.symbol
          else u.symbol ++ " " ++ parenthesized s) [])
      | _ => none
  | .fragment text => some (.leaf text [])
  | .abstract => none

/-- The outlines of the nodes whose bindings are final: of trees, the compiled ones. -/
def finished (forest : Forest) (settings : Settings) : Outlines := fun id =>
  match forest.junction? id with
  | some j => if j.compiled.isSome then forest.outline settings id else none
  | none => forest.outline settings id

theorem junction?_eq_some {forest : Forest} {id : NodeId} {j : Junction} :
    forest.junction? id = some j ↔ forest.node id = .junction j := by
  unfold junction?
  cases forest.node id <;> simp

theorem junction?_eq_none {forest : Forest} {id : NodeId} {node : Node}
    (kind : forest.node id = node) (other : ∀ j, node ≠ .junction j) :
    forest.junction? id = none := by
  cases tree : forest.junction? id with
  | none => rfl
  | some j => exact absurd (kind.symm.trans (junction?_eq_some.mp tree)) (other j)

theorem outline_of_compiled {forest : Forest} {id : NodeId} {j : Junction} {rendered : Rendered}
    (found : forest.junction? id = some j) (compiled : j.compiled = some rendered)
    (settings : Settings) :
    forest.outline settings id =
      some (.tree j.connective.written rendered.bindings j.conditions) := by
  simp only [outline, junction?_eq_some.mp found, compiled]

theorem outline_of_open {forest : Forest} {id : NodeId} {j : Junction}
    (found : forest.junction? id = some j) (isOpen : j.compiled = none) (settings : Settings) :
    forest.outline settings id =
      some (.tree j.connective.written ((forest.binder j.binder).final forest settings)
        (j.conditions.map ((forest.binder j.binder).rewriting forest settings))) := by
  simp only [outline, junction?_eq_some.mp found, isOpen]

theorem outline_of_tree {forest : Forest} {id : NodeId} {j : Junction}
    (found : forest.junction? id = some j) (settings : Settings) :
    ∃ own rewrite, forest.outline settings id =
        some (.tree j.connective.written own (j.conditions.map rewrite)) ∧
      ∀ v child, rewrite v = .node child ↔ v = .node child := by
  cases compiled : j.compiled with
  | some rendered =>
      refine ⟨rendered.bindings, fun v => v, ?_, fun _ _ => Iff.rfl⟩
      rw [outline_of_compiled found compiled, List.map_id']
  | none =>
      refine ⟨_, _, outline_of_open found compiled settings, fun v child => ⟨?_, ?_⟩⟩
      · exact Binder.rewriting_eq_node forest settings
      · rintro rfl
        exact Binder.rewriting_node ..

theorem outline_of_comparison {forest : Forest} {settings : Settings} {id : NodeId}
    {c : Comparison} {outline : Outline} (kind : forest.node id = .comparison c)
    (found : forest.outline settings id = some outline) :
    Text.trim c.operator ≠ "" ∧
      ((∃ value placeholder, c.operand = .bound value placeholder ∧ value.node? = none ∧
          outline = .leaf (c.field ++ " " ++ c.operator ++ " " ++ placeholder)
            (forest.binder c.binder).bindings) ∨
        ∃ operand, c.operand = .nested operand ∧
          outline = .nested c.field c.operator (forest.binder c.binder).bindings operand) := by
  simp only [Forest.outline, kind, Option.ite_none_left_eq_some] at found
  obtain ⟨blank, found⟩ := found
  refine ⟨blank, ?_⟩
  cases operand : c.operand with
  | bound value placeholder =>
      simp only [operand, Option.ite_none_left_eq_some, Option.some.injEq] at found
      obtain ⟨plain, rfl⟩ := found
      exact .inl ⟨value, placeholder, rfl, by simpa using plain, rfl⟩
  | nested inner =>
      simp only [operand, Option.some.injEq] at found
      exact .inr ⟨inner, rfl, found.symm⟩

theorem outline_of_unary {forest : Forest} {settings : Settings} {id : NodeId} {u : Unary}
    {outline : Outline} (kind : forest.node id = .unary u)
    (found : forest.outline settings id = some outline) :
    u.symbol ≠ "" ∧
      ((∃ s, u.argument = .text s ∧ outline = .leaf (if u.trailing then s ++ " " ++ u.symbol
          else u.symbol ++ " " ++ parenthesized s) []) ∨
        ∃ argument, u.argument = .node argument ∧
          outline = .unary u.symbol u.trailing argument) := by
  simp only [Forest.outline, kind, Option.ite_none_left_eq_some] at found
  obtain ⟨missing, found⟩ := found
  refine ⟨missing, ?_⟩
  cases argument : u.argument with
  | text s =>
      simp only [argument, Option.some.injEq] at found
      exact .inl ⟨s, rfl, found.symm⟩
  | node inner =>
      simp only [argument, Option.some.injEq] at found
      exact .inr ⟨inner, rfl, found.symm⟩
  | _ => simp [argument] at found

theorem outline_ne_tree {forest : Forest} {settings : Settings} {id : NodeId}
    (other : forest.junction? id = none) {connective : String} {own : Bindings}
    {conditions : List Value} :
    forest.outline settings id ≠ some (.tree connective own conditions) := by
  intro found
  cases kind : forest.node id with
  | junction j => simp [junction?_eq_some.mpr kind] at other
  | comparison c =>
      rcases (outline_of_comparison kind found).2 with ⟨_, _, -, -, same⟩ | ⟨_, -, same⟩
      all_goals cases same
  | unary u =>
      rcases (outline_of_unary kind found).2 with ⟨_, -, same⟩ | ⟨_, -, same⟩
      all_goals cases same
  | fragment text => simp [outline, kind] at found
  | abstract => simp [outline, kind] at found

theorem finished_of_compiled {forest : Forest} {id : NodeId} {j : Junction} {rendered : Rendered}
    (found : forest.junction? id = some j) (compiled : j.compiled = some rendered)
    (settings : Settings) :
    forest.finished settings id =
      some (.tree j.connective.written rendered.bindings j.conditions) := by
  simp [finished, found, compiled, outline_of_compiled found compiled]

theorem finished_of_not_tree {forest : Forest} {id : NodeId} (found : forest.junction? id = none)
    (settings : Settings) : forest.finished settings id = forest.outline settings id := by
  simp only [finished, found]

theorem outline_of_finished {forest : Forest} {settings : Settings} {id : NodeId}
    {outline : Outline} (found : forest.finished settings id = some outline) :
    forest.outline settings id = some outline := by
  unfold finished at found
  split at found
  · split at found
    · exact found
    · simp at found
  · exact found

theorem index_lt_of_node {forest : Forest} {id : NodeId} (other : forest.node id ≠ .abstract) :
    id.index < forest.nodes.size := by
  by_contra out
  apply other
  simp [node, Array.getElem?_eq_none (Nat.le_of_not_lt out)]

theorem index_lt_of_tree {forest : Forest} {id : NodeId} {j : Junction}
    (found : forest.junction? id = some j) : id.index < forest.nodes.size :=
  index_lt_of_node (by simp [junction?_eq_some.mp found])

theorem index_lt_of_outline {forest : Forest} {settings : Settings} {id : NodeId}
    {outline : Outline} (found : forest.outline settings id = some outline) :
    id.index < forest.nodes.size := by
  apply index_lt_of_node
  intro absent
  simp [Forest.outline, absent] at found

theorem height_le_depthBound {forest : Forest} {settings : Settings} {outlines : Outlines}
    (within : outlines.Within (forest.outline settings)) {v : Value} {p : Picture}
    (shown : Shows outlines v p) : p.height ≤ forest.depthBound := by
  have bound := shown.height_le fun id outline known =>
    index_lt_of_outline (within id outline known)
  simp only [depthBound]
  omega

theorem node_setNode_of_tree {forest : Forest} {id : NodeId} {j : Junction}
    (found : forest.junction? id = some j) (node : Node) (other : NodeId) :
    (forest.setNode id node).node other = if id = other then node else forest.node other := by
  simp [node_setNode, index_lt_of_tree found]

theorem elements_congr {forest other : Forest} {v : Value}
    (additions : other.additions = forest.additions)
    (conditions : ∀ tree stage, v = .conditions tree stage →
      (other.junction? tree).map (·.listAt stage) = (forest.junction? tree).map (·.listAt stage)) :
    other.elements v = forest.elements v := by
  have kept : other.kept v = forest.kept v := by
    cases v <;> simp_all [Forest.kept]
  cases v <;> simp [elements, sequence?, kept]

end Forest
end WhereClause
