import WhereClause.Proofs.Flaws
import WhereClause.Proofs.Renewals

/-!
# Where rendering halts

A node that is not below itself can be rendered, or rendering it halts: at a flawed node, or in a
tree at a condition that has no text. On the way down to there, trees are begun and not completed;
what stands to the left of the way in them is rendered first. After a condition without a text is
met, every text on the way that is asked for is asked for a second time.

* `Binder.spent_skip`: an expansion takes one number for each element.
* `decided`, `Halts.not_renderable`: it is one or the other.
-/

namespace WhereClause

/-- How a node is rendered: once, by itself, or to stand beside an operator. -/
inductive Request
  | once | alone | beside

/-- What is done on the way to a fault, which is done again if a text was missing. -/
def Fault.repeating (fault : Fault) (nodes : List NodeId) : List NodeId :=
  if fault = .noAttribute then nodes ++ nodes else nodes

/-- The binder after that many numbers more were handed out. -/
def Binder.skip (n : Nat) (b : Binder) : Binder := { b with count := b.count + n }

@[simp] theorem Binder.skip_zero (b : Binder) : b.skip 0 = b := by simp [skip]

theorem Binder.skip_skip (m n : Nat) (b : Binder) : (b.skip m).skip n = b.skip (m + n) := by
  simp only [skip, Int.natCast_add, Int.add_assoc]

/-- How many placeholders an expansion hands out, one for each element. -/
def Binder.demand (forest : Forest) (settings : Settings) (b : Binder) : Nat :=
  ((b.bindings.several settings).flatMap fun binding => forest.elements binding.value).length

namespace Workspace

variable {w : Workspace} {id : NodeId} {fault : Fault} {request : Request}
  {begun done : List NodeId}

/-- The value has a text, and so has everything below it. -/
def Renderable (w : Workspace) (v : Value) : Prop :=
  ∃ texts, Yields w.toForest w.reading v texts

/-- Rendering the node as requested ends with the fault. The trees that are begun are listed as
often as they are, and the nodes that are rendered before. -/
inductive Halts (w : Workspace) (fault : Fault) :
    Request → NodeId → (begun done : List NodeId) → Prop
  | flawed {id : NodeId} (flaw : (w.node id).flaw? = some fault) : Halts w fault .once id [] []
  | comparison {id inner : NodeId} {c : Comparison} {begun done : List NodeId}
      (kind : w.node id = .comparison c) (operator : Text.trim c.operator ≠ "")
      (nested : c.operand = .nested inner) (halts : Halts w fault .beside inner begun done) :
      Halts w fault .once id begun done
  | unary {id inner : NodeId} {u : Unary} {begun done : List NodeId}
      (kind : w.node id = .unary u) (symbol : u.symbol ≠ "") (nested : u.argument = .node inner)
      (halts : Halts w fault (if u.trailing then .alone else .beside) inner begun done) :
      Halts w fault .once id begun done
  | stray {id : NodeId} {j : Junction} {before rest : List Value} {v : Value}
      (found : w.junction? id = some j) (isOpen : j.compiled = none)
      (conditions : j.conditions = before ++ v :: rest) (first : ∀ u ∈ before, w.Renderable u)
      (notNode : v.node? = none) (textless : ¬ w.Renderable v) (missing : fault = .noAttribute) :
      Halts w fault .once id [id] (before.filterMap Value.node?)
  | tree {id child : NodeId} {j : Junction} {before rest : List Value} {begun done : List NodeId}
      (found : w.junction? id = some j) (isOpen : j.compiled = none)
      (conditions : j.conditions = before ++ .node child :: rest)
      (first : ∀ u ∈ before, w.Renderable u) (halts : Halts w fault .alone child begun done) :
      Halts w fault .once id (id :: begun) (before.filterMap Value.node? ++ done)
  | alone {id : NodeId} {begun done : List NodeId} (halts : Halts w fault .once id begun done) :
      Halts w fault .alone id (fault.repeating begun) (fault.repeating done)
  | grouped {id : NodeId} {begun done : List NodeId}
      (several : ∀ j, w.junction? id = some j → solitary? j.conditions = none)
      (halts : Halts w fault .once id begun done) :
      Halts w fault .beside id (fault.repeating begun) (fault.repeating done)
  | single {id child : NodeId} {j : Junction} {begun done : List NodeId}
      (found : w.junction? id = some j) (single : solitary? j.conditions = some child)
      (halts : Halts w fault .once id begun done) : Halts w fault .beside id begun done

/-! ## What can be rendered, and what halts -/

theorem Renderable.child (renderable : w.Renderable (.node id)) {child : NodeId}
    (step : w.Child id child) : w.Renderable (.node child) := by
  obtain ⟨_, yields⟩ := renderable
  exact yields.child w.reading_faithful step

theorem Renderable.reached (renderable : w.Renderable (.node id)) {lower : NodeId}
    (path : w.Reaches id lower) : w.Renderable (.node lower) := by
  obtain ⟨_, yields⟩ := renderable
  exact yields.reached w.reading_faithful path

/-- A condition that is rewritten can be rendered if and only if it could be before. -/
theorem renderable_rewrite {rewrite : Value → Value} (rewrites : Rewrites rewrite) (v : Value) :
    w.Renderable (rewrite v) ↔ w.Renderable v := by
  rcases rewrites v with ⟨s, t, rfl, text⟩ | ⟨-, same⟩
  · rw [text]
    exact iff_of_true ⟨_, .text t⟩ ⟨_, .text s⟩
  · rw [same]

theorem renderable_of_tree {j : Junction} (found : w.junction? id = some j)
    (each : ∀ v ∈ j.conditions, w.Renderable v) : w.Renderable (.node id) := by
  have parts : ∀ conditions, w.reading j = some conditions → ∀ v ∈ conditions, w.Renderable v := by
    rintro _ ⟨⟩ v member
    split at member
    · exact each v member
    · obtain ⟨u, inside, rfl⟩ := List.mem_map.mp member
      exact (renderable_rewrite (w.rewrites j) u).mpr (each u inside)
  choose! texts yields using parts _ rfl
  exact ⟨_, .tree found rfl yields⟩

theorem Renderable.condition (renderable : w.Renderable (.node id)) {j : Junction}
    (found : w.junction? id = some j) {v : Value} (member : v ∈ j.conditions) :
    w.Renderable v := by
  obtain ⟨_, yields⟩ := renderable
  obtain ⟨_, parts, ⟨⟩, each, -⟩ := yields.of_tree found
  split at each
  · exact ⟨_, each v member⟩
  · exact (renderable_rewrite (w.rewrites j) v).mp ⟨_, each _ (List.mem_map_of_mem member)⟩

namespace Halts

theorem child_of_conditions {j : Junction} {before rest : List Value} {child : NodeId}
    (found : w.junction? id = some j) (conditions : j.conditions = before ++ .node child :: rest) :
    w.Child id child :=
  (Forest.child_of_tree found).mpr (by simp [conditions])

/-- What halts when it is rendered once halts however it is rendered. -/
theorem requested (halts : w.Halts fault .once id begun done) (how : Request) :
    ∃ begun done, w.Halts fault how id begun done := by
  cases how with
  | once => exact ⟨_, _, halts⟩
  | alone => exact ⟨_, _, .alone halts⟩
  | beside =>
      cases tree : w.junction? id with
      | none => exact ⟨_, _, .grouped (fun _ found => by simp [tree] at found) halts⟩
      | some j =>
          cases single : solitary? j.conditions with
          | some child => exact ⟨_, _, .single tree single halts⟩
          | none =>
              refine ⟨_, _, .grouped (fun k found => ?_) halts⟩
              cases tree.symm.trans found
              exact single

end Halts

/-- The depth is enough for whatever is below a node that is not below itself. -/
def Enough (w : Workspace) (depth : Nat) (id : NodeId) : Prop :=
  if id.index < w.nodes.size then w.rank id + 1 < depth else 0 < depth

theorem enough_of_size {depth : Nat} (finite : ¬ w.Below id id) (deep : w.nodes.size < depth) :
    w.Enough depth id := by
  unfold Enough
  split
  · rename_i inside
    have := Forest.rank_lt_size inside finite
    omega
  · omega

namespace Enough

variable {depth : Nat}

theorem pos (enough : w.Enough depth id) : 0 < depth := by
  unfold Enough at enough
  split at enough <;> omega

theorem child (enough : w.Enough (depth + 1) id) {child : NodeId} (step : w.Child id child)
    (finite : ¬ w.Below child child) : w.Enough depth child := by
  have inside : id.index < w.nodes.size := by
    by_contra outside
    exact Forest.not_child_of_outside outside child step
  unfold Enough at enough ⊢
  rw [if_pos inside] at enough
  split
  · rename_i lower
    have less := Forest.rank_lt step lower finite
    omega
  · omega

open Classical in
theorem rank_lt (enough : w.Enough depth id) : w.rank id < depth := by
  unfold Enough at enough
  split at enough
  · omega
  · rename_i outside
    have none' : w.rank id = 0 := by
      rw [Forest.rank, Finset.card_eq_zero, Finset.filter_eq_empty_iff]
      intro i _ below
      obtain ⟨child, step, -⟩ := Relation.TransGen.head'_iff.mp below
      exact Forest.not_child_of_outside outside child step
    omega

end Enough

open Classical in
/-- The first condition that cannot be rendered, if there is one. -/
theorem split_conditions (w : Workspace) (conditions : List Value) :
    (∀ v ∈ conditions, w.Renderable v) ∨ ∃ before v rest, conditions = before ++ v :: rest ∧
      (∀ u ∈ before, w.Renderable u) ∧ ¬ w.Renderable v := by
  cases first : conditions.find? fun v => ¬ w.Renderable v with
  | none =>
      refine .inl fun v member => ?_
      simpa using List.find?_eq_none.mp first v member
  | some v =>
      obtain ⟨fails, before, rest, split, sound⟩ := List.find?_eq_some_iff_append.mp first
      exact .inr ⟨before, v, rest, split, by simpa using sound, by simpa using fails⟩

/-- Rendering the node succeeds or halts. -/
def Decided (w : Workspace) (request : Request) (id : NodeId) : Prop :=
  w.Renderable (.node id) ∨ ∃ fault begun done, w.Halts fault request id begun done

theorem Decided.requested (decided : w.Decided .once id) (how : Request) : w.Decided how id := by
  refine decided.imp_right ?_
  rintro ⟨fault, _, _, halts⟩
  exact ⟨fault, halts.requested how⟩

theorem decided_tree (made : w.WellMade) (present : w.Present) {j : Junction}
    (found : w.junction? id = some j)
    (below : ∀ child, w.Child id child → w.Decided .alone child) : w.Decided .once id := by
  cases compiled : j.compiled with
  | some rendered =>
      obtain ⟨_, settled⟩ := made.settled id j found (by simp [compiled])
      exact .inl (yields_before present (.refl w) settled (made_node id))
  | none =>
      rcases w.split_conditions j.conditions with
        each | ⟨before, v, rest, conditions, first, fails⟩
      · exact .inl (renderable_of_tree found each)
      · right
        cases node : v.node? with
        | none => exact ⟨_, _, _, .stray found compiled conditions first node fails rfl⟩
        | some child =>
            obtain rfl : v = .node child := by
              cases v <;> cases node
              rfl
            obtain ⟨fault, _, _, halts⟩ :=
              (below child (Halts.child_of_conditions found conditions)).resolve_left fails
            exact ⟨fault, _, _, .tree found compiled conditions first halts⟩

theorem decided_comparison (made : w.WellMade) {c : Comparison} (kind : w.node id = .comparison c)
    (below : ∀ child, w.Child id child → w.Decided .beside child) : w.Decided .once id := by
  by_cases operator : Text.trim c.operator = ""
  · exact .inr ⟨_, _, _, .flawed (by rw [kind, Node.flaw?, if_pos operator])⟩
  · cases operand : c.operand with
    | bound value placeholder =>
        exact .inl ⟨_, .bound kind operator operand (made.flat id c _ _ kind operand)⟩
    | nested inner =>
        refine (below inner (WorkspaceM.child_of_nested kind operand)).imp ?_ ?_
        · rintro ⟨_, yields⟩
          exact ⟨_, .nested kind operator operand yields⟩
        · rintro ⟨fault, _, _, halts⟩
          exact ⟨fault, _, _, .comparison kind operator operand halts⟩

theorem decided_unary {u : Unary} (kind : w.node id = .unary u)
    (below : ∀ child, w.Child id child →
      w.Decided (if u.trailing then .alone else .beside) child) : w.Decided .once id := by
  by_cases symbol : u.symbol = ""
  · exact .inr ⟨_, _, _, .flawed (by rw [kind, Node.flaw?, if_pos symbol])⟩
  · cases node : u.argument.node? with
    | none =>
        by_cases given : u.argument = .null
        · refine .inr ⟨.missingArgument, _, _, .flawed ?_⟩
          rw [kind, Node.flaw?, if_neg symbol, given]
        · exact .inl ⟨_, .plain kind symbol given node⟩
    | some inner =>
        have nested : u.argument = .node inner := by
          cases argument : u.argument <;> rw [argument] at node <;> cases node
          rfl
        refine (below inner (WorkspaceM.child_of_unary kind nested)).imp ?_ ?_
        · rintro ⟨_, yields⟩
          exact ⟨_, .unary kind symbol nested yields⟩
        · rintro ⟨fault, _, _, halts⟩
          exact ⟨fault, _, _, .unary kind symbol nested halts⟩

theorem decided_within (made : w.WellMade) (present : w.Present) {depth : Nat}
    (enough : w.Enough depth id) (acyclic : ∀ lower, w.Reaches id lower → ¬ w.Below lower lower) :
    w.Decided .once id := by
  induction depth generalizing id with
  | zero => exact absurd enough.pos (Nat.lt_irrefl 0)
  | succ depth ih =>
      have below (how : Request) (child : NodeId) (step : w.Child id child) :
          w.Decided how child :=
        (ih (enough.child step (acyclic child (.single step)))
          fun lower path => acyclic lower (.head step path)).requested how
      cases kind : w.node id with
      | junction j => exact decided_tree made present (Forest.junction?_eq_some.mpr kind) (below _)
      | comparison c => exact decided_comparison made kind (below _)
      | unary u => exact decided_unary kind (below _)
      | fragment s => exact .inl ⟨_, .fragment kind⟩
      | abstract => exact .inr ⟨_, _, _, .flawed (by rw [kind, Node.flaw?])⟩

/-- Rendering what is not below itself, nor anything below it, succeeds or halts. -/
theorem decided (made : w.WellMade) (present : w.Present)
    (acyclic : ∀ lower, w.Reaches id lower → ¬ w.Below lower lower) (how : Request) :
    w.Decided how id :=
  (decided_within made present (enough_of_size (acyclic id .refl) (Nat.lt_succ_self _))
    acyclic).requested how

end Workspace
end WhereClause
