import WhereClause.Proofs.Asking

/-!
# Outcomes of trees

What is collected once a node is rendered. All nodes at and below it are visited, its trees are all
compiled, and a tree gives the text that it was compiled to however often it is asked.

* `mem_postorder`: the nodes that are visited.
* `run_compileDescription_of_tree`: the outcome of a tree.
-/

namespace WhereClause

namespace Forest

variable {forest : Forest} {reading : Reading} {id lower : NodeId} {texts : Texts}

/-- Nodes that yield texts are collected with all that is below them. -/
theorem mem_postorderWithin (faithful : reading.Faithful)
    (yields : Yields forest reading (.node id) texts) {depth : Nat}
    (deep : forest.rank id < depth) :
    lower ∈ forest.postorderWithin depth id ↔ forest.Reaches id lower := by
  induction depth generalizing id texts with
  | zero => omega
  | succ depth ih =>
      have inner (child : NodeId) (step : forest.Child id child) :
          lower ∈ forest.postorderWithin depth child ↔ forest.Reaches child lower := by
        obtain ⟨_, below⟩ := yields.child faithful step
        have lower := yields.rank_lt faithful step
        exact ih below (by omega)
      rw [postorderWithin, List.mem_append, List.mem_flatMap, List.mem_singleton]
      constructor
      · rintro (⟨child, step, member⟩ | rfl)
        · exact .head step ((inner child step).mp member)
        · exact .refl
      · intro path
        rcases path.cases_head with rfl | ⟨child, step, rest⟩
        · exact .inr rfl
        · exact .inl ⟨child, step, (inner child step).mpr rest⟩

theorem mem_postorder (faithful : reading.Faithful)
    (yields : Yields forest reading (.node id) texts) :
    lower ∈ forest.postorder id ↔ forest.Reaches id lower :=
  mem_postorderWithin faithful yields (Nat.lt_succ_of_le (forest.rank_le id))

theorem mem_allBindings (settled : Settled forest (.node id) texts) {binding : Binding} :
    binding ∈ forest.allBindings id ↔
      ∃ lower, forest.Reaches id lower ∧ ∃ entry ∈ forest.ownBindings lower, entry.2 = binding := by
  simp only [allBindings, List.mem_flatMap, mem_postorder compiledReading_faithful settled,
    Table.values, List.mem_map]

theorem closed_of_settled (settled : Settled forest (.node id) texts) {k : Junction}
    (path : forest.Reaches id lower) (found : forest.junction? lower = some k) :
    k.compiled.isSome = true := by
  obtain ⟨_, below⟩ := settled.reached compiledReading_faithful path
  obtain ⟨_, _, read, -⟩ := below.of_tree found
  exact (compiledReading_eq_some.mp read).1

end Forest

namespace WorkspaceM

open Workspace (Compiles)

variable {sql : NodeId → WorkspaceM String} {w after : Workspace} {id : NodeId} {j : Junction}
  {s : String}

/-- The text is the one that the tree was compiled to. -/
def Kept (id : NodeId) (s : String) (w : Workspace) : Prop :=
  ∃ j rendered, w.junction? id = some j ∧ j.compiled = some rendered ∧ rendered.sql = s

theorem settles_kept (honest : Honest Texts.alone sql) (made : w.WellMade)
    (found : w.junction? id = some j) :
    Settles (w.Reaches id) (fun (rendered : Rendered) after => Kept id rendered.sql after)
      (compileJunction sql id j) w := by
  unfold compileJunction
  cases compiled : j.compiled with
  | some rendered => exact .pure ⟨j, rendered, found, compiled, rfl⟩
  | none =>
      have finish (middle : Workspace) (compiles : Compiles (w.Below id) w middle)
          (result : (List Value × Bindings) × List String) (parts : Parts j result middle) :
          Settles (w.Reaches id) (fun (rendered : Rendered) after => Kept id rendered.sql after)
            (setJunction id
                (j.settle result.1.1 ⟨joined j.connective.written result.2, result.1.2⟩) >>=
              fun _ => Pure.pure ⟨joined j.connective.written result.2, result.1.2⟩) middle := by
        have still := still_open made found compiles
        have last := settles_settle (compiles.wellMade made) still compiled parts
        rw [Forest.Reaches, compiles.ripens.child] at last
        refine ⟨last.1, ?_⟩
        rintro rendered ⟨⟩
        have tree := Forest.junction?_setNode still
          (j.settle result.1.1 ⟨joined j.connective.written result.2, result.1.2⟩) id
        rw [if_pos rfl] at tree
        exact ⟨_, _, tree, rfl, rfl⟩
      have whole := (settles_parts honest made found).bind_within
        (fun _ below => below.to_reflTransGen) fun result middle compiles parts =>
          finish middle compiles result parts
      simp only [bind_assoc, pure_bind] at whole
      exact whole

/-- Asked for its text, a tree gives the one that it was compiled to. -/
theorem settles_sql_kept (made : w.WellMade) (found : w.junction? id = some j) :
    Settles (w.Reaches id) (Kept id) (WorkspaceM.sql id) w := by
  apply Settles.get
  apply Settles.again
  intro middle compiles
  obtain ⟨k, -, still, -⟩ := compiles.ripens.tree found
  apply Settles.get
  rw [Forest.junction?_eq_some.mp still]
  have kept := settles_kept (honest_within w.nodes.size).1 (compiles.wellMade made) still
  rw [Forest.Reaches, compiles.ripens.child] at kept
  exact kept.map fun _ _ _ same => same

theorem run_sql_again (made : w.WellMade) (found : w.junction? id = some j)
    (done : run (WorkspaceM.sql id) w = (.ok s, after)) :
    run (WorkspaceM.sql id) after = (.ok s, after) := by
  have settled := (settles_sql made id).2
  have kept := (settles_sql_kept made found).2
  rw [done] at settled kept
  obtain ⟨texts, settled, -⟩ := settled s rfl
  obtain ⟨k, rendered, still, compiled, same⟩ := kept s rfl
  rw [run_sql_settled settled, settled.alone_of_compiled still compiled, same]

theorem run_collectBindings (done : run (WorkspaceM.sql id) w = (.ok s, after)) :
    run (collectBindings id) w = (.ok (after.allBindings id), after) := by
  rw [collectBindings, discard_bind, run_bind_ok done, run_bind_ok (run_forest after)]
  rfl

theorem run_collectParameters (done : run (WorkspaceM.sql id) w = (.ok s, after)) :
    run (collectParameters id) w =
      (.ok (namedValues after.settings (after.allBindings id)), after) := by
  rw [collectParameters, run_bind_ok (run_collectBindings done)]
  rfl

theorem run_compileDescription_of_tree (made : w.WellMade) (found : w.junction? id = some j)
    (done : run (WorkspaceM.sql id) w = (.ok s, after)) (types connective : Value) :
    run (compileDescription (.node id) types connective) w =
      (.ok ⟨s, namedValues after.settings (after.allBindings id),
        namedTypes after.settings (after.allBindings id),
        positionalValues (after.allBindings id)⟩, after) := by
  have outcome : run (outcomeOf id) w =
      (.ok ⟨s, namedValues after.settings (after.allBindings id),
        namedTypes after.settings (after.allBindings id),
        positionalValues (after.allBindings id)⟩, after) := by
    rw [outcomeOf, run_bind_ok (run_collectBindings done), run_bind, run_get]
    simp only [run_bind_ok (run_sql_again made found done), run_pure]
  rw [compileDescription, run_bind_ok (run_forest w)]
  simp only [Value.node?, found, Option.isSome_some, if_true, outcome]

end WorkspaceM

end WhereClause
