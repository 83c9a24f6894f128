import WhereClause.Proofs.Rendering

/-!
# Collecting gives what is shown

After rendering, every tree below a node is compiled, and what the nodes bind is what the picture
binds.

* `outcomeOf_ok`: the outcome of a tree is the one of its picture.
-/

namespace WhereClause

/-- The outcome of a tree that shows the picture. -/
def Picture.outcome (settings : Settings) (p : Picture) : Outcome :=
  ⟨p.texts.alone, namedValues settings p.collected, namedTypes settings p.collected,
    positionalValues p.collected⟩

namespace Forest

variable {forest : Forest} {settings : Settings} {id : NodeId}

def bindingsWithin (forest : Forest) (depth : Nat) (ids : List NodeId) : List Binding :=
  ids.flatMap fun id =>
    (forest.postorderWithin depth id).flatMap fun id => Table.values (forest.ownBindings id)

theorem bindingsWithin_succ (depth : Nat) :
    forest.bindingsWithin (depth + 1) [id] =
      forest.bindingsWithin depth (forest.node id).children ++
        Table.values (forest.ownBindings id) := by
  simp [bindingsWithin, postorderWithin, List.flatMap_assoc]

theorem children_of_finished {outline : Outline}
    (found : forest.finished settings id = some outline) :
    match outline with
    | .leaf _ own => (forest.node id).children = [] ∧ forest.ownBindings id = own
    | .nested _ _ own operand =>
      (forest.node id).children = [operand] ∧ forest.ownBindings id = own
    | .unary _ _ argument => (forest.node id).children = [argument] ∧ forest.ownBindings id = []
    | .tree _ own conditions =>
      (forest.node id).children = conditions.filterMap Value.node? ∧
        forest.ownBindings id = own := by
  have outlined := outline_of_finished found
  cases kind : forest.node id with
  | junction j =>
      have tree := junction?_eq_some.mpr kind
      cases compiled : j.compiled with
      | none => simp [finished, tree, compiled] at found
      | some rendered =>
          rw [finished_of_compiled tree compiled, Option.some.injEq] at found
          subst found
          simp [Node.children, ownBindings, kind, compiled]
  | comparison c =>
      obtain ⟨-, ⟨value, placeholder, operand, plain, rfl⟩ | ⟨inner, operand, rfl⟩⟩ :=
        outline_of_comparison kind outlined
      · simp [Node.children, ownBindings, kind, operand, Operand.value, plain]
      · simp [Node.children, ownBindings, kind, operand, Operand.value, Value.node?]
  | unary u =>
      obtain ⟨-, ⟨s, argument, rfl⟩ | ⟨inner, argument, rfl⟩⟩ := outline_of_unary kind outlined
      all_goals simp [Node.children, ownBindings, kind, argument, Value.node?]
  | fragment text =>
      simp only [Forest.outline, kind, Option.some.injEq] at outlined
      subst outlined
      simp [Node.children, ownBindings, kind]
  | abstract => simp [Forest.outline, kind] at outlined

theorem bindingsWithin_conditions {depth : Nat} {conditions : List Value} {parts : List Picture}
    (each : List.Forall₂ (Shows (forest.finished settings)) conditions parts)
    (node : ∀ id p, p ∈ parts → Shows (forest.finished settings) (.node id) p →
      forest.bindingsWithin depth [id] = p.collected) :
    forest.bindingsWithin depth (conditions.filterMap Value.node?) =
      parts.flatMap Picture.collected := by
  induction each with
  | nil => rfl
  | @cons v p conditions parts first _ ih =>
      have rest := ih fun id q member => node id q (by simp [member])
      rcases first.text_or_node with ⟨s, rfl, rfl⟩ | ⟨id, rfl⟩
      · simpa [List.filterMap_cons, Value.node?, Picture.collected] using rest
      · have here := node id p (by simp) first
        simp only [bindingsWithin, List.flatMap_cons, List.flatMap_nil, List.append_nil]
          at here rest
        simp only [bindingsWithin, List.filterMap_cons, Value.node?, List.flatMap_cons, here, rest]

theorem bindingsWithin_of_shows {depth : Nat} {p : Picture}
    (shown : Shows (forest.finished settings) (.node id) p) (low : p.height ≤ depth) :
    forest.bindingsWithin depth [id] = p.collected := by
  induction depth generalizing id p with
  | zero =>
      have := shown.height_pos
      omega
  | succ depth ih =>
      obtain ⟨outline, found, meaning⟩ := Shows.node_iff.mp shown
      have below := children_of_finished found
      rw [bindingsWithin_succ]
      cases outline with
      | leaf sql own =>
          obtain ⟨children, own⟩ := below
          rw [children, own, meaning]
          rfl
      | nested field operator own operand =>
          obtain ⟨q, rfl, inner⟩ := meaning
          obtain ⟨children, own⟩ := below
          rw [children, own, ih inner (by simpa [Picture.height] using low), Picture.collected]
      | unary symbol trailing argument =>
          obtain ⟨q, rfl, inner⟩ := meaning
          obtain ⟨children, own⟩ := below
          rw [children, own, ih inner (by simpa [Picture.height] using low), Picture.collected]
          simp [Table.values]
      | tree connective own conditions =>
          obtain ⟨parts, rfl, each⟩ := meaning
          obtain ⟨children, own⟩ := below
          rw [children, own, Picture.collected, Picture.allCollected_eq,
            bindingsWithin_conditions each]
          intro child q member shownChild
          exact ih shownChild (Nat.le_of_lt_succ ((Picture.height_of_part _ _ member).trans_le low))

theorem allBindings_of_shows {p : Picture} (shown : Shows (forest.finished settings) (.node id) p) :
    forest.allBindings id = p.collected := by
  have low := height_le_depthBound (fun _ _ => outline_of_finished) shown
  rw [← bindingsWithin_of_shows shown low]
  simp [bindingsWithin, allBindings, postorder]

end Forest

namespace WorkspaceM

variable {outlines : Outlines} {w : Workspace}

theorem outcomeOf_ok (tracks : w.Tracks outlines []) {id : NodeId} {p : Picture}
    (shown : Shows outlines (.node id) p) :
    ∃ after, run (outcomeOf id) w = (.ok (p.outcome w.settings), after) := by
  obtain ⟨middle, first, advances, finished⟩ := sql_ok tracks shown
  obtain ⟨after, second, -, -⟩ := sql_ok advances.tracks shown
  have collected : run (collectBindings id) w = (.ok p.collected, middle) := by
    rw [collectBindings, run_bind_ok (run_discard_ok first), run_bind_ok (run_forest middle),
      Forest.allBindings_of_shows finished, run_pure]
  refine ⟨after, ?_⟩
  simp only [outcomeOf, run_bind_ok collected, run_bind, run_get, second, run_pure,
    advances.settings, Picture.outcome]

end WorkspaceM
end WhereClause
