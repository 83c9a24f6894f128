import WhereClause.Proofs.Halting

/-!
# What is done before rendering halts

Every step on the way to a fault is one of two: a tree is begun, which spends the numbers that its
expansion takes, or a node to the left of the way is rendered, which ripens as it would at first.

* `fails_within`: rendering what halts ends with the fault, after just these steps.
-/

namespace WhereClause
namespace Workspace

open WorkspaceM (run)

variable {w v middle after : Workspace} {root id : NodeId} {begun done more others : List NodeId}

/-- The node is one of those listed, or below one. -/
def Under (w : Workspace) (tops : List NodeId) (id : NodeId) : Prop :=
  ∃ top ∈ tops, w.Reaches top id

theorem not_under_nil (id : NodeId) : ¬ w.Under [] id := by
  rintro ⟨top, member, -⟩
  cases member

theorem under_append {tops others : List NodeId} :
    w.Under (tops ++ others) id ↔ w.Under tops id ∨ w.Under others id := by
  simp only [Under, List.mem_append, or_and_right, exists_or]

/-- How many numbers it takes to begin the tree. -/
def demand (w : Workspace) (j : Junction) : Nat :=
  if (w.binder j.binder).expands then (w.binder j.binder).demand w.toForest w.settings else 0

/-- How many numbers of the binder it takes to begin the trees. -/
def spending (w : Workspace) : List NodeId → BinderId → Nat
  | [], _ => 0
  | tree :: rest, b =>
    (match w.junction? tree with
      | some j => if j.binder = b then w.demand j else 0
      | none => 0) + spending w rest b

theorem spending_cons {j : Junction} (found : w.junction? id = some j) (rest : List NodeId)
    (b : BinderId) :
    w.spending (id :: rest) b = (if j.binder = b then w.demand j else 0) + w.spending rest b := by
  simp only [spending, found]

theorem spending_append (trees others : List NodeId) (b : BinderId) :
    w.spending (trees ++ others) b = w.spending trees b + w.spending others b := by
  induction trees with
  | nil => exact (Nat.zero_add _).symm
  | cons tree rest ih => simp only [List.cons_append, spending, ih, Nat.add_assoc]

theorem spending_eq_zero {trees : List NodeId} {b : BinderId}
    (foreign : ∀ tree ∈ trees, ∀ j, w.junction? tree = some j → j.binder ≠ b) :
    w.spending trees b = 0 := by
  induction trees with
  | nil => rfl
  | cons tree rest ih =>
      obtain ⟨here, later⟩ := List.forall_mem_cons.mp foreign
      cases found : w.junction? tree with
      | none => simp only [spending, found, ih later]
      | some j => rw [spending_cons found, if_neg (here j found), ih later]

/-- Between the workspaces some trees were begun and some nodes rendered, and nothing else was
done. -/
structure Strains (w v : Workspace) (begun done : List NodeId) (after : Workspace) : Prop where
  moves : ∃ trace, Moves .rendering v trace after
  node : ∀ id, after.node id = v.node id ∨ w.Under done id ∧ w.Ripe after id
  binder : ∀ b, after.binder b = (v.binder b).skip (w.spending begun b) ∨
    ∃ id j, w.Under done id ∧ w.junction? id = some j ∧ j.binder = b ∧ w.Ripe after id
  closed : ∀ id j, w.Under done id → after.junction? id = some j → j.compiled.isSome = true

namespace Strains

theorem refl (w v : Workspace) : w.Strains v [] [] v :=
  ⟨⟨[], .refl⟩, fun _ => .inl rfl, fun _ => .inl (Binder.skip_zero _).symm,
    fun id _ under => absurd under (not_under_nil id)⟩

theorem ripens (strains : w.Strains v begun done after) : v.Ripens after := by
  obtain ⟨_, moves⟩ := strains.moves
  exact .of_moves moves

theorem wellMade (strains : w.Strains v begun done after) (made : v.WellMade) :
    after.WellMade := by
  obtain ⟨_, moves⟩ := strains.moves
  exact made.moves moves

theorem ripe (strains : w.Strains middle begun done after) (ripe : w.Ripe middle id) :
    w.Ripe after id := by
  rcases strains.node id with same | ⟨-, now⟩
  · exact ripe.congr same
  · exact now

theorem trans (first : w.Strains v begun done middle)
    (second : w.Strains middle more others after) :
    w.Strains v (begun ++ more) (done ++ others) after where
  moves := by
    obtain ⟨trace, moves⟩ := first.moves
    obtain ⟨rest, later⟩ := second.moves
    exact ⟨trace ++ rest, moves.trans later⟩
  node id := by
    rw [under_append]
    rcases second.node id with same | ⟨under, ripe⟩
    · rw [same]
      exact (first.node id).imp_right fun ripe => ⟨.inl ripe.1, ripe.2.congr same⟩
    · exact .inr ⟨.inr under, ripe⟩
  binder b := by
    simp only [under_append]
    rcases second.binder b with same | ⟨id, j, under, rest⟩
    · rcases first.binder b with before | ⟨id, j, under, found, own, ripe⟩
      · left
        rw [same, before, Binder.skip_skip, spending_append]
      · exact .inr ⟨id, j, .inl under, found, own, second.ripe ripe⟩
    · exact .inr ⟨id, j, .inr under, rest⟩
  closed id j under found := by
    rcases under_append.mp under with early | late
    · obtain ⟨k, before⟩ : ∃ k, middle.junction? id = some k :=
        Option.ne_none_iff_exists'.mp fun other => by simp [second.ripens.junction? other] at found
      have closed := first.closed id k early before
      cases found.symm.trans (second.ripens.keeps.tree id k before closed)
      exact closed
    · exact second.closed id j late found

end Strains

/-- The workspace is as it was at first, but for steps on the way to faults: trees were begun that
cannot be rendered, and nodes were rendered. -/
structure Strained (w : Workspace) (root : NodeId) (v : Workspace) : Prop where
  made : v.WellMade
  history : ∃ begun done, w.Strains w begun done v ∧
    (∀ tree ∈ begun, w.Reaches root tree ∧ ¬ w.Renderable (.node tree)) ∧
    ∀ top ∈ done, w.Reaches root top ∧ w.Renderable (.node top)

namespace Strained

theorem refl (made : w.WellMade) : w.Strained root w :=
  ⟨made, [], [], .refl w w, nofun, nofun⟩

theorem later (strained : w.Strained root v) (strains : w.Strains v begun done after)
    (fails : ∀ tree ∈ begun, w.Reaches root tree ∧ ¬ w.Renderable (.node tree))
    (ends : ∀ top ∈ done, w.Reaches root top ∧ w.Renderable (.node top)) :
    w.Strained root after := by
  obtain ⟨made, begun', done', before, fails', ends'⟩ := strained
  refine ⟨strains.wellMade made, _, _, before.trans strains, fun tree member => ?_,
    fun top member => ?_⟩
  · exact (List.mem_append.mp member).elim (fails' tree) (fails tree)
  · exact (List.mem_append.mp member).elim (ends' top) (ends top)

theorem ripens (strained : w.Strained root v) : w.Ripens v := by
  obtain ⟨-, _, _, history, -, -⟩ := strained
  exact history.ripens

theorem node (strained : w.Strained root v) (id : NodeId) :
    v.node id = w.node id ∨ w.Ripe v id := by
  obtain ⟨-, _, _, history, -, -⟩ := strained
  exact (history.node id).imp_right And.right

/-- What cannot be rendered is as it was. -/
theorem same (strained : w.Strained root v) (fails : ¬ w.Renderable (.node id)) :
    v.node id = w.node id := by
  obtain ⟨-, _, _, history, -, ends⟩ := strained
  refine (history.node id).resolve_right ?_
  rintro ⟨⟨top, member, path⟩, -⟩
  exact fails ((ends top member).2.reached path)

/-- The trees below what can be rendered were not begun, so that they are as they were or ripe. -/
theorem underway (strained : w.Strained root v) (separate : w.Separate root)
    (reached : w.Reaches root id) (renderable : w.Renderable (.node id)) :
    w.Underway (w.Reaches id) v where
  ripens := strained.ripens
  node := strained.node
  binder other j inside found isOpen := by
    have first : w.junction? other = some j := by
      rcases strained.node other with same | ripe
      · rw [← found]
        exact (Forest.junction?_congr same).symm
      · simpa [isOpen] using ripe.closed found
    obtain ⟨-, begun, _, history, fails, ends⟩ := strained
    rcases history.binder j.binder with same | ⟨lower, k, ⟨top, member, path⟩, tree, own, ripe⟩
    · rw [same, spending_eq_zero, Binder.skip_zero]
      intro tree member k own shared
      obtain ⟨above, fails⟩ := fails tree member
      cases separate tree other k j above (reached.trans inside) own first shared
      exact fails (renderable.reached inside)
    · cases separate lower other k j ((ends top member).1.trans path) (reached.trans inside) tree
        first own
      simpa [isOpen] using ripe.closed found

theorem shares (strained : w.Strained root v) : w.Shares v.toForest :=
  (show w.Underway (fun _ => False) v from
    ⟨strained.ripens, strained.node, fun _ _ outside => outside.elim⟩).shares

end Strained

theorem Renderable.orderly (renderable : w.Renderable (.node id)) (present : w.Present)
    (separate : w.Separate root) (reached : w.Reaches root id) : w.Orderly id where
  yields lower path := by
    obtain ⟨_, yields⟩ := renderable.reached path
    exact yields.chosen
  separate lower other j k path path' :=
    separate lower other j k (reached.trans path) (reached.trans path')
  present := present

end Workspace

namespace WorkspaceM

open Workspace (Strains Strained Renderable Halts Enough)

variable {w v : Workspace} {root id : NodeId} {depth : Nat} {fault : Fault}

/-! ## The steps -/

section Steps

variable (present : w.Present) (separate : w.Separate root) (strained : w.Strained root v)

include present separate strained

end Steps

/-! ## The whole way -/

variable {α β : Type} {after : Workspace} {begun done : List NodeId}

theorem run_bind_error {operation : WorkspaceM α}
    (failed : run operation v = (.error fault, after)) (next : α → WorkspaceM β) :
    run (operation >>= next) v = (.error fault, after) := by
  rw [run_bind, failed]

theorem run_map_error {operation : WorkspaceM α}
    (failed : run operation v = (.error fault, after)) (f : α → β) :
    run (f <$> operation) v = (.error fault, after) := by
  rw [run_map, failed]

/-- The operation fails, and does nothing before but begin the trees and render the nodes. -/
def Fails (w v : Workspace) (fault : Fault) (begun done : List NodeId) (operation : WorkspaceM α) :
    Prop :=
  ∃ after, run operation v = (.error fault, after) ∧ w.Strains v begun done after

namespace Fails

theorem bind {operation : WorkspaceM α} (fails : Fails w v fault begun done operation)
    (next : α → WorkspaceM β) : Fails w v fault begun done (operation >>= next) := by
  obtain ⟨after, failed, strains⟩ := fails
  exact ⟨after, run_bind_error failed next, strains⟩

theorem map {operation : WorkspaceM α} (fails : Fails w v fault begun done operation)
    (f : α → β) : Fails w v fault begun done (f <$> operation) := by
  obtain ⟨after, failed, strains⟩ := fails
  exact ⟨after, run_map_error failed f, strains⟩

theorem of_run {operation other : WorkspaceM α} (same : run other v = run operation v)
    (fails : Fails w v fault begun done operation) : Fails w v fault begun done other := by
  obtain ⟨after, failed, strains⟩ := fails
  exact ⟨after, same.trans failed, strains⟩

/-- What fails for want of a text is tried once more. -/
theorem again {ask : WorkspaceM String} (fails : Fails w v fault begun done ask)
    (again : ∀ middle, w.Strains v begun done middle → Fails w middle fault begun done ask) :
    Fails w v fault (fault.repeating begun) (fault.repeating done) (askAgain ask) := by
  obtain ⟨middle, failed, first⟩ := fails
  by_cases missing : fault = .noAttribute
  · subst missing
    obtain ⟨after, later, second⟩ := again middle first
    refine ⟨after, ?_, first.trans second⟩
    rw [askAgain, run_tryCatch, failed]
    exact later
  · refine ⟨middle, ?_, ?_⟩
    · rw [askAgain, run_tryCatch, failed]
      cases fault with
      | noAttribute => exact absurd rfl missing
      | _ => rfl
    · rwa [Fault.repeating, if_neg missing, Fault.repeating, if_neg missing]

end Fails

end WorkspaceM
end WhereClause
