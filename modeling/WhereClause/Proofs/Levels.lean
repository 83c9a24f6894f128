import WhereClause.Proofs.Halting

/-!
# The first attempt is enough

A node that can be rendered is rendered at the first attempt, also if trees below it share a binder,
as long as there are more levels left than nodes below it. Once there are enough of them, the number
of levels makes no difference.

* `smooth_within`: what can be rendered is rendered.
* `deepens_within`: one level more does the same.
* `run_wrappedWithin_of_wrapped`: what is rendered by itself is so below another node.
-/

namespace WhereClause

namespace Workspace

variable {w after : Workspace}

/-- What can be rendered still can be after anything was rendered. -/
theorem Renderable.later (ripens : w.Ripens after) {v : Value} (renderable : w.Renderable v) :
    after.Renderable v := by
  obtain ⟨texts, yields⟩ := renderable
  have kind {id : NodeId} {node : Node} (before : w.node id = node)
      (notTree : ∀ j, node ≠ .junction j) : after.node id = node :=
    (ripens.kind notTree).mpr before
  induction yields with
  | text s => exact ⟨_, .text s⟩
  | outcome => exact ⟨_, .outcome⟩
  | compiled found compiled =>
      exact ⟨_, .compiled (ripens.keeps.tree _ _ found (by simp [compiled])) compiled⟩
  | fragment here => exact ⟨_, .fragment (kind here nofun)⟩
  | bound here operator operand flat => exact ⟨_, .bound (kind here nofun) operator operand flat⟩
  | nested here operator nested _ ih =>
      obtain ⟨_, yields⟩ := ih
      exact ⟨_, .nested (kind here nofun) operator nested yields⟩
  | plain here symbol given flat => exact ⟨_, .plain (kind here nofun) symbol given flat⟩
  | unary here symbol nested _ ih =>
      obtain ⟨_, yields⟩ := ih
      exact ⟨_, .unary (kind here nofun) symbol nested yields⟩
  | @tree id j conditions _ found read _ ih =>
      obtain ⟨k, rewrite, now, rewrites, same⟩ := ripens.tree found
      refine renderable_of_tree now fun v member => ?_
      rw [same] at member
      obtain ⟨u, inside, rfl⟩ := List.mem_map.mp member
      rw [renderable_rewrite rewrites]
      cases read
      split at ih
      · exact ih u inside
      · exact (renderable_rewrite (w.rewrites j) u).mp (ih _ (List.mem_map_of_mem inside))

open Classical in
theorem Ripens.rank (ripens : w.Ripens after) (id : NodeId) : after.rank id = w.rank id := by
  simp only [Forest.rank, Forest.Below, ripens.size, ripens.child]

theorem Renderable.rank_lt {id child : NodeId} (renderable : w.Renderable (.node id))
    (step : w.Child id child) : w.rank child < w.rank id := by
  obtain ⟨_, yields⟩ := renderable
  exact yields.rank_lt w.reading_faithful step

end Workspace

namespace WorkspaceM

variable {α β : Type} {w : Workspace} {depth : Nat} {sql wrapped : NodeId → WorkspaceM String}
  {id : NodeId}

theorem faultOf_eq_none {operation : WorkspaceM α} :
    faultOf operation w = none ↔ ∃ a after, run operation w = (.ok a, after) := by
  unfold faultOf
  rcases run operation w with ⟨failed | a, after⟩ <;> simp

theorem faultOf_bind_none {operation : WorkspaceM α} {next : α → WorkspaceM β}
    (here : faultOf operation w = none)
    (later : ∀ a after, run operation w = (.ok a, after) → faultOf (next a) after = none) :
    faultOf (operation >>= next) w = none :=
  faultOf_bind here none later

/-! ## Rendering without a second attempt -/

/-- What can be rendered has a text, if there are more levels than nodes below it. -/
def Smooth (depth : Nat) (ask : NodeId → WorkspaceM String) : Prop :=
  ∀ w id, w.WellMade → w.Renderable (.node id) → w.rank id < depth → faultOf (ask id) w = none

theorem Smooth.child {ask : NodeId → WorkspaceM String} (smooth : Smooth depth ask)
    (made : w.WellMade) (renderable : w.Renderable (.node id)) (low : w.rank id < depth + 1)
    {child : NodeId} (step : w.Child id child) : faultOf (ask child) w = none :=
  smooth w child made (renderable.child step)
    ((renderable.rank_lt step).trans_le (Nat.le_of_lt_succ low))

theorem smooth_renderCondition (smooth : Smooth depth sql) (made : w.WellMade) {v : Value}
    (renderable : w.Renderable v) (low : ∀ child, v = .node child → w.rank child < depth) :
    faultOf (renderCondition sql v) w = none := by
  cases v with
  | text s => rfl
  | outcome mark text parameters types positional => rfl
  | node child => exact smooth w child made renderable (low child rfl)
  | compiled tree =>
      obtain ⟨_, yields⟩ := renderable
      cases yields with
      | compiled found compiled =>
          simp only [faultOf, renderCondition, run_bind, run_junction found, compiled, run_pure]
  | _ =>
      obtain ⟨_, yields⟩ := renderable
      cases yields

theorem smooth_renderAll (asked : Honest Texts.alone sql) (smooth : Smooth depth sql)
    {conditions : List Value} (made : w.WellMade) (each : ∀ v ∈ conditions, w.Renderable v)
    (low : ∀ child, .node child ∈ conditions → w.rank child < depth) :
    faultOf (renderAll sql conditions) w = none := by
  induction conditions generalizing w with
  | nil => rfl
  | cons v rest ih =>
      obtain ⟨here, others⟩ := List.forall_mem_cons.mp each
      have first := smooth_renderCondition smooth made here fun child same =>
        low child (by simp [same])
      refine faultOf_bind_none first fun part middle done => ?_
      have settles : Settles (fun _ => True) (fun s after => Workspace.Gives Texts.alone after v s)
          (renderCondition sql v) w :=
        settles_renderCondition asked made fun _ _ _ _ => trivial
      have compiles := settles.compiles done
      have remaining := ih (compiles.wellMade made)
        (fun u member => (others u member).later compiles.ripens) fun child member => by
          rw [compiles.ripens.rank]
          exact low child (List.mem_cons_of_mem v member)
      exact faultOf_bind_none remaining fun _ _ _ => rfl

theorem smooth_compileJunction (asked : Honest Texts.alone sql) (smooth : Smooth depth sql)
    (made : w.WellMade) (renderable : w.Renderable (.node id)) (low : w.rank id < depth + 1)
    {j : Junction} (found : w.junction? id = some j) :
    faultOf (compileJunction sql id j) w = none := by
  cases compiled : j.compiled with
  | some rendered =>
      simp only [compileJunction, compiled]
      rfl
  | none =>
      obtain ⟨middle, expanded, -⟩ := run_expandTree j w
      have compiles : Workspace.Compiles (w.Below id) w middle :=
        (settles_expandTree (made.binder id j found)).compiles expanded
      have rewrites := Binder.rewrites (w.binder j.binder) w.toForest w.settings
      have all : faultOf (renderAll sql (j.conditions.map
          ((w.binder j.binder).rewriting w.toForest w.settings))) middle = none := by
        refine smooth_renderAll asked smooth (compiles.wellMade made) ?_ ?_
        · rw [List.forall_mem_map]
          exact fun v member => (Workspace.renderable_rewrite rewrites v).mpr
            ((renderable.condition found member).later compiles.ripens)
        · intro child member
          obtain ⟨v, inside, node⟩ := List.mem_map.mp member
          have step := (Forest.child_of_tree found).mpr (rewrites.node_iff.mp node ▸ inside)
          rw [compiles.ripens.rank]
          exact (renderable.rank_lt step).trans_le (Nat.le_of_lt_succ low)
      simp only [compileJunction, compiled]
      rw [faultOf_bind_ok expanded]
      exact faultOf_bind_none all fun _ _ _ => rfl

theorem smooth_renderNode (asked : Honest Texts.alone sql) (asks : Smooth depth sql)
    (wraps : Smooth depth wrapped) (made : w.WellMade) (renderable : w.Renderable (.node id))
    (low : w.rank id < depth + 1) : faultOf (renderNode sql wrapped id) w = none := by
  unfold renderNode
  rw [faultOf_bind_ok (run_get w)]
  obtain ⟨_, yields⟩ := renderable
  have known := yields.of_node
  cases kind : w.node id with
  | junction j =>
      have found := Forest.junction?_eq_some.mpr kind
      exact (faultOf_map _ _ w).trans
        (smooth_compileJunction asked asks made ⟨_, yields⟩ low found)
  | comparison c =>
      rw [kind] at known
      obtain ⟨operator, ⟨_, _, operand, -, -⟩ | ⟨operand, _, nested, -, -⟩⟩ := known
      · simp only [renderComparison, if_neg operator, operand]
        rfl
      · have beside := wraps.child made ⟨_, yields⟩ low (child_of_nested kind nested)
        simp only [renderComparison, if_neg operator, nested]
        exact faultOf_bind_none beside fun _ _ _ => rfl
  | unary u =>
      rw [kind] at known
      obtain ⟨symbol, ⟨given, flat, -⟩ | ⟨argument, _, nested, -, -⟩⟩ := known
      · simp only [renderUnary, if_neg symbol]
        split
        · contradiction
        · rename_i argument nested
          simp [nested, Value.node?] at flat
        · split <;> rfl
      · have step := child_of_unary kind nested
        simp only [renderUnary, if_neg symbol, nested]
        split
        · exact faultOf_bind_none (asks.child made ⟨_, yields⟩ low step) fun _ _ _ => rfl
        · exact faultOf_bind_none (wraps.child made ⟨_, yields⟩ low step) fun _ _ _ => rfl
  | fragment s => rfl
  | abstract => simp [kind] at known

theorem smooth_wrapNode (asked : Honest Texts.alone sql) (asks : Smooth depth sql)
    (wraps : Smooth depth wrapped) (made : w.WellMade) (renderable : w.Renderable (.node id))
    (low : w.rank id < depth + 1) : faultOf (wrapNode sql wrapped id) w = none := by
  have once := smooth_renderNode asked asks wraps made renderable low
  have own : faultOf (askAgain (renderNode sql wrapped id)) w = none :=
    (faultOf_askAgain (by simp [once])).trans once
  cases tree : w.junction? id with
  | none => rw [faultOf, run_wrapNode tree, ← faultOf, faultOf_map, own]
  | some j =>
      rw [faultOf, run_wrapNode_of_tree tree]
      cases single : solitary? j.conditions with
      | none => exact (faultOf_map _ _ w).trans own
      | some child =>
          have step : w.Child id child := by
            simp [Forest.child_of_tree tree, solitary?_eq_some.mp single]
          have compile := smooth_compileJunction asked asks made renderable low tree
          simp only [discard_bind]
          refine faultOf_bind_none compile fun rendered middle done => ?_
          have compiles := (settles_compileJunction asked made tree).compiles done
          refine wraps middle child (compiles.wellMade made)
            ((renderable.child step).later compiles.ripens) ?_
          rw [compiles.ripens.rank]
          exact (renderable.rank_lt step).trans_le (Nat.le_of_lt_succ low)

theorem smooth_within (depth : Nat) :
    Smooth depth (sqlWithin depth) ∧ Smooth depth (wrappedWithin depth) := by
  induction depth with
  | zero => exact ⟨fun _ _ _ _ low => absurd low (Nat.not_lt_zero _),
      fun _ _ _ _ low => absurd low (Nat.not_lt_zero _)⟩
  | succ depth ih =>
      obtain ⟨asks, wraps⟩ := ih
      have asked := (honest_within depth).1
      constructor <;> intro w id made renderable low
      · have once := smooth_renderNode asked asks wraps made renderable low
        rw [sqlWithin, faultOf_askAgain (by simp [once]), once]
      · rw [wrappedWithin]
        exact smooth_wrapNode asked asks wraps made renderable low

/-! ## More levels -/

/-- The other operation does the same, unless this one runs out of levels. -/
def Deepens (operation other : WorkspaceM α) : Prop :=
  ∀ w, faultOf operation w ≠ some .tooDeep → run other w = run operation w

namespace Deepens

theorem refl (operation : WorkspaceM α) : Deepens operation operation := fun _ _ => rfl

theorem bind {operation other : WorkspaceM α} {next later : α → WorkspaceM β}
    (first : Deepens operation other) (rest : ∀ a, Deepens (next a) (later a)) :
    Deepens (operation >>= next) (other >>= later) := by
  intro w shallow
  rw [faultOf, run_bind] at shallow
  rw [run_bind, run_bind, first w fun deep => ?_]
  · rcases result : run operation w with ⟨fault | a, after⟩
    · rfl
    · rw [result] at shallow
      exact rest a after shallow
  · obtain ⟨after, failed⟩ := faultOf_eq_some.mp deep
    simp [failed] at shallow

theorem map {operation other : WorkspaceM α} (same : Deepens operation other) (f : α → β) :
    Deepens (f <$> operation) (f <$> other) := by
  intro w shallow
  rw [faultOf_map] at shallow
  rw [run_map, run_map, same w shallow]

theorem again {ask other : WorkspaceM String} (same : Deepens ask other) :
    Deepens (askAgain ask) (askAgain other) := by
  intro w shallow
  rw [faultOf, askAgain, run_tryCatch] at shallow
  rw [askAgain, askAgain, run_tryCatch, run_tryCatch, same w fun deep => ?_]
  · rcases result : run ask w with ⟨fault | s, after⟩
    · rw [result] at shallow
      cases fault with
      | noAttribute => exact same after shallow
      | _ => rfl
    · rfl
  · obtain ⟨after, failed⟩ := faultOf_eq_some.mp deep
    simp [failed] at shallow

end Deepens

section
variable {deeperSql deeperWrapped : NodeId → WorkspaceM String}
  (asks : ∀ id, Deepens (sql id) (deeperSql id))
  (wraps : ∀ id, Deepens (wrapped id) (deeperWrapped id))

include asks

theorem deepens_renderAll (conditions : List Value) :
    Deepens (renderAll sql conditions) (renderAll deeperSql conditions) := by
  induction conditions with
  | nil => exact .refl _
  | cons v rest ih =>
      have first : Deepens (renderCondition sql v) (renderCondition deeperSql v) := by
        cases v with
        | node id => exact asks id
        | _ => exact .refl _
      exact first.bind fun part => ih.bind fun parts => .refl _

theorem deepens_compileJunction (id : NodeId) (j : Junction) :
    Deepens (compileJunction sql id j) (compileJunction deeperSql id j) := by
  unfold compileJunction
  split
  · exact .refl _
  · exact (Deepens.refl _).bind fun _ => (deepens_renderAll asks _).bind fun _ => .refl _

include wraps

theorem deepens_renderNode (id : NodeId) :
    Deepens (renderNode sql wrapped id) (renderNode deeperSql deeperWrapped id) := by
  refine (Deepens.refl _).bind fun w => ?_
  cases w.node id with
  | junction j => exact (deepens_compileJunction asks id j).map _
  | comparison c =>
      simp only [renderComparison]
      split
      · exact .refl _
      · cases c.operand with
        | bound value placeholder => exact .refl _
        | nested operand => exact (wraps operand).bind fun _ => .refl _
  | unary u =>
      simp only [renderUnary]
      split
      · exact .refl _
      · split
        · exact .refl _
        · split
          · exact (asks _).bind fun _ => .refl _
          · exact (wraps _).bind fun _ => .refl _
        · exact .refl _
  | fragment s => exact .refl _
  | abstract => exact .refl _

theorem deepens_wrapNode (id : NodeId) :
    Deepens (wrapNode sql wrapped id) (wrapNode deeperSql deeperWrapped id) := by
  have own := (deepens_renderNode asks wraps id).again
  refine (Deepens.refl _).bind fun w => ?_
  cases w.node id with
  | junction j =>
      dsimp only
      split
      · simp only [discard_bind]
        exact (deepens_compileJunction asks id j).bind fun _ => wraps _
      · exact own.map _
      · exact own.map _
      · exact own
  | _ => exact own.map _

end

/-- What does not run out of levels does the same with one level more. -/
theorem deepens_within (depth : Nat) (id : NodeId) :
    Deepens (sqlWithin depth id) (sqlWithin (depth + 1) id) ∧
      Deepens (wrappedWithin depth id) (wrappedWithin (depth + 1) id) := by
  induction depth generalizing id with
  | zero => exact ⟨fun _ deep => absurd rfl deep, fun _ deep => absurd rfl deep⟩
  | succ depth ih =>
      have asks (id : NodeId) := (ih id).1
      have wraps (id : NodeId) := (ih id).2
      exact ⟨(deepens_renderNode asks wraps id).again, deepens_wrapNode asks wraps id⟩

/-! ## What was rendered once -/

theorem renderable_of_wrapped (made : w.WellMade) (present : w.Present) {s : String}
    {after : Workspace} (done : run (WorkspaceM.wrapped id) w = (.ok s, after)) :
    w.Renderable (.node id) := by
  have settles := settles_wrapped made id
  have compiles := settles.compiles done
  obtain ⟨texts, settled, -⟩ := settles.2 s (by rw [done])
  rw [done] at settled
  exact Workspace.yields_before present compiles.ripens settled (Workspace.made_node id)

/-- What can be rendered beside an operator can be so from one level lower. -/
theorem run_wrappedWithin_of_wrapped (made : w.WellMade) (present : w.Present) {s : String}
    {after : Workspace} (done : run (WorkspaceM.wrapped id) w = (.ok s, after)) :
    run (wrappedWithin w.nodes.size id) w = (.ok s, after) := by
  have renderable := renderable_of_wrapped made present done
  obtain ⟨_, yields⟩ := renderable
  have low := Forest.rank_lt_size yields.index_lt (yields.not_below_self w.reading_faithful)
  have smooth := (smooth_within w.nodes.size).2 w id made ⟨_, yields⟩ low
  have deeper := (deepens_within w.nodes.size id).2 w (by simp [smooth])
  rw [← deeper, ← done, WorkspaceM.wrapped, run_bind, run_get]
  rfl

end WorkspaceM
end WhereClause
