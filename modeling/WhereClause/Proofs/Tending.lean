import WhereClause.Proofs.Upkeep

/-!
# Rendering keeps workspaces neat

A tree is compiled from its conditions as they are, with the elements that the members of its roster
have at that moment. Rendering the nodes below it changes neither the tree nor what its binder
holds, so that the tree is neat once it is compiled.

* `kempt_lasts`: compiling a tree keeps a workspace neat.
-/

namespace WhereClause

section

variable {w after : Workspace} {trace : List Handout}

theorem Binder.bindings_reserve (settings : Settings) (token : Value) (keeping : Bool)
    (b : Binder) : (b.reserve settings token keeping).2.bindings = b.bindings := by
  cases keeping <;> rfl

/-- Rendering hands out numbers of binders and binds nothing. -/
theorem Moves.same_binder (moves : Moves .rendering w trace after) (b : BinderId) :
    (after.binder b).identifier = (w.binder b).identifier ∧
      (after.binder b).bindings = (w.binder b).bindings := by
  induction moves with
  | refl => exact ⟨rfl, rfl⟩
  | tail _ move ih =>
      rw [← ih.1, ← ih.2]
      cases move with
      | reserve known token keeping =>
          rw [Forest.binder_setBinder]
          split
          · rename_i here
            rw [← here.1]
            exact ⟨Binder.identifier_reserve _ _ _ _, Binder.bindings_reserve _ _ _ _⟩
          · exact ⟨rfl, rfl⟩
      | note | settle => exact ⟨rfl, rfl⟩
      | draw builds | adopt builds | plant builds | change builds | bind builds
      | lengthen builds => exact builds.elim
      | give given => exact given.elim

end

theorem Roster.serves (forest : Forest) {roster : Roster} (sound : roster.Sound {}) {named : Prop}
    {conditions : List Condition} (enlists : roster.Enlists named conditions) :
    roster.Serves named (roster.serving forest {}) (roster.seats forest {}) where
  seated _ inside := (mem_seating inside).2
  distinct := nodup_seating forest {} roster.count roster.members
  later member known _ inside := (sound.below member known).trans_le (mem_seating inside).1
  given _ known _ served := mem_serving known served
  whole all _ inside :=
    exists_serving sound (fun _ known => (enlists.test known).2 all) inside

/-- A tree that is compiled from what it holds is neat. -/
theorem Junction.Neat.settle {wording : Wording} {j : Junction} (forest : Forest)
    {roster : Roster} {conditions : List Condition} (joins : wording.joins j.connective.written)
    (sound : roster.Sound {}) (enlists : roster.Enlists wording.named conditions)
    (same : j.conditions = conditions.map (Condition.value roster.own)) {b : Binder}
    (identifier : b.identifier = (roster.binder "c" 0).identifier)
    (bindings : b.bindings = (roster.binder "c" 0).bindings) (sql : String) :
    (j.settle (j.conditions.map ((roster.binder "c" 0).rewriting forest {}))
      ⟨sql, (roster.binder "c" 0).final forest {}⟩).Neat wording b := by
  refine .finished roster conditions rfl joins enlists (roster.serves forest sound enlists) ?_
    bindings ?_ ?_
  · rw [identifier, Roster.binder, Nat.zero_add]
  · show j.conditions.map _ = _
    rw [same, List.map_map]
    refine List.map_congr_left fun condition listed => ?_
    exact rewriting_value forest sound (enlists.fits condition listed) fun member has =>
      enlists.known listed has
  · exact Roster.final_binder forest Settings.regular_default sound 0

namespace WorkspaceM

open Workspace (Kempt)

variable {α : Type} {wording : Wording} {w after : Workspace} {scope : NodeId → Prop}
  {sql : NodeId → WorkspaceM String}

theorem Keeps.of_settles {operation : WorkspaceM α} {answer : α → Workspace → Prop}
    (settles : w.WellMade → Settles scope answer operation w)
    (neat : w.Kempt wording → (run operation w).2.Neat wording) :
    Keeps (Kempt wording) operation w where
  after kempt := by
    obtain ⟨compiles, -⟩ := settles kempt.made
    exact ⟨compiles.ripens.settings.trans kempt.settings, compiles.wellMade kempt.made, neat kempt⟩

theorem keeps_expandTree {id : NodeId} {j : Junction} (found : w.junction? id = some j)
    (isOpen : j.compiled = none) : Keeps (Kempt wording) (expandTree j) w := by
  have settles (made : w.WellMade) : Settles (fun _ => False) _ (expandTree j) w :=
    settles_expandTree (made.binder id j found)
  apply Keeps.of_settles settles
  intro kempt
  have size : (run (expandTree j) w).2.binders.size = w.binders.size := by
    unfold expandTree
    rw [run_bind, run_get]
    simp only
    split
    · exact Array.size_setIfInBounds
    · rfl
  obtain ⟨after, done, spends⟩ := run_expandTree j w
  obtain ⟨joins, roster, conditions, sound, enlists, binder, same⟩ := kempt.neat.built found isOpen
  obtain ⟨more, spent⟩ := (w.binder j.binder).spent_eq w.toForest w.settings
  rw [done] at size ⊢
  refine kempt.neat.revise found rfl (fun other => ?_) size.ge (fun b other => ?_) ?_
  · rw [spends.node]
    split
    · rename_i here
      rw [← here, Forest.junction?_eq_some.mp found]
    · rfl
  · rw [spends.binder, if_neg other]
  · rw [spends.binder, if_pos rfl, spent, binder]
    refine .built { roster with count := roster.count + more } conditions isOpen joins
      (sound.spend more) ⟨enlists.fits, enlists.members⟩ ?_ same
    simp [Roster.binder]

theorem keeps_parts (asked : ∀ id w, Keeps (Kempt wording) (sql id) w) {id : NodeId} {j : Junction}
    (found : w.junction? id = some j) (isOpen : j.compiled = none) :
    Keeps (Kempt wording) (expandTree j >>= fun expanded =>
      renderAll sql expanded.1 >>= fun parts => Pure.pure (expanded, parts)) w := by
  apply (keeps_expandTree found isOpen).bind
  intro expanded middle _
  exact (keeps_renderAll asked expanded.1 middle).bind fun _ _ _ => .pure _

theorem expanded_of_parts {j : Junction} {result : (List Value × Bindings) × List String}
    (done : run (expandTree j >>= fun expanded =>
      renderAll sql expanded.1 >>= fun parts => Pure.pure (expanded, parts)) w =
        (.ok result, after)) :
    result.1 = (j.conditions.map ((w.binder j.binder).rewriting w.toForest w.settings),
      (w.binder j.binder).final w.toForest w.settings) := by
  obtain ⟨middle, expanded, -⟩ := run_expandTree j w
  rw [run_bind_ok expanded, run_bind] at done
  split at done
  · cases done
    rfl
  · cases done

theorem kempt_lasts : Lasts (Kempt wording) := by
  intro sql honest asked w id j found
  apply Keeps.of_settles (fun made => settles_compileJunction honest made found)
  intro kempt
  unfold compileJunction
  cases compiled : j.compiled with
  | some rendered => exact kempt.neat
  | none =>
      have whole : (run ((expandTree j >>= fun expanded =>
          renderAll sql expanded.1 >>= fun parts => Pure.pure (expanded, parts)) >>= fun result =>
          setJunction id
            (j.settle result.1.1 ⟨joined j.connective.written result.2, result.1.2⟩) >>= fun _ =>
          Pure.pure (⟨joined j.connective.written result.2, result.1.2⟩ : Rendered)) w).2.Neat
          wording := by
        have middle := (keeps_parts asked found compiled).after kempt
        have compiles := (settles_parts honest kempt.made found).1
        rw [run_bind]
        split
        · rename_i result after done
          rw [done] at middle compiles
          have still := still_open kempt.made found compiles
          obtain ⟨trace, moves⟩ := compiles.moves
          obtain ⟨identifier, bindings⟩ := Moves.same_binder moves j.binder
          obtain ⟨joins, roster, conditions, sound, enlists, binder, same⟩ :=
            kempt.neat.built found compiled
          have expanded := expanded_of_parts done
          rw [kempt.settings, binder] at expanded
          rw [binder] at identifier bindings
          refine middle.neat.revise still (k := j.settle result.1.1 _) rfl
            (Forest.node_setNode_of_tree still _) (Nat.le_refl _) (fun _ _ => rfl) ?_
          rw [expanded]
          exact .settle w.toForest joins sound enlists same identifier bindings _
        · rename_i fault after done
          rw [done] at middle
          exact middle.neat
      simp only [bind_assoc, pure_bind] at whole
      exact whole

end WorkspaceM
end WhereClause
