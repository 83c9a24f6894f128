import WhereClause.Proofs.Making

/-!
# Rendering acts by moves

Rendering a node hands out numbers and compiles trees at and below the node, whether or not it
succeeds. If it succeeds the node is settled afterwards, with the text that was given. No forest is
excluded here: a node that is below itself is never rendered to its end, and if a tree were compiled
on the way to itself it would be settled, which nothing below itself is.

* `honest_within`: what is asked for its text is settled with that text.
-/

namespace WhereClause

/-- Handing out numbers and compiling trees. -/
def Policy.rendering : Policy where
  argument _ := False
  type v := v = .null
  untyped := rfl
  given := False
  builds := False
  renders := True

theorem Policy.rendering_within {p : Policy} (renders : p.renders) : Policy.rendering.Within p where
  argument _ := False.elim
  type _ same := same ▸ p.untyped
  given := False.elim
  builds := False.elim
  renders _ := renders

namespace Workspace

/-- What rendering changes at most: trees are compiled, and numbers are handed out. -/
structure Ripens (w after : Workspace) : Prop where
  settings : after.settings = w.settings
  nextIdentifier : after.nextIdentifier = w.nextIdentifier
  size : after.nodes.size = w.nodes.size
  additions : after.additions = w.additions
  node : ∀ id, after.node id = w.node id ∨ ∃ j rewrite rendered,
    w.junction? id = some j ∧ j.compiled = none ∧ Rewrites rewrite ∧
      after.node id = .junction (j.settle (j.conditions.map rewrite) rendered)

variable {w middle after : Workspace}

theorem Ripens.refl (w : Workspace) : w.Ripens w := ⟨rfl, rfl, rfl, rfl, fun _ => .inl rfl⟩

theorem Ripens.trans (first : w.Ripens middle) (second : middle.Ripens after) :
    w.Ripens after where
  settings := second.settings.trans first.settings
  nextIdentifier := second.nextIdentifier.trans first.nextIdentifier
  size := second.size.trans first.size
  additions := second.additions.trans first.additions
  node id := by
    rcases second.node id with same | ⟨k, rewrite, rendered, found, isOpen, rewrites, made⟩
    · rcases first.node id with before | ⟨j, rewrite, rendered, found, isOpen, rewrites, made⟩
      · exact .inl (same.trans before)
      · exact .inr ⟨j, rewrite, rendered, found, isOpen, rewrites, same.trans made⟩
    · rcases first.node id with before | ⟨j, _, _, _, _, _, settled⟩
      · exact .inr ⟨k, rewrite, rendered, (Forest.junction?_congr before) ▸ found, isOpen, rewrites,
          made⟩
      · cases (Forest.junction?_eq_some.mp found).symm.trans settled
        cases isOpen

theorem Ripens.settle {id : NodeId} {j : Junction} {rewrite : Value → Value} {rendered : Rendered}
    (found : w.junction? id = some j) (isOpen : j.compiled = none) (rewrites : Rewrites rewrite) :
    w.Ripens { w with
      toForest := w.setNode id (.junction (j.settle (j.conditions.map rewrite) rendered)) } := by
  refine ⟨rfl, rfl, Array.size_setIfInBounds, rfl, fun other => ?_⟩
  by_cases same : id = other
  · subst same
    exact .inr ⟨j, rewrite, rendered, found, isOpen, rewrites,
      by rw [Forest.node_setNode_of_tree found, if_pos rfl]⟩
  · exact .inl (by rw [Forest.node_setNode_of_tree found, if_neg same])

theorem Ripens.of_move {trace : List Handout} (move : Move .rendering w trace after) :
    w.Ripens after := by
  cases move with
  | note records nextMark => exact ⟨rfl, rfl, rfl, rfl, fun _ => .inl rfl⟩
  | reserve known token keeping => exact ⟨rfl, rfl, rfl, rfl, fun _ => .inl rfl⟩
  | settle renders found isOpen rewrites each text => exact .settle found isOpen rewrites
  | draw builds | adopt builds | plant builds | change builds | bind builds | lengthen builds =>
      exact builds.elim
  | give given => exact given.elim

theorem Ripens.of_moves {trace : List Handout} (moves : Moves .rendering w trace after) :
    w.Ripens after := by
  induction moves with
  | refl => exact .refl w
  | tail _ move ih => exact ih.trans (.of_move move)

theorem Ripens.keeps (ripens : w.Ripens after) : w.Keeps after.toForest where
  node id _ notTree := by
    rcases ripens.node id with same | ⟨j, _, _, found, -⟩
    · exact same
    · simp [found] at notTree
  tree id j found compiled := by
    rcases ripens.node id with same | ⟨k, _, _, found', isOpen, -⟩
    · rw [← found]
      exact Forest.junction?_congr same
    · cases found.symm.trans found'
      simp [isOpen] at compiled

/-- Compiling a tree leaves the nodes below it where they are. -/
theorem Ripens.children (ripens : w.Ripens after) (id : NodeId) :
    (after.node id).children = (w.node id).children := by
  rcases ripens.node id with same | ⟨j, rewrite, rendered, found, -, rewrites, made⟩
  · rw [same]
  · rw [made, Forest.junction?_eq_some.mp found]
    simp only [Node.children, Junction.settle, List.filterMap_map]
    congr 1
    funext v
    rcases rewrites v with ⟨s, t, rfl, same⟩ | ⟨-, same⟩
    · simp [same, Value.node?]
    · simp [same]

theorem Ripens.child (ripens : w.Ripens after) : after.Child = w.Child := by
  funext id child
  simp only [Forest.Child, ripens.children]

theorem Ripens.junction? (ripens : w.Ripens after) {id : NodeId} (other : w.junction? id = none) :
    after.junction? id = none := by
  rcases ripens.node id with same | ⟨j, _, _, found, -⟩
  · rw [← other]
    exact Forest.junction?_congr same
  · simp [found] at other

theorem Ripens.tree (ripens : w.Ripens after) {id : NodeId} {j : Junction}
    (found : w.junction? id = some j) : ∃ k rewrite, after.junction? id = some k ∧
      Rewrites rewrite ∧ k.conditions = j.conditions.map rewrite := by
  rcases ripens.node id with same | ⟨k, rewrite, rendered, found', -, rewrites, made⟩
  · refine ⟨j, fun v => v, ?_, fun v => ?_, by simp⟩
    · rw [← found]
      exact Forest.junction?_congr same
    · cases v with
      | text s => exact .inl ⟨s, s, rfl, rfl⟩
      | _ => exact .inr ⟨rfl, rfl⟩
  · cases found.symm.trans found'
    exact ⟨_, rewrite, Forest.junction?_eq_some.mpr made, rewrites, rfl⟩

theorem Ripens.kind (ripens : w.Ripens after) {id : NodeId} {node : Node}
    (notTree : ∀ j, node ≠ .junction j) : after.node id = node ↔ w.node id = node := by
  rcases ripens.node id with same | ⟨j, _, _, found, -, -, made⟩
  · rw [same]
  · rw [made, Forest.junction?_eq_some.mp found]
    exact iff_of_false (notTree _).symm (notTree _).symm

theorem Ripens.steady (ripens : w.Ripens after) : after.Steady ↔ w.Steady := by
  have unary (id : NodeId) (u : Unary) : after.node id = .unary u ↔ w.node id = .unary u :=
    ripens.kind nofun
  simp only [Forest.steady_iff, ripens.additions, unary]

/-- Rendering in a scope: no node outside it changes. -/
structure Compiles (scope : NodeId → Prop) (w after : Workspace) : Prop where
  moves : ∃ trace, Moves .rendering w trace after
  within : ∀ id, ¬ scope id → after.node id = w.node id

variable {scope : NodeId → Prop}

theorem Compiles.refl (w : Workspace) : Compiles scope w w := ⟨⟨[], .refl⟩, fun _ _ => rfl⟩

theorem Compiles.trans (first : Compiles scope w middle) (second : Compiles scope middle after) :
    Compiles scope w after := by
  obtain ⟨trace, moves⟩ := first.moves
  obtain ⟨more, rest⟩ := second.moves
  exact ⟨⟨trace ++ more, moves.trans rest⟩,
    fun id outside => (second.within id outside).trans (first.within id outside)⟩

theorem Compiles.mono {wider : NodeId → Prop} (more : ∀ id, scope id → wider id)
    (compiles : Compiles scope w after) : Compiles wider w after :=
  ⟨compiles.moves, fun id outside => compiles.within id fun inside => outside (more id inside)⟩

theorem Compiles.of_nodes {trace : List Handout} (moves : Moves .rendering w trace after)
    (nodes : after.nodes = w.nodes) : Compiles scope w after :=
  ⟨⟨trace, moves⟩, fun id _ => by simp only [Forest.node, nodes]⟩

theorem Compiles.ripens (compiles : Compiles scope w after) : w.Ripens after := by
  obtain ⟨trace, moves⟩ := compiles.moves
  exact .of_moves moves

theorem Compiles.wellMade (compiles : Compiles scope w after) (made : w.WellMade) :
    after.WellMade := by
  obtain ⟨trace, moves⟩ := compiles.moves
  exact made.moves moves

/-- The value is settled, and the text is the one it has, if no text changes by itself. -/
def Gives (text : Texts → String) (w : Workspace) (v : Value) (s : String) : Prop :=
  ∃ texts, Settled w.toForest v texts ∧ (w.Steady → s = text texts)

theorem Gives.later {text : Texts → String} {v : Value} {s : String} (ripens : w.Ripens after)
    (gives : Gives text w v s) : Gives text after v s := by
  obtain ⟨texts, settled, same⟩ := gives
  by_cases steady : w.Steady
  · refine ⟨texts, settled.keep ripens.keeps fun id u kind flat => ?_, fun _ => same steady⟩
    exact Forest.plainText_steady steady.additions (ripens.additions.trans steady.additions)
      (steady.argument id u kind flat)
  · obtain ⟨others, later⟩ := settled.endure ripens.keeps.endures
    exact ⟨others, later, fun steady' => absurd (ripens.steady.mp steady') steady⟩

end Workspace

/-! ## Expansion -/

namespace Moves

variable {p : Policy} {w : Workspace} {id : BinderId}

theorem setBinder_self (w : Workspace) (id : BinderId) :
    ({ w with toForest := w.setBinder id (w.binder id) } : Workspace) = w := by
  have same : w.binders.setIfInBounds id.index (w.binder id) = w.binders := by
    apply Array.ext_getElem?
    intro i
    rw [Array.getElem?_setIfInBounds]
    split
    · rename_i here
      subst here
      split
      · rename_i bound
        simp [Forest.binder, bound]
      · rename_i out
        exact (Array.getElem?_eq_none (Nat.le_of_not_lt out)).symm
    · rfl
  simp only [Forest.setBinder, same]

theorem reserveEach (known : id.index < w.binders.size) (token : Value) (vs : List Value) :
    ∃ trace, Moves p w trace { w with
      toForest := w.setBinder id
        (Expansion.reserveEach w.settings token vs (w.binder id)).2 } := by
  induction vs generalizing w with
  | nil => exact ⟨[], by simp only [Expansion.reserveEach, setBinder_self]; exact .refl⟩
  | cons v rest ih =>
      let b := ((w.binder id).reserve w.settings token false).2
      let middle : Workspace := { w with toForest := w.setBinder id b }
      have kept : middle.binder id = b := by simp [middle, Forest.binder_setBinder, known]
      obtain ⟨trace, later⟩ := ih (w := middle) (by simpa [middle, Forest.setBinder] using known)
      have first : Moves p w _ middle := .single (.reserve known token false)
      rw [kept] at later
      simp only [middle, WorkspaceM.setBinder_setBinder] at later
      exact ⟨_, first.trans later⟩

theorem ofBindings (known : id.index < w.binders.size) (forest : Forest) (bindings : Bindings) :
    ∃ trace, Moves p w trace { w with
      toForest := w.setBinder id
        (Expansion.ofBindings forest w.settings bindings (w.binder id)).2 } := by
  induction bindings generalizing w with
  | nil => exact ⟨[], by simp only [Expansion.ofBindings, setBinder_self]; exact .refl⟩
  | cons entry rest ih =>
      simp only [Expansion.ofBindings]
      split
      · obtain ⟨trace, first⟩ := reserveEach (p := p) known (.text entry.2.fragment)
          (forest.elements entry.2.value)
        let b := (Expansion.reserveEach w.settings (.text entry.2.fragment)
          (forest.elements entry.2.value) (w.binder id)).2
        let middle : Workspace := { w with toForest := w.setBinder id b }
        have kept : middle.binder id = b := by simp [middle, Forest.binder_setBinder, known]
        obtain ⟨more, later⟩ := ih (w := middle) (by simpa [middle, Forest.setBinder] using known)
        rw [kept] at later
        simp only [middle, WorkspaceM.setBinder_setBinder] at later
        exact ⟨_, first.trans later⟩
      · exact ih known

end Moves

/-! ## What is asked for -/

namespace WorkspaceM

open Workspace (Compiles Gives)

variable {α β : Type} {w after : Workspace} {scope : NodeId → Prop}

/-- The operation compiles trees in the scope only, and what it gives is as it should be. -/
def Settles (scope : NodeId → Prop) (answer : α → Workspace → Prop) (operation : WorkspaceM α)
    (w : Workspace) : Prop :=
  Compiles scope w (run operation w).2 ∧
    ∀ a, (run operation w).1 = .ok a → answer a (run operation w).2

theorem Settles.pure {answer : α → Workspace → Prop} {a : α} (good : answer a w) :
    Settles scope answer (Pure.pure a) w := by
  refine ⟨.refl w, fun b same => ?_⟩
  cases same
  exact good

theorem Settles.throw {answer : α → Workspace → Prop} (fault : Fault) :
    Settles scope answer (MonadExcept.throw fault) w :=
  ⟨.refl w, fun _ same => nomatch same⟩

/-- The first part may be known to keep to a smaller scope. -/
theorem Settles.bind_within {inner : NodeId → Prop} (more : ∀ id, inner id → scope id)
    {operation : WorkspaceM α} {next : α → WorkspaceM β} {middle : α → Workspace → Prop}
    {answer : β → Workspace → Prop} (first : Settles inner middle operation w)
    (later : ∀ a after, Compiles inner w after → middle a after →
      Settles scope answer (next a) after) :
    Settles scope answer (operation >>= next) w := by
  obtain ⟨compiles, good⟩ := first
  rw [Settles, run_bind]
  rcases result : run operation w with ⟨done, after⟩
  rw [result] at compiles good
  cases done with
  | error fault => exact ⟨compiles.mono more, fun _ same => nomatch same⟩
  | ok a =>
      obtain ⟨rest, last⟩ := later a after compiles (good a rfl)
      exact ⟨(compiles.mono more).trans rest, last⟩

theorem Settles.bind {operation : WorkspaceM α} {next : α → WorkspaceM β}
    {middle : α → Workspace → Prop} {answer : β → Workspace → Prop}
    (first : Settles scope middle operation w)
    (later : ∀ a after, Compiles scope w after → middle a after →
      Settles scope answer (next a) after) :
    Settles scope answer (operation >>= next) w :=
  first.bind_within (fun _ => id) later

theorem Settles.map {operation : WorkspaceM α} {f : α → β} {middle : α → Workspace → Prop}
    {answer : β → Workspace → Prop} (first : Settles scope middle operation w)
    (good : ∀ a after, Compiles scope w after → middle a after → answer (f a) after) :
    Settles scope answer (f <$> operation) w := by
  rw [map_eq_pure_bind]
  exact first.bind fun a after compiles was => .pure (good a after compiles was)

theorem Settles.get {next : Workspace → WorkspaceM β} {answer : β → Workspace → Prop}
    (later : Settles scope answer (next w) w) :
    Settles scope answer (MonadState.get >>= next) w := later

theorem Settles.imp {operation : WorkspaceM α} {answer other : α → Workspace → Prop}
    (imp : ∀ a after, Compiles scope w after → answer a after → other a after)
    (settles : Settles scope answer operation w) : Settles scope other operation w :=
  ⟨settles.1, fun a same => imp a _ settles.1 (settles.2 a same)⟩

theorem Settles.mono {wider : NodeId → Prop} (more : ∀ id, scope id → wider id)
    {operation : WorkspaceM α} {answer : α → Workspace → Prop}
    (settles : Settles scope answer operation w) : Settles wider answer operation w :=
  ⟨settles.1.mono more, settles.2⟩

/-- Asking again starts where the first attempt has led. -/
theorem Settles.again {ask : WorkspaceM String} {answer : String → Workspace → Prop}
    (each : ∀ after, Compiles scope w after → Settles scope answer ask after) :
    Settles scope answer (askAgain ask) w := by
  obtain ⟨compiles, good⟩ := each w (.refl w)
  rw [Settles, askAgain, run_tryCatch]
  rcases result : run ask w with ⟨done, after⟩
  rw [result] at compiles good
  cases done with
  | ok s => exact ⟨compiles, good⟩
  | error fault =>
      cases fault with
      | noAttribute =>
          obtain ⟨rest, last⟩ := each after compiles
          exact ⟨compiles.trans rest, last⟩
      | _ =>
          refine ⟨compiles, fun _ same => ?_⟩
          cases same

/-- Whatever is asked for is settled with the text that is given. -/
def Honest (text : Texts → String) (ask : NodeId → WorkspaceM String) : Prop :=
  ∀ w id, w.WellMade →
    Settles (w.Reaches id) (fun s after => Gives text after (.node id) s) (ask id) w

theorem settles_expandTree {j : Junction} (known : j.binder.index < w.binders.size) :
    Settles scope (fun result after => after.nodes = w.nodes ∧
        ∃ rewrite, Rewrites rewrite ∧ result.1 = j.conditions.map rewrite) (expandTree j) w := by
  obtain ⟨after, done, spends⟩ := run_expandTree j w
  rw [Settles, done]
  constructor
  · have acts : ∃ trace, Moves .rendering w trace (run (expandTree j) w).2 := by
      unfold expandTree
      rw [run_bind, run_get]
      simp only
      split
      · obtain ⟨trace, moves⟩ := Moves.ofBindings (p := .rendering) known w.toForest
          (w.binder j.binder).bindings
        exact ⟨_, moves.tail (.note _ _)⟩
      · exact ⟨[], .refl⟩
    obtain ⟨trace, moves⟩ := acts
    rw [done] at moves
    exact .of_nodes moves spends.nodes
  · intro a same
    cases same
    exact ⟨spends.nodes, _, Binder.rewrites _ _ _, rfl⟩

variable {sql wrapped : NodeId → WorkspaceM String}

theorem settles_junction (id : NodeId) :
    Settles scope (fun j after => after.junction? id = some j) (junction id) w := by
  have same := same_junction id w
  rw [Settles, same]
  refine ⟨.refl w, fun j done => ?_⟩
  have asked : run (junction id) w = (.ok j, (run (junction id) w).2) := Prod.ext done rfl
  exact found_of_junction asked

theorem settles_renderCondition (asked : Honest Texts.alone sql) (made : w.WellMade) {v : Value}
    (inside : ∀ id, v = .node id → ∀ other, w.Reaches id other → scope other) :
    Settles scope (fun s after => Gives Texts.alone after v s) (renderCondition sql v) w := by
  cases v with
  | text s => exact .pure ⟨_, .text s, fun _ => rfl⟩
  | node id => exact (asked w id made).mono (inside id rfl)
  | compiled tree =>
      unfold renderCondition
      apply (settles_junction tree).bind
      intro j after _ found
      cases compiled : j.compiled with
      | some rendered => exact .pure ⟨_, .compiled found compiled, fun _ => rfl⟩
      | none => exact .throw _
  | outcome mark sql parameters types positional => exact .pure ⟨_, .outcome, fun _ => rfl⟩
  | _ => exact .throw _

theorem settles_renderAll (asked : Honest Texts.alone sql) {conditions : List Value}
    (made : w.WellMade)
    (inside : ∀ id, .node id ∈ conditions → ∀ other, w.Reaches id other → scope other) :
    Settles scope (fun parts after => List.Forall₂ (Gives Texts.alone after) conditions parts)
      (renderAll sql conditions) w := by
  induction conditions generalizing w with
  | nil => exact .pure .nil
  | cons v rest ih =>
      unfold renderAll
      have first : Settles scope (fun s after => Gives Texts.alone after v s)
          (renderCondition sql v) w :=
        settles_renderCondition asked made fun id here => inside id (by simp [here])
      apply first.bind
      intro part middle compiles gives
      have others : Settles scope
          (fun parts after => List.Forall₂ (Gives Texts.alone after) rest parts)
          (renderAll sql rest) middle := by
        apply ih (compiles.wellMade made)
        intro id member other
        rw [Forest.Reaches, compiles.ripens.child]
        exact inside id (by simp [member]) other
      apply others.bind
      intro parts after later all
      exact .pure (.cons (gives.later later.ripens) all)

/-- While the nodes below an open tree are rendered, the tree itself stays as it is. -/
theorem still_open {id : NodeId} {j : Junction} (made : w.WellMade)
    (found : w.junction? id = some j) (compiles : Compiles (w.Below id) w after) :
    after.junction? id = some j := by
  rw [← found]
  apply Forest.junction?_congr
  rcases compiles.ripens.node id with same | ⟨k, rewrite, rendered, _, _, _, settled⟩
  · exact same
  · apply compiles.within
    have tree := Forest.junction?_eq_some.mpr settled
    obtain ⟨texts, yields⟩ := (compiles.wellMade made).settled id _ tree rfl
    have finite := yields.not_below_self compiledReading_faithful
    rwa [Forest.Below, compiles.ripens.child] at finite

/-- Conditions that were rendered are settled, with the texts that were given. -/
theorem texts_of_gives {conditions : List Value} {parts : List String}
    (all : List.Forall₂ (Gives Texts.alone w) conditions parts) :
    ∃ texts : Value → Texts, (∀ v ∈ conditions, Settled w.toForest v (texts v)) ∧
      (w.Steady → parts = conditions.map fun v => (texts v).alone) := by
  refine ⟨w.toForest.texts compiledReading, ?_⟩
  induction all with
  | nil => exact ⟨nofun, fun _ => rfl⟩
  | @cons v part conditions parts first _ ih =>
      obtain ⟨yields, same⟩ := ih
      obtain ⟨texts, settled, alone⟩ := first
      refine ⟨List.forall_mem_cons.mpr ⟨settled.chosen, yields⟩, fun steady => ?_⟩
      rw [List.map_cons, ← same steady, alone steady, settled.texts_eq compiledReading_faithful]

/-- What a tree is compiled from: its conditions with texts rewritten, and the text of each. -/
def Parts (j : Junction) (result : (List Value × Bindings) × List String) (w : Workspace) : Prop :=
  (∃ rewrite, Rewrites rewrite ∧ result.1.1 = j.conditions.map rewrite) ∧
    List.Forall₂ (Gives Texts.alone w) result.1.1 result.2

/-- Before a tree is compiled, nothing but the nodes below it is touched. -/
theorem settles_parts (asked : Honest Texts.alone sql) (made : w.WellMade) {id : NodeId}
    {j : Junction} (found : w.junction? id = some j) :
    Settles (w.Below id) (Parts j)
      (expandTree j >>= fun expanded =>
        renderAll sql expanded.1 >>= fun parts => Pure.pure (expanded, parts)) w := by
  apply (settles_expandTree (made.binder id j found)).bind
  rintro ⟨conditions, bindings⟩ middle compiles ⟨-, rewrite, rewrites, rfl⟩
  have all : Settles (w.Below id)
      (fun parts after => List.Forall₂ (Gives Texts.alone after) (j.conditions.map rewrite) parts)
      (renderAll sql (j.conditions.map rewrite)) middle := by
    apply settles_renderAll asked (compiles.wellMade made)
    intro child member other path
    rw [Forest.Reaches, compiles.ripens.child] at path
    obtain ⟨v, inside, same⟩ := List.mem_map.mp member
    have step : w.Child id child :=
      (Forest.child_of_tree found).mpr (rewrites.node_iff.mp same ▸ inside)
    exact .head' step path
  apply all.bind
  intro parts after _ gives
  exact .pure ⟨⟨rewrite, rewrites, rfl⟩, gives⟩

theorem settles_settle (made : w.WellMade) {id : NodeId} {j : Junction}
    (found : w.junction? id = some j) (isOpen : j.compiled = none)
    {result : (List Value × Bindings) × List String} (parts : Parts j result w) :
    Settles (w.Reaches id) (fun (rendered : Rendered) after =>
        Gives Texts.alone after (.node id) rendered.sql)
      (setJunction id (j.settle result.1.1 ⟨joined j.connective.written result.2, result.1.2⟩) >>=
        fun _ => Pure.pure ⟨joined j.connective.written result.2, result.1.2⟩) w := by
  obtain ⟨⟨conditions, bindings⟩, parts⟩ := result
  obtain ⟨⟨rewrite, rewrites, rfl⟩, gives⟩ := parts
  obtain ⟨texts, each, same⟩ := texts_of_gives gives
  dsimp only at each same
  let rendered : Rendered := ⟨joined j.connective.written parts, bindings⟩
  have move : Move .rendering w [] { w with
      toForest := w.setNode id (.junction (j.settle (j.conditions.map rewrite) rendered)) } :=
    .settle trivial found isOpen rewrites each fun steady => by rw [← same steady]
  have tree := Forest.junction?_setNode found (j.settle (j.conditions.map rewrite) rendered) id
  rw [if_pos rfl] at tree
  obtain ⟨own, yields⟩ := (made.move move).settled id _ tree rfl
  refine ⟨⟨⟨[], .single move⟩, fun other outside => ?_⟩, fun a done => ?_⟩
  · refine (Forest.node_setNode_of_tree found _ other).trans (if_neg ?_)
    rintro rfl
    exact outside .refl
  · cases done
    exact ⟨own, yields, fun _ => (yields.alone_of_compiled tree rfl).symm⟩

theorem settles_compileJunction (asked : Honest Texts.alone sql) (made : w.WellMade) {id : NodeId}
    {j : Junction} (found : w.junction? id = some j) :
    Settles (w.Reaches id) (fun (rendered : Rendered) after =>
        Gives Texts.alone after (.node id) rendered.sql)
      (compileJunction sql id j) w := by
  unfold compileJunction
  cases compiled : j.compiled with
  | some rendered =>
      obtain ⟨texts, yields⟩ := made.settled id j found (by simp [compiled])
      exact .pure ⟨texts, yields, fun _ => (yields.alone_of_compiled found compiled).symm⟩
  | none =>
      have whole := (settles_parts asked made found).bind_within
        (fun _ below => below.to_reflTransGen) fun result middle compiles parts => by
          have last := settles_settle (compiles.wellMade made) (still_open made found compiles)
            compiled parts
          rwa [Forest.Reaches, compiles.ripens.child] at last
      simp only [bind_assoc, pure_bind] at whole
      exact whole

/-! ## Nodes -/

theorem child_of_nested {id operand : NodeId} {c : Comparison} (kind : w.node id = .comparison c)
    (nested : c.operand = .nested operand) : w.Child id operand := by
  simp [Forest.Child, kind, Node.children, nested, Operand.value, Value.node?]

theorem child_of_unary {id argument : NodeId} {u : Unary} (kind : w.node id = .unary u)
    (nested : u.argument = .node argument) : w.Child id argument := by
  simp [Forest.Child, kind, Node.children, nested, Value.node?]

theorem settles_renderComparison (wraps : Honest Texts.beside wrapped) (made : w.WellMade)
    {id : NodeId} {c : Comparison} (kind : w.node id = .comparison c) :
    Settles (w.Reaches id) (fun s after => Gives Texts.alone after (.node id) s)
      (renderComparison wrapped c) w := by
  unfold renderComparison
  split
  · exact .throw _
  · rename_i operator
    cases operand : c.operand with
    | bound value placeholder =>
        exact .pure ⟨_, .bound kind operator operand (made.flat id c _ _ kind operand),
          fun _ => rfl⟩
    | nested inner =>
        have step := child_of_nested kind operand
        have asked : Settles (w.Reaches id) (fun s after =>
            Gives Texts.beside after (.node inner) s) (wrapped inner) w :=
          (wraps w inner made).mono fun _ path => .head step path
        apply asked.bind
        rintro s after compiles ⟨texts, yields, same⟩
        have kind := compiles.ripens.keeps.endures.of_kind kind nofun nofun
        refine .pure ⟨_, .nested kind operator operand yields, fun steady => ?_⟩
        rw [same steady]
        rfl

theorem settles_renderUnary (asked : Honest Texts.alone sql) (wraps : Honest Texts.beside wrapped)
    (made : w.WellMade) {id : NodeId} {u : Unary} (kind : w.node id = .unary u) :
    Settles (w.Reaches id) (fun s after => Gives Texts.alone after (.node id) s)
      (renderUnary sql wrapped u) w := by
  unfold renderUnary
  split
  · exact .throw _
  · rename_i symbol
    split
    · exact .throw _
    · rename_i argument nested
      have step := child_of_unary kind nested
      have wider (other : NodeId) (path : w.Reaches argument other) : w.Reaches id other :=
        .head step path
      split
      · rename_i trailing
        apply ((asked w argument made).mono wider).bind
        rintro s after compiles ⟨texts, yields, same⟩
        have kind := compiles.ripens.keeps.endures.of_kind kind nofun nofun
        refine .pure ⟨_, .unary kind symbol nested yields, fun steady => ?_⟩
        simp only [same steady, Unary.around, trailing, Texts.wrapping, if_true]
      · rename_i leading
        apply ((wraps w argument made).mono wider).bind
        rintro s after compiles ⟨texts, yields, same⟩
        have kind := compiles.ripens.keeps.endures.of_kind kind nofun nofun
        refine .pure ⟨_, .unary kind symbol nested yields, fun steady => ?_⟩
        simp only [same steady, Unary.around, leading, Texts.wrapping]
        rfl
    · rename_i given notNode
      have flat : u.argument.node? = none := by
        cases nested : u.argument with
        | node argument => exact absurd nested (notNode argument)
        | _ => rfl
      apply Settles.get
      have yields : Settled w.toForest (.node id) _ := .plain kind symbol given flat
      split
      · rename_i trailing
        refine .pure ⟨_, yields, fun _ => ?_⟩
        simp only [Unary.around, trailing, Texts.wrapping, if_true]
      · rename_i leading
        refine .pure ⟨_, yields, fun _ => ?_⟩
        simp only [Unary.around, leading, Texts.wrapping]
        rfl

theorem settles_renderNode (asked : Honest Texts.alone sql) (wraps : Honest Texts.beside wrapped)
    (made : w.WellMade) (id : NodeId) :
    Settles (w.Reaches id) (fun s after => Gives Texts.alone after (.node id) s)
      (renderNode sql wrapped id) w := by
  apply Settles.get
  cases kind : w.node id with
  | junction j =>
      exact (settles_compileJunction asked made (Forest.junction?_eq_some.mpr kind)).map
        fun _ _ _ gives => gives
  | comparison c => exact settles_renderComparison wraps made kind
  | unary u => exact settles_renderUnary asked wraps made kind
  | fragment s => exact .pure ⟨_, .fragment kind, fun _ => rfl⟩
  | abstract => exact .throw _

theorem settles_own (asked : Honest Texts.alone sql) (wraps : Honest Texts.beside wrapped)
    (made : w.WellMade) (id : NodeId) :
    Settles (w.Reaches id) (fun s after => Gives Texts.alone after (.node id) s)
      (askAgain (renderNode sql wrapped id)) w := by
  apply Settles.again
  intro after compiles
  have later := settles_renderNode asked wraps (compiles.wellMade made) id
  rwa [Forest.Reaches, compiles.ripens.child] at later

theorem solitary?_map {rewrite : Value → Value} (rewrites : Rewrites rewrite)
    (conditions : List Value) : solitary? (conditions.map rewrite) = solitary? conditions := by
  cases single : solitary? conditions with
  | some child =>
      rw [solitary?_eq_some] at single ⊢
      rw [single, List.map_singleton, rewrites.node_iff.mpr rfl]
  | none =>
      by_contra other
      obtain ⟨child, same⟩ := Option.ne_none_iff_exists'.mp other
      obtain ⟨v, rfl, node⟩ := List.map_eq_singleton_iff.mp (solitary?_eq_some.mp same)
      simp [solitary?, rewrites.node_iff.mp node] at single

theorem grouped_map (rewrite : Value → Value) (conditions : List Value) :
    grouped (conditions.map rewrite) = grouped conditions := by
  funext alone
  simp [grouped]

/-- How a tree that was rendered stands beside an operator. -/
theorem beside_of_ripens {id : NodeId} {j : Junction} (ripens : w.Ripens after)
    (found : w.junction? id = some j) {texts : Texts}
    (yields : Settled after.toForest (.node id) texts) :
    texts.beside = match solitary? j.conditions with
      | some child => (after.toForest.texts compiledReading (.node child)).beside
      | none => grouped j.conditions texts.alone := by
  obtain ⟨k, rewrite, tree, rewrites, same⟩ := ripens.tree found
  have beside := yields.beside_of_tree compiledReading_faithful tree
  rw [same, solitary?_map rewrites, grouped_map] at beside
  exact beside

/-- A tree with a single node for its condition is compiled, and stands as that node does. -/
theorem settles_wrapSingle (asked : Honest Texts.alone sql) (wraps : Honest Texts.beside wrapped)
    (made : w.WellMade) {id child : NodeId} {j : Junction} (tree : w.junction? id = some j)
    (single : solitary? j.conditions = some child) :
    Settles (w.Reaches id) (fun s after => Gives Texts.beside after (.node id) s)
      (discard (compileJunction sql id j) >>= fun _ => wrapped child) w := by
  have step : w.Child id child := by
    rw [Forest.child_of_tree tree, solitary?_eq_some.mp single]
    simp
  rw [discard_bind]
  apply (settles_compileJunction asked made tree).bind
  intro rendered middle compiles gives
  have inner : Settles (w.Reaches id) (fun s after => Gives Texts.beside after (.node child) s)
      (wrapped child) middle := by
    apply (wraps middle child (compiles.wellMade made)).mono
    intro other path
    rw [Forest.Reaches, compiles.ripens.child] at path
    exact .head step path
  apply inner.imp
  rintro s after later ⟨texts, yields, same⟩
  obtain ⟨own, settled, -⟩ := gives.later later.ripens
  refine ⟨own, settled, fun steady => ?_⟩
  rw [same steady, beside_of_ripens (compiles.trans later).ripens tree settled, single]
  simp only [yields.texts_eq compiledReading_faithful]

theorem settles_wrapNode (asked : Honest Texts.alone sql) (wraps : Honest Texts.beside wrapped)
    (made : w.WellMade) (id : NodeId) :
    Settles (w.Reaches id) (fun s after => Gives Texts.beside after (.node id) s)
      (wrapNode sql wrapped id) w := by
  have own := settles_own asked wraps made id
  cases tree : w.junction? id with
  | none =>
      have enclosed : Settles (w.Reaches id) (fun s after => Gives Texts.beside after (.node id) s)
          (parenthesized <$> askAgain (renderNode sql wrapped id)) w := by
        apply own.map
        rintro s after compiles ⟨texts, yields, same⟩
        refine ⟨texts, yields, fun steady => ?_⟩
        rw [same steady, yields.beside_of_not_tree (compiles.ripens.junction? tree)]
      rwa [Settles, run_wrapNode tree]
  | some j =>
      have finished (single : solitary? j.conditions = none) : Settles (w.Reaches id)
          (fun s after => Gives Texts.beside after (.node id) s)
          (grouped j.conditions <$> askAgain (renderNode sql wrapped id)) w := by
        apply own.map
        rintro s after compiles ⟨texts, yields, same⟩
        refine ⟨texts, yields, fun steady => ?_⟩
        rw [same steady, beside_of_ripens compiles.ripens tree yields, single]
      rw [Settles, run_wrapNode_of_tree tree]
      cases single : solitary? j.conditions with
      | none => exact finished single
      | some child => exact settles_wrapSingle asked wraps made tree single

/-- What is asked for is settled with the text that is given, at every depth. -/
theorem honest_within (depth : Nat) :
    Honest Texts.alone (sqlWithin depth) ∧ Honest Texts.beside (wrappedWithin depth) := by
  induction depth with
  | zero => exact ⟨fun _ _ _ => .throw _, fun _ _ _ => .throw _⟩
  | succ depth ih =>
      obtain ⟨asked, wraps⟩ := ih
      constructor <;> intro w id made
      · rw [sqlWithin]
        exact settles_own asked wraps made id
      · rw [wrappedWithin]
        exact settles_wrapNode asked wraps made id

theorem settles_sql (made : w.WellMade) (id : NodeId) :
    Settles (w.Reaches id) (fun s after => Gives Texts.alone after (.node id) s)
      (WorkspaceM.sql id) w :=
  .get ((honest_within _).1 w id made)

theorem settles_wrapped (made : w.WellMade) (id : NodeId) :
    Settles (w.Reaches id) (fun s after => Gives Texts.beside after (.node id) s)
      (WorkspaceM.wrapped id) w :=
  .get ((honest_within _).2 w id made)

theorem settles_compile (made : w.WellMade) (id : NodeId) :
    Settles (w.Reaches id) (fun (rendered : Rendered) after =>
        Gives Texts.alone after (.node id) rendered.sql)
      (compile id) w := by
  apply Settles.get
  have found : Settles (w.Reaches id) (fun j after => after.junction? id = some j)
      (junction id) w := settles_junction id
  apply found.bind
  intro j after compiles found
  have settles :=
    settles_compileJunction (honest_within w.depthBound).1 (compiles.wellMade made) found
  rwa [Forest.Reaches, compiles.ripens.child] at settles

end WorkspaceM
end WhereClause
