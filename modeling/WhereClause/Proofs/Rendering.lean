import WhereClause.Proofs.Outline
import WhereClause.Proofs.Runs

/-!
# Rendering gives what is shown

A workspace tracks outlines if each node that has one is compiled as its outline says, or will be.
Between the moment in which a tree takes its sequence numbers and the moment in which it is
compiled, its binder has moved on and its outline cannot be read off the forest any more: such trees
are pending. A node below a pending tree has a lower picture, hence is never pending itself.

* `sql_ok`: if a node shows a picture, asking for its text succeeds with the text of the picture,
  and afterwards everything at and below the node is compiled.
-/

namespace WhereClause

structure Workspace.Tracks (w : Workspace) (outlines : Outlines) (pending : List NodeId) :
    Prop where
  outline : ∀ id outline, id ∉ pending → outlines id = some outline →
    w.outline w.settings id = some outline
  /-- Trees that expand have binders of their own. -/
  separate : ∀ id other j k, outlines id ≠ none → outlines other ≠ none →
    w.junction? id = some j → w.junction? other = some k → j.binder = k.binder →
    (w.binder j.binder).expands = true → id = other
  /-- A list that compiling makes is expanded only after the tree is compiled. -/
  settled : ∀ id j entry tree k, outlines id ≠ none → w.junction? id = some j →
    (w.binder j.binder).expands = true → entry ∈ (w.binder j.binder).bindings →
    entry.2.value = .conditions tree .compiled → outlines tree ≠ none →
    w.junction? tree = some k → k.compiled.isSome = true
  /-- The text of a compiled tree is the one that the tree shows, and all below it is compiled. -/
  coherent : ∀ id j rendered p, w.junction? id = some j → j.compiled = some rendered →
    Shows outlines (.node id) p →
    rendered.sql = p.texts.alone ∧ Shows (w.finished w.settings) (.node id) p

/-- The picture is lower than that of any pending tree. -/
def Ahead (outlines : Outlines) (pending : List NodeId) (p : Picture) : Prop :=
  ∀ id ∈ pending, ∀ q, Shows outlines (.node id) q → p.height < q.height

theorem Ahead.inner {outlines : Outlines} {pending : List NodeId} {p q : Picture}
    (ahead : Ahead outlines pending p) (lower : q.height ≤ p.height) : Ahead outlines pending q :=
  fun id member r shown => lower.trans_lt (ahead id member r shown)

theorem Ahead.part {outlines : Outlines} {pending : List NodeId} {id : NodeId}
    {connective : String} {own : Bindings} {parts : List Picture}
    (ahead : Ahead outlines pending (.tree connective own parts))
    (shown : Shows outlines (.node id) (.tree connective own parts)) {q : Picture}
    (member : q ∈ parts) : Ahead outlines (id :: pending) q := by
  have inner := Picture.height_of_part connective own member
  intro other outer r shown'
  rcases List.mem_cons.mp outer with rfl | outer
  · rw [shown'.unique shown]
    exact inner
  · exact inner.trans (ahead other outer r shown')

/-- What rendering changes at most. -/
structure Workspace.Advances (outlines : Outlines) (pending : List NodeId) (w after : Workspace) :
    Prop where
  tracks : after.Tracks outlines pending
  settings : after.settings = w.settings
  nextIdentifier : after.nextIdentifier = w.nextIdentifier
  size : after.nodes.size = w.nodes.size
  additions : after.additions = w.additions
  node : ∀ id, (∀ j, w.junction? id = some j → j.compiled.isSome = true ∨ id ∈ pending) →
    after.node id = w.node id
  bindings : ∀ id, (after.binder id).bindings = (w.binder id).bindings

structure Workspace.Spends (id : BinderId) (w after : Workspace) : Prop where
  nodes : after.nodes = w.nodes
  additions : after.additions = w.additions
  settings : after.settings = w.settings
  nextIdentifier : after.nextIdentifier = w.nextIdentifier
  binder : ∀ other, after.binder other =
    if other = id then (w.binder id).spent w.toForest w.settings else w.binder other

def Junction.settle (j : Junction) (conditions : List Value) (rendered : Rendered) : Junction :=
  { j with conditions, retired := j.conditions, compiled := some rendered }

/-- Asking succeeds with the text of what a node shows, for pictures up to a height. -/
def Renders (outlines : Outlines) (ask : NodeId → WorkspaceM String) (text : Texts → String)
    (height : Nat) : Prop :=
  ∀ pending w id p, w.Tracks outlines pending → Shows outlines (.node id) p →
    Ahead outlines pending p → p.height ≤ height →
    ∃ after, WorkspaceM.run (ask id) w = (.ok (text p.texts), after) ∧
      w.Advances outlines pending after ∧ Shows (after.finished after.settings) (.node id) p

namespace Forest

variable {forest other : Forest} {settings : Settings} {id : NodeId}

theorem junction?_congr (node : other.node id = forest.node id) :
    other.junction? id = forest.junction? id := by
  simp only [junction?, node]

theorem outline_congr (node : other.node id = forest.node id)
    (own : ∀ b, (other.binder b).bindings = (forest.binder b).bindings)
    (tree : ∀ j, forest.junction? id = some j → j.compiled = none →
      other.binder j.binder = forest.binder j.binder ∧
        ((forest.binder j.binder).expands = true → ∀ entry ∈ (forest.binder j.binder).bindings,
          other.elements entry.2.value = forest.elements entry.2.value)) :
    other.outline settings id = forest.outline settings id := by
  unfold outline
  rw [node]
  cases kind : forest.node id with
  | junction j =>
      cases compiled : j.compiled with
      | some rendered => simp only [compiled]
      | none =>
          obtain ⟨binder, elements⟩ := tree j (junction?_eq_some.mpr kind) compiled
          simp only [compiled, binder]
          rw [Binder.final_congr other forest settings elements,
            Binder.rewriting_congr other forest settings elements]
  | comparison c => simp only [own]
  | unary u => rfl
  | fragment text => rfl
  | abstract => rfl

theorem finished_within
    (node : ∀ id, (∀ j, forest.junction? id = some j → j.compiled.isSome = true) →
      other.node id = forest.node id)
    (own : ∀ b, (other.binder b).bindings = (forest.binder b).bindings) :
    (forest.finished settings).Within (other.finished settings) := by
  intro id outline found
  cases tree : forest.junction? id with
  | none =>
      have same := node id (by simp [tree])
      rw [finished_of_not_tree tree] at found
      rw [finished_of_not_tree (by rw [junction?_congr same, tree]), ← found]
      exact outline_congr same own (by simp [tree])
  | some j =>
      cases compiled : j.compiled with
      | none => simp [finished, tree, compiled] at found
      | some rendered =>
          have same := node id (by simp [tree, compiled])
          rw [finished_of_compiled tree compiled] at found
          rw [finished_of_compiled (by rw [junction?_congr same, tree]) compiled, found]

end Forest

namespace Workspace

variable {outlines : Outlines} {pending : List NodeId} {w after last : Workspace}

theorem Advances.refl (tracks : w.Tracks outlines pending) : w.Advances outlines pending w :=
  ⟨tracks, rfl, rfl, rfl, rfl, fun _ _ => rfl, fun _ => rfl⟩

theorem Advances.trans (first : w.Advances outlines pending after)
    (second : after.Advances outlines pending last) : w.Advances outlines pending last where
  tracks := second.tracks
  settings := second.settings.trans first.settings
  nextIdentifier := second.nextIdentifier.trans first.nextIdentifier
  size := second.size.trans first.size
  additions := second.additions.trans first.additions
  node id kept := by
    have same := first.node id kept
    rw [second.node id, same]
    intro j found
    exact kept j ((Forest.junction?_congr same).symm.trans found)
  bindings id := (second.bindings id).trans (first.bindings id)

theorem Advances.finished (advances : w.Advances outlines pending after) :
    (w.finished w.settings).Within (after.finished after.settings) := by
  rw [advances.settings]
  exact Forest.finished_within (fun id compiled => advances.node id fun j found =>
    .inl (compiled j found)) advances.bindings

theorem Spends.node {b : BinderId} (spends : w.Spends b after) (id : NodeId) :
    after.node id = w.node id := by
  simp only [Forest.node, spends.nodes]

theorem Spends.junction? {b : BinderId} (spends : w.Spends b after) (id : NodeId) :
    after.junction? id = w.junction? id :=
  Forest.junction?_congr (spends.node id)

theorem Spends.elements {b : BinderId} (spends : w.Spends b after) (v : Value) :
    after.elements v = w.elements v :=
  Forest.elements_congr spends.additions fun tree _ _ => by rw [spends.junction? tree]

theorem Spends.bindings {b : BinderId} (spends : w.Spends b after) (id : BinderId) :
    (after.binder id).bindings = (w.binder id).bindings := by
  rw [spends.binder]
  split
  · rename_i same
    simp [same]
  · rfl

theorem Spends.expands {b : BinderId} (spends : w.Spends b after) (id : BinderId) :
    (after.binder id).expands = (w.binder id).expands := by
  rw [spends.binder]
  split
  · rename_i same
    simp [same]
  · rfl

theorem Spends.finished {b : BinderId} (spends : w.Spends b after) :
    (w.finished w.settings).Within (after.finished after.settings) := by
  rw [spends.settings]
  exact Forest.finished_within (fun id _ => spends.node id) spends.bindings

/-- A tree whose binder has moved on is pending. -/
theorem Tracks.spend (tracks : w.Tracks outlines pending) {id : NodeId} {j : Junction}
    (found : w.junction? id = some j) (known : outlines id ≠ none)
    (spends : w.Spends j.binder after) : after.Tracks outlines (id :: pending) where
  outline other outline outside has := by
    rw [List.mem_cons, not_or] at outside
    rw [spends.settings, ← tracks.outline other outline outside.2 has]
    apply Forest.outline_congr (spends.node other) spends.bindings
    intro k tree isOpen
    refine ⟨?_, fun _ entry _ => spends.elements entry.2.value⟩
    -- Only a tree on the same binder could be in the way, and that is the pending one.
    rw [spends.binder]
    split
    · rename_i same
      rw [same]
      apply Binder.spent_of_not_expands
      by_contra expands
      rw [Bool.not_eq_false] at expands
      exact outside.1 (tracks.separate id other j k known (by simp [has]) found tree same.symm
        expands).symm
    · rfl
  separate first second k l := by
    rw [spends.junction?, spends.junction?, spends.expands]
    exact tracks.separate first second k l
  settled first k entry tree l := by
    rw [spends.junction?, spends.junction?, spends.bindings, spends.expands]
    exact tracks.settled first k entry tree l
  coherent first k rendered p found compiled shown := by
    rw [spends.junction?] at found
    obtain ⟨text, finished⟩ := tracks.coherent first k rendered p found compiled shown
    exact ⟨text, finished.mono spends.finished⟩

end Workspace

namespace Forest

variable {forest : Forest} {id : NodeId} {j : Junction}

theorem junction?_setNode (found : forest.junction? id = some j) (k : Junction) (other : NodeId) :
    (forest.setNode id (.junction k)).junction? other =
      if id = other then some k else forest.junction? other := by
  simp only [junction?, node_setNode_of_tree found]
  by_cases same : id = other <;> simp [same]

theorem elements_settle (found : forest.junction? id = some j) (isOpen : j.compiled = none)
    (conditions : List Value) (rendered : Rendered) {v : Value}
    (other : v ≠ .conditions id .compiled) :
    (forest.setNode id (.junction (j.settle conditions rendered))).elements v =
      forest.elements v := by
  refine elements_congr (show (forest.setNode id _).additions = forest.additions from rfl) ?_
  rintro tree stage rfl
  rw [junction?_setNode found]
  split
  · rename_i same
    subst same
    cases stage with
    | built => simp [found, Junction.settle, Junction.listAt, Junction.stage, isOpen]
    | compiled => exact absurd rfl other
  · rfl

theorem finished_settle (found : forest.junction? id = some j) (isOpen : j.compiled = none)
    (conditions : List Value) (rendered : Rendered) (settings : Settings) :
    (forest.finished settings).Within
      ((forest.setNode id (.junction (j.settle conditions rendered))).finished settings) := by
  let settled := forest.setNode id (.junction (j.settle conditions rendered))
  have kept (other : NodeId) (compiled : ∀ k, forest.junction? other = some k →
      k.compiled.isSome = true) : settled.node other = forest.node other := by
    rw [node_setNode_of_tree found, if_neg]
    rintro rfl
    have done := compiled j found
    simp [isOpen] at done
  exact finished_within kept fun _ => rfl

end Forest

namespace Workspace

variable {outlines : Outlines} {pending : List NodeId} {w after last : Workspace}

theorem binder_of_settle {id other : NodeId} {j k : Junction} {conditions : List Value}
    {rendered : Rendered} (found : w.junction? id = some j)
    (tree : (if id = other then some (j.settle conditions rendered) else w.junction? other) =
      some k) : ∃ k', w.junction? other = some k' ∧ k'.binder = k.binder := by
  split at tree
  · rename_i same
    cases tree
    exact ⟨j, same ▸ found, rfl⟩
  · exact ⟨k, tree, rfl⟩

theorem Tracks.settle {id : NodeId} {j : Junction} {conditions : List Value} {rendered : Rendered}
    (tracks : w.Tracks outlines (id :: pending)) (found : w.junction? id = some j)
    (isOpen : j.compiled = none)
    (known : outlines id = some (.tree j.connective.written rendered.bindings conditions))
    (text : ∀ p, Shows outlines (.node id) p → rendered.sql = p.texts.alone ∧
      Shows (after.finished after.settings) (.node id) p)
    (nodes : after.toForest = w.setNode id (.junction (j.settle conditions rendered)))
    (settings : after.settings = w.settings) : after.Tracks outlines pending where
  outline other outline outside has := by
    rw [nodes, settings]
    by_cases same : id = other
    · subst same
      have tree := Forest.junction?_setNode found (j.settle conditions rendered) id
      rw [if_pos rfl] at tree
      rw [← has, known, Forest.outline_of_compiled tree rfl]
      rfl
    · rw [← tracks.outline other outline (by simp [Ne.symm same, outside]) has]
      have node := Forest.node_setNode_of_tree found
        (.junction (j.settle conditions rendered)) other
      rw [if_neg same] at node
      apply Forest.outline_congr node (fun _ => rfl)
      intro k tree stillOpen
      refine ⟨rfl, fun expands entry member =>
        Forest.elements_settle found isOpen conditions rendered ?_⟩
      intro value
      have compiled := tracks.settled other k entry id j (by simp [has]) tree expands member value
        (by simp [known]) found
      simp [isOpen] at compiled
  separate first second k l hasFirst hasSecond treeFirst treeSecond shared expands := by
    rw [nodes, Forest.junction?_setNode found] at treeFirst treeSecond
    rw [nodes, Forest.binder_setNode] at expands
    obtain ⟨k', treeFirst, binderFirst⟩ := binder_of_settle found treeFirst
    obtain ⟨l', treeSecond, binderSecond⟩ := binder_of_settle found treeSecond
    exact tracks.separate first second k' l' hasFirst hasSecond treeFirst treeSecond
      (by rw [binderFirst, binderSecond, shared]) (by rw [binderFirst]; exact expands)
  settled first k entry tree l has treeFirst expands member value hasTree treeSecond := by
    rw [nodes, Forest.junction?_setNode found] at treeFirst treeSecond
    rw [nodes, Forest.binder_setNode] at expands member
    split at treeSecond
    · cases treeSecond
      rfl
    · obtain ⟨k', before, binder⟩ := binder_of_settle found treeFirst
      rw [← binder] at expands member
      exact tracks.settled first k' entry tree l has before expands member value hasTree treeSecond
  coherent first k made p treeFirst compiled shown := by
    rw [nodes, Forest.junction?_setNode found] at treeFirst
    split at treeFirst
    · rename_i same
      subst same
      cases treeFirst
      cases compiled
      exact text p shown
    · obtain ⟨sql, deep⟩ := tracks.coherent first k made p treeFirst compiled shown
      refine ⟨sql, deep.mono ?_⟩
      rw [nodes, settings]
      exact Forest.finished_settle found isOpen conditions rendered w.settings

end Workspace

namespace WorkspaceM

theorem run_expandTree (j : Junction) (w : Workspace) :
    ∃ after, run (expandTree j) w =
        (.ok (j.conditions.map ((w.binder j.binder).rewriting w.toForest w.settings),
          (w.binder j.binder).final w.toForest w.settings), after) ∧
      w.Spends j.binder after := by
  cases expands : (w.binder j.binder).expands with
  | false =>
      refine ⟨w, ?_, rfl, rfl, rfl, rfl, ?_⟩
      · simp [expandTree, run_bind, expands, Binder.rewriting, Binder.final]
      · intro other
        rw [Binder.spent_of_not_expands _ _ expands]
        split <;> simp_all
  | true =>
      have bound : j.binder.index < w.binders.size := by
        by_contra out
        simp [Forest.binder, Array.getElem?_eq_none (Nat.le_of_not_lt out)] at expands
      let forest := w.setBinder j.binder ((w.binder j.binder).spent w.toForest w.settings)
      let events := ((w.binder j.binder).expand w.toForest w.settings).1.events
      refine ⟨{ w with
        toForest := forest
        records := w.records ++ events.map fun event => ⟨event, forest⟩ },
        ?_, rfl, rfl, rfl, rfl, ?_⟩
      · simp [expandTree, run_bind, run_map, expands, Binder.rewriting, Binder.final, Binder.spent,
          forest, events]
      · intro other
        simp only [forest, Forest.binder_setBinder, bound, and_true, eq_comm]

variable {outlines : Outlines} {pending : List NodeId} {w : Workspace}

theorem renderAll_ok {sql : NodeId → WorkspaceM String} {height : Nat}
    (renders : Renders outlines sql Texts.alone height) {conditions : List Value}
    {parts : List Picture} (shown : List.Forall₂ (Shows outlines) conditions parts)
    (tracks : w.Tracks outlines pending) (ahead : ∀ p ∈ parts, Ahead outlines pending p)
    (low : ∀ p ∈ parts, p.height ≤ height) :
    ∃ after, run (renderAll sql conditions) w = (.ok (parts.map (·.texts.alone)), after) ∧
      w.Advances outlines pending after ∧
      List.Forall₂ (Shows (after.finished after.settings)) conditions parts := by
  induction shown generalizing w with
  | nil => exact ⟨w, rfl, .refl tracks, .nil⟩
  | @cons v p conditions parts first _ ih =>
      have part : ∃ middle, run (renderCondition sql v) w = (.ok p.texts.alone, middle) ∧
          w.Advances outlines pending middle ∧
          Shows (middle.finished middle.settings) v p := by
        rcases first.text_or_node with ⟨s, rfl, rfl⟩ | ⟨id, rfl⟩
        · exact ⟨w, rfl, .refl tracks, .text s⟩
        · exact renders pending w id p tracks first (ahead p (by simp)) (low p (by simp))
      obtain ⟨middle, done, advances, finished⟩ := part
      obtain ⟨after, rest, later, finishedRest⟩ := ih advances.tracks
        (fun q member => ahead q (by simp [member])) (fun q member => low q (by simp [member]))
      refine ⟨after, ?_, advances.trans later, .cons (finished.mono later.finished) finishedRest⟩
      rw [renderAll, run_bind_ok done, run_bind_ok rest, run_pure, List.map_cons]

theorem advances_settle {id : NodeId} {j : Junction} {spent made last : Workspace}
    {conditions : List Value} {rendered : Rendered} (found : w.junction? id = some j)
    (isOpen : j.compiled = none) (free : id ∉ pending) (spends : w.Spends j.binder spent)
    (advances : spent.Advances outlines (id :: pending) made)
    (still : made.junction? id = some j) (tracks : last.Tracks outlines pending)
    (made_eq : last = { made with
      toForest := made.setNode id (.junction (j.settle conditions rendered)) }) :
    w.Advances outlines pending last := by
  subst made_eq
  exact {
    tracks
    settings := advances.settings.trans spends.settings
    nextIdentifier := advances.nextIdentifier.trans spends.nextIdentifier
    size := by
      rw [← spends.nodes, ← advances.size]
      exact Array.size_setIfInBounds
    additions := advances.additions.trans spends.additions
    node := by
      intro other kept
      have different : id ≠ other := by
        rintro rfl
        rcases kept j found with isCompiled | member
        · simp [isOpen] at isCompiled
        · exact free member
      rw [Forest.node_setNode_of_tree still, if_neg different, advances.node, spends.node]
      intro k tree
      rw [spends.junction?] at tree
      exact (kept k tree).imp_right (List.mem_cons_of_mem _)
    bindings := fun other => (advances.bindings other).trans (spends.bindings other) }

theorem compileJunction_ok {sql : NodeId → WorkspaceM String} {height : Nat}
    (renders : Renders outlines sql Texts.alone height) {id : NodeId} {j : Junction}
    (found : w.junction? id = some j) {p : Picture} (shown : Shows outlines (.node id) p)
    (tracks : w.Tracks outlines pending) (ahead : Ahead outlines pending p)
    (low : p.height ≤ height + 1) :
    ∃ rendered after, run (compileJunction sql id j) w = (.ok rendered, after) ∧
      rendered.sql = p.texts.alone ∧ w.Advances outlines pending after ∧
      Shows (after.finished after.settings) (.node id) p := by
  have free : id ∉ pending := fun member => Nat.lt_irrefl _ (ahead id member p shown)
  obtain ⟨outline, known, -⟩ := Shows.node_iff.mp shown
  have mine := tracks.outline id outline free known
  cases compiled : j.compiled with
  | some rendered =>
      obtain ⟨text, finished⟩ := tracks.coherent id j rendered p found compiled shown
      exact ⟨rendered, w, by simp [compileJunction, compiled], text, .refl tracks, finished⟩
  | none =>
      rw [Forest.outline_of_open found compiled, Option.some.injEq] at mine
      subst mine
      obtain ⟨parts, rfl, each⟩ := Shows.tree_of known shown
      -- The tree waits with its numbers taken while the nodes below it are rendered.
      obtain ⟨spent, expanded, spends⟩ := run_expandTree j w
      have waiting := tracks.spend found (by simp [known]) spends
      obtain ⟨made, done, advances, finished⟩ := renderAll_ok renders each waiting
        (fun _ member => ahead.part shown member)
        (fun _ member => Nat.le_of_lt_succ ((Picture.height_of_part _ _ member).trans_le low))
      have still : made.junction? id = some j := by
        rw [Forest.junction?_congr (advances.node id fun _ _ => .inr (by simp)), spends.junction?,
          found]
      let b := w.binder j.binder
      let own := b.final w.toForest w.settings
      let conditions := j.conditions.map (b.rewriting w.toForest w.settings)
      let rendered : Rendered :=
        ⟨joined j.connective.written (parts.map (·.texts.alone)), own⟩
      let forest := made.setNode id (.junction (j.settle conditions rendered))
      let last : Workspace := { made with toForest := forest }
      have run_compile : run (compileJunction sql id j) w = (.ok rendered, last) := by
        simp only [compileJunction, compiled]
        rw [run_bind_ok expanded, run_bind_ok done]
        rfl
      have within : (made.finished made.settings).Within (last.finished last.settings) :=
        Forest.finished_settle still compiled conditions rendered made.settings
      have settled : last.junction? id = some (j.settle conditions rendered) := by
        simp [last, forest, Forest.junction?_setNode still]
      have deep : Shows (last.finished last.settings) (.node id)
          (.tree j.connective.written own parts) :=
        .of_tree (Forest.finished_of_compiled settled rfl last.settings)
          (finished.imp fun _ _ shows' => shows'.mono within)
      have sql_eq : rendered.sql = (Picture.tree j.connective.written own parts).texts.alone := by
        simp [rendered, Picture.texts, Texts.alone_join, Function.comp_def]
      have tracked : last.Tracks outlines pending := by
        refine advances.tracks.settle still compiled known ?_ rfl rfl
        intro q shown'
        rw [shown'.unique shown]
        exact ⟨sql_eq, deep⟩
      exact ⟨rendered, last, run_compile, sql_eq,
        advances_settle found compiled free spends advances still tracked rfl, deep⟩

theorem renderComparison_ok {wrapped : NodeId → WorkspaceM String} {height : Nat}
    (wraps : Renders outlines wrapped Texts.beside height) {id : NodeId} {c : Comparison}
    (kind : w.node id = .comparison c) {outline : Outline} (known : outlines id = some outline)
    (final : w.finished w.settings id = some outline) {p : Picture}
    (shown : Shows outlines (.node id) p) (tracks : w.Tracks outlines pending)
    (ahead : Ahead outlines pending p) (low : p.height ≤ height + 1) :
    ∃ after, run (renderComparison wrapped c) w = (.ok p.texts.alone, after) ∧
      w.Advances outlines pending after ∧
      Shows (after.finished after.settings) (.node id) p := by
  obtain ⟨blank, ⟨value, placeholder, operand, -, rfl⟩ | ⟨inner, operand, rfl⟩⟩ :=
    Forest.outline_of_comparison kind (Forest.outline_of_finished final)
  · obtain rfl := shown.leaf_of known
    refine ⟨w, ?_, .refl tracks, .leaf final⟩
    simp only [renderComparison, run_bind, if_neg blank, operand, run_pure, Picture.texts,
      Texts.wrapping]
  · obtain ⟨q, rfl, innerShown⟩ := shown.nested_of known
    obtain ⟨after, done, advances, finished⟩ := wraps pending w inner q tracks innerShown
      (ahead.inner (by simp [Picture.height])) (by simpa [Picture.height] using low)
    refine ⟨after, ?_, advances, .nested (advances.finished _ _ final) finished⟩
    simp only [renderComparison, run_bind, if_neg blank, operand, done, run_pure, Picture.texts,
      Texts.wrapping]

theorem renderUnary_ok {sql wrapped : NodeId → WorkspaceM String} {height : Nat}
    (renders : Renders outlines sql Texts.alone height)
    (wraps : Renders outlines wrapped Texts.beside height) {id : NodeId} {u : Unary}
    (kind : w.node id = .unary u) {outline : Outline} (known : outlines id = some outline)
    (final : w.finished w.settings id = some outline) {p : Picture}
    (shown : Shows outlines (.node id) p) (tracks : w.Tracks outlines pending)
    (ahead : Ahead outlines pending p) (low : p.height ≤ height + 1) :
    ∃ after, run (renderUnary sql wrapped u) w = (.ok p.texts.alone, after) ∧
      w.Advances outlines pending after ∧
      Shows (after.finished after.settings) (.node id) p := by
  obtain ⟨missing, ⟨s, argument, rfl⟩ | ⟨inner, argument, rfl⟩⟩ :=
    Forest.outline_of_unary kind (Forest.outline_of_finished final)
  · obtain rfl := shown.leaf_of known
    refine ⟨w, ?_, .refl tracks, .leaf final⟩
    simp only [renderUnary, run_bind, run_get, if_neg missing, argument, Forest.plainText,
      Picture.texts, Texts.wrapping]
    split <;> rfl
  · obtain ⟨q, rfl, innerShown⟩ := shown.unary_of known
    have lower : q.height ≤ height := by simpa [Picture.height] using low
    have below : Ahead outlines pending q := ahead.inner (by simp [Picture.height])
    cases trailing : u.trailing with
    | true =>
        obtain ⟨after, done, advances, finished⟩ :=
          renders pending w inner q tracks innerShown below lower
        rw [trailing] at final
        refine ⟨after, ?_, advances, .unary (advances.finished _ _ final) finished⟩
        simp only [renderUnary, run_bind, if_neg missing, argument, trailing, if_true, done,
          run_pure, Picture.texts, Texts.wrapping]
    | false =>
        obtain ⟨after, done, advances, finished⟩ :=
          wraps pending w inner q tracks innerShown below lower
        rw [trailing] at final
        refine ⟨after, ?_, advances, .unary (advances.finished _ _ final) finished⟩
        simp [renderUnary, missing, argument, trailing, run_map_ok done, Picture.texts,
          Texts.wrapping]

theorem renderNode_ok {sql wrapped : NodeId → WorkspaceM String} {height : Nat}
    (renders : Renders outlines sql Texts.alone height)
    (wraps : Renders outlines wrapped Texts.beside height) {id : NodeId} {p : Picture}
    (shown : Shows outlines (.node id) p) (tracks : w.Tracks outlines pending)
    (ahead : Ahead outlines pending p) (low : p.height ≤ height + 1) :
    ∃ after, run (renderNode sql wrapped id) w = (.ok p.texts.alone, after) ∧
      w.Advances outlines pending after ∧
      Shows (after.finished after.settings) (.node id) p := by
  have free : id ∉ pending := fun member => Nat.lt_irrefl _ (ahead id member p shown)
  obtain ⟨outline, known, -⟩ := Shows.node_iff.mp shown
  have mine := tracks.outline id outline free known
  have final (other : w.junction? id = none) : w.finished w.settings id = some outline := by
    rw [Forest.finished_of_not_tree other, mine]
  cases kind : w.node id with
  | junction j =>
      obtain ⟨rendered, after, done, text, advances, finished⟩ :=
        compileJunction_ok renders (Forest.junction?_eq_some.mpr kind) shown tracks ahead low
      refine ⟨after, ?_, advances, finished⟩
      simp only [renderNode, run_bind, run_get, kind]
      rw [run_map_ok done, text]
  | comparison c =>
      obtain ⟨after, done, rest⟩ := renderComparison_ok wraps kind known
        (final (Forest.junction?_eq_none kind (by simp))) shown tracks ahead low
      refine ⟨after, ?_, rest⟩
      simp only [renderNode, run_bind, run_get, kind, done]
  | unary u =>
      obtain ⟨after, done, rest⟩ := renderUnary_ok renders wraps kind known
        (final (Forest.junction?_eq_none kind (by simp))) shown tracks ahead low
      refine ⟨after, ?_, rest⟩
      simp only [renderNode, run_bind, run_get, kind, done]
  | fragment text =>
      have stays := final (Forest.junction?_eq_none kind (by simp))
      simp only [Forest.outline, kind, Option.some.injEq] at mine
      subst mine
      obtain rfl := shown.leaf_of known
      refine ⟨w, ?_, .refl tracks, .leaf stays⟩
      simp [renderNode, run_bind, kind, Picture.texts, Texts.wrapping]
  | abstract => simp [Forest.outline, kind] at mine

theorem wrapNode_of_wrapping {sql wrapped : NodeId → WorkspaceM String} {id : NodeId} {p : Picture}
    {after : Workspace} (done : run (renderNode sql wrapped id) w = (.ok p.texts.alone, after))
    (own : run (wrapNode sql wrapped id) w =
      run (parenthesized <$> askAgain (renderNode sql wrapped id)) w)
    (beside : p.texts.beside = parenthesized p.texts.alone) :
    run (wrapNode sql wrapped id) w = (.ok p.texts.beside, after) := by
  rw [own, run_map_ok (run_askAgain_ok done), beside]

theorem wrapNode_of_single {sql wrapped : NodeId → WorkspaceM String} {height : Nat}
    (renders : Renders outlines sql Texts.alone height)
    (wraps : Renders outlines wrapped Texts.beside height) {id child : NodeId} {j : Junction}
    (tree : w.junction? id = some j) (single : j.conditions = [.node child]) {connective : String}
    {own : Bindings} {q : Picture} (shown : Shows outlines (.node id) (.tree connective own [q]))
    (inner : Shows outlines (.node child) q) (tracks : w.Tracks outlines pending)
    (ahead : Ahead outlines pending (.tree connective own [q]))
    (low : (Picture.tree connective own [q]).height ≤ height + 1) :
    ∃ after, run (wrapNode sql wrapped id) w =
        (.ok (Picture.tree connective own [q]).texts.beside, after) ∧
      w.Advances outlines pending after ∧
      Shows (after.finished after.settings) (.node id) (.tree connective own [q]) := by
  have lower := Picture.height_of_part connective own (List.mem_singleton_self q)
  obtain ⟨rendered, made, compiled, -, advances, finished⟩ :=
    compileJunction_ok renders tree shown tracks ahead low
  obtain ⟨after, wrapping, later, -⟩ := wraps pending made child q advances.tracks inner
    (ahead.inner lower.le) (Nat.le_of_lt_succ (lower.trans_le low))
  refine ⟨after, ?_, advances.trans later, finished.mono later.finished⟩
  simp only [wrapNode, run_bind, run_get, Forest.junction?_eq_some.mp tree, single,
    run_discard_ok compiled, wrapping, Picture.texts, Picture.allTexts_eq, List.map_cons,
    List.map_nil, Texts.join]

theorem wrapNode_ok {sql wrapped : NodeId → WorkspaceM String} {height : Nat}
    (renders : Renders outlines sql Texts.alone height)
    (wraps : Renders outlines wrapped Texts.beside height) {id : NodeId} {p : Picture}
    (shown : Shows outlines (.node id) p) (tracks : w.Tracks outlines pending)
    (ahead : Ahead outlines pending p) (low : p.height ≤ height + 1) :
    ∃ after, run (wrapNode sql wrapped id) w = (.ok p.texts.beside, after) ∧
      w.Advances outlines pending after ∧
      Shows (after.finished after.settings) (.node id) p := by
  have free : id ∉ pending := fun member => Nat.lt_irrefl _ (ahead id member p shown)
  obtain ⟨after, done, advances, finished⟩ := renderNode_ok renders wraps shown tracks ahead low
  have asked := run_askAgain_ok done
  cases tree : w.junction? id with
  | none =>
      refine ⟨after, wrapNode_of_wrapping done ?_ (shown.beside_of_not_tree ?_), advances, finished⟩
      · simp only [wrapNode, run_bind, run_get]
        cases kind : w.node id with
        | junction j => simp [Forest.junction?_eq_some.mpr kind] at tree
        | _ => rfl
      · intro connective own conditions known
        exact Forest.outline_ne_tree tree (tracks.outline id _ free known)
  | some j =>
      obtain ⟨own, rewrite, outlined, nodes⟩ := Forest.outline_of_tree tree w.settings
      obtain ⟨outline, known, -⟩ := Shows.node_iff.mp shown
      have mine := tracks.outline id outline free known
      rw [outlined, Option.some.injEq] at mine
      subst mine
      obtain ⟨parts, rfl, each⟩ := Shows.tree_of known shown
      have kind := Forest.junction?_eq_some.mp tree
      have lengths := each.length_eq
      rw [List.length_map] at lengths
      cases parts with
      | nil =>
          refine ⟨after, wrapNode_of_wrapping done ?_ rfl, advances, finished⟩
          simp only [wrapNode, run_bind, run_get, kind, List.eq_nil_of_length_eq_zero lengths]
      | cons q rest =>
          cases rest with
          | nil =>
              obtain ⟨v, single⟩ := List.length_eq_one_iff.mp lengths
              rw [single] at each
              obtain ⟨first, -⟩ := List.forall₂_cons.mp each
              rcases first.text_or_node with ⟨s, text, rfl⟩ | ⟨child, node⟩
              · refine ⟨after, wrapNode_of_wrapping done ?_ rfl, advances, finished⟩
                have notNode (child : NodeId) : v ≠ .node child := by
                  rintro rfl
                  simp [(nodes _ child).mpr rfl] at text
                simp only [wrapNode, run_bind, run_get, kind, single]
              · rw [(nodes v child).mp node] at single
                rw [node] at first
                exact wrapNode_of_single renders wraps tree single shown first tracks ahead low
          | cons second rest =>
              refine ⟨after, ?_, advances, finished⟩
              simp only [wrapNode, run_bind, run_get, kind]
              split
              · simp_all
              · simp_all
              · simp_all
              · rw [asked]
                rfl

theorem renders_within (outlines : Outlines) (depth : Nat) :
    Renders outlines (sqlWithin depth) Texts.alone depth ∧
      Renders outlines (wrappedWithin depth) Texts.beside depth := by
  induction depth with
  | zero =>
      constructor <;> intro pending w id p tracks shown ahead low
      all_goals have := shown.height_pos
      all_goals omega
  | succ depth ih =>
      -- What is below a node is lower, so that one level less is enough for it.
      obtain ⟨renders, wraps⟩ := ih
      constructor <;> intro pending w id p tracks shown ahead low
      · obtain ⟨after, done, rest⟩ := renderNode_ok renders wraps shown tracks ahead low
        refine ⟨after, ?_, rest⟩
        rw [sqlWithin, run_askAgain_ok done]
      · rw [wrappedWithin]
        exact wrapNode_ok renders wraps shown tracks ahead low

theorem sql_ok (tracks : w.Tracks outlines []) {id : NodeId} {p : Picture}
    (shown : Shows outlines (.node id) p) :
    ∃ after, run (sql id) w = (.ok p.texts.alone, after) ∧ w.Advances outlines [] after ∧
      Shows (after.finished after.settings) (.node id) p := by
  have low : p.height ≤ w.depthBound :=
    Forest.height_le_depthBound (fun id outline => tracks.outline id outline (by simp)) shown
  obtain ⟨after, done, rest⟩ :=
    (renders_within outlines w.depthBound).1 [] w id p tracks shown (by simp [Ahead]) low
  exact ⟨after, by simp only [sql, run_bind, run_get, done], rest⟩

end WorkspaceM
end WhereClause
