import WhereClause.Proofs.Calm
import WhereClause.Proofs.Usage

/-!
# The shortcut past the expansion

A binder remembers whether something was bound to it with a type that holds the marker, and a tree
is expanded only if its binder does. While the marker stays what it is, the binder remembers exactly
this, and a tree that is not expanded would be left as it is by expanding it. Only a type that is
given as bytes is bound without being remembered.

* `shortcut_exact`: in every run, the shortcut is taken where there is nothing to expand, and
  compiling any tree does what it would do without the shortcut.
-/

namespace WhereClause

/-! ## What a binder remembers -/

/-- The call looks for the marker, if for any, and its type is not given as bytes. -/
def Use.Looks (marker : String) : Use → Prop
  | .bind settings _ _ type | .register settings _ _ type =>
    settings.multiMarker = marker ∧ ¬ type.IsBytes
  | _ => True

theorem Settings.looks (settings : Settings) : settings.Calls (Use.Looks settings.multiMarker) :=
  ⟨fun _ _ => trivial, fun _ _ _ textual => ⟨rfl, textual⟩, fun _ => trivial⟩

theorem BindingOf.isMulti_congr {α : Type} {settings other : Settings}
    (same : settings.multiMarker = other.multiMarker) (binding : BindingOf α) :
    binding.isMulti settings = binding.isMulti other := by
  have marks : settings.marks = other.marks := by
    funext type
    simp only [Settings.marks, same]
  rw [isMulti, isMulti, marks]

namespace Binder

variable {first : Int} {b : Binder} {settings : Settings}

/-- The binder remembers whether anything that is bound to it is for several elements. -/
def Remembers (settings : Settings) (b : Binder) : Prop :=
  b.expands = b.bindings.any fun entry => entry.2.isMulti settings

theorem Remembers.bindName (sequenced : b.Sequenced first) (remembers : b.Remembers settings)
    {other : Settings} (same : other.multiMarker = settings.multiMarker) (name : String)
    (value : Value) {type : Value} (textual : ¬ type.IsBytes) :
    (b.bindName other name value type).2.Remembers settings := by
  have bindings := bindings_takeNumber name b
  have expands : (b.takeNumber name).2.expands = b.expands := by
    unfold takeNumber
    split <;> rfl
  have free : (b.takeNumber name).1 ∉ Table.keys b.bindings := fun member =>
    (sequenced.takeNumber name).2.1 (List.mem_append_left _ (bindings.symm ▸ member))
  unfold Remembers at remembers ⊢
  simp only [Binder.bindName]
  split
  · split
    · exact absurd ⟨_, rfl⟩ textual
    · simp only [note, record, Table.put_of_not_mem free, List.any_append, List.any_cons,
        List.any_nil, Bool.or_false, bindings, expands, remembers, BindingOf.isMulti_congr same]
  · simp only [bindings, expands, remembers]

theorem Remembers.use (sequenced : b.Sequenced first) (remembers : b.Remembers settings)
    {call : Use} (looks : call.Looks settings.multiMarker) :
    (b.use call).Remembers settings := by
  cases call with
  | reserve _ token keeping => cases keeping <;> exact remembers
  | bind other name value type =>
      show (b.bind other name value type).2.Remembers settings
      unfold Binder.bind
      split
      · exact remembers.bindName sequenced looks.1 _ value looks.2
      · exact remembers
      · split <;> exact remembers
  | register other token value type =>
      have reserved : (b.reserve other token true).2.Remembers settings := remembers
      exact reserved.bindName (sequenced.reserve other token true) looks.1 _ value looks.2
  | expand forest other =>
      obtain ⟨n, after⟩ := expand_eq forest other b
      rw [Binder.use, after]
      exact remembers

theorem Remembers.uses (sequenced : b.Sequenced first) (remembers : b.Remembers settings)
    {calls : List Use} (looks : ∀ call ∈ calls, call.Looks settings.multiMarker) :
    (b.uses calls).Remembers settings := by
  induction calls generalizing b with
  | nil => exact remembers
  | cons call rest ih =>
      exact ih (sequenced.use call).1 (remembers.use sequenced (looks call List.mem_cons_self))
        fun other member => looks other (List.mem_cons_of_mem _ member)

theorem UsedBy.remembers (used : b.UsedBy (Use.Looks settings.multiMarker)) :
    b.Remembers settings := by
  obtain ⟨identifier, first, calls, looks, rfl⟩ := used
  exact Remembers.uses (sequenced_fresh identifier first) rfl looks

theorem Remembers.single (remembers : b.Remembers settings) (still : b.expands = false) :
    ∀ entry ∈ b.bindings, entry.2.isMulti settings = false := by
  intro entry member
  have none' := remembers.symm.trans still
  rw [List.any_eq_false] at none'
  exact Bool.eq_false_iff.mpr (none' entry member)

/-- Expanding does nothing where nothing is for several elements. -/
theorem expand_of_single {forest : Forest}
    (single : ∀ entry ∈ b.bindings, entry.2.isMulti settings = false) :
    b.expand forest settings = ({ kept := b.bindings }, b) := by
  unfold expand
  generalize b.bindings = bindings at single
  induction bindings with
  | nil => rfl
  | cons entry rest ih =>
      have here := single entry List.mem_cons_self
      simp only [Expansion.ofBindings, here, Bool.false_eq_true, if_false]
      rw [ih fun other member => single other (List.mem_cons_of_mem _ member)]

end Binder

theorem Expansion.substitute_kept (bindings : Bindings) (v : Value) :
    ({ kept := bindings } : Expansion).substitute v = v := by
  cases v with
  | text s =>
      show Value.text (String.ofList s.toList) = .text s
      rw [String.ofList_toList]
  | _ => rfl

/-! ## Rendering without the shortcut -/

namespace WorkspaceM

/-- As `expandTree`, whatever the binder remembers. -/
def expandAlways (j : Junction) : WorkspaceM (List Value × Bindings) := do
  let workspace ← get
  let (expansion, binder) :=
    (workspace.binder j.binder).expand workspace.toForest workspace.settings
  changeForest (·.setBinder j.binder binder)
  log expansion.events
  return (j.conditions.map expansion.substitute, expansion.bindings)

def compileJunctionAlways (sql : NodeId → WorkspaceM String) (id : NodeId) (j : Junction) :
    WorkspaceM Rendered := do
  match j.compiled with
  | some rendered => return rendered
  | none =>
    let (conditions, bindings) ← expandAlways j
    let parts ← renderAll sql conditions
    let rendered : Rendered := ⟨joined j.connective.written parts, bindings⟩
    setJunction id { j with conditions, retired := j.conditions, compiled := some rendered }
    return rendered

def renderNodeAlways (sql wrapped : NodeId → WorkspaceM String) (id : NodeId) :
    WorkspaceM String := do
  match (← get).node id with
  | .junction j => Rendered.sql <$> compileJunctionAlways sql id j
  | .comparison c => renderComparison wrapped c
  | .unary u => renderUnary sql wrapped u
  | .fragment text => return text
  | .abstract => throw .abstractNode

def wrapNodeAlways (sql wrapped : NodeId → WorkspaceM String) (id : NodeId) :
    WorkspaceM String := do
  let own := askAgain (renderNodeAlways sql wrapped id)
  match (← get).node id with
  | .junction j =>
    match j.conditions with
    | [.node child] =>
      discard (compileJunctionAlways sql id j)
      wrapped child
    | [] | [_] => parenthesized <$> own
    | _ => own
  | _ => parenthesized <$> own

mutual
def sqlAlways : Nat → NodeId → WorkspaceM String
  | 0, _ => throw .tooDeep
  | depth + 1, id => askAgain (renderNodeAlways (sqlAlways depth) (wrappedAlways depth) id)

def wrappedAlways : Nat → NodeId → WorkspaceM String
  | 0, _ => throw .tooDeep
  | depth + 1, id => wrapNodeAlways (sqlAlways depth) (wrappedAlways depth) id
end

/-- As `compile`, with an expansion of every tree on the way. -/
def compileAlways (id : NodeId) : WorkspaceM Rendered := do
  let depth := (← get).depthBound
  compileJunctionAlways (sqlAlways depth) id (← junction id)

/-! ## The two agree -/

variable {α β : Type} {I : Workspace → Prop}

/-- The operations do the same wherever the property holds. -/
def Agree (I : Workspace → Prop) (operation other : WorkspaceM α) : Prop :=
  ∀ w, I w → run operation w = run other w

theorem Agree.refl (operation : WorkspaceM α) : Agree I operation operation := fun _ _ => rfl

theorem Agree.bind {operation other : WorkspaceM α} {next next' : α → WorkspaceM β}
    (agree : Agree I operation other) (keeps : ∀ w, Keeps I operation w)
    (later : ∀ a, Agree I (next a) (next' a)) :
    Agree I (operation >>= next) (other >>= next') := by
  intro w holds
  have middle := (keeps w).after holds
  rw [run_bind, run_bind, ← agree w holds]
  rcases result : run operation w with ⟨done, after⟩
  rw [result] at middle
  cases done with
  | error fault => rfl
  | ok a => exact later a after middle

theorem Agree.get {next next' : Workspace → WorkspaceM β}
    (later : ∀ w, Agree I (next w) (next' w)) :
    Agree I (MonadState.get >>= next) (MonadState.get >>= next') :=
  fun w holds => later w w holds

theorem Agree.map {operation other : WorkspaceM α} (agree : Agree I operation other)
    (f : α → β) : Agree I (f <$> operation) (f <$> other) := by
  intro w holds
  rw [run_map, run_map, agree w holds]

theorem Agree.again {ask other : WorkspaceM String} (agree : Agree I ask other)
    (keeps : ∀ w, Keeps I ask w) : Agree I (askAgain ask) (askAgain other) := by
  intro w holds
  have middle := (keeps w).after holds
  rw [askAgain, askAgain, run_tryCatch, run_tryCatch, ← agree w holds]
  rcases result : run ask w with ⟨done, after⟩
  rw [result] at middle
  cases done with
  | ok s => rfl
  | error fault =>
      cases fault with
      | noAttribute => exact agree after middle
      | _ => rfl

/-- Two ways to ask for texts do the same wherever the property holds, and keep it. -/
structure Alike (I : Workspace → Prop) (ask other : NodeId → WorkspaceM String) : Prop where
  agree : ∀ id, Agree I (ask id) (other id)
  keeps : ∀ id w, Keeps I (ask id) w

section Asking

variable {sql sql' wrapped wrapped' : NodeId → WorkspaceM String}

theorem agree_renderCondition (asked : Alike I sql sql') (v : Value) :
    Agree I (renderCondition sql v) (renderCondition sql' v) := by
  cases v with
  | node id => exact asked.agree id
  | _ => exact .refl _

theorem agree_renderAll (asked : Alike I sql sql') (conditions : List Value) :
    Agree I (renderAll sql conditions) (renderAll sql' conditions) := by
  induction conditions with
  | nil => exact .refl _
  | cons v rest ih =>
      unfold renderAll
      refine (agree_renderCondition asked v).bind (keeps_renderCondition asked.keeps v) ?_
      exact fun _ => ih.bind (keeps_renderAll asked.keeps rest) fun _ => .refl _

theorem agree_renderComparison (wraps : Alike I wrapped wrapped') (c : Comparison) :
    Agree I (renderComparison wrapped c) (renderComparison wrapped' c) := by
  unfold renderComparison
  split
  · exact .refl _
  · cases c.operand with
    | nested id => exact (wraps.agree id).bind (wraps.keeps id) fun _ => .refl _
    | bound value placeholder => exact .refl _

theorem agree_renderUnary (asked : Alike I sql sql') (wraps : Alike I wrapped wrapped')
    (u : Unary) : Agree I (renderUnary sql wrapped u) (renderUnary sql' wrapped' u) := by
  unfold renderUnary
  split
  · exact .refl _
  · split
    · exact .refl _
    · split
      · exact (asked.agree _).bind (asked.keeps _) fun _ => .refl _
      · exact (wraps.agree _).bind (wraps.keeps _) fun _ => .refl _
    · exact .refl _

end Asking

/-! ## Where binders remember -/

section Remembering

/-- Under the settings, with binders that remember what is for several elements. -/
abbrev Remembering (settings : Settings) : Workspace → Prop :=
  Workspace.Using (Use.Looks settings.multiMarker) settings

variable {settings : Settings} {sql sql' wrapped wrapped' : NodeId → WorkspaceM String}

theorem agree_expandTree (j : Junction) :
    Agree (Remembering settings) (expandTree j) (expandAlways j) := by
  rintro w ⟨rfl, used⟩
  unfold expandTree expandAlways
  rw [run_bind, run_bind]
  simp only [run_get]
  cases expands : (w.binder j.binder).expands with
  | true => rfl
  | false =>
      have single := (used j.binder).remembers.single expands
      have substitute : (fun v => ({ kept := (w.binder j.binder).bindings } : Expansion).substitute
          v) = id := funext fun v => Expansion.substitute_kept _ v
      simp only [Binder.expand_of_single single, Bool.false_eq_true, if_false, run_bind,
        run_changeForest, Moves.setBinder_self, run_log, List.map_nil, List.append_nil, run_pure,
        substitute, List.map_id]
      rfl

theorem agree_compileJunction (asked : Alike (Remembering settings) sql sql') (id : NodeId)
    (j : Junction) : Agree (Remembering settings) (compileJunction sql id j)
      (compileJunctionAlways sql' id j) := by
  unfold compileJunction compileJunctionAlways
  cases j.compiled with
  | some rendered => exact .refl _
  | none =>
      refine (agree_expandTree j).bind (fun w => uses_expandTree settings.looks j) ?_
      exact fun expanded => (agree_renderAll asked expanded.1).bind
        (keeps_renderAll asked.keeps expanded.1) fun _ => .refl _

theorem agree_renderNode (asked : Alike (Remembering settings) sql sql')
    (wraps : Alike (Remembering settings) wrapped wrapped') (id : NodeId) :
    Agree (Remembering settings) (renderNode sql wrapped id)
      (renderNodeAlways sql' wrapped' id) := by
  unfold renderNode renderNodeAlways
  refine .get fun w => ?_
  cases w.node id with
  | junction j => exact (agree_compileJunction asked id j).map _
  | comparison c => exact agree_renderComparison wraps c
  | unary u => exact agree_renderUnary asked wraps u
  | _ => exact .refl _

theorem agree_wrapNode (honest : Honest Texts.alone sql)
    (asked : Alike (Remembering settings) sql sql')
    (wraps : Alike (Remembering settings) wrapped wrapped') (id : NodeId) :
    Agree (Remembering settings) (wrapNode sql wrapped id) (wrapNodeAlways sql' wrapped' id) := by
  have own : Agree (Remembering settings) (askAgain (renderNode sql wrapped id))
      (askAgain (renderNodeAlways sql' wrapped' id)) :=
    (agree_renderNode asked wraps id).again
      (keeps_renderNode (uses_lasts settings.looks) honest asked.keeps wraps.keeps id)
  unfold wrapNode wrapNodeAlways
  refine .get fun w => ?_
  cases w.node id with
  | junction j =>
      have compiled (child : NodeId) : Agree (Remembering settings)
          (do discard (compileJunction sql id j); wrapped child)
          (do discard (compileJunctionAlways sql' id j); wrapped' child) :=
        ((agree_compileJunction asked id j).map _).bind
          (fun w => (uses_compileJunction settings.looks asked.keeps id j).map _)
          fun _ => wraps.agree child
      dsimp only
      rcases j.conditions with _ | ⟨v, _ | ⟨v', rest⟩⟩
      · exact own.map _
      · cases v with
        | node child => exact compiled child
        | _ => exact own.map _
      · cases v <;> exact own
  | _ => exact own.map _

theorem alike_within (depth : Nat) :
    Alike (Remembering settings) (sqlWithin depth) (sqlAlways depth) ∧
      Alike (Remembering settings) (wrappedWithin depth) (wrappedAlways depth) := by
  have lasts := uses_lasts settings.looks
  induction depth with
  | zero =>
      exact ⟨⟨fun _ => .refl _, fun _ _ => .throw _⟩, fun _ => .refl _, fun _ _ => .throw _⟩
  | succ depth ih =>
      obtain ⟨asked, wraps⟩ := ih
      have honest := (honest_within depth).1
      refine ⟨⟨fun id => ?_, (keeps_within lasts (depth + 1)).1⟩,
        ⟨fun id => ?_, (keeps_within lasts (depth + 1)).2⟩⟩
      · rw [sqlWithin, sqlAlways]
        exact (agree_renderNode asked wraps id).again
          (keeps_renderNode lasts honest asked.keeps wraps.keeps id)
      · rw [wrappedWithin, wrappedAlways]
        exact agree_wrapNode honest asked wraps id

theorem agree_compile (id : NodeId) :
    Agree (Remembering settings) (compile id) (compileAlways id) := by
  refine .get fun w => ?_
  exact Agree.bind (.refl _) (fun w => .of_same (same_junction id w)) fun j =>
    agree_compileJunction (alike_within _).1 id j

end Remembering

end WorkspaceM

/-! ## Runs -/

/-- No type is given as bytes where a name is bound. -/
def Operation.Textual : Operation → Prop
  | register _ _ _ type | bind _ _ _ type | bindInTree _ _ _ type => ¬ type.IsBytes
  | _ => True

theorem Operation.Textual.calls {operation : Operation} (textual : operation.Textual)
    (settings : Settings) : operation.Calls (Use.Looks settings.multiMarker) settings := by
  cases operation with
  | register _ token value type => exact ⟨rfl, textual⟩
  | bind _ name value type => exact ⟨rfl, textual⟩
  | bindInTree _ name value type => exact ⟨rfl, textual⟩
  | _ => trivial

/-- Throughout the run the marker is the same, and no type is given as bytes. -/
def Workspace.Marked (marker : String) : Workspace → List Operation → Prop
  | w, [] => w.settings.multiMarker = marker
  | w, operation :: rest => w.settings.multiMarker = marker ∧ operation.Textual ∧
      Marked marker (w.perform operation) rest

namespace Workspace

variable {marker : String} {w : Workspace}

theorem Marked.calls {operations : List Operation} (marked : w.Marked marker operations) :
    w.Calls (Use.Looks marker) operations := by
  induction operations generalizing w with
  | nil => exact marked ▸ w.settings.looks
  | cons operation rest ih =>
      obtain ⟨rfl, textual, later⟩ := marked
      exact ⟨w.settings.looks, textual.calls w.settings, ih later⟩

theorem Marked.last {operations : List Operation} (marked : w.Marked marker operations) :
    (w.after operations).settings.multiMarker = marker := by
  induction operations generalizing w with
  | nil => exact marked
  | cons operation rest ih => exact ih marked.2.2

end Workspace

open WorkspaceM in
/-- While the marker stays what it is and no type is given as bytes, a binder says that there is
something to expand if and only if something bound to it is for several elements, and compiling a
tree answers and leaves what it would without looking at this first. -/
theorem shortcut_exact (settings : Settings) (n : Nat) {operations : List Operation}
    (marked : Workspace.Marked settings.multiMarker { settings, nextIdentifier := n } operations) :
    let w := Workspace.after { settings, nextIdentifier := n } operations
    (∀ id, (w.binder id).expands = true ↔
        ∃ entry ∈ (w.binder id).bindings, entry.2.isMulti w.settings = true) ∧
      ∀ tree, run (compile tree) w = run (compileAlways tree) w := by
  intro w
  have fresh : ∀ id, (({ settings, nextIdentifier := n } : Workspace).binder id).UsedBy
      (Use.Looks settings.multiMarker) := fun _ => Binder.usedBy_fresh _ _ _
  have used : ∀ id, (w.binder id).UsedBy (Use.Looks w.settings.multiMarker) := by
    rw [show w.settings.multiMarker = settings.multiMarker from marked.last]
    exact Workspace.used_run fresh marked.calls
  refine ⟨fun id => ?_, fun tree => agree_compile tree w ⟨rfl, used⟩⟩
  rw [(used id).remembers, List.any_eq_true]

/-- Two trees, of which one has something to expand, and a registration that fails. -/
def expandingOne : List Operation :=
  [.newTree .null .null .null none, .newTree (.text "a = 1") .null .null none,
    .bindInTree ⟨0⟩ (.text ":x") (.list ⟨1⟩ [.int 1, .int 2]) (.text "int[]"),
    .register ⟨0⟩ (.text "y") (.int 3) (.int 0), .register ⟨1⟩ (.text "y") (.int 4) (.text "int"),
    .append ⟨0⟩ (.text "b IN (:x)")]

theorem marked_expandingOne : Workspace.Marked "[]" { nextIdentifier := 1 } expandingOne := by
  refine ⟨rfl, trivial, rfl, trivial, rfl, ?_, rfl, ?_, rfl, ?_, rfl, trivial, rfl⟩ <;>
    · rintro ⟨_, same⟩
      cases same

theorem shortcut_exact_expandingOne :
    let w := Workspace.after { nextIdentifier := 1 } expandingOne
    Workspace.Marked "[]" { nextIdentifier := 1 } expandingOne ∧
      (w.binder ⟨0⟩).expands = true ∧ (w.binder ⟨1⟩).expands = false ∧
      ∀ tree, WorkspaceM.run (WorkspaceM.compile tree) w =
        WorkspaceM.run (WorkspaceM.compileAlways tree) w :=
  ⟨marked_expandingOne, by decide +kernel, by decide +kernel,
    (shortcut_exact {} 1 marked_expandingOne).2⟩

/-- A tree to which several elements are bound with a type that is given as bytes. -/
def boundWithBytes : List Operation :=
  [.newTree .null .null .null none,
    .bindInTree ⟨0⟩ (.text ":x") (.list ⟨1⟩ [.int 1, .int 2]) (.bytes [105, 110, 116, 91, 93])]

/-- With a type that is given as bytes, the shortcut is taken past something to expand. -/
theorem shortcut_inexact :
    let w := Workspace.after { nextIdentifier := 1 } boundWithBytes
    (w.binder ⟨0⟩).expands = false ∧
      (w.binder ⟨0⟩).bindings.map (fun entry => entry.2.isMulti w.settings) = [true] ∧
      (WorkspaceM.run (WorkspaceM.compile ⟨0⟩) w).1.toOption.map (·.bindings.length) = some 1 ∧
      (WorkspaceM.run (WorkspaceM.compileAlways ⟨0⟩) w).1.toOption.map (·.bindings.length) =
        some 2 := by
  decide +kernel

end WhereClause
