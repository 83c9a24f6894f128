import WhereClause.Proofs.Keeping

/-!
# Writings

A writing is a text in segments, which says which comparison every placeholder in it belongs to. A
condition is spelled by a writing if the writing is made as rendering makes the text: from the
writings of what is below it, from left to right. A tree that is compiled keeps its text, but a
plain value under a unary condition is shown anew whenever it is rendered. So a condition can be
spelled in several ways, and all that is known of a plain value is what holds whenever it is shown.

* `tells_sql`: what is rendered is spelled by a writing of its text.
-/

namespace WhereClause

/-- A part of a text: words, or the placeholder of a comparison. -/
inductive Segment
  | words (s : String)
  | placeholder (owner : NodeId) (s : String)

abbrev Writing := List Segment

def Segment.text : Segment → String
  | words s | placeholder _ s => s

namespace Writing

def letters (writing : Writing) : List Char := writing.flatMap fun segment => segment.text.toList

def text (writing : Writing) : String := String.ofList writing.letters

def enclosed (writing : Writing) : Writing := .words "(" :: (writing ++ [.words ")"])

/-- The writings joined by the connective, in parentheses if there are several. -/
def joined (connective : String) (parts : List Writing) : Writing :=
  let body := List.intercalate [.words (" " ++ connective ++ " ")] parts
  match parts with
  | [] | [_] => body
  | _ => enclosed body

@[simp] theorem letters_nil : letters [] = [] := rfl

@[simp] theorem letters_cons (segment : Segment) (writing : Writing) :
    letters (segment :: writing) = segment.text.toList ++ letters writing := rfl

@[simp] theorem letters_append (writing more : Writing) :
    letters (writing ++ more) = letters writing ++ letters more := List.flatMap_append

@[simp] theorem toList_text (writing : Writing) : writing.text.toList = writing.letters :=
  String.toList_ofList

theorem text_enclosed (writing : Writing) : writing.enclosed.text = parenthesized writing.text := by
  simp [← String.toList_inj, enclosed, parenthesized, Segment.text]

theorem text_joined (connective : String) (parts : List Writing) :
    (joined connective parts).text = WhereClause.joined connective (parts.map text) := by
  have body : text (List.intercalate [.words (" " ++ connective ++ " ")] parts) =
      (" " ++ connective ++ " ").intercalate (parts.map text) := by
    induction parts with
    | nil => rfl
    | cons part rest ih =>
        cases rest with
        | nil => rw [List.intercalate_singleton, List.map_singleton, String.intercalate_singleton]
        | cons second rest =>
            rw [List.map_cons] at ih
            rw [List.intercalate_cons_cons, List.map_cons, List.map_cons,
              String.intercalate_cons_cons, ← ih]
            simp [← String.toList_inj, Segment.text]
  match parts with
  | [] | [_] => exact body
  | _ :: _ :: _ => exact (text_enclosed _).trans (congrArg parenthesized body)

end Writing

/-- A unary condition over a writing of its argument. -/
def Unary.applied (u : Unary) (argument : Writing) : Writing :=
  if u.trailing then argument ++ [.words (" " ++ u.symbol)]
  else .words (u.symbol ++ " ") :: argument

def Comparison.opening (c : Comparison) : String := c.field ++ " " ++ c.operator ++ " "

/-- The condition is spelled by the writing, up to parentheses around a whole condition; plain
values under unary conditions are shown as required. -/
inductive Spells (p : String → Prop) (forest : Forest) : Value → Writing → Prop
  | text (s : String) : Spells p forest (.text s) [.words s]
  | other {v : Value} (notNode : v.node? = none) (notText : v.text? = none) (s : String) :
      Spells p forest v [.words s]
  | fragment {id : NodeId} {s : String} (kind : forest.node id = .fragment s) :
      Spells p forest (.node id) [.words s]
  | bound {id : NodeId} {c : Comparison} {value : Value} {placeholder : String}
      (kind : forest.node id = .comparison c) (operand : c.operand = .bound value placeholder) :
      Spells p forest (.node id) [.words c.opening, .placeholder id placeholder]
  | nested {id operand : NodeId} {c : Comparison} {inner : Writing}
      (kind : forest.node id = .comparison c) (nested : c.operand = .nested operand)
      (below : Spells p forest (.node operand) inner) :
      Spells p forest (.node id) (.words c.opening :: inner)
  | plain {id : NodeId} {u : Unary} {s : String} (kind : forest.node id = .unary u)
      (flat : u.argument.node? = none) (shown : p s) :
      Spells p forest (.node id)
        (u.applied (if u.trailing then [.words s] else Writing.enclosed [.words s]))
  | unary {id argument : NodeId} {u : Unary} {inner : Writing} (kind : forest.node id = .unary u)
      (nested : u.argument = .node argument) (below : Spells p forest (.node argument) inner) :
      Spells p forest (.node id) (u.applied inner)
  | tree {id : NodeId} {j : Junction} {parts : List Writing} (found : forest.junction? id = some j)
      (compiled : j.compiled.isSome = true) (lengths : j.conditions.length = parts.length)
      (each : ∀ v part, (v, part) ∈ j.conditions.zip parts → Spells p forest v part) :
      Spells p forest (.node id) (.joined j.connective.written parts)
  | single {id child : NodeId} {j : Junction} {inner : Writing}
      (found : forest.junction? id = some j) (compiled : j.compiled.isSome = true)
      (only : j.conditions = [.node child]) (below : Spells p forest (.node child) inner) :
      Spells p forest (.node id) inner
  | enclosed {v : Value} {inner : Writing} (below : Spells p forest v inner) :
      Spells p forest v inner.enclosed

/-- The text is that of a writing by which the condition is spelled. -/
def Spelled (p : String → Prop) (forest : Forest) (v : Value) (s : String) : Prop :=
  ∃ writing, Spells p forest v writing ∧ s = writing.text

section Spelled

variable {p : String → Prop} {forest later : Forest} {id : NodeId} {v : Value} {s : String}

theorem Spells.keep (keeps : forest.Keeps later) {writing : Writing}
    (spells : Spells p forest v writing) : Spells p later v writing := by
  have same := @(keeps.endures).of_kind
  induction spells with
  | text s => exact .text s
  | other notNode notText s => exact .other notNode notText s
  | fragment kind => exact .fragment (same kind nofun nofun)
  | bound kind operand => exact .bound (same kind nofun nofun) operand
  | nested kind nested _ ih => exact .nested (same kind nofun nofun) nested ih
  | plain kind flat shown => exact .plain (same kind nofun nofun) flat shown
  | unary kind nested _ ih => exact .unary (same kind nofun nofun) nested ih
  | tree found compiled lengths _ ih =>
      exact .tree (keeps.tree _ _ found compiled) compiled lengths ih
  | single found compiled only _ ih =>
      exact .single (keeps.tree _ _ found compiled) compiled only ih
  | enclosed _ ih => exact .enclosed ih

theorem Spelled.keep (keeps : forest.Keeps later) (spelled : Spelled p forest v s) :
    Spelled p later v s := by
  obtain ⟨writing, spells, text⟩ := spelled
  exact ⟨writing, spells.keep keeps, text⟩

theorem Spelled.text (s : String) : Spelled p forest (.text s) s :=
  ⟨_, .text s, by simp [Writing.text, Segment.text]⟩

theorem Spelled.other (notNode : v.node? = none) (notText : v.text? = none) (s : String) :
    Spelled p forest v s := ⟨_, .other notNode notText s, by simp [Writing.text, Segment.text]⟩

theorem Spelled.fragment (kind : forest.node id = .fragment s) : Spelled p forest (.node id) s :=
  ⟨_, .fragment kind, by simp [Writing.text, Segment.text]⟩

theorem Spelled.bound {c : Comparison} {value : Value} {placeholder : String}
    (kind : forest.node id = .comparison c) (operand : c.operand = .bound value placeholder) :
    Spelled p forest (.node id) (c.field ++ " " ++ c.operator ++ " " ++ placeholder) :=
  ⟨_, .bound kind operand, by simp [← String.toList_inj, Segment.text, Comparison.opening]⟩

theorem Spelled.nested {operand : NodeId} {c : Comparison} (kind : forest.node id = .comparison c)
    (nested : c.operand = .nested operand) (below : Spelled p forest (.node operand) s) :
    Spelled p forest (.node id) (c.field ++ " " ++ c.operator ++ " " ++ s) := by
  obtain ⟨inner, spells, rfl⟩ := below
  exact ⟨_, .nested kind nested spells,
    by simp [← String.toList_inj, Segment.text, Comparison.opening]⟩

theorem Spelled.plain {u : Unary} (kind : forest.node id = .unary u)
    (flat : u.argument.node? = none) (shown : p s) : Spelled p forest (.node id)
      (if u.trailing then s ++ " " ++ u.symbol else u.symbol ++ " " ++ parenthesized s) := by
  refine ⟨_, .plain kind flat shown, ?_⟩
  cases trailing : u.trailing <;>
    simp [← String.toList_inj, Segment.text, Unary.applied, trailing, Writing.enclosed,
      parenthesized]

theorem Spelled.unary {argument : NodeId} {u : Unary} (kind : forest.node id = .unary u)
    (nested : u.argument = .node argument) (below : Spelled p forest (.node argument) s) :
    Spelled p forest (.node id)
      (if u.trailing then s ++ " " ++ u.symbol else u.symbol ++ " " ++ s) := by
  obtain ⟨inner, spells, rfl⟩ := below
  refine ⟨_, .unary kind nested spells, ?_⟩
  cases trailing : u.trailing <;>
    simp [← String.toList_inj, Segment.text, Unary.applied, trailing]

theorem Spelled.writings {conditions : List Value} {parts : List String}
    (each : List.Forall₂ (Spelled p forest) conditions parts) :
    ∃ writings : List Writing, parts = writings.map Writing.text ∧
      List.Forall₂ (Spells p forest) conditions writings := by
  induction each with
  | nil => exact ⟨[], rfl, .nil⟩
  | cons first _ ih =>
      obtain ⟨writing, spells, rfl⟩ := first
      obtain ⟨writings, rfl, others⟩ := ih
      exact ⟨writing :: writings, rfl, .cons spells others⟩

theorem Spelled.tree {j : Junction} (found : forest.junction? id = some j)
    (compiled : j.compiled.isSome = true) {parts : List String}
    (each : List.Forall₂ (Spelled p forest) j.conditions parts) :
    Spelled p forest (.node id) (joined j.connective.written parts) := by
  obtain ⟨writings, rfl, spells⟩ := Spelled.writings each
  obtain ⟨lengths, each⟩ := List.forall₂_iff_zip.mp spells
  exact ⟨_, .tree found compiled lengths fun v part => each, (Writing.text_joined _ _).symm⟩

theorem Spelled.single {child : NodeId} {j : Junction} (found : forest.junction? id = some j)
    (compiled : j.compiled.isSome = true) (only : j.conditions = [.node child])
    (below : Spelled p forest (.node child) s) : Spelled p forest (.node id) s := by
  obtain ⟨inner, spells, text⟩ := below
  exact ⟨inner, .single found compiled only spells, text⟩

theorem Spelled.enclosed (below : Spelled p forest v s) :
    Spelled p forest v (parenthesized s) := by
  obtain ⟨inner, spells, rfl⟩ := below
  exact ⟨_, .enclosed spells, (Writing.text_enclosed inner).symm⟩

end Spelled

namespace Workspace

/-- However far rendering has come, a plain value under a unary condition is shown as required. -/
def Hushed (p : String → Prop) (w : Workspace) : Prop :=
  ∀ after, w.Ripens after → ∀ id u, w.node id = .unary u → u.argument.node? = none →
    p (after.plainText u.argument)

/-- Every compiled tree is spelled by its text. -/
def Told (p : String → Prop) (w : Workspace) : Prop :=
  ∀ id j rendered, w.junction? id = some j → j.compiled = some rendered →
    Spelled p w.toForest (.node id) rendered.sql

variable {p : String → Prop} {w after : Workspace}

theorem Hushed.later (hushed : w.Hushed p) (ripens : w.Ripens after) : after.Hushed p := by
  intro last rest id u kind flat
  have same : after.node id = .unary u ↔ w.node id = .unary u := ripens.kind nofun
  exact hushed last (ripens.trans rest) id u (same.mp kind) flat

theorem told_empty (p : String → Prop) (n : Nat) : Told p { nextIdentifier := n } := by
  intro id j rendered found
  simp [Forest.junction?, Forest.node] at found

theorem Told.keep (told : w.Told p) (keeps : w.Keeps after.toForest)
    (compiled : ∀ id j, after.junction? id = some j → j.compiled.isSome = true →
      w.junction? id = some j) : after.Told p := by
  intro id j rendered found finished
  exact (told id j rendered (compiled id j found (by simp [finished])) finished).keep keeps

theorem Told.move {policy : Policy} (silent : ¬ policy.renders)
    (noList : ∀ v, policy.type v → v.isList = false) (told : w.Told p) {trace : List Handout}
    (move : Move policy w trace after) : after.Told p := by
  apply told.keep (move.keeps noList)
  intro id j found compiled
  cases move with
  | plant builds fits =>
      rcases Forest.junction?_push rfl found with ⟨-, rfl⟩ | before
      · simp [fits.1] at compiled
      · exact before
  | change builds tree isOpen still =>
      rw [Forest.junction?_setNode tree] at found
      split at found
      · cases found
        simp [still] at compiled
      · exact found
  | lengthen builds allowed list => simp [noList _ allowed] at list
  | settle renders => exact absurd renders silent
  | _ => exact found

theorem Told.moves {policy : Policy} (silent : ¬ policy.renders)
    (noList : ∀ v, policy.type v → v.isList = false) (told : w.Told p) {trace : List Handout}
    (moves : Moves policy w trace after) : after.Told p := by
  induction moves with
  | refl => exact told
  | tail _ move ih => exact ih.move silent noList move

/-- All that rendering relies on. -/
structure Telling (p : String → Prop) (w : Workspace) : Prop where
  made : w.WellMade
  hushed : w.Hushed p
  told : w.Told p

end Workspace

namespace WorkspaceM

open Workspace (Compiles Telling)

variable {α β : Type} {p : String → Prop} {w after : Workspace}

/-- The operation compiles trees, each spelled by its text, and what it gives is as it should be. -/
def Tells (p : String → Prop) (answer : α → Workspace → Prop) (operation : WorkspaceM α)
    (w : Workspace) : Prop :=
  w.Telling p → w.Ripens (run operation w).2 ∧ (run operation w).2.Telling p ∧
    ∀ a, (run operation w).1 = .ok a → answer a (run operation w).2

theorem Tells.pure {answer : α → Workspace → Prop} {a : α} (good : w.Telling p → answer a w) :
    Tells p answer (Pure.pure a) w := by
  intro telling
  refine ⟨.refl w, telling, fun b same => ?_⟩
  cases same
  exact good telling

theorem Tells.throw {answer : α → Workspace → Prop} (fault : Fault) :
    Tells p answer (MonadExcept.throw fault) w :=
  fun telling => ⟨.refl w, telling, fun _ same => nomatch same⟩

theorem Tells.bind {operation : WorkspaceM α} {next : α → WorkspaceM β}
    {middle : α → Workspace → Prop} {answer : β → Workspace → Prop}
    (first : Tells p middle operation w)
    (later : ∀ a after, run operation w = (.ok a, after) → w.Telling p → w.Ripens after →
      middle a after → Tells p answer (next a) after) :
    Tells p answer (operation >>= next) w := by
  intro telling
  obtain ⟨ripens, told, good⟩ := first telling
  rw [run_bind]
  rcases result : run operation w with ⟨done, after⟩
  rw [result] at ripens told good
  cases done with
  | error fault => exact ⟨ripens, told, fun _ same => nomatch same⟩
  | ok a =>
      obtain ⟨rest, last, answers⟩ := later a after result telling ripens (good a rfl) told
      exact ⟨ripens.trans rest, last, answers⟩

theorem Tells.map {operation : WorkspaceM α} {f : α → β} {middle : α → Workspace → Prop}
    {answer : β → Workspace → Prop} (first : Tells p middle operation w)
    (good : ∀ a after, w.Ripens after → middle a after → answer (f a) after) :
    Tells p answer (f <$> operation) w := by
  rw [map_eq_pure_bind]
  exact first.bind fun a after _ _ ripens was => .pure fun _ => good a after ripens was

theorem Tells.get {next : Workspace → WorkspaceM β} {answer : β → Workspace → Prop}
    (later : Tells p answer (next w) w) : Tells p answer (MonadState.get >>= next) w := later

theorem Tells.again {ask : WorkspaceM String} {answer : String → Workspace → Prop}
    (each : ∀ after, w.Ripens after → Tells p answer ask after) :
    Tells p answer (askAgain ask) w := by
  intro telling
  obtain ⟨ripens, told, good⟩ := each w (.refl w) telling
  rw [askAgain, run_tryCatch]
  rcases result : run ask w with ⟨done, after⟩
  rw [result] at ripens told good
  cases done with
  | ok s => exact ⟨ripens, told, good⟩
  | error fault =>
      cases fault with
      | noAttribute =>
          obtain ⟨rest, last, answers⟩ := each after ripens told
          exact ⟨ripens.trans rest, last, answers⟩
      | _ =>
          refine ⟨ripens, told, fun _ same => ?_⟩
          cases same

/-- Whatever is asked for is spelled by the text that is given. -/
def Speaks (p : String → Prop) (ask : NodeId → WorkspaceM String) : Prop :=
  ∀ w id, Tells p (fun s after => Spelled p after.toForest (.node id) s) (ask id) w

variable {sql wrapped : NodeId → WorkspaceM String}

theorem tells_junction (id : NodeId) :
    Tells p (fun j after => after.junction? id = some j) (junction id) w := by
  intro telling
  have same := same_junction id w
  rw [same]
  refine ⟨.refl w, telling, fun j done => ?_⟩
  have asked : run (junction id) w = (.ok j, (run (junction id) w).2) := Prod.ext done rfl
  exact found_of_junction asked

theorem tells_renderCondition (asked : Speaks p sql) (v : Value) :
    Tells p (fun s after => Spelled p after.toForest v s) (renderCondition sql v) w := by
  cases v with
  | text s => exact .pure fun _ => .text s
  | node id => exact asked w id
  | compiled tree =>
      unfold renderCondition
      apply (tells_junction tree).bind
      intro j after _ _ _ found
      split
      · exact .pure fun _ => .other rfl rfl _
      · exact .throw _
  | outcome mark sql parameters types positional => exact .pure fun _ => .other rfl rfl _
  | _ => exact .throw _

theorem tells_renderAll (asked : Speaks p sql) (conditions : List Value) :
    Tells p (fun parts after => List.Forall₂ (Spelled p after.toForest) conditions parts)
      (renderAll sql conditions) w := by
  induction conditions generalizing w with
  | nil => exact .pure fun _ => .nil
  | cons v rest ih =>
      unfold renderAll
      apply (tells_renderCondition asked v).bind
      intro part middle _ _ _ spelled
      apply ih.bind
      intro parts after _ _ later all
      exact .pure fun _ => .cons (spelled.keep later.keeps) all

theorem telling_expandTree (telling : w.Telling p) {j : Junction}
    (known : j.binder.index < w.binders.size) :
    w.Ripens (run (expandTree j) w).2 ∧ (run (expandTree j) w).2.Telling p := by
  have settles : Settles (fun _ => False) _ (expandTree j) w := settles_expandTree known
  obtain ⟨compiles, -⟩ := settles
  obtain ⟨after, done, spends⟩ := run_expandTree j w
  rw [done] at compiles ⊢
  refine ⟨compiles.ripens, compiles.wellMade telling.made, telling.hushed.later compiles.ripens,
    telling.told.keep compiles.ripens.keeps fun id k found _ => ?_⟩
  rw [← spends.junction? id]
  exact found

theorem tells_parts (asked : Speaks p sql) (honest : Honest Texts.alone sql) {id : NodeId}
    {j : Junction} (found : w.junction? id = some j) :
    Tells p (fun result after => after.junction? id = some j ∧ Parts j result after ∧
        List.Forall₂ (Spelled p after.toForest) result.1.1 result.2)
      (expandTree j >>= fun expanded =>
        renderAll sql expanded.1 >>= fun parts => Pure.pure (expanded, parts)) w := by
  intro telling
  have settles := settles_parts honest telling.made found
  have tells : Tells p (fun result after =>
      List.Forall₂ (Spelled p after.toForest) result.1.1 result.2)
      (expandTree j >>= fun expanded =>
        renderAll sql expanded.1 >>= fun parts => Pure.pure (expanded, parts)) w := by
    have first : Tells p (fun _ _ => True) (expandTree j) w := by
      intro telling
      obtain ⟨ripens, last⟩ := telling_expandTree telling (telling.made.binder id j found)
      exact ⟨ripens, last, fun _ _ => trivial⟩
    apply first.bind
    intro expanded middle _ _ _ _
    apply (tells_renderAll asked expanded.1).bind
    intro parts after _ _ _ all
    exact .pure fun _ => all
  obtain ⟨ripens, last, good⟩ := tells telling
  exact ⟨ripens, last, fun result done =>
    ⟨still_open telling.made found settles.1, settles.2 result done, good result done⟩⟩

/-- The tree is compiled, and spelled by the text that was made for it. -/
theorem tells_settle {id : NodeId} {j : Junction} (found : w.junction? id = some j)
    (isOpen : j.compiled = none) {result : (List Value × Bindings) × List String}
    (parts : Parts j result w)
    (each : List.Forall₂ (Spelled p w.toForest) result.1.1 result.2) :
    Tells p (fun (rendered : Rendered) after =>
        Spelled p after.toForest (.node id) rendered.sql ∧
          ∃ k, after.junction? id = some k ∧ k.compiled.isSome = true)
      (setJunction id (j.settle result.1.1 ⟨joined j.connective.written result.2, result.1.2⟩) >>=
        fun _ => Pure.pure ⟨joined j.connective.written result.2, result.1.2⟩) w := by
  intro telling
  have settles := settles_settle telling.made found isOpen parts
  obtain ⟨⟨conditions, bindings⟩, texts⟩ := result
  let rendered : Rendered := ⟨joined j.connective.written texts, bindings⟩
  have keeps : w.Keeps (w.setNode id (.junction (j.settle conditions rendered))) :=
    Forest.keeps_setNode found isOpen
  have tree := Forest.junction?_setNode found (j.settle conditions rendered)
  have here := tree id
  rw [if_pos rfl] at here
  have own : Spelled p (w.setNode id (.junction (j.settle conditions rendered))) (.node id)
      rendered.sql := .tree here rfl (each.imp fun _ _ spelled => spelled.keep keeps)
  have told : Workspace.Told p { w with
      toForest := w.setNode id (.junction (j.settle conditions rendered)) } := by
    intro other k done found' compiled
    rw [tree other] at found'
    split at found'
    · rename_i same
      cases found'
      cases compiled
      exact same ▸ own
    · exact (telling.told other k done found' compiled).keep keeps
  refine ⟨settles.1.ripens, ⟨settles.1.wellMade telling.made,
    telling.hushed.later settles.1.ripens, told⟩, fun a same => ?_⟩
  cases same
  exact ⟨own, _, here, rfl⟩

theorem tells_compileJunction (asked : Speaks p sql) (honest : Honest Texts.alone sql)
    {id : NodeId} {j : Junction} (found : w.junction? id = some j) :
    Tells p (fun (rendered : Rendered) after =>
        Spelled p after.toForest (.node id) rendered.sql ∧
          ∃ k, after.junction? id = some k ∧ k.compiled.isSome = true)
      (compileJunction sql id j) w := by
  unfold compileJunction
  cases compiled : j.compiled with
  | some rendered =>
      exact .pure fun telling =>
        ⟨telling.told id j rendered found compiled, j, found, by simp [compiled]⟩
  | none =>
      have whole := (tells_parts asked honest found).bind
        fun result middle _ _ _ ⟨still, parts, each⟩ => tells_settle still compiled parts each
      simp only [bind_assoc, pure_bind] at whole
      exact whole

theorem tells_renderComparison (wraps : Speaks p wrapped) {id : NodeId} {c : Comparison}
    (kind : w.node id = .comparison c) :
    Tells p (fun s after => Spelled p after.toForest (.node id) s) (renderComparison wrapped c)
      w := by
  unfold renderComparison
  split
  · exact .throw _
  · cases operand : c.operand with
    | bound value placeholder => exact .pure fun _ => .bound kind operand
    | nested inner =>
        apply (wraps w inner).bind
        intro s after _ _ ripens below
        have kind := ripens.keeps.endures.of_kind kind nofun nofun
        exact .pure fun _ => .nested kind operand below

theorem tells_renderUnary (asked : Speaks p sql) (wraps : Speaks p wrapped) {id : NodeId}
    {u : Unary} (kind : w.node id = .unary u) :
    Tells p (fun s after => Spelled p after.toForest (.node id) s) (renderUnary sql wrapped u)
      w := by
  unfold renderUnary
  split
  · exact .throw _
  · split
    · exact .throw _
    · rename_i argument nested
      split
      · rename_i trailing
        apply (asked w argument).bind
        intro s after _ _ ripens below
        have kind := ripens.keeps.endures.of_kind kind nofun nofun
        exact .pure fun _ => by simpa [trailing] using Spelled.unary kind nested below
      · rename_i leading
        apply (wraps w argument).bind
        intro s after _ _ ripens below
        have kind := ripens.keeps.endures.of_kind kind nofun nofun
        exact .pure fun _ => by simpa [leading] using Spelled.unary kind nested below
    · rename_i given notNode
      have flat : u.argument.node? = none := by
        cases nested : u.argument with
        | node argument => exact absurd nested (notNode argument)
        | _ => rfl
      have plain (telling : w.Telling p) := Spelled.plain kind flat
        (telling.hushed w (.refl w) id u kind flat)
      apply Tells.get
      split
      · rename_i trailing
        exact .pure fun telling => by simpa [trailing] using plain telling
      · rename_i leading
        exact .pure fun telling => by simpa [leading] using plain telling

theorem tells_renderNode (asked : Speaks p sql) (honest : Honest Texts.alone sql)
    (wraps : Speaks p wrapped) (id : NodeId) :
    Tells p (fun s after => Spelled p after.toForest (.node id) s) (renderNode sql wrapped id)
      w := by
  apply Tells.get
  cases kind : w.node id with
  | junction j =>
      exact (tells_compileJunction asked honest (Forest.junction?_eq_some.mpr kind)).map
        fun _ _ _ done => done.1
  | comparison c => exact tells_renderComparison wraps kind
  | unary u => exact tells_renderUnary asked wraps kind
  | fragment s => exact .pure fun _ => .fragment kind
  | abstract => exact .throw _

theorem tells_wrapNode (asked : Speaks p sql) (honest : Honest Texts.alone sql)
    (wraps : Speaks p wrapped) (id : NodeId) :
    Tells p (fun s after => Spelled p after.toForest (.node id) s) (wrapNode sql wrapped id)
      w := by
  have own : Tells p (fun s after => Spelled p after.toForest (.node id) s)
      (askAgain (renderNode sql wrapped id)) w :=
    .again fun after _ => tells_renderNode asked honest wraps id
  cases tree : w.junction? id with
  | none =>
      have enclosed : Tells p (fun s after => Spelled p after.toForest (.node id) s)
          (parenthesized <$> askAgain (renderNode sql wrapped id)) w :=
        own.map fun _ _ _ spelled => spelled.enclosed
      rwa [Tells, run_wrapNode tree]
  | some j =>
      rw [Tells, run_wrapNode_of_tree tree]
      cases single : solitary? j.conditions with
      | none =>
          have finished : Tells p (fun s after => Spelled p after.toForest (.node id) s)
              (grouped j.conditions <$> askAgain (renderNode sql wrapped id)) w := by
            apply own.map
            intro s after _ spelled
            unfold grouped
            split
            · exact spelled.enclosed
            · exact spelled
          exact finished
      | some child =>
          have whole : Tells p (fun s after => Spelled p after.toForest (.node id) s)
              (discard (compileJunction sql id j) >>= fun _ => wrapped child) w := by
            rw [discard_bind]
            apply (tells_compileJunction asked honest tree).bind
            rintro rendered middle _ _ ripens ⟨-, k, found, compiled⟩
            obtain ⟨k', rewrite, found', rewrites, same⟩ := ripens.tree tree
            cases found.symm.trans found'
            have only : k.conditions = [.node child] := by
              rw [same, solitary?_eq_some.mp single, List.map_singleton, rewrites.node_iff.mpr rfl]
            have last := wraps middle child
            intro telling
            obtain ⟨rest, told, good⟩ := last telling
            exact ⟨rest, told, fun s done =>
              .single (rest.keeps.tree _ _ found compiled) compiled only (good s done)⟩
          exact whole

theorem speaks_within (p : String → Prop) (depth : Nat) :
    Speaks p (sqlWithin depth) ∧ Speaks p (wrappedWithin depth) := by
  -- each of the two asks for both one level below, so they are shown together
  induction depth with
  | zero => exact ⟨fun _ _ => .throw _, fun _ _ => .throw _⟩
  | succ depth ih =>
      obtain ⟨asked, wraps⟩ := ih
      have honest := (honest_within depth).1
      constructor <;> intro w id
      · rw [sqlWithin]
        exact .again fun after _ => tells_renderNode asked honest wraps id
      · rw [wrappedWithin]
        exact tells_wrapNode asked honest wraps id

theorem tells_sql (p : String → Prop) (id : NodeId) (w : Workspace) :
    Tells p (fun s after => Spelled p after.toForest (.node id) s) (WorkspaceM.sql id) w :=
  .get ((speaks_within p _).1 w id)

theorem tells_wrapped (p : String → Prop) (id : NodeId) (w : Workspace) :
    Tells p (fun s after => Spelled p after.toForest (.node id) s) (WorkspaceM.wrapped id) w :=
  .get ((speaks_within p _).2 w id)

theorem tells_compile (p : String → Prop) (id : NodeId) (w : Workspace) :
    Tells p (fun (rendered : Rendered) after => Spelled p after.toForest (.node id) rendered.sql)
      (compile id) w := by
  apply Tells.get
  apply (tells_junction id).bind
  intro j after _ _ _ found
  have tells := tells_compileJunction (p := p) (speaks_within p w.depthBound).1
    (honest_within w.depthBound).1 found
  intro telling
  obtain ⟨ripens, told, good⟩ := tells telling
  exact ⟨ripens, told, fun rendered done => (good rendered done).1⟩

end WorkspaceM
end WhereClause
