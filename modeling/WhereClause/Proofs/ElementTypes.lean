import WhereClause.Proofs.Renewals
import WhereClause.Proofs.Shortcut
import WhereClause.Proofs.Tending

/-!
# The types of elements

The type of an element is the declared type with every marker taken out, from the left and once
each. Taking markers out can bring another one together: an opening bracket that stood before
markers and a closing one that stood after them. Such a type is for several elements again.

* `several_expand_iff`: when a binding for several elements is left by an expansion, of any binder.
* `several_compile_iff`: when one is left in the bindings of a compiled tree, in every run.
-/

namespace WhereClause

namespace Text

/-- The marker, so many times in a row. -/
def markers : Nat → List Char
  | 0 => []
  | k + 1 => '[' :: ']' :: markers k

/-- A bracket opens before some markers in a row and closes after them. -/
def Nests (s : List Char) : Prop :=
  ∃ before k after, s = before ++ '[' :: (markers (k + 1) ++ ']' :: after)

def withoutMarkers : List Char → List Char
  | '[' :: ']' :: rest => withoutMarkers rest
  | c :: rest => c :: withoutMarkers rest
  | [] => []

theorem removeMarker_eq (s : List Char) : removeMarker ['[', ']'] s = withoutMarkers s := by
  unfold removeMarker
  induction s using withoutMarkers.induct with
  | case1 rest ih => simpa [replaceFrom, withoutMarkers] using ih
  | case2 c rest other ih =>
      have alone : (['[', ']'].isPrefixOf (c :: rest)) = false := by
        rw [← Bool.not_eq_true, List.isPrefixOf_iff_prefix]
        rintro ⟨later, same⟩
        simp only [List.cons_append, List.nil_append, List.cons.injEq] at same
        exact other later same.1.symm same.2.symm
      rw [withoutMarkers.eq_2 _ _ other, replaceFrom, alone, Bool.false_and,
        if_neg Bool.false_ne_true, ih]
  | case3 => rfl

theorem withoutMarkers_markers (k : Nat) (s : List Char) :
    withoutMarkers (markers k ++ s) = withoutMarkers s := by
  induction k with
  | zero => rfl
  | succ k ih => simpa [markers, withoutMarkers] using ih

/-- A text that does not start with a closing bracket makes no marker with what stands before. -/
theorem withoutMarkers_append {s : List Char} (start : s.head? ≠ some ']') (before : List Char) :
    withoutMarkers (before ++ s) = withoutMarkers before ++ withoutMarkers s := by
  induction before using withoutMarkers.induct with
  | case1 rest ih => simpa [withoutMarkers] using ih
  | case2 c rest other ih =>
      have apart : ∀ later, c = '[' → rest ++ s = ']' :: later → False := by
        intro later opens closes
        cases rest with
        | nil => exact start (by simp [show s = ']' :: later from closes])
        | cons d rest => exact other rest opens (by rw [(List.cons.inj closes).1])
      rw [List.cons_append, withoutMarkers.eq_2 _ _ apart, withoutMarkers.eq_2 _ _ other, ih,
        List.cons_append]
  | case3 => rfl

/-- What starts with a closing bracket once the markers are taken out starts with markers and then
that bracket. -/
theorem markers_of_withoutMarkers {s rest : List Char} (same : withoutMarkers s = ']' :: rest) :
    ∃ k after, s = markers k ++ ']' :: after := by
  induction s using withoutMarkers.induct with
  | case1 later ih =>
      obtain ⟨k, after, rfl⟩ := ih (by simpa [withoutMarkers] using same)
      exact ⟨k + 1, after, rfl⟩
  | case2 c later other ih =>
      rw [withoutMarkers.eq_2 _ _ other] at same
      exact ⟨0, later, by rw [(List.cons.inj same).1]; rfl⟩
  | case3 => cases same

theorem Nests.cons {s : List Char} (nests : Nests s) (c : Char) : Nests (c :: s) := by
  obtain ⟨before, k, after, rfl⟩ := nests
  exact ⟨c :: before, k, after, rfl⟩

/-- A marker is left in a text when the markers are taken out exactly if one was nested. -/
theorem occurs_removeMarker_iff (s : List Char) :
    occurs ['[', ']'] (removeMarker ['[', ']'] s) = true ↔ Nests s := by
  rw [removeMarker_eq]
  constructor
  · intro found
    induction s using withoutMarkers.induct with
    | case1 rest ih =>
        rw [withoutMarkers] at found
        exact ((ih found).cons _).cons _
    | case2 c rest other ih =>
        rw [withoutMarkers.eq_2 _ _ other, occurs, Bool.or_eq_true,
          List.isPrefixOf_iff_prefix] at found
        rcases found with ⟨later, here⟩ | below
        · obtain ⟨opens, closes⟩ := List.cons.inj here
          obtain ⟨k, after, rfl⟩ := markers_of_withoutMarkers closes.symm
          cases k with
          | zero => exact absurd rfl (other after opens.symm)
          | succ k => exact ⟨[], k, after, by rw [opens]; rfl⟩
        · exact (ih below).cons c
    | case3 => cases found
  · rintro ⟨before, k, after, rfl⟩
    rw [withoutMarkers_append (by simp), occurs_iff]
    have opening : withoutMarkers ('[' :: (markers (k + 1) ++ ']' :: after)) =
        '[' :: ']' :: withoutMarkers after := by
      rw [withoutMarkers.eq_2 _ _ (by simp [markers]), withoutMarkers_markers,
        withoutMarkers.eq_2 _ _ (by simp)]
    exact ⟨withoutMarkers before, withoutMarkers after, by rw [opening]; simp⟩

end Text

/-! ## Expansion -/

section Expanding

variable {settings : Settings}

/-- The type is for several elements, and so is that of its elements. -/
def BindingOf.Nests {α : Type} (binding : BindingOf α) : Prop :=
  ∃ type, binding.type = some type ∧ Text.Nests type.toList

theorem isMulti_elementType {α : Type} (marker : settings.multiMarker = "[]") (fragment : String)
    (value : α) (binding : BindingOf α) :
    (⟨fragment, value, binding.elementType settings⟩ : BindingOf α).isMulti settings = true ↔
      binding.Nests := by
  cases given : binding.type with
  | none => simp [BindingOf.isMulti, BindingOf.elementType, BindingOf.Nests, given]
  | some type =>
      have unmarked : (settings.unmarked type).toList =
          Text.removeMarker ['[', ']'] type.toList := by
        rw [Settings.unmarked, String.toList_ofList, marker]
        rfl
      have marks : settings.marks (settings.unmarked type) = true ↔ Text.Nests type.toList := by
        rw [Settings.marks, marker, unmarked]
        exact Text.occurs_removeMarker_iff type.toList
      simp [BindingOf.isMulti, BindingOf.elementType, BindingOf.Nests, given, marks]

theorem isMulti_of_nests {α : Type} (marker : settings.multiMarker = "[]")
    {binding : BindingOf α} (nests : binding.Nests) : binding.isMulti settings = true := by
  obtain ⟨type, given, before, k, after, split⟩ := nests
  have found : Text.occurs ['[', ']'] type.toList = true := by
    rw [Text.occurs_iff]
    exact ⟨before ++ ['['], Text.markers k ++ ']' :: after, by rw [split]; simp [Text.markers]⟩
  rw [BindingOf.isMulti, given, Option.any_some, Settings.marks, marker]
  exact found

variable (forest : Forest) (b : Binder)

/-- The binder holds a binding with elements, whose type is for several elements once more. -/
def Binder.Nests : Prop :=
  ∃ entry ∈ b.bindings, entry.2.Nests ∧ forest.elements entry.2.value ≠ []

theorem mem_several {binding : Binding} {bindings : Bindings}
    (member : binding ∈ bindings.several settings) :
    ∃ entry ∈ bindings, entry.2 = binding ∧ binding.isMulti settings = true := by
  obtain ⟨entry, inside, rfl⟩ := List.mem_map.mp member
  obtain ⟨known, multi⟩ := List.mem_filter.mp inside
  exact ⟨entry, known, rfl, multi⟩

/-- Of any bindings, an expansion leaves one for several elements exactly if the type of one that
has elements is nested. -/
theorem several_expand_iff (marker : settings.multiMarker = "[]") :
    (∃ entry ∈ (b.expand forest settings).1.bindings, entry.2.isMulti settings = true) ↔
      b.Nests forest := by
  obtain ⟨kept, added, -, -⟩ := Expansion.ofBindings_renewals forest settings b.bindings b
  rw [Binder.expand, Expansion.bindings, kept, added]
  constructor
  · rintro ⟨entry, member, multi⟩
    rcases Table.mem_putAll member with new | before
    · obtain ⟨renewal, known, inside⟩ := List.mem_flatMap.mp new
      obtain ⟨several, start, drawn⟩ := Forest.mem_renewals known
      obtain ⟨source, held, same, -⟩ := mem_several several
      obtain ⟨made, element, rfl⟩ := List.mem_map.mp inside
      refine ⟨source, held, ?_, fun empty => ?_⟩
      · rw [same]
        exact (isMulti_elementType marker _ _ _).mp multi
      · rw [same] at empty
        rw [drawn, empty] at element
        cases element
    · have single := (List.mem_filter.mp before).2
      rw [multi] at single
      cases single
  · rintro ⟨source, held, nests, elements⟩
    have several : source.2 ∈ b.bindings.several settings :=
      List.mem_map_of_mem (List.mem_filter.mpr ⟨held, isMulti_of_nests marker nests⟩)
    rw [← Forest.bindings_renewals forest settings b.identifier b.count] at several
    obtain ⟨renewal, known, same⟩ := List.mem_map.mp several
    obtain ⟨-, start, drawn⟩ := Forest.mem_renewals known
    have some' : renewal.elements ≠ [] := by
      intro empty
      have length := congrArg List.length (drawn.symm.trans empty)
      rw [Expansion.length_reservations, same] at length
      exact elements (List.eq_nil_of_length_eq_zero length)
    obtain ⟨made, element⟩ := List.exists_mem_of_ne_nil _ some'
    have new : (made.1.number,
        (⟨withoutFirst made.1.name, made.2, renewal.binding.elementType settings⟩ : Binding)) ∈
        (forest.renewals settings b.identifier b.count b.bindings).flatMap
          (Renewal.entries settings) :=
      List.mem_flatMap.mpr ⟨renewal, known, List.mem_map_of_mem element⟩
    refine ⟨_, Table.mem_putAll_of_nodup (Expansion.nodup_renewals ..) new, ?_⟩
    rw [isMulti_elementType marker, same]
    exact nests

end Expanding

/-! ## Compiled trees -/

/-- What a binder that remembers gives to a tree that is compiled. -/
theorem several_final_iff {settings : Settings} (marker : settings.multiMarker = "[]")
    (forest : Forest) {b : Binder} (remembers : b.Remembers settings) :
    (∃ entry ∈ b.final forest settings, entry.2.isMulti settings = true) ↔ b.Nests forest := by
  unfold Binder.final
  split
  · exact several_expand_iff forest b marker
  · rename_i still
    have single := remembers.single (Bool.eq_false_iff.mpr still)
    constructor
    · rintro ⟨entry, member, multi⟩
      rw [single entry member] at multi
      cases multi
    · rintro ⟨entry, member, nests, -⟩
      have multi := isMulti_of_nests marker nests
      rw [single entry member] at multi
      cases multi

namespace Workspace

variable {p : Policy} {settings : Settings} {w after : Workspace} {trace : List Handout}

/-- A compiled tree has a binding for several elements only if a nested type was bound to its
binder. -/
def Stripped (settings : Settings) (w : Workspace) : Prop :=
  ∀ id j rendered, w.junction? id = some j → j.compiled = some rendered →
    (∃ entry ∈ rendered.bindings, entry.2.isMulti settings = true) →
      ∃ entry ∈ (w.binder j.binder).bindings, entry.2.Nests

/-- A tree that is compiled after a move that compiles nothing was compiled before. -/
theorem compiled_of_move (quiet : ¬ p.renders) (move : Move p w trace after) {id : NodeId}
    {j : Junction} {rendered : Rendered} (found : after.junction? id = some j)
    (compiled : j.compiled = some rendered) :
    ∃ k, w.junction? id = some k ∧ k.compiled = some rendered ∧ k.binder = j.binder := by
  cases move with
  | plant builds fits =>
      rcases Forest.junction?_push rfl found with ⟨-, rfl⟩ | before
      · cases fits.1.symm.trans compiled
      · exact ⟨j, before, compiled, rfl⟩
  | change builds known isOpen still binder =>
      rw [Forest.junction?_setNode known] at found
      split at found
      · cases found
        cases still.symm.trans compiled
      · exact ⟨j, found, compiled, rfl⟩
  | lengthen builds allowed list letters =>
      rename_i v
      rcases Forest.junction?_extendList w.toForest v (letters.map .text) id with
        same | ⟨k, stage, known, more⟩
      · exact ⟨j, same ▸ found, compiled, rfl⟩
      · cases more.symm.trans found
        exact ⟨k, known, by simpa using compiled, by simp⟩
  | settle renders => exact absurd renders quiet
  | _ => exact ⟨j, found, compiled, rfl⟩

theorem Stripped.moves (quiet : ¬ p.renders) (sequenced : w.Sequenced)
    (stripped : w.Stripped settings) (moves : Moves p w trace after) :
    after.Stripped settings := by
  induction moves with
  | refl => exact stripped
  | tail path move ih =>
      intro id j rendered found compiled several
      obtain ⟨k, known, before, binder⟩ := compiled_of_move quiet move found compiled
      obtain ⟨entry, member, nests⟩ := ih id k rendered known before several
      have grown := ((sequenced.moves path).1.move move).2 k.binder
      exact ⟨entry, binder ▸ grown.subset member, nests⟩

/-- Everything that holds in a run of compiled trees and of what binders remember. -/
structure Trimmed (settings : Settings) (w : Workspace) : Prop where
  made : w.WellMade
  remembering : WorkspaceM.Remembering settings w
  stripped : w.Stripped settings

theorem Trimmed.sequenced (trimmed : w.Trimmed settings) : w.Sequenced := by
  intro id
  obtain ⟨identifier, first, calls, -, same⟩ := trimmed.remembering.used id
  rw [same]
  exact ⟨first, ((Binder.sequenced_fresh identifier first).uses calls).1⟩

end Workspace

namespace WorkspaceM

open Workspace (Trimmed)

variable {α : Type} {settings : Settings} {w : Workspace}

/-- Making and filling compiles nothing. -/
theorem trims_quietly {operation : WorkspaceM α} (acts : Acts Policy.free.quiet w operation)
    (uses : Keeps (Remembering settings) operation w) :
    Keeps (Trimmed settings) operation w where
  after trimmed := by
    obtain ⟨trace, moves⟩ := acts trimmed.made
    exact ⟨trimmed.made.moves moves, uses.after trimmed.remembering,
      trimmed.stripped.moves id trimmed.sequenced moves⟩

theorem trims_expandTree {id : NodeId} {j : Junction} (found : w.junction? id = some j) :
    Keeps (Trimmed settings) (expandTree j) w where
  after trimmed := by
    have settles : Settles (fun _ => False) _ (expandTree j) w :=
      settles_expandTree (trimmed.made.binder id j found)
    have remembering := (uses_expandTree settings.looks j).after trimmed.remembering
    have made := settles.1.wellMade trimmed.made
    obtain ⟨after, done, spends⟩ := run_expandTree j w
    rw [done] at made remembering ⊢
    refine ⟨made, remembering, fun other k rendered known compiled several => ?_⟩
    rw [spends.junction?] at known
    rw [spends.bindings]
    exact trimmed.stripped other k rendered known compiled several

theorem trims_compileJunction (marker : settings.multiMarker = "[]")
    {sql : NodeId → WorkspaceM String} (honest : Honest Texts.alone sql)
    (asked : ∀ id w, Keeps (Trimmed settings) (sql id) w) {id : NodeId} {j : Junction}
    (found : w.junction? id = some j) :
    Keeps (Trimmed settings) (compileJunction sql id j) w := by
  constructor
  intro trimmed
  have made := (settles_compileJunction honest trimmed.made found).1.wellMade trimmed.made
  suffices both : Remembering settings (run (compileJunction sql id j) w).2 ∧
      (run (compileJunction sql id j) w).2.Stripped settings from ⟨made, both.1, both.2⟩
  clear made
  unfold compileJunction
  cases compiled : j.compiled with
  | some rendered => exact ⟨trimmed.remembering, trimmed.stripped⟩
  | none =>
      have parts : Keeps (Trimmed settings) (expandTree j >>= fun expanded =>
          renderAll sql expanded.1 >>= fun parts => Pure.pure (expanded, parts)) w :=
        (trims_expandTree found).bind fun expanded middle _ =>
          (keeps_renderAll asked expanded.1 middle).bind fun _ _ _ => .pure _
      have last := parts.after trimmed
      have compiles := (settles_parts honest trimmed.made found).1
      have whole : let after := (run ((expandTree j >>= fun expanded =>
            renderAll sql expanded.1 >>= fun parts => Pure.pure (expanded, parts)) >>=
          fun result => setJunction id
            (j.settle result.1.1 ⟨joined j.connective.written result.2, result.1.2⟩) >>= fun _ =>
          Pure.pure (⟨joined j.connective.written result.2, result.1.2⟩ : Rendered)) w).2
          Remembering settings after ∧ after.Stripped settings := by
        rw [run_bind]
        split
        · rename_i result after done
          rw [done] at last compiles
          have still := still_open trimmed.made found compiles
          obtain ⟨trace, moves⟩ := compiles.moves
          have bindings := (Moves.same_binder moves j.binder).2
          refine ⟨last.remembering.of_binders rfl rfl, ?_⟩
          intro other k rendered known done' several
          replace known := (Forest.junction?_setNode still _ other).symm.trans known
          split at known
          · cases known
            cases done'
            have remembers := (trimmed.remembering.used j.binder).remembers
            rw [expanded_of_parts done, trimmed.remembering.settings] at several
            obtain ⟨entry, member, nests, -⟩ :=
              (several_final_iff marker w.toForest remembers).mp several
            exact ⟨entry, bindings ▸ member, nests⟩
          · exact last.stripped other k rendered known done' several
        · rename_i fault after done
          rw [done] at last
          exact ⟨last.remembering, last.stripped⟩
      simp only [bind_assoc, pure_bind] at whole
      exact whole

theorem trims_lasts (marker : settings.multiMarker = "[]") : Lasts (Trimmed settings) :=
  fun _ honest asked _ _ _ found => trims_compileJunction marker honest asked found

theorem trims_add (tree : NodeId) (description types : Value) (w : Workspace) :
    Keeps (Trimmed settings) (add tree description types) w :=
  trims_quietly (acts_add trivial tree description fun _ _ _ => trivial)
    (uses_add settings.looks tree description types w)

theorem trims_addTest (marker : settings.multiMarker = "[]") (tree : NodeId) (field : Value)
    (test : String) : Keeps (Trimmed settings) (addTest tree field test) w :=
  (keeps_textOf (trims_lasts marker) field w).bind fun _ middle _ => trims_add tree _ _ middle

theorem trims_addComparison (marker : settings.multiMarker = "[]") (tree : NodeId)
    (operator : String) (field value type : Value) :
    Keeps (Trimmed settings) (addComparison tree operator field value type) w := by
  unfold addComparison
  refine (keeps_textOf (trims_lasts marker) field w).bind fun text middle _ => .get ?_
  dsimp only
  split
  · exact trims_add tree _ _ middle
  · split
    · exact trims_add tree _ _ middle
    · exact .throw _

theorem trims_compileDescription (marker : settings.multiMarker = "[]")
    (description types connective : Value) :
    Keeps (Trimmed settings) (compileDescription description types connective) w := by
  have planted : Keeps (Trimmed settings) (newTree description types connective none) w :=
    trims_quietly (acts_newTree trivial description (fun _ _ _ => trivial) connective nofun)
      (uses_newTree settings.looks description types connective none w)
  have fresh : Keeps (Trimmed settings)
      (newTree description types connective none >>= outcomeOf) w :=
    planted.bind fun tree middle _ => keeps_outcomeOf (trims_lasts marker) tree middle
  refine .look rfl fun forest _ => ?_
  split
  · split
    · exact keeps_outcomeOf (trims_lasts marker) _ w
    · exact fresh
  · exact fresh

theorem trims_run (marker : settings.multiMarker = "[]") {operation : Operation}
    (fits : operation.Fits .free w) (textual : operation.Textual)
    (works : ¬ operation.Adjusts) : Keeps (Trimmed settings) operation.run w := by
  have uses : Keeps (Remembering settings) operation.run w :=
    Workspace.Using.run settings.looks (textual.calls settings) works
  have builds : Policy.free.quiet.builds := trivial
  have types (v : Value) : Policy.free.quiet.Types v := fun _ _ _ => trivial
  have lasts := trims_lasts marker
  cases operation with
  | newTree description _ connective binder =>
      exact trims_quietly ((acts_newTree builds description (types _) connective fits.2).map _) uses
  | newComparison field value type operator =>
      exact trims_quietly ((acts_newComparison builds field value type operator).map _) uses
  | newUnary symbol argument trailing =>
      exact trims_quietly ((acts_newUnary builds symbol trailing fits).map _) uses
  | newFragment text => exact trims_quietly ((acts_newFragment builds text).map _) uses
  | newAbstract =>
      have acts : Acts Policy.free.quiet w (addNode .abstract) := acts_addNode builds trivial
      exact trims_quietly (acts.map _) uses
  | newBinder identifier count =>
      exact trims_quietly ((acts_newBinder builds fits count).map _) uses
  | takeIdentifier => exact trims_quietly ((acts_takeIdentifier builds).map _) uses
  | add tree description types => exact trims_add tree description types w
  | append tree condition => exact trims_quietly (acts_append builds tree condition) uses
  | compare tree comparator field value type =>
      exact trims_addComparison marker tree comparator.operator field value type
  | isNull tree field => exact trims_addTest marker tree field _
  | isNotNull tree field => exact trims_addTest marker tree field _
  | negate tree description types => exact trims_add tree _ types w
  | setConnective tree connective =>
      exact trims_quietly (acts_setConnective builds tree connective) uses
  | bindInTree tree name value type =>
      exact trims_quietly (acts_bindInTree builds tree name value type) uses
  | placeholderOf tree token =>
      refine trims_quietly (fun made => ?_) uses
      refine Acts.look (same_junction tree w) (fun j done => ?_) made
      exact (acts_placeholder (made.binder tree j (found_of_junction done)) token).map _
  | placeholder binder token => exact trims_quietly ((acts_placeholder fits token).map _) uses
  | reserve binder token keeping =>
      exact trims_quietly ((acts_reserveIn fits token keeping).map _) uses
  | register binder token value type =>
      exact trims_quietly ((acts_registerIn builds fits token value type).map _) uses
  | bind binder name value type =>
      exact trims_quietly ((acts_bindIn builds fits name value type).map _) uses
  | expand conditions binder =>
      exact trims_quietly ((acts_expandConditions conditions fits).map _) uses
  | join connective left right =>
      exact trims_quietly ((acts_join builds connective left right).map _) uses
  | invert operand => exact trims_quietly ((acts_invert builds operand).map _) uses
  | sql id => exact (keeps_sql lasts id w).map _
  | wrapped id => exact (keeps_wrapped lasts id w).map _
  | compile id => exact (keeps_compile lasts id w).map _
  | collectBindings id => exact (keeps_collectBindings lasts id w).map _
  | collectParameters id => exact (keeps_collectParameters lasts id w).map _
  | compileDescription description types connective =>
      exact (trims_compileDescription marker description types connective).map _
  | configure options => exact absurd (.inl ⟨options, rfl⟩) works
  | reset => exact absurd (.inr rfl) works

theorem bindings_of_compile {id : NodeId} {j : Junction} {rendered : Rendered}
    {after : Workspace} (found : w.junction? id = some j) (isOpen : j.compiled = none)
    (done : run (compile id) w = (.ok rendered, after)) :
    rendered.bindings = (w.binder j.binder).final w.toForest w.settings := by
  obtain ⟨middle, expanded, -⟩ := run_expandTree j w
  rw [compile, run_bind, run_get] at done
  dsimp only at done
  rw [run_bind_ok (run_junction found)] at done
  simp only [compileJunction, isOpen] at done
  rw [run_bind_ok expanded, run_bind] at done
  split at done
  · cases done
    rfl
  · cases done

end WorkspaceM

/-! ## Runs -/

namespace Workspace

variable {settings other : Settings} {w : Workspace}

theorem Stripped.congr (same : other.multiMarker = settings.multiMarker)
    (stripped : w.Stripped settings) : w.Stripped other := by
  intro id j rendered found compiled several
  simp only [BindingOf.isMulti_congr same] at several
  exact stripped id j rendered found compiled several

theorem Trimmed.perform (marker : w.settings.multiMarker = "[]")
    (trimmed : w.Trimmed w.settings) {operation : Operation} (fits : operation.Fits .free w)
    (textual : operation.Textual)
    (still : (w.perform operation).settings.multiMarker = "[]") :
    (w.perform operation).Trimmed (w.perform operation).settings := by
  by_cases adjusts : operation.Adjusts
  · obtain ⟨settings, records, same, -⟩ := forest_of_adjusts (w := w) adjusts
    rw [same] at still ⊢
    have used := trimmed.remembering.used
    rw [marker, ← still] at used
    have made := trimmed.made
    refine ⟨⟨made.binder, made.flat, made.settled⟩, ⟨rfl, used⟩, ?_⟩
    exact trimmed.stripped.congr (still.trans marker.symm)
  · have kept := (WorkspaceM.trims_run marker fits textual adjusts).after trimmed
    rwa [show (w.perform operation).settings = w.settings from kept.remembering.settings]

theorem Trimmed.run (trimmed : w.Trimmed w.settings) {operations : List Operation}
    (allows : w.Allows .free operations) (marked : w.Marked "[]" operations) :
    (w.after operations).Trimmed (w.after operations).settings := by
  induction operations generalizing w with
  | nil => exact trimmed
  | cons operation rest ih =>
      obtain ⟨marker, textual, later⟩ := marked
      have still : (w.perform operation).settings.multiMarker = "[]" := by
        cases rest with
        | nil => exact later
        | cons _ _ => exact later.1
      exact ih (trimmed.perform marker allows.1 textual still) allows.2 later

theorem trimmed_empty (n : Nat) : Trimmed {} { nextIdentifier := n } :=
  ⟨.empty n, ⟨rfl, fun _ => Binder.usedBy_fresh _ _ _⟩, nofun⟩

end Workspace

open WorkspaceM in
/-- Under the default marker, a binding for several elements is left by an expansion exactly if the
type of one that has elements is nested. So it is in every run in which no type is given as bytes:
when a tree is compiled, and in every compiled tree only if a nested type was bound to its binder.
-/
theorem several_left_iff (n : Nat) {operations : List Operation}
    (allows : Workspace.Allows .free { nextIdentifier := n } operations)
    (marked : Workspace.Marked "[]" { nextIdentifier := n } operations) :
    (∀ forest b, (∃ entry ∈ (Binder.expand forest {} b).1.bindings, entry.2.isMulti {} = true) ↔
      b.Nests forest) ∧
    let w := Workspace.after { nextIdentifier := n } operations
    ∀ tree j, w.junction? tree = some j →
      (∀ rendered, j.compiled = some rendered →
        (∃ entry ∈ rendered.bindings, entry.2.isMulti {} = true) →
          ∃ entry ∈ (w.binder j.binder).bindings, entry.2.Nests) ∧
      (∀ rendered after, j.compiled = none → run (compile tree) w = (.ok rendered, after) →
        ((∃ entry ∈ rendered.bindings, entry.2.isMulti {} = true) ↔
          (w.binder j.binder).Nests w.toForest)) := by
  refine ⟨fun forest b => several_expand_iff forest b rfl, ?_⟩
  intro w tree j found
  have trimmed := (Workspace.trimmed_empty n).run allows marked
  have marker : w.settings.multiMarker = "[]" := marked.last
  refine ⟨fun rendered compiled several => ?_, fun rendered after isOpen done => ?_⟩
  · exact trimmed.stripped.congr marker.symm tree j rendered found compiled several
  · rw [bindings_of_compile found isOpen done]
    simp only [BindingOf.isMulti_congr (show ({} : Settings).multiMarker = w.settings.multiMarker
      from marker.symm)]
    exact several_final_iff marker w.toForest (trimmed.remembering.used j.binder).remembers

/-- A tree with a type in which one marker stands within another. -/
def nestingOne : List Operation :=
  [.newTree (.dict .passing [(.text "a IN", .list .passing [.int 1])])
    (.dict .passing [(.text "a", .text "x[[]]")]) .null none]

theorem several_left_nestingOne :
    let w := Workspace.after { nextIdentifier := 1 } nestingOne
    Workspace.Allows .free { nextIdentifier := 1 } nestingOne ∧
      Workspace.Marked "[]" { nextIdentifier := 1 } nestingOne ∧
      ∃ rendered after, WorkspaceM.run (WorkspaceM.compile ⟨0⟩) w = (.ok rendered, after) ∧
        ∃ entry ∈ rendered.bindings, entry.2.isMulti {} = true := by
  intro w
  have allows : Workspace.Allows .free { nextIdentifier := 1 } nestingOne :=
    ⟨⟨fun _ _ _ => trivial, by simp⟩, trivial⟩
  have marked : Workspace.Marked "[]" { nextIdentifier := 1 } nestingOne := ⟨rfl, trivial, rfl⟩
  have text : ((WorkspaceM.run (WorkspaceM.compile ⟨0⟩) w).1.toOption.map (·.sql)) =
      some "a IN (:c1_1)" := by decide +kernel
  obtain ⟨rendered, found, -⟩ := Option.map_eq_some_iff.mp text
  have done := WorkspaceM.run_ok_of_toOption found
  have nests : (w.binder ⟨0⟩).Nests w.toForest :=
    ⟨(0, ⟨"c1_0", .list .passing [.int 1], some "x[[]]"⟩), List.mem_singleton.mpr rfl,
      ⟨"x[[]]", rfl, ['x'], 0, [], rfl⟩, List.cons_ne_nil _ _⟩
  have tree : w.junction? ⟨0⟩ = some ⟨.text "AND", [.text "a IN (:c1_0)"], [], ⟨0⟩, none⟩ := rfl
  have iff := ((several_left_iff 1 allows marked).2 ⟨0⟩ _ tree).2 rendered _ rfl done
  exact ⟨allows, marked, rendered, _, done, iff.mpr nests⟩

end WhereClause
