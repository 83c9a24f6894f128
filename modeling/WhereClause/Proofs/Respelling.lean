import WhereClause.Proofs.Minting

/-!
# Respelling texts

Names are respelled in a text by replacing them all at once. What is put together from texts is
respelled by respelling its parts, as long as no part begins with a word that goes on from the part
before. Where names are put into a text in the place of others, respelling them afterwards comes to
putting them in respelled, if the text itself mentions none of them.

* `Takes.spaced`, `Takes.joined`: what is put together from parts.
* `takes_substituteText`: what is put into a text.
-/

namespace WhereClause
namespace Text

open Expansion (substituteText)

/-- Replacing at once takes the first text to the second one, whatever comes after it. -/
def Takes (replacements : Table String String) (s t : String) : Prop :=
  ∀ rest, endsWord rest = true →
    replaceAtOnce replacements 0 (s.toList ++ rest) =
      t.toList ++ replaceAtOnce replacements 0 rest

/-- The text mentions nothing that is replaced. -/
def Untouched (replacements : Table String String) (s : List Char) : Prop :=
  ∀ p ∈ placeholders s, p ∉ Table.keys replacements

variable {replacements : Table String String} {s t s' t' : String}

theorem Takes.eq (takes : Takes replacements s t) :
    String.ofList (replaceAtOnce replacements 0 s.toList) = t := by
  have whole := takes [] rfl
  rw [List.append_nil, replaceAtOnce, List.append_nil] at whole
  rw [whole, String.ofList_toList]

section
variable (tokens : Tokens replacements)
include tokens

theorem get?_of_untouched {word : List Char} (all : word.all isWordChar = true)
    (untouched : Untouched replacements (':' :: word)) :
    Table.get? (String.ofList (':' :: word)) replacements = none := by
  rw [Table.get?_eq_none_iff]
  obtain rfl | some' := eq_or_ne word []
  · -- A colon alone is no token.
    intro member
    obtain ⟨replaced, inside, same⟩ := List.mem_map.mp member
    obtain ⟨word, start, some', -⟩ := tokens replaced inside
    rw [same, String.toList_ofList] at start
    exact some' (List.tail_eq_of_cons_eq start).symm
  · exact untouched _ (by simp [placeholders_token ⟨word, rfl, some', all⟩])

theorem replaceAtOnce_untouched {s : List Char} (untouched : Untouched replacements s)
    {rest : List Char} (ends : endsWord rest = true) :
    replaceAtOnce replacements 0 (s ++ rest) = s ++ replaceAtOnce replacements 0 rest := by
  induction s using colon_induction with
  | nil => rfl
  | char c later notColon ih =>
      have quiet : ':' ∉ [c] := by simpa using notColon.symm
      rw [Untouched, ← List.singleton_append, placeholders_of_no_colon quiet] at untouched
      rw [List.cons_append, replaceAtOnce_char tokens notColon, ih untouched, List.cons_append]
  | colon word later all ends' ih =>
      rw [Untouched, placeholders_append _ ends'] at untouched
      have here := get?_of_untouched tokens all fun p member =>
        untouched p (List.mem_append_left _ member)
      rw [List.append_assoc, replaceAtOnce_piece tokens all (endsWord_append ends' ends),
        ih fun p member => untouched p (List.mem_append_right _ member), replacementFor, here,
        Option.map_none, Option.getD_none, List.append_assoc]

theorem Untouched.takes (untouched : Untouched replacements s.toList) : Takes replacements s s :=
  fun _ ends => replaceAtOnce_untouched tokens untouched ends

theorem takes_of_noColon (noColon : ':' ∉ s.toList) : Takes replacements s s :=
  Untouched.takes tokens (by simp [Untouched, placeholders_eq_nil noColon])

/-- The placeholder that a name stands for is put in its place. -/
theorem takes_of_get? (found : Table.get? s replacements = some t) : Takes replacements s t := by
  intro rest ends
  obtain ⟨word, start, -, all⟩ := tokens _ (Table.mem_of_get? found)
  dsimp only at start
  have piece : String.ofList (':' :: word) = s := by rw [← start, String.ofList_toList]
  rw [start, replaceAtOnce_piece tokens all ends, replacementFor, piece, found, Option.map_some,
    Option.getD_some]

end

theorem Takes.append (first : Takes replacements s t) (second : Takes replacements s' t')
    (ends : endsWord s'.toList = true) : Takes replacements (s ++ s') (t ++ t') := by
  intro rest apart
  rw [String.toList_append, List.append_assoc, first _ (endsWord_append ends apart),
    second rest apart, String.toList_append, List.append_assoc]

section
variable (tokens : Tokens replacements)
include tokens

theorem Takes.prepend {before : String} (noColon : ':' ∉ before.toList)
    (takes : Takes replacements s t) : Takes replacements (before ++ s) (before ++ t) := by
  intro rest apart
  rw [String.toList_append, String.toList_append, List.append_assoc, List.append_assoc,
    ← takes rest apart]
  generalize before.toList = before at noColon
  induction before with
  | nil => rfl
  | cons c before ih =>
      have notColon : c ≠ ':' := (List.ne_of_not_mem_cons noColon).symm
      rw [List.cons_append, replaceAtOnce_char tokens notColon,
        ih (List.not_mem_of_not_mem_cons noColon), List.cons_append]

theorem Takes.spaced (first : Takes replacements s t) (second : Takes replacements s' t') :
    Takes replacements (s ++ " " ++ s') (t ++ " " ++ t') := by
  rw [String.append_assoc, String.append_assoc]
  refine first.append (second.prepend tokens (by decide)) ?_
  rw [String.toList_append]
  rfl

theorem Takes.parenthesized (takes : Takes replacements s t) :
    Takes replacements (parenthesized s) (WhereClause.parenthesized t) :=
  (takes.prepend tokens (by decide)).append (takes_of_noColon tokens (by decide)) (by decide)

omit tokens in
theorem Takes.intercalate {α : Type} {glue : String} {f g : α → String}
    (glues : ∀ {s t s' t'}, Takes replacements s t → Takes replacements s' t' →
      Takes replacements (s ++ glue ++ s') (t ++ glue ++ t')) {parts : List α}
    (each : ∀ part ∈ parts, Takes replacements (f part) (g part)) :
    Takes replacements (glue.intercalate (parts.map f)) (glue.intercalate (parts.map g)) := by
  induction parts with
  | nil => exact fun _ _ => rfl
  | cons part rest ih =>
      obtain ⟨here, later⟩ := List.forall_mem_cons.mp each
      cases rest with
      | nil =>
          rw [List.map_singleton, List.map_singleton, String.intercalate_singleton,
            String.intercalate_singleton]
          exact here
      | cons next rest =>
          rw [List.map_cons, List.map_cons, List.map_cons, List.map_cons,
            String.intercalate_cons_cons, String.intercalate_cons_cons]
          exact glues here (ih later)

theorem Takes.joined {α : Type} {connective : String} {f g : α → String}
    (word : Takes replacements connective connective) {parts : List α}
    (each : ∀ part ∈ parts, Takes replacements (f part) (g part)) :
    Takes replacements (joined connective (parts.map f))
      (WhereClause.joined connective (parts.map g)) := by
  have body : Takes replacements ((" " ++ connective ++ " ").intercalate (parts.map f))
      ((" " ++ connective ++ " ").intercalate (parts.map g)) := by
    refine Takes.intercalate (fun {s t s' t'} first second => ?_) each
    have whole := (first.spaced tokens word).spaced tokens second
    simpa only [String.append_assoc] using whole
  match parts with
  | [] | [_] => exact body
  | _ :: _ :: _ => exact body.parenthesized tokens

theorem takes_substituteText {put put' : Table String String} (independent : Independent put)
    (independent' : Independent put')
    (related : ∀ key, Option.Rel (Takes replacements) (Table.get? key put) (Table.get? key put'))
    {s : List Char} (untouched : Untouched replacements s) :
    Takes replacements (String.ofList (substituteText put s))
      (String.ofList (substituteText put' s)) := by
  intro after apart
  rw [String.toList_ofList, String.toList_ofList]
  induction s using colon_induction with
  | nil =>
      rw [Independent.substituteText_nil independent.token,
        Independent.substituteText_nil independent'.token]
      rfl
  | char c rest notColon ih =>
      have quiet : ':' ∉ [c] := by simpa using notColon.symm
      rw [Untouched, ← List.singleton_append, placeholders_of_no_colon quiet] at untouched
      rw [independent.substituteText_char notColon, independent'.substituteText_char notColon,
        List.cons_append, replaceAtOnce_char tokens notColon, ih untouched, List.cons_append]
  | colon word rest all ends ih =>
      rw [Untouched, placeholders_append _ ends] at untouched
      have later := ih fun p member => untouched p (List.mem_append_right _ member)
      have ends' := endsWord_append (independent.endsWord_substituteText ends) apart
      rw [independent.substituteText_piece all ends, independent'.substituteText_piece all ends,
        List.append_assoc, List.append_assoc, ← later, replacementFor, replacementFor]
      -- The piece is put in respelled, or it is in neither table and stays as it is.
      have fate := related (String.ofList (':' :: word))
      generalize Table.get? (String.ofList (':' :: word)) put = text at fate ⊢
      generalize Table.get? (String.ofList (':' :: word)) put' = text' at fate ⊢
      cases fate with
      | some takes => exact takes _ ends'
      | none =>
          have here := get?_of_untouched tokens all fun p member =>
            untouched p (List.mem_append_left _ member)
          rw [Option.map_none, Option.getD_none, replaceAtOnce_piece tokens all ends',
            replacementFor, here, Option.map_none, Option.getD_none]

end

end Text
end WhereClause
