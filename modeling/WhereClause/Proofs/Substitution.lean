import WhereClause.Proofs.Servings

/-!
# Substitution at once

Expanding replaces one placeholder after the other, in texts that were rewritten already. If the
placeholders are different and what is put in mentions none of them, this is the same as replacing
all of them at once: a text is cut into placeholders and what stands between them, and each
placeholder is looked up.

* `Independent.substituteText_eq`: one after the other is at once.
* `Independent.substituteText_perm`: the order of the replacements does not matter.
-/

namespace WhereClause
namespace Text

/-- The token stands at the start of the text, with no word going on after it. -/
def stands (token : String) (s : List Char) : Bool :=
  token.toList.isPrefixOf s && endsWord (s.drop token.toList.length)

def standing? (replacements : Table String String) (s : List Char) : Option (String × String) :=
  replacements.find? fun replaced => stands replaced.1 s

/-- Replaces the whole occurrences of all tokens at once. The counter is the number of characters of
the last occurrence that are still to be passed over, and what was put in is not looked at. -/
def replaceAtOnce (replacements : Table String String) : Nat → List Char → List Char
  | _, [] => []
  | pending + 1, _ :: rest => replaceAtOnce replacements pending rest
  | 0, c :: rest =>
    match standing? replacements (c :: rest) with
    | some (token, text) =>
      text.toList ++ replaceAtOnce replacements (token.toList.length - 1) rest
    | none => c :: replaceAtOnce replacements 0 rest

theorem replaceAtOnce_pending (replacements : Table String String) (passed rest : List Char) :
    replaceAtOnce replacements passed.length (passed ++ rest) =
      replaceAtOnce replacements 0 rest := by
  induction passed with
  | nil => rfl
  | cons c passed ih => rw [List.length_cons, List.cons_append, replaceAtOnce, ih]

theorem endsWord_dropWhile (s : List Char) : endsWord (s.dropWhile isWordChar) = true := by
  induction s with
  | nil => rfl
  | cons c rest ih =>
      rw [List.dropWhile_cons]
      split
      · exact ih
      · rename_i other
        simpa [endsWord] using other

theorem endsWord_append {s t : List Char} (ends : endsWord s = true) (later : endsWord t = true) :
    endsWord (s ++ t) = true := by
  cases s with
  | nil => exact later
  | cons c rest => exact ends

/-- A text is made of colons, each with the word after it, and of other characters. -/
theorem colon_induction {motive : List Char → Prop} (nil : motive [])
    (char : ∀ c rest, c ≠ ':' → motive rest → motive (c :: rest))
    (colon : ∀ word rest, word.all isWordChar = true → endsWord rest = true → motive rest →
      motive (':' :: word ++ rest)) (s : List Char) : motive s := by
  induction length : s.length using Nat.strong_induction_on generalizing s with
  | _ n ih =>
      subst length
      cases s with
      | nil => exact nil
      | cons c rest =>
          by_cases here : c = ':'
          · subst here
            have shorter := (List.dropWhile_suffix isWordChar (l := rest)).length_le
            have later := ih _ (Nat.lt_succ_of_le shorter) (rest.dropWhile isWordChar) rfl
            have split := colon (rest.takeWhile isWordChar) (rest.dropWhile isWordChar)
              List.all_takeWhile (endsWord_dropWhile rest) later
            rwa [List.cons_append, List.takeWhile_append_dropWhile] at split
          · exact char c rest here (ih _ (Nat.lt_succ_self _) rest rfl)

theorem takeWhile_word {word rest : List Char} (all : word.all isWordChar = true)
    (ends : endsWord rest = true) : (word ++ rest).takeWhile isWordChar = word := by
  rw [List.takeWhile_append_of_pos (List.all_eq_true.mp all), takeWhile_endsWord ends,
    List.append_nil]

theorem mem_placeholders_append {p : String} (before : List Char) {s : List Char}
    (member : p ∈ placeholders s) : p ∈ placeholders (before ++ s) := by
  induction before with
  | nil => exact member
  | cons c before ih =>
      rw [List.cons_append, placeholders]
      split
      · exact List.mem_cons_of_mem _ ih
      · exact ih

theorem clear_of_not_mem {token name : List Char} (isPlaceholder : IsPlaceholder token)
    (other : String.ofList token ∉ placeholders name) : Clear token name := by
  rintro before inside after rest rfl present ends found
  by_contra whole
  rw [Bool.not_eq_false] at whole
  obtain ⟨word, rfl, some', all⟩ := isPlaceholder
  obtain ⟨c, inside, rfl⟩ := List.exists_cons_of_ne_nil present
  rw [List.cons_append, List.cons_append, List.cons.injEq] at found
  obtain ⟨rfl, tail⟩ := found
  -- The word that goes on after the colon is the whole word of the token.
  have word_eq : inside.takeWhile isWordChar = word := by
    have both := congrArg (List.takeWhile isWordChar) tail
    rw [takeWhile_word all whole, List.takeWhile_append] at both
    split at both
    · rename_i every
      rw [takeWhile_endsWord ends, List.append_nil] at both
      rw [← both]
      exact (List.takeWhile_prefix _).eq_of_length every
    · exact both
  apply other
  apply mem_placeholders_append
  rw [placeholders, word_eq, if_pos ⟨rfl, some'⟩]
  exact List.mem_cons_self

end Text

open Text Expansion

/-- What is replaced are placeholders. -/
abbrev Tokens (replacements : Table String String) : Prop :=
  ∀ replaced ∈ replacements, IsPlaceholder replaced.1.toList

/-- Replacements that do not get in the way of one another. -/
structure Independent (replacements : Table String String) : Prop where
  distinct : (Table.keys replacements).Nodup
  token : Tokens replacements
  ends : ∀ replaced ∈ replacements, endsWord replaced.2.toList = true
  fresh : ∀ replaced ∈ replacements, ∀ other ∈ replacements,
    replaced.1 ∉ placeholders other.2.toList

/-- What stands in the place of a piece of a text. -/
def replacementFor (replacements : Table String String) (piece : List Char) : List Char :=
  ((Table.get? (String.ofList piece) replacements).map String.toList).getD piece

/-! ## At once -/

section AtOnce

variable {replacements : Table String String}

theorem standing?_of_char (tokens : Tokens replacements) {c : Char} (notColon : c ≠ ':')
    (rest : List Char) : standing? replacements (c :: rest) = none := by
  rw [standing?, List.find?_eq_none]
  intro replaced member here
  obtain ⟨word, start, -, -⟩ := tokens replaced member
  rw [stands, start, Bool.and_eq_true, List.isPrefixOf_iff_prefix, List.cons_prefix_cons] at here
  exact notColon here.1.1.symm

theorem standing?_of_piece (tokens : Tokens replacements) {word rest : List Char}
    (all : word.all isWordChar = true) (ends : endsWord rest = true) :
    standing? replacements (':' :: word ++ rest) =
      (Table.get? (String.ofList (':' :: word)) replacements).map
        (String.ofList (':' :: word), ·) := by
  induction replacements with
  | nil => rfl
  | cons replaced replacements ih =>
      obtain ⟨token, text⟩ := replaced
      have here : stands token (':' :: word ++ rest) = true ↔
          token = String.ofList (':' :: word) := by
        rw [stands, Bool.and_eq_true, List.isPrefixOf_iff_prefix]
        constructor
        · rintro ⟨⟨after, found⟩, whole⟩
          obtain ⟨other, start, -, all'⟩ := tokens _ List.mem_cons_self
          rw [← found, List.drop_left] at whole
          dsimp only at start
          rw [start, List.cons_append, List.cons_append, List.cons.injEq] at found
          have words := congrArg (List.takeWhile isWordChar) found.2
          rw [takeWhile_word all' whole, takeWhile_word all ends] at words
          rw [← String.toList_inj, start, words, String.toList_ofList]
        · rintro rfl
          rw [String.toList_ofList, List.drop_left]
          exact ⟨List.prefix_append _ rest, ends⟩
      rw [standing?, List.find?_cons, Table.get?]
      split
      · rename_i same
        rw [if_pos (here.mp same), here.mp same]
        rfl
      · rename_i other
        rw [if_neg fun same => Bool.eq_false_iff.mp other (here.mpr same)]
        exact ih fun replaced member => tokens replaced (List.mem_cons_of_mem _ member)

theorem replaceAtOnce_char (tokens : Tokens replacements) {c : Char} (notColon : c ≠ ':')
    (rest : List Char) :
    replaceAtOnce replacements 0 (c :: rest) = c :: replaceAtOnce replacements 0 rest := by
  rw [replaceAtOnce, standing?_of_char tokens notColon]

theorem replaceAtOnce_word (tokens : Tokens replacements) {word : List Char}
    (all : word.all isWordChar = true) (rest : List Char) :
    replaceAtOnce replacements 0 (word ++ rest) = word ++ replaceAtOnce replacements 0 rest := by
  induction word with
  | nil => rfl
  | cons c word ih =>
      rw [List.all_cons, Bool.and_eq_true] at all
      have notColon : c ≠ ':' := by
        rintro rfl
        exact absurd all.1 (by decide)
      rw [List.cons_append, replaceAtOnce_char tokens notColon, ih all.2, List.cons_append]

theorem replaceAtOnce_piece (tokens : Tokens replacements) {word rest : List Char}
    (all : word.all isWordChar = true) (ends : endsWord rest = true) :
    replaceAtOnce replacements 0 (':' :: word ++ rest) =
      replacementFor replacements (':' :: word) ++ replaceAtOnce replacements 0 rest := by
  have found := standing?_of_piece tokens all ends
  rw [List.cons_append] at found ⊢
  rw [replaceAtOnce, found, replacementFor]
  cases Table.get? (String.ofList (':' :: word)) replacements with
  | none => exact congrArg (':' :: ·) (replaceAtOnce_word tokens all rest)
  | some text =>
      simp only [Option.map_some, Option.getD_some, String.toList_ofList, List.length_cons,
        Nat.add_sub_cancel, replaceAtOnce_pending]

end AtOnce

namespace Independent

variable {replacements other : Table String String} {token text : String}

theorem tail (independent : Independent ((token, text) :: replacements)) :
    Independent replacements where
  distinct := (List.nodup_cons.mp independent.distinct).2
  token replaced member := independent.token replaced (List.mem_cons_of_mem _ member)
  ends replaced member := independent.ends replaced (List.mem_cons_of_mem _ member)
  fresh replaced member more member' :=
    independent.fresh replaced (List.mem_cons_of_mem _ member) more (List.mem_cons_of_mem _ member')

theorem perm (independent : Independent replacements) (same : other.Perm replacements) :
    Independent other where
  distinct := (same.map Prod.fst).nodup_iff.mpr independent.distinct
  token replaced member := independent.token replaced (same.mem_iff.mp member)
  ends replaced member := independent.ends replaced (same.mem_iff.mp member)
  fresh replaced member more member' :=
    independent.fresh replaced (same.mem_iff.mp member) more (same.mem_iff.mp member')

/-! ## One after the other -/

theorem substituteText_nil (tokens : Tokens replacements) :
    substituteText replacements [] = [] :=
  substituteText_of_not_mem tokens fun _ _ => List.not_mem_nil

theorem substituteText_char (independent : Independent replacements) {c : Char} (notColon : c ≠ ':')
    (rest : List Char) :
    substituteText replacements (c :: rest) = c :: substituteText replacements rest := by
  induction replacements generalizing rest with
  | nil => rfl
  | cons replaced replacements ih =>
      obtain ⟨token, text⟩ := replaced
      obtain ⟨word, start, -, -⟩ := independent.token _ List.mem_cons_self
      rw [substituteText_cons, substituteText_cons, replaceToken_cons, ih independent.tail]
      intro after found
      rw [start] at found
      exact absurd (List.cons_eq_cons.mp found).1 notColon

theorem endsWord_replaceToken {token text : List Char} (placeholder : IsPlaceholder token)
    (ends : endsWord text = true) {s : List Char} (start : endsWord s = true) :
    endsWord (replaceToken token text s) = true := by
  induction s using colon_induction with
  | nil =>
      obtain ⟨word, rfl, -, -⟩ := placeholder
      rfl
  | char c rest notColon ih =>
      rw [replaceToken_cons]
      · exact start
      · obtain ⟨word, rfl, -, -⟩ := placeholder
        intro after found
        exact absurd (List.cons_eq_cons.mp found).1 notColon
  | colon word rest all later ih =>
      by_cases here : token = ':' :: word
      · subst here
        rw [replaceToken_here text (List.cons_ne_nil _ _) later]
        exact endsWord_append ends (ih later)
      · rw [replaceToken_clear text (clear_of_not_mem placeholder fun member => ?_) later]
        · exact start
        · obtain rfl | some' := eq_or_ne word []
          · simp [placeholders] at member
          · rw [placeholders_token ⟨word, rfl, some', all⟩, List.mem_singleton] at member
            exact here (String.ofList_injective member)

/-- A part without any of the tokens stays, and the rest is rewritten after it. -/
theorem substituteText_clear (independent : Independent replacements) {part : List Char}
    (absent : ∀ replaced ∈ replacements, replaced.1 ∉ placeholders part) {rest : List Char}
    (ends : endsWord rest = true) :
    substituteText replacements (part ++ rest) = part ++ substituteText replacements rest := by
  induction replacements generalizing rest with
  | nil => rfl
  | cons replaced replacements ih =>
      obtain ⟨token, text⟩ := replaced
      obtain ⟨here, later⟩ := List.forall_mem_cons.mp absent
      have placeholder := independent.token _ List.mem_cons_self
      have clear : Clear token.toList part :=
        clear_of_not_mem placeholder (by rwa [String.ofList_toList])
      rw [substituteText_cons, substituteText_cons, replaceToken_clear _ clear ends,
        ih independent.tail later (endsWord_replaceToken placeholder
          (independent.ends _ List.mem_cons_self) ends)]

/-- A colon and the word after it are looked up. -/
theorem substituteText_piece (independent : Independent replacements) {word rest : List Char}
    (all : word.all isWordChar = true) (ends : endsWord rest = true) :
    substituteText replacements (':' :: word ++ rest) =
      replacementFor replacements (':' :: word) ++ substituteText replacements rest := by
  induction replacements generalizing rest with
  | nil => rfl
  | cons replaced replacements ih =>
      obtain ⟨token, text⟩ := replaced
      have placeholder := independent.token _ List.mem_cons_self
      have start := independent.ends _ List.mem_cons_self
      have later := endsWord_replaceToken placeholder start ends
      rw [substituteText_cons, substituteText_cons, replacementFor, Table.get?]
      split
      · rename_i here
        subst here
        rw [String.toList_ofList, replaceToken_here _ (List.cons_ne_nil _ _) ends,
          independent.tail.substituteText_clear (fun replaced member => independent.fresh replaced
            (List.mem_cons_of_mem _ member) _ List.mem_cons_self)
            (by rwa [String.toList_ofList] at later)]
        rfl
      · rename_i other
        have clear : Clear token.toList (':' :: word) := by
          apply clear_of_not_mem placeholder
          rw [String.ofList_toList]
          obtain rfl | some' := eq_or_ne word []
          · simp [placeholders]
          · rwa [placeholders_token ⟨word, rfl, some', all⟩, List.mem_singleton]
        rw [replaceToken_clear _ clear ends, ih independent.tail later]
        rfl

theorem endsWord_substituteText (independent : Independent replacements) {s : List Char}
    (start : endsWord s = true) : endsWord (substituteText replacements s) = true := by
  induction replacements generalizing s with
  | nil => exact start
  | cons replaced replacements ih =>
      obtain ⟨token, text⟩ := replaced
      exact ih independent.tail (endsWord_replaceToken (independent.token _ List.mem_cons_self)
        (independent.ends _ List.mem_cons_self) start)

/-- Nothing that is replaced is left. -/
theorem notMem_substituteText (independent : Independent replacements) (s : List Char) :
    ∀ p ∈ placeholders (substituteText replacements s), p ∉ Table.keys replacements := by
  induction s using colon_induction with
  | nil =>
      rw [substituteText_nil independent.token]
      exact nofun
  | char c rest notColon ih =>
      have quiet : ':' ∉ [c] := by simpa using notColon.symm
      rw [independent.substituteText_char notColon, ← List.singleton_append,
        placeholders_of_no_colon quiet]
      exact ih
  | colon word rest all ends ih =>
      rw [independent.substituteText_piece all ends,
        placeholders_append _ (independent.endsWord_substituteText ends)]
      intro p member
      rcases List.mem_append.mp member with here | later
      · rw [replacementFor] at here
        cases found : Table.get? (String.ofList (':' :: word)) replacements with
        | none =>
            rw [found, Option.map_none, Option.getD_none] at here
            obtain rfl | some' := eq_or_ne word []
            · simp [placeholders] at here
            · rw [placeholders_token ⟨word, rfl, some', all⟩, List.mem_singleton] at here
              rw [here]
              exact Table.get?_eq_none_iff.mp found
        | some text =>
            rw [found, Option.map_some, Option.getD_some] at here
            intro known
            obtain ⟨replaced, inside, rfl⟩ := List.mem_map.mp known
            exact independent.fresh replaced inside _ (Table.mem_of_get? found) here
      · exact ih p later

/-! ## The two agree -/

/-- Replacing one token after the other is replacing all of them at once. -/
theorem substituteText_eq (independent : Independent replacements) (s : List Char) :
    substituteText replacements s = replaceAtOnce replacements 0 s := by
  induction s using colon_induction with
  | nil => exact substituteText_nil independent.token
  | char c rest notColon ih =>
      rw [independent.substituteText_char notColon, replaceAtOnce_char independent.token notColon,
        ih]
  | colon word rest all ends ih =>
      rw [independent.substituteText_piece all ends,
        replaceAtOnce_piece independent.token all ends, ih]

theorem substituteText_perm (independent : Independent replacements)
    (same : other.Perm replacements) (s : List Char) :
    substituteText other s = substituteText replacements s := by
  have independent' := independent.perm same
  have found (key : String) : Table.get? key other = Table.get? key replacements := by
    apply Option.ext
    intro text
    constructor
    · intro here
      exact Table.get?_of_mem independent.distinct (same.mem_iff.mp (Table.mem_of_get? here))
    · intro here
      exact Table.get?_of_mem independent'.distinct (same.mem_iff.mpr (Table.mem_of_get? here))
  induction s using colon_induction with
  | nil => rw [substituteText_nil independent'.token, substituteText_nil independent.token]
  | char c rest notColon ih =>
      rw [independent.substituteText_char notColon, independent'.substituteText_char notColon, ih]
  | colon word rest all ends ih =>
      rw [independent.substituteText_piece all ends, independent'.substituteText_piece all ends, ih,
        replacementFor, replacementFor, found]

end Independent
end WhereClause
