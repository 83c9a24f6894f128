import Mathlib.Data.List.Basic
import Std.Data.String.ToNat
import WhereClause.Binder

/-!
# Placeholders in texts

The placeholders of a text are its colons with the word characters after them. They are those of
its parts, as long as no part is cut inside a word; replacing a placeholder that a text does not
mention leaves the text as it is. The placeholders that binders make up for fields tell the binder
and the number.

* `placeholders_append`: the placeholders of a text in two parts.
* `replaceToken_of_not_mem`, `replaceToken_mention`: what replacing a placeholder does to a text.
* `mention_inj`: two placeholders that are made up are equal only if binder and number are.
-/

namespace WhereClause
namespace Text

/-- The placeholders that a text mentions, from left to right. -/
def placeholders : List Char → List String
  | [] => []
  | c :: rest =>
    let word := rest.takeWhile isWordChar
    if c = ':' ∧ word ≠ [] then String.ofList (c :: word) :: placeholders rest
    else placeholders rest

theorem placeholders_of_no_colon {s : List Char} (none' : ':' ∉ s) (t : List Char) :
    placeholders (s ++ t) = placeholders t := by
  induction s with
  | nil => rfl
  | cons c rest ih =>
      have here := List.ne_of_not_mem_cons none'
      have later := List.not_mem_of_not_mem_cons none'
      rw [List.cons_append, placeholders, if_neg (fun colon => here colon.1.symm), ih later]

theorem placeholders_eq_nil {s : List Char} (none' : ':' ∉ s) : placeholders s = [] := by
  rw [← List.append_nil s, placeholders_of_no_colon none', placeholders]

theorem takeWhile_endsWord {t : List Char} (ends : endsWord t = true) :
    t.takeWhile isWordChar = [] := by
  cases t with
  | nil => rfl
  | cons c rest => simpa [endsWord, List.takeWhile_cons] using ends

theorem placeholders_append (s : List Char) {t : List Char} (ends : endsWord t = true) :
    placeholders (s ++ t) = placeholders s ++ placeholders t := by
  induction s with
  | nil => rfl
  | cons c rest ih =>
      have word : (rest ++ t).takeWhile isWordChar = rest.takeWhile isWordChar := by
        rw [List.takeWhile_append, takeWhile_endsWord ends, List.append_nil]
        split
        · rename_i whole
          exact ((List.takeWhile_prefix _).eq_of_length whole).symm
        · rfl
      rw [List.cons_append, placeholders, placeholders, word, ih]
      split <;> rfl

def IsPlaceholder (token : List Char) : Prop :=
  ∃ word, token = ':' :: word ∧ word ≠ [] ∧ word.all isWordChar = true

theorem not_isWordChar_colon : isWordChar ':' = false := by decide

theorem no_colon_of_word {word : List Char} (all : word.all isWordChar = true) : ':' ∉ word := by
  intro member
  have colon := List.all_eq_true.mp all _ member
  rw [not_isWordChar_colon] at colon
  cases colon

theorem placeholders_token {token : List Char} (isPlaceholder : IsPlaceholder token) :
    placeholders token = [String.ofList token] := by
  obtain ⟨word, rfl, some', all⟩ := isPlaceholder
  have whole : (word ++ []).takeWhile isWordChar = word ++ [].takeWhile isWordChar :=
    List.takeWhile_append_of_pos (List.all_eq_true.mp all)
  rw [List.append_nil, List.takeWhile_nil, List.append_nil] at whole
  rw [placeholders, whole, if_pos ⟨rfl, some'⟩, placeholders_eq_nil (no_colon_of_word all)]

section
variable {token : List Char} (replacement : List Char)

theorem replaceFrom_pending (stops : List Char → Bool) (passed t : List Char) :
    replaceFrom stops token replacement passed.length (passed ++ t) =
      replaceFrom stops token replacement 0 t := by
  induction passed with
  | nil => rfl
  | cons c rest ih => rw [List.length_cons, List.cons_append, replaceFrom, ih]

theorem replaceToken_of_not_mem (isPlaceholder : IsPlaceholder token) {s : List Char}
    (other : String.ofList token ∉ placeholders s) : replaceToken token replacement s = s := by
  have single := placeholders_token isPlaceholder
  obtain ⟨word, rfl, -, -⟩ := isPlaceholder
  unfold replaceToken
  induction s with
  | nil => rfl
  | cons c rest ih =>
      have later : String.ofList (':' :: word) ∉ placeholders rest := by
        intro member
        apply other
        rw [placeholders]
        split
        · exact List.mem_cons_of_mem _ member
        · exact member
      rw [replaceFrom, if_neg, ih later]
      rw [Bool.and_eq_true, List.isPrefixOf_iff_prefix]
      rintro ⟨⟨after, split⟩, ends⟩
      rw [← split, List.drop_left] at ends
      apply other
      rw [← split, placeholders_append _ ends, single]
      exact List.mem_cons_self

theorem replaceToken_mention (isPlaceholder : IsPlaceholder token) {before : List Char}
    (none' : ':' ∉ before) (after : List Char) (ends : endsWord after = true)
    (once : String.ofList token ∉ placeholders after) :
    replaceToken token replacement (before ++ (token ++ after)) =
      before ++ (replacement ++ after) := by
  have rest := replaceToken_of_not_mem replacement isPlaceholder once
  unfold replaceToken at rest ⊢
  obtain ⟨word, rfl, -, -⟩ := isPlaceholder
  induction before with
  | nil =>
      have here : (':' :: word).isPrefixOf (':' :: (word ++ after)) = true := by
        rw [List.isPrefixOf_iff_prefix]
        exact List.prefix_append (':' :: word) after
      have drop : (':' :: (word ++ after)).drop (':' :: word).length = after :=
        List.drop_left
      simp only [List.nil_append, List.cons_append]
      rw [replaceFrom, here, drop, ends]
      simp only [Bool.and_self, if_true]
      rw [replaceFrom_pending, rest]
  | cons c front ih =>
      have here := List.ne_of_not_mem_cons none'
      have later := List.not_mem_of_not_mem_cons none'
      rw [List.cons_append, List.cons_append, replaceFrom, if_neg]
      · exact congrArg (c :: ·) (ih later)
      · rw [Bool.and_eq_true, List.isPrefixOf_iff_prefix]
        rintro ⟨⟨_, split⟩, -⟩
        exact here (List.head_eq_of_cons_eq split)

end

theorem isDigit_of_toDigits {k : Nat} {c : Char} (member : c ∈ Nat.toDigits 10 k) :
    c.isDigit = true :=
  Nat.isDigit_of_mem_toDigits (by decide) (by decide) member

theorem toDigits_inj {m n : Nat} (same : Nat.toDigits 10 m = Nat.toDigits 10 n) : m = n := by
  apply Nat.repr_injective
  rw [← String.toList_inj, Nat.toList_repr, Nat.toList_repr, same]

end Text

open Text

/-! ## Placeholders that are made up -/

/-- The placeholder that the binder with this identifier makes up for a field. -/
def mention (own number : Nat) : String := Binder.synthesized {} (toString own) number

theorem toList_mention (own number : Nat) :
    (mention own number).toList =
      ':' :: 'c' :: (Nat.toDigits 10 own ++ '_' :: Nat.toDigits 10 number) := by
  simp [mention, Binder.synthesized, Int.toString_eq_repr, Int.repr, Nat.toString_eq_repr]

theorem isWordChar_of_digit {c : Char} (digit : c.isDigit = true) : isWordChar c = true := by
  have ascii : c.toNat < 128 := by
    simp only [Char.isDigit, Bool.and_eq_true, decide_eq_true_eq] at digit
    have le := UInt32.le_iff_toNat_le.mp digit.2
    simp only [Char.toNat]
    exact Nat.lt_of_le_of_lt le (by decide)
  simp [isWordChar, isDigit_of_ascii ascii, digit]

theorem isPlaceholder_mention (own number : Nat) : IsPlaceholder (mention own number).toList := by
  refine ⟨_, toList_mention own number, nofun, ?_⟩
  have digits (n : Nat) : (Nat.toDigits 10 n).all isWordChar = true := by
    rw [List.all_eq_true]
    intro c member
    exact isWordChar_of_digit (isDigit_of_toDigits member)
  simp only [List.all_cons, List.all_append, digits, Bool.and_true, Bool.true_and]
  decide

theorem mention_inj {own number own' number' : Nat}
    (same : mention own number = mention own' number') : own = own' ∧ number = number' := by
  have noMark (n : Nat) : '_' ∉ Nat.toDigits 10 n := fun member =>
    absurd (isDigit_of_toDigits member) (by decide)
  have digits := congrArg String.toList same
  rw [toList_mention, toList_mention] at digits
  have tail : Nat.toDigits 10 own ++ '_' :: Nat.toDigits 10 number =
      Nat.toDigits 10 own' ++ '_' :: Nat.toDigits 10 number' :=
    List.tail_eq_of_cons_eq (List.tail_eq_of_cons_eq digits)
  obtain ⟨first, -, second⟩ :=
    (List.append_cons_inj_of_notMem (noMark own) (noMark number)).mp tail
  exact ⟨toDigits_inj first, toDigits_inj second⟩

end WhereClause
