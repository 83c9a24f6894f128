import WhereClause.Comparator
import WhereClause.Proofs.Items
import WhereClause.Proofs.Numerals

/-!
# Fields in keys

A comparison by name is written as a key: the field, a space and the operator. The key is never a
numeral and never a keyword. It is trimmed and split at its first space, so that it does not give
every field back.

* `Key.not_isNumeral_of_connective?`, `Key.not_isNumeral_of_isNegation`: a keyword is no numeral.
* `Comparator.split_key_iff`: which fields a key gives back with the operator.
-/

namespace WhereClause

/-! ## Keywords -/

namespace Key

open Numeral

variable {name word : String} {c d : Char}

theorem eq_of_toUpper (up : c.toUpper = d) : c = d ∨ c = Char.ofNat (d.toNat + 32) := by
  unfold Char.toUpper at up
  split at up
  · rename_i low
    right
    subst up
    have start := UInt32.le_iff_toNat_le.mp low.1
    have shift : ('A'.val - 'a'.val).toNat = 2 ^ 32 - 32 := by decide
    have first : 'a'.val.toNat = 97 := by decide
    have shifted : (c.val + ('A'.val - 'a'.val)).toNat = c.val.toNat - 32 := by
      have bound := c.val.toNat_lt
      rw [UInt32.toNat_add]
      omega
    apply Char.ext
    rw [Char.toNat, shifted, Nat.sub_add_cancel (by omega)]
    show c.val = (Char.ofNat c.toNat).val
    rw [Char.ofNat_toNat]
  · exact .inl up

theorem foreign_of_toUpper (initial : d ∈ ['A', 'O', 'X', 'N']) (up : c.toUpper = d) :
    Foreign c := by
  simp only [List.mem_cons, List.not_mem_nil, or_false] at initial
  rcases initial with rfl | rfl | rfl | rfl <;> rcases eq_of_toUpper up with rfl | rfl <;> decide

/-- The initial of a keyword is a letter that no numeral holds. -/
theorem not_isNumeral_of_capitals {rest : List Char} (initial : d ∈ ['A', 'O', 'X', 'N'])
    (capital : (capitals name).toList = d :: rest) : isNumeral name = false := by
  rw [capitals, String.toList_ofList] at capital
  cases chars : name.toList with
  | nil => simp [chars] at capital
  | cons c others =>
      rw [chars, List.map_cons, List.cons.injEq] at capital
      exact not_isNumeral_of_mem (foreign_of_toUpper initial capital.1)
        (chars ▸ List.mem_cons_self)

theorem not_isNumeral_of_connective? (found : connective? name = some word) :
    isNumeral name = false := by
  simp only [connective?, Option.ite_none_right_eq_some] at found
  rcases found.1 with capital | capital | capital <;>
    exact not_isNumeral_of_capitals (by decide) (congrArg String.toList capital)

theorem not_isNumeral_of_isNegation (negation : isNegation name = true) :
    isNumeral name = false := by
  have capital : capitals name = "NOT" := by simpa [isNegation] using negation
  exact not_isNumeral_of_capitals (by decide) (congrArg String.toList capital)

end Key

/-! ## Trimming -/

namespace Text

variable {s : List Char} {c : Char}

theorem mem_dropWhile {α : Type} {p : α → Bool} {a : α} (fails : p a = false) {s : List α}
    (member : a ∈ s) : a ∈ s.dropWhile p := by
  induction s with
  | nil => cases member
  | cons b rest ih =>
      rw [List.dropWhile_cons]
      split
      · rename_i holds
        rcases List.mem_cons.mp member with rfl | later
        · simp [fails] at holds
        · exact ih later
      · exact member

theorem trimChars_of_getLast? (last : s.getLast? = some c) (full : isBlank c = false) :
    trimChars s = s.dropWhile isBlank := by
  have member : c ∈ s.dropWhile isBlank := mem_dropWhile full (List.mem_of_getLast? last)
  obtain ⟨d, found⟩ := Option.isSome_iff_exists.mp
    (List.getLast?_isSome.mpr (List.ne_nil_of_mem member))
  have same : d = c := by
    rw [← List.takeWhile_append_dropWhile (p := isBlank) (l := s), List.getLast?_append, found,
      Option.some_or, Option.some.injEq] at last
    exact last
  subst same
  rw [trimChars]
  cases reversed : (s.dropWhile isBlank).reverse with
  | nil => simp [List.reverse_eq_nil_iff.mp reversed] at found
  | cons e rest =>
      have first : (s.dropWhile isBlank).reverse.head? = some d := by rw [List.head?_reverse, found]
      rw [reversed, List.head?_cons, Option.some.injEq] at first
      rw [List.dropWhile_cons_of_neg (by simp [first, full]), ← reversed, List.reverse_reverse]

theorem isBlank_of_head?_trimChars (head : (trimChars s).head? = some c) : isBlank c = false := by
  obtain ⟨more, whole⟩ : trimChars s <+: s.dropWhile isBlank := by
    rw [← List.reverse_suffix, trimChars, List.reverse_reverse]
    exact List.dropWhile_suffix _
  have first : (s.dropWhile isBlank).head? = some c := by
    rw [← whole, List.head?_append, head, Option.some_or]
  have fails := List.head?_dropWhile_not isBlank s
  rw [first] at fails
  simpa using fails

end Text

namespace Key

/-- The field comes out of a key as it was put in: it is given, holds no space and does not begin
with a blank. -/
structure Carries (field : String) : Prop where
  given : field ≠ ""
  unspaced : ' ' ∉ field.toList
  start : ∀ c ∈ field.toList.head?, Text.isBlank c = false

end Key

namespace Comparator

/-- The key of a comparison by name. -/
def key (comparator : Comparator) (field : String) : String :=
  field ++ " " ++ comparator.operator

variable (comparator : Comparator) (field : String)

theorem exists_foreign : ∃ c ∈ comparator.operator.toList, Numeral.Foreign c := by
  have found : comparator.operator.toList.any (fun c => decide (Numeral.Foreign c)) = true := by
    cases comparator <;> decide
  simpa only [List.any_eq_true, decide_eq_true_eq] using found

theorem getLast?_operator : ∃ c, comparator.operator.toList.getLast? = some c ∧
    Text.isBlank c = false := by
  cases comparator <;> exact ⟨_, rfl, by decide⟩

theorem toList_key : (comparator.key field).toList =
    field.toList ++ ' ' :: comparator.operator.toList := by
  simp [key]

theorem not_isNumeral_key : isNumeral (comparator.key field) = false := by
  obtain ⟨c, member, foreign⟩ := comparator.exists_foreign
  exact Numeral.not_isNumeral_of_mem foreign (by simp [toList_key, member])

theorem space_mem_capitals_key : ' ' ∈ (Key.capitals (comparator.key field)).toList := by
  rw [Key.capitals, String.toList_ofList]
  exact List.mem_map.mpr ⟨' ', by simp [toList_key], by decide⟩

theorem connective?_key : Key.connective? (comparator.key field) = none := by
  have space := comparator.space_mem_capitals_key field
  rw [Key.connective?, if_neg]
  rintro (word | word | word) <;> exact absurd (word ▸ space) (by decide)

theorem not_isNegation_key : Key.isNegation (comparator.key field) = false := by
  have space := comparator.space_mem_capitals_key field
  rw [Key.isNegation, beq_eq_false_iff_ne]
  intro word
  exact absurd (word ▸ space) (by decide)

theorem trimChars_key : Text.trimChars (comparator.key field).toList =
    (comparator.key field).toList.dropWhile Text.isBlank := by
  obtain ⟨c, last, full⟩ := comparator.getLast?_operator
  refine Text.trimChars_of_getLast? ?_ full
  rw [toList_key, List.getLast?_append, List.getLast?_cons, last]
  rfl

variable {field}

theorem split_key (carries : Key.Carries field) :
    Key.split (comparator.key field) = ⟨field, comparator.operator⟩ := by
  obtain ⟨c, rest, chars⟩ := List.exists_cons_of_ne_nil
    fun empty => carries.given (String.toList_eq_nil_iff.mp empty)
  have full : Text.isBlank c = false := carries.start c (by simp [chars])
  have trimmed : Text.trimChars (comparator.key field).toList =
      field.toList ++ ' ' :: comparator.operator.toList := by
    rw [trimChars_key, toList_key, chars, List.cons_append,
      List.dropWhile_cons_of_neg (by simp [full])]
  have unspaced : ∀ c ∈ field.toList, decide (c ≠ ' ') = true := fun c member =>
    decide_eq_true fun same => carries.unspaced (same ▸ member)
  rw [Key.split, trimmed, Key.splitChars, List.takeWhile_append_of_pos unspaced,
    List.dropWhile_append_of_pos unspaced]
  simp

/-- The fields that a key gives back with the operator. -/
theorem split_key_iff :
    Key.split (comparator.key field) = ⟨field, comparator.operator⟩ ↔ Key.Carries field := by
  refine ⟨fun split => ?_, comparator.split_key⟩
  have taken : String.ofList ((Text.trimChars (comparator.key field).toList).takeWhile (· ≠ ' ')) =
      field := congrArg Key.field split
  constructor
  · rintro rfl
    revert split
    cases comparator <;> decide
  · have unspaced := Key.split_field_ne_space (comparator.key field)
    rwa [split] at unspaced
  · intro c first
    rw [← taken, String.toList_ofList] at first
    have whole := List.takeWhile_append_dropWhile (p := (· ≠ ' '))
      (l := Text.trimChars (comparator.key field).toList)
    apply Text.isBlank_of_head?_trimChars
    rw [← whole, List.head?_append, first, Option.some_or]

end Comparator
end WhereClause
