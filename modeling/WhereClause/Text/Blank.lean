import WhereClause.Text.Ranges

/-!
# Blanks

The characters that trimming removes and that may stand around a number. Every blank is a space,
line or paragraph separator, or a control that moves or separates; the zero-width characters are
not blank.

* `trim_eq_empty_iff`: a text trims to nothing exactly if it holds only blanks.
-/

namespace WhereClause.Text

def blankRanges : Ranges :=
  [(0x09, 0x0D), (0x1C, 0x20), (0x85, 0x85), (0xA0, 0xA0), (0x1680, 0x1680), (0x2000, 0x200A),
   (0x2028, 0x2029), (0x202F, 0x202F), (0x205F, 0x205F), (0x3000, 0x3000)]

def isBlank (c : Char) : Bool := blankRanges.has c

def trimChars (s : List Char) : List Char :=
  ((s.dropWhile isBlank).reverse.dropWhile isBlank).reverse

def trim (s : String) : String := String.ofList (trimChars s.toList)

theorem dropWhile_eq_nil_of_all {p : Char → Bool} {s : List Char} :
    s.dropWhile p = [] ↔ ∀ c ∈ s, p c := by
  induction s with
  | nil => simp
  | cons c rest ih => by_cases h : p c <;> simp [h, ih]

theorem trimChars_eq_nil_iff {s : List Char} : trimChars s = [] ↔ ∀ c ∈ s, isBlank c := by
  constructor
  · intro empty c member
    have all : ∀ c ∈ s.dropWhile isBlank, isBlank c := by
      have := dropWhile_eq_nil_of_all.mp (List.reverse_eq_nil_iff.mp empty)
      simpa using this
    have split := List.takeWhile_append_dropWhile (p := isBlank) (l := s)
    rw [← split] at member
    rcases List.mem_append.mp member with taken | dropped
    · exact (List.all_eq_true.mp (List.all_takeWhile (p := isBlank) (l := s))) c taken
    · exact all c dropped
  · intro all
    simp [trimChars, dropWhile_eq_nil_of_all.mpr all]

theorem trim_eq_empty_iff {s : String} : trim s = "" ↔ ∀ c ∈ s.toList, isBlank c := by
  rw [← trimChars_eq_nil_iff, trim]
  constructor
  · intro h
    have := congrArg String.toList h
    simpa using this
  · intro h
    simp [h]

end WhereClause.Text
