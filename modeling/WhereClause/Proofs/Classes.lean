import Mathlib.Data.List.Chain
import Mathlib.Data.List.TakeWhile
import WhereClause.Text.Blank
import WhereClause.Text.Letter
import WhereClause.Text.Number

/-!
# Classes of characters

The classes of characters are tables of ranges. Each table ascends, so that one pass over two of
them shows that they share no character.

* `Text.Ranges.not_both`: tables that miss each other share no character.
* `Text.not_isDigit_of_isBlank`, `Text.not_isLetter_of_isBlank`, `Text.not_isLetter_of_isDigit`:
  blanks, digits and letters are three kinds of characters.
-/

namespace WhereClause

namespace Text

/-! ## Ascending tables -/

namespace Ranges

variable {first second : Ranges} {range other next : Nat × Nat} {c : Char}

/-- Neither range is empty, and the first one ends where the other has not begun. -/
def Before (range other : Nat × Nat) : Prop :=
  range.1 ≤ range.2 ∧ range.2 < other.1 ∧ other.1 ≤ other.2

instance : DecidableRel Before := fun range other =>
  inferInstanceAs (Decidable (range.1 ≤ range.2 ∧ range.2 < other.1 ∧ other.1 ≤ other.2))

instance : Trans Before Before Before where
  trans here there := ⟨here.1, by have := here.2; have := there.2; omega, there.2.2⟩

theorem Before.low_lt (before : Before range other) : range.1 < other.1 := by
  obtain ⟨inhabited, apart, -⟩ := before
  omega

def Ascending (ranges : Ranges) : Prop := ranges.IsChain Before

instance (ranges : Ranges) : Decidable ranges.Ascending :=
  inferInstanceAs (Decidable (ranges.IsChain Before))

theorem Ascending.before {rest : Ranges} (ascending : Ascending (next :: rest))
    (later : other ∈ rest) : Before next other :=
  (List.pairwise_cons.mp (List.isChain_iff_pairwise.mp ascending)).1 other later

theorem Ascending.low_le {rest : Ranges} (ascending : Ascending (next :: rest))
    (member : other ∈ next :: rest) : next.1 ≤ other.1 := by
  rcases List.mem_cons.mp member with rfl | later
  · exact Nat.le_refl _
  · exact (ascending.before later).low_lt.le

/-- Goes through the first table and drops from the second what lies behind. The range that then
leads the second has to begin after the one at hand. -/
def misses : Ranges → Ranges → Bool
  | [], _ => true
  | range :: rest, others =>
    let ahead := others.dropWhile fun other => other.2 < range.1
    ahead.head?.all (fun other => range.2 < other.1) && misses rest ahead

theorem disjoint_of_misses (ascending : first.Ascending) (ascending' : second.Ascending)
    (miss : misses first second = true) : ∀ range ∈ first, ∀ other ∈ second,
      range.2 < other.1 ∨ other.2 < range.1 := by
  induction first generalizing second with
  | nil => exact nofun
  | cons next rest ih =>
      rw [misses, Bool.and_eq_true] at miss
      obtain ⟨clear, miss⟩ := miss
      have ahead := ascending'.suffix (List.dropWhile_suffix fun other => other.2 < next.1)
      intro range member other member'
      rw [← List.takeWhile_append_dropWhile (p := fun other => other.2 < next.1) (l := second)]
        at member'
      rcases List.mem_append.mp member' with passed | coming
      -- what was dropped lies behind this range, and so behind all that follow it
      · have below : other.2 < next.1 := by simpa using List.mem_takeWhile_imp passed
        have low : next.1 ≤ range.1 := Ascending.low_le ascending member
        exact .inr (by omega)
      · rcases List.mem_cons.mp member with rfl | later
        · left
          cases front : second.dropWhile (fun other => other.2 < range.1) with
          | nil => simp [front] at coming
          | cons head tail =>
              rw [front] at coming ahead
              simp only [front, List.head?_cons, Option.all_some, decide_eq_true_eq] at clear
              exact clear.trans_le (Ascending.low_le ahead coming)
        · exact ih ascending.tail ahead miss range later other coming

/-- Tables that miss each other share no character. -/
theorem not_both (ascending : first.Ascending) (ascending' : second.Ascending)
    (miss : misses first second = true) (inside : first.has c = true) :
    ¬ second.has c = true := by
  intro both
  obtain ⟨range, member, low, high⟩ := has_iff.mp inside
  obtain ⟨other, member', low', high'⟩ := has_iff.mp both
  rcases disjoint_of_misses ascending ascending' miss range member other member' <;> omega

end Ranges

/-! ## Blanks, digits and letters -/

variable {c : Char}

/-- The digits and the letters, those of ASCII included. -/
def digits : Ranges := (0x30, 0x39) :: digitRanges

def letters : Ranges := (0x41, 0x5A) :: (0x61, 0x7A) :: letterRanges

theorem has_of_isDigit (digit : isDigit c = true) : digits.has c = true := by
  rw [isDigit] at digit
  rw [Ranges.has_iff]
  split at digit
  · obtain ⟨low, high⟩ := Bool.and_eq_true_iff.mp digit
    exact ⟨_, List.mem_cons_self, UInt32.le_iff_toNat_le.mp (of_decide_eq_true low),
      UInt32.le_iff_toNat_le.mp (of_decide_eq_true high)⟩
  · obtain ⟨range, member, inside⟩ := Ranges.has_iff.mp digit
    exact ⟨range, List.mem_cons_of_mem _ member, inside⟩

theorem has_of_isLetter (letter : isLetter c = true) : letters.has c = true := by
  rw [isLetter] at letter
  rw [Ranges.has_iff]
  split at letter
  · rcases Bool.or_eq_true_iff.mp letter with capital | small
    · obtain ⟨low, high⟩ : c.val ≥ 'A'.val ∧ c.val ≤ 'Z'.val := of_decide_eq_true capital
      exact ⟨_, List.mem_cons_self, UInt32.le_iff_toNat_le.mp low, UInt32.le_iff_toNat_le.mp high⟩
    · obtain ⟨low, high⟩ := Bool.and_eq_true_iff.mp small
      exact ⟨_, List.mem_cons_of_mem _ List.mem_cons_self,
        UInt32.le_iff_toNat_le.mp (of_decide_eq_true low),
        UInt32.le_iff_toNat_le.mp (of_decide_eq_true high)⟩
  · obtain ⟨range, member, inside⟩ := Ranges.has_iff.mp letter
    exact ⟨range, List.mem_cons_of_mem _ (List.mem_cons_of_mem _ member), inside⟩

theorem ascending_blankRanges : blankRanges.Ascending := by decide +kernel

theorem ascending_digits : digits.Ascending := by decide +kernel

theorem ascending_letters : letters.Ascending := by decide +kernel

theorem not_isDigit_of_isBlank (blank : isBlank c = true) : ¬ isDigit c = true := fun digit =>
  Ranges.not_both ascending_blankRanges ascending_digits (by decide +kernel) blank
    (has_of_isDigit digit)

theorem not_isLetter_of_isBlank (blank : isBlank c = true) : ¬ isLetter c = true := fun letter =>
  Ranges.not_both ascending_blankRanges ascending_letters (by decide +kernel) blank
    (has_of_isLetter letter)

theorem not_isLetter_of_isDigit (digit : isDigit c = true) : ¬ isLetter c = true := fun letter =>
  Ranges.not_both ascending_digits ascending_letters (by decide +kernel) (has_of_isDigit digit)
    (has_of_isLetter letter)

end Text

end WhereClause
