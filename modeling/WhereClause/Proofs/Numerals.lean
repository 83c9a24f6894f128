import WhereClause.Proofs.Classes
import WhereClause.Value

/-!
# The grammar of numerals

A numeral is a sign, a mantissa and an exponent, with blanks around them. Reading takes these parts
from the front, each as far as it goes. It never takes too much, since no part can go on with a
character that the next one may begin with.

* `isNumeral_iff`: a text is a numeral exactly if it is written in these parts.
* `not_isNumeral_of_mem`: a numeral holds blanks, signs, digits, a point and an exponent.
* `isNumeric_text`: the grammar, and what it says of blanks and letters.
-/

namespace WhereClause

namespace Numeral

open Text

/-! ## The grammar -/

def Blanks (s : List Char) : Prop := ∀ c ∈ s, isBlank c = true

instance (s : List Char) : Decidable (Blanks s) :=
  decidable_of_iff (s.all isBlank = true) List.all_eq_true

def Digits (s : List Char) : Prop := ∀ c ∈ s, isDigit c = true

inductive Sign : List Char → Prop
  | absent : Sign []
  | plus : Sign ['+']
  | minus : Sign ['-']

/-- Digits, with or without a fraction, or a fraction alone. -/
inductive Mantissa : List Char → Prop
  | whole {digits : List Char} (some : digits ≠ []) (all : Digits digits) : Mantissa digits
  | pointed {digits fraction : List Char} (some : digits ≠ []) (all : Digits digits)
      (rest : Digits fraction) : Mantissa (digits ++ '.' :: fraction)
  | fraction {digits : List Char} (some : digits ≠ []) (all : Digits digits) :
      Mantissa ('.' :: digits)

inductive Exponent : List Char → Prop
  | absent : Exponent []
  | power {mark : Char} {sign digits : List Char} (letter : mark = 'e' ∨ mark = 'E')
      (signed : Sign sign) (some : digits ≠ []) (all : Digits digits) :
      Exponent (mark :: (sign ++ digits))

/-- The text is a numeral by its parts. -/
def Written (s : List Char) : Prop :=
  ∃ before sign mantissa exponent after,
    s = before ++ (sign ++ (mantissa ++ (exponent ++ after))) ∧
    Blanks before ∧ Sign sign ∧ Mantissa mantissa ∧ Exponent exponent ∧ Blanks after

variable {p : Char → Bool} {s rest run before after sign mantissa exponent digits : List Char}
  {c : Char}

/-- The characters of a numeral besides blanks and digits. -/
def marks : List Char := ['+', '-', '.', 'e', 'E']

theorem not_isBlank_of_isDigit (digit : isDigit c = true) : ¬ isBlank c = true := fun blank =>
  not_isDigit_of_isBlank blank digit

theorem not_isDigit_of_mem_marks (mark : c ∈ marks) : ¬ isDigit c = true := by
  have none : marks.all (!isDigit ·) = true := by decide
  simpa using List.all_eq_true.mp none c mark

theorem not_isBlank_of_mem_marks (mark : c ∈ marks) : ¬ isBlank c = true := by
  have none : marks.all (!isBlank ·) = true := by decide
  simpa using List.all_eq_true.mp none c mark

/-! ## Where parts end -/

/-- The text does not begin with such a character. -/
def Stops (p : Char → Bool) (s : List Char) : Prop := ∀ c ∈ s.head?, ¬ p c = true

theorem Stops.takeWhile (stops : Stops p rest) (all : ∀ c ∈ run, p c = true) :
    (run ++ rest).takeWhile p = run := by
  rw [List.takeWhile_append_of_pos all]
  cases rest with
  | nil => exact List.append_nil run
  | cons c rest => rw [List.takeWhile_cons_of_neg (stops c rfl), List.append_nil]

theorem Stops.dropWhile (stops : Stops p rest) (all : ∀ c ∈ run, p c = true) :
    (run ++ rest).dropWhile p = rest := by
  rw [List.dropWhile_append_of_pos all]
  cases rest with
  | nil => rfl
  | cons c rest => rw [List.dropWhile_cons_of_neg (stops c rfl)]

theorem Stops.cons (stops : ¬ p c = true) : Stops p (c :: rest) := by
  rintro d ⟨⟩
  exact stops

theorem Blanks.stops (blanks : Blanks s) (apart : ∀ c, isBlank c = true → ¬ p c = true) :
    Stops p s :=
  fun c first => apart c (blanks c (List.mem_of_mem_head? first))

theorem Digits.stops (all : Digits digits) (some : digits ≠ [])
    (apart : ∀ c, isDigit c = true → ¬ p c = true) : Stops p (digits ++ rest) := by
  cases digits with
  | nil => exact absurd rfl some
  | cons c digits => exact .cons (apart c (all c List.mem_cons_self))

theorem Sign.stops (signed : Sign sign) (plus : ¬ p '+' = true) (minus : ¬ p '-' = true)
    (stops : Stops p rest) : Stops p (sign ++ rest) := by
  cases signed with
  | absent => exact stops
  | plus => exact .cons plus
  | minus => exact .cons minus

theorem Mantissa.stops (written : Mantissa mantissa) (point : ¬ p '.' = true)
    (apart : ∀ c, isDigit c = true → ¬ p c = true) : Stops p (mantissa ++ rest) := by
  cases written with
  | whole some all => exact all.stops some apart
  | pointed some all fraction =>
      rw [List.append_assoc]
      exact all.stops some apart
  | fraction some all => exact .cons point

theorem Exponent.stops (written : Exponent exponent) (small : ¬ p 'e' = true)
    (capital : ¬ p 'E' = true) (stops : Stops p rest) : Stops p (exponent ++ rest) := by
  cases written with
  | absent => exact stops
  | power letter signed some all => rcases letter with rfl | rfl <;> exact .cons ‹_›

/-! ## Reading what is written -/

def isSign (c : Char) : Bool := c == '+' || c == '-'

def isPower (c : Char) : Bool := c == 'e' || c == 'E'

theorem mem_marks_of_isSign (sign : isSign c = true) : c ∈ marks := by
  simp only [isSign, Bool.or_eq_true, beq_iff_eq] at sign
  rcases sign with rfl | rfl <;> decide

theorem mem_marks_of_isPower (power : isPower c = true) : c ∈ marks := by
  simp only [isPower, Bool.or_eq_true, beq_iff_eq] at power
  rcases power with rfl | rfl <;> decide

theorem not_isSign_of_isDigit (digit : isDigit c = true) : ¬ isSign c = true := fun sign =>
  not_isDigit_of_mem_marks (mem_marks_of_isSign sign) digit

theorem afterSign_append (signed : Sign sign) (stops : Stops isSign rest) :
    afterSign (sign ++ rest) = rest := by
  cases signed with
  | plus => rfl
  | minus => rfl
  | absent =>
      cases rest with
      | nil => rfl
      | cons c rest => exact if_neg (stops c rfl)

theorem afterMantissa?_append (written : Mantissa mantissa) (noDigit : Stops isDigit rest)
    (noPoint : Stops (· == '.') rest) : afterMantissa? (mantissa ++ rest) = some rest := by
  have point : ∀ tail, Stops isDigit ('.' :: tail) := fun _ => .cons (by decide)
  unfold afterMantissa?
  cases written with
  | whole some all =>
      simp only [noDigit.takeWhile all, noDigit.dropWhile all, List.isEmpty_eq_false_iff.mpr some]
      split
      · exact absurd rfl (noPoint '.' rfl)
      · rfl
  | pointed some all fraction =>
      rw [List.append_assoc, List.cons_append]
      simp only [(point _).takeWhile all, (point _).dropWhile all, noDigit.dropWhile fraction,
        List.isEmpty_eq_false_iff.mpr some]
      rfl
  | fraction some all =>
      rw [List.cons_append, List.takeWhile_cons_of_neg (by decide),
        List.dropWhile_cons_of_neg (by decide)]
      simp only [noDigit.takeWhile all, noDigit.dropWhile all, List.isEmpty_eq_false_iff.mpr some]
      rfl

theorem afterExponent_append (written : Exponent exponent) (noDigit : Stops isDigit rest)
    (noPower : Stops isPower rest) : afterExponent (exponent ++ rest) = rest := by
  cases written with
  | absent =>
      cases rest with
      | nil => rfl
      | cons c rest =>
          have other : (c == 'e' || c == 'E') = false := Bool.not_eq_true _ ▸ noPower c rfl
          simp [afterExponent, other]
  | @power mark sign digits letter signed some all =>
      have marked : (mark == 'e' || mark == 'E') = true := by rcases letter with rfl | rfl <;> rfl
      have start : Stops isSign (digits ++ rest) := all.stops some fun _ => not_isSign_of_isDigit
      rw [List.cons_append, afterExponent, List.append_assoc, afterSign_append signed start,
        noDigit.takeWhile all, noDigit.dropWhile all, List.isEmpty_eq_false_iff.mpr some, marked]
      rfl

theorem matchesChars_of_written (written : Written s) : matchesChars s = true := by
  obtain ⟨before, sign, mantissa, exponent, after, rfl, blanks, signed, weighed, raised, blanks'⟩ :=
    written
  -- each part is followed by one that it cannot go on with
  have noBlank : Stops isBlank (sign ++ (mantissa ++ (exponent ++ after))) :=
    signed.stops (by decide) (by decide) (weighed.stops (by decide) fun _ => not_isBlank_of_isDigit)
  have noSign : Stops isSign (mantissa ++ (exponent ++ after)) :=
    weighed.stops (by decide) fun _ => not_isSign_of_isDigit
  have noDigit : Stops isDigit after := blanks'.stops fun _ => not_isDigit_of_isBlank
  have noPoint : Stops (· == '.') after := blanks'.stops fun c blank point =>
    not_isBlank_of_mem_marks (by rw [beq_iff_eq.mp point]; decide) blank
  have noPower : Stops isPower after := blanks'.stops fun c blank power =>
    not_isBlank_of_mem_marks (mem_marks_of_isPower power) blank
  rw [matchesChars, noBlank.dropWhile blanks, afterSign_append signed noSign,
    afterMantissa?_append weighed (raised.stops (by decide) (by decide) noDigit)
      (raised.stops (by decide) (by decide) noPoint)]
  simp only [afterExponent_append raised noDigit noPower]
  exact List.all_eq_true.mpr blanks'

/-! ## What is read -/

theorem exists_sign (s : List Char) : ∃ sign, Sign sign ∧ s = sign ++ afterSign s := by
  cases s with
  | nil => exact ⟨[], .absent, rfl⟩
  | cons c rest =>
      rw [afterSign]
      split
      · rename_i sign
        rcases (by simpa using sign : c = '+' ∨ c = '-') with rfl | rfl
        · exact ⟨['+'], .plus, rfl⟩
        · exact ⟨['-'], .minus, rfl⟩
      · exact ⟨[], .absent, rfl⟩

theorem digits_takeWhile (s : List Char) : Digits (s.takeWhile isDigit) := fun _ =>
  List.mem_takeWhile_imp

theorem exists_mantissa (read : afterMantissa? s = some rest) :
    ∃ mantissa, Mantissa mantissa ∧ s = mantissa ++ rest := by
  have parts := List.takeWhile_append_dropWhile (p := isDigit) (l := s)
  unfold afterMantissa? at read
  simp only at read
  split at read
  · rename_i fraction split
    have parts' := List.takeWhile_append_dropWhile (p := isDigit) (l := fraction)
    rw [split, ← parts'] at parts
    split at read
    · cases read
    · rename_i digits
      cases read
      rw [Bool.and_eq_true, not_and_or] at digits
      -- without digits before the point there are some behind it
      by_cases some : s.takeWhile isDigit = []
      · rw [some, List.nil_append] at parts
        have some' : fraction.takeWhile isDigit ≠ [] := by simpa [some] using digits
        exact ⟨_, .fraction some' (digits_takeWhile fraction), parts.symm⟩
      · exact ⟨_, .pointed some (digits_takeWhile s) (digits_takeWhile fraction),
          by rw [List.append_assoc, List.cons_append, parts]⟩
  · split at read
    · cases read
    · rename_i some
      cases read
      exact ⟨_, .whole (by simpa using some) (digits_takeWhile s), parts.symm⟩

theorem exists_exponent (s : List Char) :
    ∃ exponent, Exponent exponent ∧ s = exponent ++ afterExponent s := by
  cases s with
  | nil => exact ⟨[], .absent, rfl⟩
  | cons c rest =>
      rw [afterExponent]
      split
      · rename_i power
        rw [Bool.and_eq_true] at power
        obtain ⟨letter, some⟩ := power
        obtain ⟨sign, signed, split⟩ := exists_sign rest
        refine ⟨c :: (sign ++ (afterSign rest).takeWhile isDigit),
          .power (by simpa using letter) signed (by simpa using some) (digits_takeWhile _), ?_⟩
        rw [List.cons_append, List.append_assoc, List.takeWhile_append_dropWhile, ← split]
      · exact ⟨[], .absent, rfl⟩

theorem written_of_matchesChars (numeral : matchesChars s = true) : Written s := by
  rw [matchesChars] at numeral
  split at numeral
  · rename_i rest read
    obtain ⟨sign, signed, split⟩ := exists_sign (s.dropWhile isBlank)
    obtain ⟨mantissa, weighed, split'⟩ := exists_mantissa read
    obtain ⟨exponent, raised, split''⟩ := exists_exponent rest
    refine ⟨s.takeWhile isBlank, sign, mantissa, exponent, afterExponent rest, ?_,
      fun _ => List.mem_takeWhile_imp, signed, weighed, raised, List.all_eq_true.mp numeral⟩
    rw [← split'', ← split', ← split, List.takeWhile_append_dropWhile]
  · cases numeral

theorem isNumeral_iff {s : String} : isNumeral s = true ↔ Written s.toList :=
  ⟨written_of_matchesChars, matchesChars_of_written⟩

/-! ## Characters of numerals -/

theorem Sign.mem_marks (signed : Sign sign) (member : c ∈ sign) : c ∈ marks := by
  cases signed with
  | absent => cases member
  | plus => exact List.mem_singleton.mp member ▸ by decide
  | minus => exact List.mem_singleton.mp member ▸ by decide

theorem Mantissa.isDigit_or_mem_marks (weighed : Mantissa mantissa) (member : c ∈ mantissa) :
    isDigit c = true ∨ c ∈ marks := by
  cases weighed with
  | whole some all => exact .inl (all c member)
  | pointed some all fraction =>
      rcases List.mem_append.mp member with digit | rest
      · exact .inl (all c digit)
      · rcases List.mem_cons.mp rest with rfl | digit
        · exact .inr (by decide)
        · exact .inl (fraction c digit)
  | fraction some all =>
      rcases List.mem_cons.mp member with rfl | digit
      · exact .inr (by decide)
      · exact .inl (all c digit)

theorem Exponent.isDigit_or_mem_marks (raised : Exponent exponent) (member : c ∈ exponent) :
    isDigit c = true ∨ c ∈ marks := by
  cases raised with
  | absent => cases member
  | power letter signed some all =>
      rcases List.mem_cons.mp member with rfl | rest
      · exact .inr (by rcases letter with rfl | rfl <;> decide)
      · rcases List.mem_append.mp rest with mark | digit
        · exact .inr (signed.mem_marks mark)
        · exact .inl (all c digit)

theorem isDigit_or_mem_marks (signed : Sign sign) (weighed : Mantissa mantissa)
    (raised : Exponent exponent) (member : c ∈ sign ++ (mantissa ++ exponent)) :
    isDigit c = true ∨ c ∈ marks := by
  rcases List.mem_append.mp member with mark | rest
  · exact .inr (signed.mem_marks mark)
  · rcases List.mem_append.mp rest with inside | inside
    · exact weighed.isDigit_or_mem_marks inside
    · exact raised.isDigit_or_mem_marks inside

theorem Written.kind (written : Written s) (member : c ∈ s) :
    isBlank c = true ∨ isDigit c = true ∨ c ∈ marks := by
  obtain ⟨before, sign, mantissa, exponent, after, rfl, blanks, signed, weighed, raised, blanks'⟩ :=
    written
  have regroup : before ++ (sign ++ (mantissa ++ (exponent ++ after))) =
      before ++ (sign ++ (mantissa ++ exponent) ++ after) := by simp
  rw [regroup, List.mem_append, List.mem_append] at member
  rcases member with blank | inside | blank
  · exact .inl (blanks c blank)
  · exact .inr (isDigit_or_mem_marks signed weighed raised inside)
  · exact .inl (blanks' c blank)

/-- No numeral holds the character. -/
structure Foreign (c : Char) : Prop where
  blank : isBlank c = false
  digit : isDigit c = false
  mark : c ∉ marks

instance (c : Char) : Decidable (Foreign c) :=
  decidable_of_iff (isBlank c = false ∧ isDigit c = false ∧ c ∉ marks)
    ⟨fun ⟨blank, digit, mark⟩ => ⟨blank, digit, mark⟩, fun ⟨blank, digit, mark⟩ =>
      ⟨blank, digit, mark⟩⟩

theorem not_isNumeral_of_mem (foreign : Foreign c) {s : String} (member : c ∈ s.toList) :
    isNumeral s = false := by
  rw [← Bool.not_eq_true, isNumeral_iff]
  intro written
  rcases written.kind member with blank | digit | mark
  · exact Bool.false_ne_true (foreign.blank.symm.trans blank)
  · exact Bool.false_ne_true (foreign.digit.symm.trans digit)
  · exact foreign.mark mark

/-! ## Letters in numerals -/

theorem Sign.filter_isLetter (signed : Sign sign) : sign.filter isLetter = [] := by
  cases signed <;> decide

theorem Digits.filter_isLetter (all : Digits digits) : digits.filter isLetter = [] :=
  List.filter_eq_nil_iff.mpr fun c member => not_isLetter_of_isDigit (all c member)

theorem Blanks.filter_isLetter (all : Blanks s) : s.filter isLetter = [] :=
  List.filter_eq_nil_iff.mpr fun c member => not_isLetter_of_isBlank (all c member)

theorem Mantissa.filter_isLetter (weighed : Mantissa mantissa) :
    mantissa.filter isLetter = [] := by
  have point : ¬ isLetter '.' = true := by decide
  cases weighed with
  | whole some all => exact all.filter_isLetter
  | pointed some all fraction =>
      rw [List.filter_append, List.filter_cons_of_neg point, all.filter_isLetter,
        fraction.filter_isLetter, List.append_nil]
  | fraction some all => rw [List.filter_cons_of_neg point, all.filter_isLetter]

theorem Exponent.filter_isLetter (raised : Exponent exponent) :
    exponent.filter isLetter ∈ [[], ['e'], ['E']] := by
  cases raised with
  | absent => decide
  | power letter signed some all =>
      rcases letter with rfl | rfl <;>
        rw [List.filter_cons_of_pos (by decide), List.filter_append, signed.filter_isLetter,
          all.filter_isLetter] <;> decide

theorem Written.filter_isLetter (written : Written s) :
    s.filter isLetter ∈ [[], ['e'], ['E']] := by
  obtain ⟨before, sign, mantissa, exponent, after, rfl, blanks, signed, weighed, raised, blanks'⟩ :=
    written
  rw [List.filter_append, List.filter_append, List.filter_append, List.filter_append,
    blanks.filter_isLetter, signed.filter_isLetter, weighed.filter_isLetter,
    blanks'.filter_isLetter, List.append_nil]
  exact raised.filter_isLetter

/-! ## Padding -/

theorem matchesChars_blanks_append (blanks : Blanks before) :
    matchesChars (before ++ s) = matchesChars s := by
  rw [matchesChars, List.dropWhile_append_of_pos blanks, ← matchesChars]

theorem Written.append (written : Written s) (blanks : Blanks after) : Written (s ++ after) := by
  obtain ⟨before, sign, mantissa, exponent, after', rfl, blanks', signed, weighed, raised, tail⟩ :=
    written
  refine ⟨before, sign, mantissa, exponent, after' ++ after, by simp, blanks', signed, weighed,
    raised, ?_⟩
  exact fun c member => (List.mem_append.mp member).elim (tail c) (blanks c)

theorem Mantissa.ne_nil (weighed : Mantissa mantissa) : mantissa ≠ [] := by
  cases weighed <;> simp_all

/-- The last character of a sign, a mantissa and an exponent is no blank, so that a blank at the
end of a text stands behind them. -/
theorem Written.of_concat (blank : isBlank c = true) (written : Written (s ++ [c])) :
    Written s := by
  obtain ⟨before, sign, mantissa, exponent, after, split, blanks, signed, weighed, raised, tail⟩ :=
    written
  rcases after.eq_nil_or_concat with rfl | ⟨after, last, rfl⟩
  · exfalso
    have full : sign ++ (mantissa ++ exponent) ≠ [] := by simp [weighed.ne_nil]
    obtain ⟨core, last, ends⟩ := List.eq_nil_or_concat _ |>.resolve_left full
    rw [List.append_nil, ends, List.concat_eq_append, ← List.append_assoc] at split
    have same : c = last := by simpa using (List.append_inj' split rfl).2
    have inside : c ∈ sign ++ (mantissa ++ exponent) := by simp [ends, same]
    rcases isDigit_or_mem_marks signed weighed raised inside with digit | mark
    · exact not_isDigit_of_isBlank blank digit
    · exact not_isBlank_of_mem_marks mark blank
  · refine ⟨before, sign, mantissa, exponent, after, ?_, blanks, signed, weighed, raised,
      fun d member => tail d (by simp [member])⟩
    simp only [List.concat_eq_append, ← List.append_assoc] at split
    simpa using (List.append_inj' split rfl).1

theorem written_append_iff (blanks : Blanks after) : Written (s ++ after) ↔ Written s := by
  refine ⟨fun written => ?_, fun written => written.append blanks⟩
  induction after using List.reverseRecOn with
  | nil => rwa [List.append_nil] at written
  | append_singleton after c ih =>
      refine ih (fun d member => blanks d (by simp [member])) ?_
      rw [← List.append_assoc] at written
      exact .of_concat (blanks c (by simp)) written

theorem isNumeral_padded {before s after : String} (blanks : Blanks before.toList)
    (blanks' : Blanks after.toList) : isNumeral (before ++ s ++ after) = isNumeral s := by
  have front : isNumeral (before ++ s) = isNumeral s := by
    rw [isNumeral, String.toList_append, matchesChars_blanks_append blanks, isNumeral]
  rw [← front, Bool.eq_iff_iff, isNumeral_iff, isNumeral_iff, String.toList_append,
    written_append_iff blanks']

end Numeral

namespace Value

open Numeral

/-- A text counts as a position exactly if it is a sign, a mantissa and an exponent between blanks.
So blanks around it never matter, and it holds no underscore and no letter but that of an
exponent. -/
theorem isNumeric_text (s : String) :
    ((text s).isNumeric = true ↔ ∃ before sign mantissa exponent after,
      s.toList = before ++ (sign ++ (mantissa ++ (exponent ++ after))) ∧
      Blanks before ∧ Sign sign ∧ Mantissa mantissa ∧ Exponent exponent ∧ Blanks after) ∧
    (∀ before after : String, Blanks before.toList → Blanks after.toList →
      (text (before ++ s ++ after)).isNumeric = (text s).isNumeric) ∧
    ((text s).isNumeric = true → '_' ∉ s.toList ∧
      s.toList.filter Text.isLetter ∈ [[], ['e'], ['E']]) := by
  refine ⟨isNumeral_iff, fun _ _ => isNumeral_padded, fun numeric => ⟨fun underscore => ?_,
    (isNumeral_iff.mp numeric).filter_isLetter⟩⟩
  have foreign : isNumeral s = false := not_isNumeral_of_mem (by decide) underscore
  exact Bool.false_ne_true (foreign.symm.trans numeric)

/-- An ideographic space, digits of two scripts, a point without a fraction and a line break. -/
theorem isNumeric_text_padded :
    Written "-1\u0661.e+5".toList ∧ Blanks "\u3000".toList ∧ Blanks " \n".toList ∧
    (text ("\u3000" ++ "-1\u0661.e+5" ++ " \n")).isNumeric = true ∧
    '_' ∉ "-1\u0661.e+5".toList ∧
    "-1\u0661.e+5".toList.filter Text.isLetter ∈ [[], ['e'], ['E']] := by
  have blanks : Blanks "\u3000".toList ∧ Blanks " \n".toList := by decide +kernel
  have numeric : (text "-1\u0661.e+5").isNumeric = true := by decide +kernel
  obtain ⟨grammar, padded, letters⟩ := isNumeric_text "-1\u0661.e+5"
  exact ⟨grammar.mp numeric, blanks.1, blanks.2, (padded _ _ blanks.1 blanks.2).trans numeric,
    letters numeric⟩

end Value
end WhereClause
