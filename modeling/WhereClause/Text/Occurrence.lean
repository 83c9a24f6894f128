import WhereClause.Text.Word

/-!
# Occurrences and their replacement

One scan serves two uses. A placeholder is replaced only as a whole token: where it is followed by
a word character it is part of a longer one and stays. A marker inside a type is removed wherever
it stands. Occurrences are taken from the left and do not overlap, and what was put in is not
scanned again.

* `occurs_iff`: a token occurs exactly if the text splits around it.
-/

namespace WhereClause.Text

def occurs (token : List Char) : List Char → Bool
  | [] => token.isEmpty
  | c :: rest => token.isPrefixOf (c :: rest) || occurs token rest

def endsWord (rest : List Char) : Bool := !rest.head?.any isWordChar

/-- Replaces the occurrences after which `stops` accepts the rest of the text. The counter is the
number of characters of the last occurrence that are still to be passed over. An empty token
occurs before every character and at the end. -/
def replaceFrom (stops : List Char → Bool) (token replacement : List Char) :
    Nat → List Char → List Char
  | _, [] => if token.isEmpty && stops [] then replacement else []
  | pending + 1, _ :: rest => replaceFrom stops token replacement pending rest
  | 0, c :: rest =>
    if token.isPrefixOf (c :: rest) && stops ((c :: rest).drop token.length) then
      match token with
      | [] => replacement ++ c :: replaceFrom stops token replacement 0 rest
      | _ :: later => replacement ++ replaceFrom stops token replacement later.length rest
    else
      c :: replaceFrom stops token replacement 0 rest

def replaceToken (token replacement s : List Char) : List Char :=
  replaceFrom endsWord token replacement 0 s

def removeMarker (marker s : List Char) : List Char :=
  replaceFrom (fun _ => true) marker [] 0 s

def count (part s : List Char) : Nat :=
  if part.isEmpty then s.length + 1
  else (s.length - (removeMarker part s).length) / part.length

theorem occurs_iff {token s : List Char} :
    occurs token s = true ↔ ∃ before after, s = before ++ token ++ after := by
  induction s with
  | nil =>
    simp only [occurs, List.isEmpty_iff]
    constructor
    · rintro rfl; exact ⟨[], [], rfl⟩
    · rintro ⟨before, after, split⟩
      have := congrArg List.length split
      exact List.eq_nil_of_length_eq_zero (by simp at this; omega)
  | cons c rest ih =>
    simp only [occurs, Bool.or_eq_true, List.isPrefixOf_iff_prefix, ih]
    constructor
    · rintro (⟨after, split⟩ | ⟨before, after, split⟩)
      · exact ⟨[], after, by simpa using split.symm⟩
      · exact ⟨c :: before, after, by simp [split]⟩
    · rintro ⟨before, after, split⟩
      cases before with
      | nil => exact .inl ⟨after, by simpa using split.symm⟩
      | cons d before =>
        simp only [List.cons_append, List.cons.injEq] at split
        exact .inr ⟨before, after, split.2⟩

end WhereClause.Text
