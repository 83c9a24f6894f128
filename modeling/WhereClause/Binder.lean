import WhereClause.Binding

/-!
# Binders

A binder hands out placeholders and records the values bound to them. Every placeholder handed out
uses up one sequence number, whether or not a value is bound to it later.

* `count_reserve`: handing out a placeholder uses up exactly one number.
* `count_le_bind`, `count_le_register`: the count of numbers never falls, also on failure.
-/

namespace WhereClause

abbrev Bindings := Table Int Binding

/-- Hands out placeholders and records what is bound to them. -/
structure Binder where
  identifier : String
  /-- The next sequence number. -/
  count : Int := 0
  bindings : Bindings := []
  /-- The numbers kept for names that were handed out and are not bound yet. -/
  reserved : Table String Int := []
  expands : Bool := false

structure Reservation where
  number : Int
  name : String
  deriving DecidableEq, Repr

/-- The fragment of a written placeholder; one without a colon is positional. -/
def fragmentOf (name : String) : String :=
  match name.toList with
  | ':' :: rest => String.ofList rest
  | _ => ""

namespace Binder

def synthesized (settings : Settings) (identifier : String) (number : Int) : String :=
  ":" ++ settings.placeholderStem ++ identifier ++ "_" ++ toString number

/-- The placeholder for a token: the positional mark for a numeric one, an already written
placeholder as it is, and otherwise a synthesized name. -/
def nameFor (settings : Settings) (identifier : String) (number : Int) (token : Value) : String :=
  if token.isNumeric then settings.positionalMark
  else match token with
    | .text s =>
      if s.toList.head? == some ':' then s else synthesized settings identifier number
    | _ => synthesized settings identifier number

def next (settings : Settings) (token : Value) (binder : Binder) : Reservation :=
  ⟨binder.count, nameFor settings binder.identifier binder.count token⟩

def advance (binder : Binder) : Binder := { binder with count := binder.count + 1 }

def keep (reservation : Reservation) (binder : Binder) : Binder :=
  { binder with reserved := Table.put reservation.name reservation.number binder.reserved }

/-- Hands out a placeholder for the token; `keeping` says whether a later binding of its name takes
this number. -/
def reserve (settings : Settings) (token : Value) (keeping : Bool) (binder : Binder) :
    Reservation × Binder :=
  let reservation := binder.next settings token
  (reservation, if keeping then binder.advance.keep reservation else binder.advance)

/-- The number for a name: the one kept for it, which is kept no longer, or else a new one. -/
def takeNumber (name : String) (binder : Binder) : Int × Binder :=
  match Table.get? name binder.reserved with
  | some number => (number, { binder with reserved := Table.erase name binder.reserved })
  | none => (binder.count, binder.advance)

def record (number : Int) (binding : Binding) (binder : Binder) : Binder :=
  { binder with bindings := Table.put number binding binder.bindings }

def note (settings : Settings) (binding : Binding) (binder : Binder) : Binder :=
  { binder with expands := binder.expands || binding.isMulti settings }

/-- Binds a value to a placeholder. A type that is no text is refused after the number is taken. One
that is given as bytes is refused too, but only when the marker is looked for, and by then the
binding is recorded. -/
def bindName (settings : Settings) (name : String) (value type : Value) (binder : Binder) :
    Except Fault Unit × Binder :=
  let (number, binder) := binder.takeNumber name
  match type.toType with
  | .ok declared =>
    let binding : Binding := ⟨fragmentOf name, value, declared⟩
    let recorded := binder.record number binding
    match type with
    | .bytes _ => (.error .wrongType, recorded)
    | _ => (.ok (), recorded.note settings binding)
  | .error reason => (.error (.invalid [⟨"type", reason⟩]), binder)

/-- Binds a value to a placeholder given as any value. One that is no text takes a number before it
is refused, unless it cannot even be looked up among the kept names. -/
def bind (settings : Settings) (name value type : Value) (binder : Binder) :
    Except Fault Unit × Binder :=
  match name with
  | .text name => binder.bindName settings name value type
  | .bytes _ => (.error .wrongType, binder.advance)
  | name =>
    if name.isHashable || binder.reserved.isEmpty then (.error .noAttribute, binder.advance)
    else (.error .wrongType, binder)

def register (settings : Settings) (token value type : Value) (binder : Binder) :
    Except Fault String × Binder :=
  let (reservation, binder) := binder.reserve settings token true
  let (bound, binder) := binder.bindName settings reservation.name value type
  (bound.map fun _ => reservation.name, binder)

@[simp] theorem number_reserve (settings : Settings) (token : Value) (keeping : Bool)
    (binder : Binder) : (binder.reserve settings token keeping).1.number = binder.count := rfl

@[simp] theorem count_reserve (settings : Settings) (token : Value) (keeping : Bool)
    (binder : Binder) :
    (binder.reserve settings token keeping).2.count = binder.count + 1 := by
  cases keeping <;> rfl

theorem count_le_takeNumber (name : String) (binder : Binder) :
    binder.count ≤ (binder.takeNumber name).2.count := by
  unfold takeNumber
  split
  · exact Int.le_refl _
  · simp only [advance]
    omega

theorem count_le_bindName (settings : Settings) (name : String) (value type : Value)
    (binder : Binder) : binder.count ≤ (binder.bindName settings name value type).2.count := by
  have taken := count_le_takeNumber name binder
  simp only [bindName]
  split
  · split <;> exact taken
  · exact taken

theorem count_le_bind (settings : Settings) (name value type : Value) (binder : Binder) :
    binder.count ≤ (binder.bind settings name value type).2.count := by
  unfold bind
  split
  · exact count_le_bindName ..
  · simp only [advance]
    omega
  · split
    · simp only [advance]
      omega
    · exact Int.le_refl _

theorem count_le_register (settings : Settings) (token value type : Value) (binder : Binder) :
    binder.count ≤ (binder.register settings token value type).2.count := by
  have reserved := count_reserve settings token true binder
  have bound := count_le_bindName settings (binder.reserve settings token true).1.name value type
    (binder.reserve settings token true).2
  simp only [register]
  omega

end Binder
end WhereClause
