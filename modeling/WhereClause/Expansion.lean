import WhereClause.Event
import WhereClause.Forest

/-!
# Expansion

A binding whose type holds the marker is replaced by one binding per element, each under a new
placeholder of the same binder; texts that mention its placeholder get the new ones instead,
separated. The elements are those that the value holds when it is expanded. Only the count of the
binder changes.
-/

namespace WhereClause

structure Expansion where
  kept : Bindings := []
  added : Bindings := []
  /-- The placeholders to replace, in order, each with the text that takes its place. -/
  replaced : List (String × String) := []
  events : List Event := []

def withoutFirst (s : String) : String := String.ofList (s.toList.drop 1)

namespace Expansion

def reserveEach (settings : Settings) (token : Value) :
    List Value → Binder → List (Reservation × Value) × Binder
  | [], binder => ([], binder)
  | v :: rest, binder =>
    let (reservation, binder) := binder.reserve settings token false
    let (others, binder) := reserveEach settings token rest binder
    ((reservation, v) :: others, binder)

def addMulti (settings : Settings) (binding : Binding)
    (elements : List (Reservation × Value)) (later : Expansion) : Expansion :=
  let placeholder := binding.placeholder settings
  { later with
    added := elements.map (fun (reservation, v) =>
      (reservation.number,
        ⟨withoutFirst reservation.name, v, binding.elementType settings⟩)) ++ later.added
    replaced := (placeholder,
      settings.arraySeparator.intercalate (elements.map (·.1.name))) :: later.replaced
    events := .expanded placeholder elements.length :: later.events }

def ofBindings (forest : Forest) (settings : Settings) :
    Bindings → Binder → Expansion × Binder
  | [], binder => ({}, binder)
  | (number, binding) :: rest, binder =>
    if binding.isMulti settings then
      let (elements, binder) :=
        reserveEach settings (.text binding.fragment) (forest.elements binding.value) binder
      let (later, binder) := ofBindings forest settings rest binder
      (later.addMulti settings binding elements, binder)
    else
      let (later, binder) := ofBindings forest settings rest binder
      ({ later with kept := (number, binding) :: later.kept }, binder)

/-- The bindings after the expansion: those kept, then those of the elements. -/
def bindings (expansion : Expansion) : Bindings := Table.putAll expansion.added expansion.kept

/-- The replacements, one per placeholder: the last text for it, in the place of the first. -/
def replacements (expansion : Expansion) : Table String String :=
  Table.putAll expansion.replaced []

/-- Makes the replacements in a text, one placeholder after the other. -/
def substituteText (replacements : Table String String) (s : List Char) : List Char :=
  replacements.foldl
    (fun s (placeholder, text) => Text.replaceToken placeholder.toList text.toList s) s

/-- A condition after the expansion: a text with its placeholders replaced, anything else as it
is. -/
def substitute (expansion : Expansion) : Value → Value
  | .text s => .text (String.ofList (substituteText expansion.replacements s.toList))
  | v => v

end Expansion

def Binder.expand (forest : Forest) (settings : Settings) (binder : Binder) : Expansion × Binder :=
  Expansion.ofBindings forest settings binder.bindings binder

end WhereClause
