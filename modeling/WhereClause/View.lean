import WhereClause.Forest
import WhereClause.Text.Quoted

/-!
# Views

A view is a value together with everything that it holds at the moment, lists with all that was
added to them. Whatever goes through a value to its end goes through its view, which is finite data.
A list that holds itself is followed only so far.

* `value_view`: a view is a view of its value.
-/

namespace WhereClause

inductive View
  | atom (v : Value)
  | sequence (v : Value) (elements : List View)
  | dict (v : Value) (entries : List (View × View))

namespace View

def value : View → Value
  | atom v | sequence v _ | dict v _ => v

mutual
/-- The view of a value, given the views of the elements that the forest keeps for a list. -/
def ofValue (later : Value → List View) : Value → View
  | .list mark vs => sequence (.list mark vs) (ofElements later vs ++ later (.list mark vs))
  | .conditions tree stage =>
    sequence (.conditions tree stage) (later (.conditions tree stage))
  | .tuple mark vs => sequence (.tuple mark vs) (ofElements later vs)
  | .set mark vs => sequence (.set mark vs) (ofElements later vs)
  | .frozenSet mark vs => sequence (.frozenSet mark vs) (ofElements later vs)
  | .dict mark entries => dict (.dict mark entries) (ofEntries later entries)
  | .binding mark b => sequence (.binding mark b) [ofValue later b.value]
  | v => atom v

def ofElements (later : Value → List View) : List Value → List View
  | [] => []
  | v :: rest => ofValue later v :: ofElements later rest

def ofEntries (later : Value → List View) : List (Value × Value) → List (View × View)
  | [] => []
  | (k, v) :: rest => (ofValue later k, ofValue later v) :: ofEntries later rest
end

@[simp] theorem value_ofValue (later : Value → List View) (v : Value) :
    (ofValue later v).value = v := by
  cases v <;> simp [ofValue, value]

def commaSeparated (parts : List String) : String := ", ".intercalate parts

/-- A value that holds no others as it shows inside a container, with texts quoted. -/
def shownAtom : Value → String
  | .null => "None"
  | .bool b => if b then "True" else "False"
  | .int n => toString n
  | .float x => x.text
  | .text s => Text.quoted s
  | .bytes b => Text.quotedBytes b
  | .node _ => "<expression>"
  | .binder _ => "<store>"
  | .compiled _ => "<compiled>"
  | .outcome .. => "<result>"
  | _ => "<function>"

def enclosed : Value → List String → String
  | .tuple .., [part] => "(" ++ part ++ ",)"
  | .tuple .., parts => "(" ++ commaSeparated parts ++ ")"
  | .set .., [] => "set()"
  | .set .., parts | .dict .., parts => "\x7b" ++ commaSeparated parts ++ "\x7d"
  | .frozenSet .., [] => "frozenset()"
  | .frozenSet .., parts => "frozenset(\x7b" ++ commaSeparated parts ++ "\x7d)"
  | .binding _ b, parts =>
    "Binding(placeholder=" ++ Text.quoted b.fragment ++ ", value=" ++ commaSeparated parts ++
      ", type=" ++ (b.type.map Text.quoted).getD "None" ++ ")"
  | _, parts => "[" ++ commaSeparated parts ++ "]"

mutual
def shown : View → String
  | atom v => shownAtom v
  | sequence v vs => enclosed v (allShown vs)
  | dict v entries => enclosed v (entriesShown entries)

def allShown : List View → List String
  | [] => []
  | v :: rest => v.shown :: allShown rest

def entriesShown : List (View × View) → List String
  | [] => []
  | (k, v) :: rest => (k.shown ++ ": " ++ v.shown) :: entriesShown rest
end

end View

namespace Forest

/-- The view of a value, which goes at most so often from a list to what the forest keeps for it. -/
def viewWithin (forest : Forest) : Nat → Value → View
  | 0 => View.ofValue fun _ => []
  | depth + 1 => View.ofValue fun v => (forest.kept v).map (forest.viewWithin depth)

def view (forest : Forest) (v : Value) : View :=
  forest.viewWithin (forest.additions.length + 2 * forest.nodes.size + 1) v

@[simp] theorem value_view (forest : Forest) (v : Value) : (forest.view v).value = v := by
  simp only [view, viewWithin, View.value_ofValue]

/-- The value as plain text: a text as it is, anything else as it shows. -/
def plainText (forest : Forest) : Value → String
  | .text s => s
  | v => (forest.view v).shown

end Forest
end WhereClause
