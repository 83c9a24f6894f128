import WhereClause.Key
import WhereClause.Workspace

/-!
# Items

A description is read into items before any condition is made. A text is one raw item; a node is
nested as it is, unless it is an empty tree; lists, tuples and dictionaries are read entry by entry.
What an entry is depends on its key first and on its value second. A list counts with all that was
added to it.
-/

namespace WhereClause

inductive Item
  | raw (text : String)
  | group (connective : String) (items : List Item)
  | negation (items : List Item)
  | field (key : Key) (value : Value)
  | nested (node : NodeId)

inductive Entry
  | raw (text : String)
  | group (connective : String)
  | negation
  | nested (node : NodeId)
  | field (key : Key)
  | vacant
  | dropped
  deriving DecidableEq, Repr

namespace Entry

def positionConnective : String := "AND"

def atPosition (forest : Forest) (value : Value) : Entry :=
  if forest.isTruthy value then
    match value with
    | .text s => .raw s
    | .list .. | .conditions .. | .tuple .. | .dict .. => .group positionConnective
    | .node id => if forest.isFilledTree id then .nested id else .dropped
    | _ => .dropped
  else .vacant

def underName (forest : Forest) (key : String) (value : Value) : Entry :=
  match Key.connective? key with
  | some connective => .group connective
  | none =>
    if Key.isNegation key then .negation
    else match value with
      | .node id => if forest.isFilledTree id then .nested id else .field (Key.split key)
      | _ => .field (Key.split key)

def classify (forest : Forest) (key value : Value) : Entry :=
  if key.isNumeric then atPosition forest value
  else underName forest (forest.plainText key) value

def item? (entry : Entry) (value : Value) (inner : List Item) : Option Item :=
  match entry with
  | raw text => some (.raw text)
  | group connective => some (.group connective inner)
  | negation => some (.negation inner)
  | nested node => some (.nested node)
  | field key => some (.field key value)
  | vacant | dropped => none

/-- The events of reading an entry, given those of reading its value. -/
def events (entry : Entry) (key value : Value) (inner : List Event) : List Event :=
  match entry with
  | group _ | negation => inner
  | dropped => [.entryDropped key value]
  | raw _ | nested _ | field _ | vacant => []

end Entry

namespace Item

mutual
def ofView (forest : Forest) : View → List Item
  | .atom (.text s) => [.raw s]
  | .atom (.node id) => if forest.isEmptyTree id then [] else [.nested id]
  | .atom _ => []
  | .sequence v elements => if v.isOrdered then ofElements forest 0 elements else []
  | .dict _ entries => ofEntries forest entries

def ofElements (forest : Forest) (position : Nat) : List View → List Item
  | [] => []
  | v :: rest =>
    ((Entry.classify forest (.int position) v.value).item? v.value (ofView forest v)).toList ++
      ofElements forest (position + 1) rest

def ofEntries (forest : Forest) : List (View × View) → List Item
  | [] => []
  | (k, v) :: rest =>
    ((Entry.classify forest k.value v.value).item? v.value (ofView forest v)).toList ++
      ofEntries forest rest
end

mutual
def eventsOfView (forest : Forest) : View → List Event
  | .atom _ => []
  | .sequence v elements => if v.isOrdered then eventsOfElements forest 0 elements else []
  | .dict _ entries => eventsOfEntries forest entries

def eventsOfElements (forest : Forest) (position : Nat) : List View → List Event
  | [] => []
  | v :: rest =>
    (Entry.classify forest (.int position) v.value).events (.int position) v.value
        (eventsOfView forest v) ++
      eventsOfElements forest (position + 1) rest

def eventsOfEntries (forest : Forest) : List (View × View) → List Event
  | [] => []
  | (k, v) :: rest =>
    (Entry.classify forest k.value v.value).events k.value v.value (eventsOfView forest v) ++
      eventsOfEntries forest rest
end

def read (description : Value) : WorkspaceM (List Item) := do
  let forest ← WorkspaceM.forest
  let view := forest.view description
  WorkspaceM.log (eventsOfView forest view)
  return ofView forest view

end Item
end WhereClause
