import WhereClause.Settings

/-!
# Events

What the log tells: an update of the settings, parts of a description that contribute nothing, and
expansions. A record has a level, a template and the values that belong into it.
-/

namespace WhereClause

inductive Event
  | settingsUpdated (options : Options)
  | entryDropped (key value : Value)
  | emptyGroup (connective : String)
  | emptyNegation
  | expanded (placeholder : String) (elements : Nat)

namespace Event

def level : Event → String
  | settingsUpdated _ => "INFO"
  | _ => "DEBUG"

def template : Event → String
  | settingsUpdated _ => "Compiler settings updated: %s"
  | entryDropped .. => "Dropping condition entry %r: %r"
  | emptyGroup _ => "Skipping empty %s group"
  | emptyNegation => "Skipping empty NOT group"
  | expanded .. => "Expanded %s into %d placeholders"

def arguments : Event → List Value
  | settingsUpdated options =>
    [.dict .passing (options.map fun (name, value) => (.text name, value))]
  | entryDropped key value => [key, value]
  | emptyGroup connective => [.text connective]
  | emptyNegation => []
  | expanded placeholder elements => [.text placeholder, .int elements]

end Event
end WhereClause
