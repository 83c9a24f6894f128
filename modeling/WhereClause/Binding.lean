import WhereClause.Settings
import WhereClause.Text.Occurrence

/-!
# Bindings

What is bound to a placeholder, and how a binding depends on the settings: the placeholder of an
empty fragment is the positional mark, and a type that holds the marker has several elements.
-/

namespace WhereClause

def Settings.marks (settings : Settings) (type : String) : Bool :=
  Text.occurs settings.multiMarker.toList type.toList

def Settings.unmarked (settings : Settings) (type : String) : String :=
  String.ofList (Text.removeMarker settings.multiMarker.toList type.toList)

namespace BindingOf

variable {α : Type}

def isNamed (binding : BindingOf α) : Bool := !binding.fragment.isEmpty

def placeholder (settings : Settings) (binding : BindingOf α) : String :=
  if binding.fragment.isEmpty then settings.positionalMark else ":" ++ binding.fragment

def isMulti (settings : Settings) (binding : BindingOf α) : Bool :=
  binding.type.any settings.marks

def elementType (settings : Settings) (binding : BindingOf α) : Option String :=
  binding.type.map settings.unmarked

end BindingOf

end WhereClause
