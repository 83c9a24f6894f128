import WhereClause.Conversion
import WhereClause.Table
import WhereClause.Text.Identifier

/-!
# Settings

The texts that naming, expansion and rendering use. An update makes all settings anew, from the
options and, for what they do not name, from the settings in force. It is all or nothing: every
option has to name a setting and hold a text that fits it.

* `get_set`: setting one text changes that text only.
-/

namespace WhereClause

inductive Setting
  | placeholderStem | multiMarker | defaultMultiType | positionalMark | arraySeparator
  | defaultConnective
  deriving DecidableEq, Repr

structure Settings where
  placeholderStem : String := "c"
  /-- In a type, says that the value has several elements, each bound on its own. -/
  multiMarker : String := "[]"
  defaultMultiType : String := "string"
  positionalMark : String := "?"
  arraySeparator : String := ", "
  defaultConnective : String := "AND"
  deriving DecidableEq, Repr

namespace Setting

/-- Every setting, in the order in which problems are told and settings are listed. -/
def all : List Setting :=
  [.placeholderStem, .multiMarker, .defaultMultiType, .positionalMark, .arraySeparator,
    .defaultConnective]

def name : Setting → String
  | placeholderStem => "placeholder_prefix"
  | multiMarker => "multi_marker"
  | defaultMultiType => "default_multi_type"
  | positionalMark => "positional_placeholder"
  | arraySeparator => "array_separator"
  | defaultConnective => "default_conjunction"

def ofName? (name : String) : Option Setting := all.find? (·.name == name)

/-- Why the setting cannot hold the text. A stem is an identifier, and a marker is not empty, since
every type would hold an empty one. -/
def reject? : Setting → String → Option Reason
  | placeholderStem, s => if Text.isIdentifier s.toList then none else some .badPattern
  | multiMarker, s => if s.isEmpty then some .tooShort else none
  | _, _ => none

def rejectValue? (setting : Setting) (v : Value) : Option Reason :=
  match v.toText with
  | .ok s => setting.reject? s
  | .error reason => some reason

theorem mem_all (setting : Setting) : setting ∈ all := by
  cases setting <;> simp [all]

theorem ofName?_name (setting : Setting) : ofName? setting.name = some setting := by
  cases setting <;> decide

end Setting

/-- Options in the order given, each naming a setting at most once. -/
abbrev Options := Table String Value

namespace Settings

def get (settings : Settings) : Setting → String
  | .placeholderStem => settings.placeholderStem
  | .multiMarker => settings.multiMarker
  | .defaultMultiType => settings.defaultMultiType
  | .positionalMark => settings.positionalMark
  | .arraySeparator => settings.arraySeparator
  | .defaultConnective => settings.defaultConnective

def set (settings : Settings) : Setting → String → Settings
  | .placeholderStem, s => { settings with placeholderStem := s }
  | .multiMarker, s => { settings with multiMarker := s }
  | .defaultMultiType, s => { settings with defaultMultiType := s }
  | .positionalMark, s => { settings with positionalMark := s }
  | .arraySeparator, s => { settings with arraySeparator := s }
  | .defaultConnective, s => { settings with defaultConnective := s }

def setOption (settings : Settings) : String × Value → Settings
  | (name, v) =>
    match Setting.ofName? name, v.toText with
    | some setting, .ok s => settings.set setting s
    | _, _ => settings

/-- Everything wrong with the options: unfit values in the order of the settings, then options that
name no setting in the order given. -/
def issues (options : Options) : List Issue :=
  (Setting.all.filterMap fun setting =>
    (Table.get? setting.name options).bind fun value =>
      (setting.rejectValue? value).map fun reason => ⟨setting.name, reason⟩) ++
  options.filterMap fun (name, _) =>
    if (Setting.ofName? name).isNone then some ⟨name, .unknownField⟩ else none

/-- The settings that the options name, and the initial texts of the others. -/
def ofOptions (options : Options) : Except Fault Settings :=
  match issues options with
  | [] => .ok (options.foldl setOption {})
  | issues => .error (.invalid issues)

def toOptions (settings : Settings) : Options :=
  Setting.all.map fun setting => (setting.name, .text (settings.get setting))

/-- What the settings were is checked again, together with the options that take its place. -/
def update (settings : Settings) (options : Options) : Except Fault Settings :=
  ofOptions (Table.putAll options settings.toOptions)

theorem get_set (settings : Settings) (setting other : Setting) (s : String) :
    (settings.set setting s).get other = if setting = other then s else settings.get other := by
  cases setting <;> cases other <;> rfl

end Settings
end WhereClause
