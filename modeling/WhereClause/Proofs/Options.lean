import WhereClause.Proofs.Tables
import WhereClause.Settings

/-!
# Options for settings

An update checks all settings again: those in force, and the options that take their place. What is
in force was checked when it was set, and a text that fits a setting fits it always, so that the
options alone decide whether an update is accepted.

* `sound_update`: an update leaves settings that would be accepted again.
* `update_eq`: from such settings on, an update checks its options and sets them one by one.
-/

namespace WhereClause

namespace Setting

variable {setting : Setting} {name : String} {v : Value}

theorem name_of_ofName? (same : ofName? name = some setting) : setting.name = name := by
  have found := List.find?_some same
  simpa using found

theorem name_inj {other : Setting} (same : setting.name = other.name) : setting = other := by
  have found := ofName?_name setting
  rw [same, ofName?_name] at found
  exact (Option.some.inj found).symm

theorem ofName?_isNone_iff : (ofName? name).isNone = true ↔ name ∉ all.map Setting.name := by
  rw [Option.isNone_iff_eq_none, ofName?, List.find?_eq_none, List.mem_map]
  simp

theorem rejectValue?_eq_none_iff :
    setting.rejectValue? v = none ↔ ∃ s, v.toText = .ok s ∧ setting.reject? s = none := by
  rw [rejectValue?]
  cases v.toText <;> simp

end Setting

namespace Options

/-- Every option names a setting and has a value that the setting can hold. -/
def Fit (options : Options) : Prop :=
  ∀ entry ∈ options, ∃ setting ∈ Setting.all,
    setting.name = entry.1 ∧ setting.rejectValue? entry.2 = none

instance (options : Options) : Decidable options.Fit :=
  inferInstanceAs (Decidable (∀ entry ∈ options, ∃ setting ∈ Setting.all,
    setting.name = entry.1 ∧ setting.rejectValue? entry.2 = none))

/-- The text that the options have for a setting. -/
def text? (options : Options) (setting : Setting) : Option String :=
  (Table.get? setting.name options).bind fun v => v.toText.toOption

variable {options : Options} {setting : Setting}

theorem text?_cons (name : String) (v : Value) (rest : Options) (setting : Setting) :
    text? ((name, v) :: rest) setting =
      if name = setting.name then v.toText.toOption else rest.text? setting := by
  rw [text?, Table.get?]
  split <;> rfl

theorem text?_of_notMem (absent : setting.name ∉ Table.keys options) :
    options.text? setting = none := by
  rw [text?, Table.get?_eq_none_iff.mpr absent, Option.bind_none]

theorem Fit.rejectValue? (fit : options.Fit) {v : Value}
    (found : Table.get? setting.name options = some v) : setting.rejectValue? v = none := by
  obtain ⟨other, -, named, accepted⟩ := fit _ (Table.mem_of_get? found)
  rwa [Setting.name_inj named] at accepted

/-- What options that fit have for a setting is a text that fits it. -/
theorem Fit.text? (fit : options.Fit) {v : Value}
    (found : Table.get? setting.name options = some v) :
    ∃ s, options.text? setting = some s ∧ setting.reject? s = none := by
  obtain ⟨s, text, accepted⟩ := Setting.rejectValue?_eq_none_iff.mp (fit.rejectValue? found)
  refine ⟨s, ?_, accepted⟩
  rw [Options.text?, found, Option.bind_some, text]
  rfl

end Options

namespace Settings

variable {settings updated : Settings} {options : Options} {setting : Setting}

theorem ext_get {other : Settings} (same : ∀ setting, settings.get setting = other.get setting) :
    settings = other := by
  cases settings
  cases other
  congr
  exacts [same .placeholderStem, same .multiMarker, same .defaultMultiType, same .positionalMark,
    same .arraySeparator, same .defaultConnective]

/-! ## Settings from options -/

/-- What is wrong with the name of an option does not depend on its value. -/
theorem issues_eq (options : Options) : issues options =
    (Setting.all.filterMap fun setting => (Table.get? setting.name options).bind fun value =>
      (setting.rejectValue? value).map fun reason => ⟨setting.name, reason⟩) ++
    (Table.keys options).filterMap fun name =>
      if (Setting.ofName? name).isNone then some ⟨name, .unknownField⟩ else none := by
  rw [issues, Table.keys, List.filterMap_map]
  rfl

theorem issues_eq_nil_iff (once : (Table.keys options).Nodup) :
    issues options = [] ↔ options.Fit := by
  rw [issues_eq, List.append_eq_nil_iff, List.filterMap_eq_nil_iff, List.filterMap_eq_nil_iff]
  constructor
  · rintro ⟨values, names⟩ ⟨name, v⟩ member
    cases known : Setting.ofName? name with
    | none => simpa [known] using names name (List.mem_map_of_mem member)
    | some setting =>
        have named := Setting.name_of_ofName? known
        have accepted := values setting setting.mem_all
        rw [named, Table.get?_of_mem once member, Option.bind_some, Option.map_eq_none_iff]
          at accepted
        exact ⟨setting, setting.mem_all, named, accepted⟩
  · intro fit
    constructor
    · intro setting _
      cases found : Table.get? setting.name options with
      | none => rfl
      | some v => rw [Option.bind_some, fit.rejectValue? found, Option.map_none]
    · intro name member
      obtain ⟨entry, inside, rfl⟩ := List.mem_map.mp member
      obtain ⟨setting, -, named, -⟩ := fit entry inside
      simp [← named, Setting.ofName?_name]

theorem get_setOption (settings : Settings) (name : String) (v : Value) (setting : Setting) :
    (settings.setOption (name, v)).get setting =
      if name = setting.name then v.toText.toOption.getD (settings.get setting)
      else settings.get setting := by
  rw [setOption]
  cases known : Setting.ofName? name with
  | none =>
      have other : name ≠ setting.name := by
        rintro rfl
        rw [Setting.ofName?_name] at known
        cases known
      rw [if_neg other]
  | some named =>
      have same : named = setting ↔ name = setting.name := by
        rw [← Setting.name_of_ofName? known]
        exact ⟨congrArg Setting.name, Setting.name_inj⟩
      cases text : v.toText with
      | ok s => simp only [get_set, same, Except.toOption, Option.getD_some]
      | error reason => simp only [Except.toOption, Option.getD_none, ite_self]

/-- Options that name a setting at most once set it to the text they have for it. -/
theorem get_foldl_setOption (once : (Table.keys options).Nodup) (settings : Settings)
    (setting : Setting) : (options.foldl setOption settings).get setting =
      (options.text? setting).getD (settings.get setting) := by
  induction options generalizing settings with
  | nil => rfl
  | cons option rest ih =>
      obtain ⟨name, v⟩ := option
      rw [Table.keys, List.map_cons, List.nodup_cons] at once
      rw [List.foldl_cons, ih once.2, get_setOption, Options.text?_cons]
      by_cases same : name = setting.name
      · rw [if_pos same, if_pos same, Options.text?_of_notMem (same ▸ once.1), Option.getD_none]
      · rw [if_neg same, if_neg same]

theorem get_ofOptions (once : (Table.keys options).Nodup) (done : ofOptions options = .ok settings)
    (setting : Setting) :
    settings.get setting = (options.text? setting).getD (Settings.get {} setting) := by
  unfold ofOptions at done
  split at done
  · cases done
    exact get_foldl_setOption once {} setting
  · cases done

theorem fit_of_ofOptions (once : (Table.keys options).Nodup)
    (done : ofOptions options = .ok settings) : options.Fit := by
  unfold ofOptions at done
  split at done
  · rename_i none'
    exact (issues_eq_nil_iff once).mp none'
  · cases done

/-! ## Sound settings -/

/-- Every setting holds a text that it would be given again. -/
def Sound (settings : Settings) : Prop :=
  ∀ setting, Setting.reject? setting (settings.get setting) = none

theorem sound_default : Sound {} := by
  intro setting
  cases setting <;> decide

theorem sound_ofOptions (once : (Table.keys options).Nodup)
    (done : ofOptions options = .ok settings) : settings.Sound := by
  intro setting
  rw [get_ofOptions once done]
  cases found : Table.get? setting.name options with
  | none =>
      rw [Options.text?, found, Option.bind_none, Option.getD_none]
      exact sound_default setting
  | some v =>
      obtain ⟨s, text, accepted⟩ := (fit_of_ofOptions once done).text? found
      rwa [text, Option.getD_some]

theorem Sound.isIdentifier (sound : settings.Sound) :
    Text.isIdentifier settings.placeholderStem.toList = true := by
  have accepted := sound .placeholderStem
  rw [Setting.reject?] at accepted
  by_contra other
  rw [get, if_neg other] at accepted
  cases accepted

/-! ## Updates -/

theorem keys_toOptions (settings : Settings) :
    Table.keys settings.toOptions = Setting.all.map Setting.name := by
  rw [Table.keys, toOptions, List.map_map]
  rfl

theorem nodup_toOptions (settings : Settings) : (Table.keys settings.toOptions).Nodup := by
  rw [keys_toOptions]
  decide

theorem get?_toOptions (settings : Settings) (setting : Setting) :
    Table.get? setting.name settings.toOptions = some (.text (settings.get setting)) :=
  Table.get?_of_mem settings.nodup_toOptions (List.mem_map_of_mem setting.mem_all)

theorem get?_renewed (once : (Table.keys options).Nodup) (settings : Settings) (setting : Setting) :
    Table.get? setting.name (Table.putAll options settings.toOptions) =
      some ((Table.get? setting.name options).getD (.text (settings.get setting))) := by
  rw [Table.get?_putAll once, get?_toOptions]
  cases Table.get? setting.name options <;> rfl

/-- An update leaves settings that would be accepted again, whatever it is an update of. -/
theorem sound_update (done : settings.update options = .ok updated) : updated.Sound :=
  sound_ofOptions (Table.nodup_putAll settings.nodup_toOptions) done

/-- A setting is updated to the text that the options have for it, and else left as it is. -/
theorem get_update (once : (Table.keys options).Nodup) (done : settings.update options = .ok updated)
    (setting : Setting) :
    updated.get setting = (options.text? setting).getD (settings.get setting) := by
  have nodup : (Table.keys (Table.putAll options settings.toOptions)).Nodup :=
    Table.nodup_putAll settings.nodup_toOptions
  have renewed := get?_renewed once settings setting
  obtain ⟨s, text, -⟩ := (fit_of_ofOptions nodup done).text? renewed
  rw [get_ofOptions nodup done, text, Option.getD_some]
  rw [Options.text?, renewed, Option.bind_some] at text
  rw [Options.text?]
  cases own : Table.get? setting.name options with
  | none =>
      rw [own] at text
      exact (Option.some.inj text).symm
  | some v =>
      rw [own, Option.getD_some] at text
      rw [Option.bind_some, text, Option.getD_some]

/-- What sound settings hold adds nothing to what is wrong with the options. -/
theorem issues_renewed (sound : settings.Sound) (once : (Table.keys options).Nodup) :
    issues (Table.putAll options settings.toOptions) = issues options := by
  rw [issues_eq, issues_eq, Table.keys_putAll once, keys_toOptions, List.filterMap_append,
    List.filterMap_filter]
  congr 1
  · apply List.filterMap_congr
    intro setting _
    rw [get?_renewed once]
    cases Table.get? setting.name options with
    | some v => rfl
    | none =>
        have accepted : setting.rejectValue? (.text (settings.get setting)) = none :=
          Setting.rejectValue?_eq_none_iff.mpr ⟨_, rfl, sound setting⟩
        rw [Option.getD_none, Option.bind_some, accepted]
        rfl
  · have known : (Setting.all.map Setting.name).filterMap (fun name =>
        if (Setting.ofName? name).isNone then some (Issue.mk name .unknownField) else none) = [] := by
      decide
    rw [known, List.nil_append]
    apply List.filterMap_congr
    intro name _
    by_cases member : name ∈ Setting.all.map Setting.name
    · have named : ¬ (Setting.ofName? name).isNone = true := fun none' =>
        Setting.ofName?_isNone_iff.mp none' member
      rw [if_neg named, if_neg (by simpa using member)]
    · rw [if_pos (by simpa using member)]

/-- From sound settings on, an update checks nothing but its options, and sets them one by one. -/
theorem update_eq (sound : settings.Sound) (once : (Table.keys options).Nodup) :
    settings.update options =
      match issues options with
      | [] => .ok (options.foldl setOption settings)
      | issues => .error (.invalid issues) := by
  have renewed := issues_renewed sound once
  cases issues' : issues options with
  | nil =>
      rw [issues'] at renewed
      have done : settings.update options =
          .ok ((Table.putAll options settings.toOptions).foldl setOption {}) := by
        rw [update, ofOptions, renewed]
      rw [done]
      congr 1
      apply ext_get
      intro setting
      rw [get_update once done, get_foldl_setOption once]
  | cons issue rest => rw [update, ofOptions, renewed, issues']

end Settings
end WhereClause
