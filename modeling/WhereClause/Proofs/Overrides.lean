import WhereClause.Proofs.Options
import WhereClause.Proofs.Orders

/-!
# Settings after a run

Updates and resets may stand anywhere among other operations, which leave the settings as they are.
All settings that a run comes to are sound, so that an update is accepted or refused for its options
alone, wherever it stands. In the end every setting has the text of the last accepted update that
names it, if no reset came after that.

* `get_adjust`: what one update does to one setting.
* `settings_overridden`: the settings after every run, updates that commute and updates in one.
-/

namespace WhereClause

/-! ## One update after the other -/

/-- What an update makes of the text of a setting. A refused one leaves it. -/
def Options.revise (options : Options) (setting : Setting) (s : String) : String :=
  if options.Fit then (options.text? setting).getD s else s

namespace Settings

variable {settings : Settings} {options first second : Options}

/-- The settings after an update, whether or not it is accepted. -/
def adjust (settings : Settings) (options : Options) : Settings :=
  (settings.update options).toOption.getD settings

theorem Sound.update_of_fit (sound : settings.Sound) (once : (Table.keys options).Nodup)
    (fit : options.Fit) : ∃ updated, settings.update options = .ok updated := by
  rw [update_eq sound once, (issues_eq_nil_iff once).mpr fit]
  exact ⟨_, rfl⟩

theorem Sound.update_of_not_fit (sound : settings.Sound) (once : (Table.keys options).Nodup)
    (unfit : ¬ options.Fit) : settings.update options = .error (.invalid (issues options)) := by
  rw [update_eq sound once]
  split
  · rename_i none'
    exact absurd ((issues_eq_nil_iff once).mp none') unfit
  · rfl

theorem get_adjust (sound : settings.Sound) (once : (Table.keys options).Nodup)
    (setting : Setting) :
    (settings.adjust options).get setting = options.revise setting (settings.get setting) := by
  rw [adjust, Options.revise]
  split
  · rename_i fit
    obtain ⟨updated, done⟩ := sound.update_of_fit once fit
    rw [done]
    exact get_update once done setting
  · rename_i unfit
    rw [sound.update_of_not_fit once unfit]
    rfl

theorem Sound.adjust (sound : settings.Sound) (options : Options) :
    (settings.adjust options).Sound := by
  rw [Settings.adjust]
  cases done : settings.update options with
  | ok updated => exact sound_update done
  | error fault => exact sound

/-- Updates that have no setting in common can change places. -/
theorem adjust_comm (sound : settings.Sound) (once : (Table.keys first).Nodup)
    (once' : (Table.keys second).Nodup) (apart : (Table.keys first).Disjoint (Table.keys second)) :
    (settings.adjust first).adjust second = (settings.adjust second).adjust first := by
  apply ext_get
  intro setting
  rw [get_adjust (sound.adjust first) once', get_adjust sound once,
    get_adjust (sound.adjust second) once, get_adjust sound once']
  have untouched {options : Options} (absent : setting.name ∉ Table.keys options) (s : String) :
      options.revise setting s = s := by
    rw [Options.revise, Options.text?_of_notMem absent, Option.getD_none, ite_self]
  by_cases named : setting.name ∈ Table.keys first
  · rw [untouched (apart named), untouched (apart named)]
  · rw [untouched named, untouched named]

end Settings

namespace Options

variable {first second : Options}

/-- All the options in one, the later ones over the earlier ones. -/
def merged (calls : List Options) : Options :=
  calls.foldl (fun merged options => Table.putAll options merged) []

theorem merged_concat (calls : List Options) (options : Options) :
    merged (calls ++ [options]) = Table.putAll options (merged calls) := by
  rw [merged, List.foldl_append]
  rfl

theorem Fit.putAll (fit : first.Fit) (fit' : second.Fit) : Fit (Table.putAll second first) :=
  fun entry member => (Table.mem_putAll member).elim (fit' entry) (fit entry)

theorem nodup_merged (calls : List Options) : (Table.keys (merged calls)).Nodup := by
  induction calls using List.reverseRecOn with
  | nil => exact .nil
  | append_singleton calls options ih =>
      rw [merged_concat]
      exact Table.nodup_putAll ih

theorem fit_merged {calls : List Options} (fit : ∀ options ∈ calls, options.Fit) :
    (merged calls).Fit := by
  induction calls using List.reverseRecOn with
  | nil => exact nofun
  | append_singleton calls options ih =>
      rw [merged_concat]
      exact (ih fun other member => fit other (List.mem_append_left _ member)).putAll
        (fit options (by simp))

/-- Of two updates that are accepted, the second has the last word on what it names. -/
theorem revise_putAll (once : (Table.keys second).Nodup) (fit : first.Fit) (fit' : second.Fit)
    (setting : Setting) (s : String) :
    revise (Table.putAll second first) setting s =
      second.revise setting (first.revise setting s) := by
  rw [revise, revise, revise, if_pos (fit.putAll fit'), if_pos fit, if_pos fit', text?,
    Table.get?_putAll once]
  cases own : Table.get? setting.name second with
  | none =>
      rw [Option.none_or, ← text?, text?.eq_1 second, own]
      rfl
  | some v =>
      obtain ⟨t, text, -⟩ := fit'.text? own
      rw [text, Option.some_or, ← own, ← text?, text]
      rfl

end Options

/-- Accepted updates can be done in one. -/
theorem Settings.foldl_adjust {settings : Settings} (sound : settings.Sound) {calls : List Options}
    (once : ∀ options ∈ calls, (Table.keys options).Nodup)
    (fit : ∀ options ∈ calls, options.Fit) :
    calls.foldl adjust settings = settings.adjust (Options.merged calls) := by
  induction calls using List.reverseRecOn with
  | nil =>
      apply ext_get
      intro setting
      rw [get_adjust sound (Options.nodup_merged [])]
      rfl
  | append_singleton calls options ih =>
      have before {p : Options → Prop} (all : ∀ other ∈ calls ++ [options], p other) :
          ∀ other ∈ calls, p other :=
        fun other member => all other (List.mem_append_left _ member)
      have merged := Options.nodup_merged (calls ++ [options])
      rw [List.foldl_append, ih (before once) (before fit)]
      apply ext_get
      intro setting
      rw [get_adjust sound merged, Options.merged_concat,
        Options.revise_putAll (once options (by simp)) (Options.fit_merged (before fit))
          (fit options (by simp)),
        ← get_adjust sound (Options.nodup_merged calls)]
      exact get_adjust (sound.adjust _) (once options (by simp)) setting

/-! ## Last words -/

namespace Operation

/-- The operation is an update that is accepted and has the text for the setting. -/
def Sets (setting : Setting) (s : String) (operation : Operation) : Prop :=
  ∃ options, operation = configure options ∧ options.Fit ∧ options.text? setting = some s

/-- The operation is no reset, and no update that is accepted and names the setting. -/
def Leaves (setting : Setting) (operation : Operation) : Prop :=
  operation ≠ reset ∧ ∀ s, ¬ operation.Sets setting s

/-- The last of the operations that does not leave the setting sets it to the text. -/
def LastWord (operations : List Operation) (setting : Setting) (s : String) : Prop :=
  ∃ before operation later, operations = before ++ operation :: later ∧
    operation.Sets setting s ∧ ∀ other ∈ later, other.Leaves setting

variable {operations : List Operation} {operation : Operation} {setting : Setting} {s : String}

theorem not_lastWord_nil : ¬ LastWord [] setting s := by
  rintro ⟨before, operation, later, split, -⟩
  simp at split

theorem lastWord_concat : LastWord (operations ++ [operation]) setting s ↔
    operation.Sets setting s ∨ operation.Leaves setting ∧ LastWord operations setting s := by
  constructor
  · rintro ⟨before, other, later, split, sets, leave⟩
    rcases List.eq_nil_or_concat later with rfl | ⟨later, last, rfl⟩
    · obtain ⟨-, same⟩ := List.append_inj' split rfl
      cases same
      exact .inl sets
    · rw [List.concat_eq_append, ← List.cons_append, ← List.append_assoc] at split
      obtain ⟨whole, same⟩ := List.append_inj' split rfl
      cases same
      have leave' : ∀ other ∈ later, other.Leaves setting :=
        fun other member => leave other (by simp [member])
      exact .inr ⟨leave operation (by simp), before, other, later, whole, sets, leave'⟩
  · rintro (sets | ⟨leaves, before, other, later, rfl, sets, leave⟩)
    · exact ⟨operations, operation, [], rfl, sets, nofun⟩
    · refine ⟨before, other, later ++ [operation], by simp, sets, ?_⟩
      intro last member
      rcases List.mem_append.mp member with inside | here
      · exact leave last inside
      · rwa [List.mem_singleton.mp here]

end Operation

open Operation (LastWord)

namespace Workspace

variable {p : Policy} {w : Workspace} {operation : Operation} {setting : Setting} {s : String}

/-! ## One operation -/

theorem settings_perform_configure (w : Workspace) (options : Options) :
    (w.perform (.configure options)).settings = w.settings.adjust options := by
  rw [Settings.adjust]
  cases updated : w.settings.update options with
  | ok settings =>
      rw [perform_configure updated]
      rfl
  | error fault =>
      rw [perform_configure_refused updated]
      rfl

theorem settings_of_works (made : w.WellMade) (fits : operation.Fits .free w)
    (works : ¬ operation.Adjusts) : (w.perform operation).settings = w.settings := by
  obtain ⟨trace, moves⟩ := acts_of_works trivial trivial made fits works
  exact settings_of_moves moves

theorem sound_perform (made : w.WellMade) (sound : w.settings.Sound)
    (fits : operation.Fits .free w) : (w.perform operation).settings.Sound := by
  by_cases adjusts : operation.Adjusts
  · rcases adjusts with ⟨options, rfl⟩ | rfl
    · rw [settings_perform_configure]
      exact sound.adjust options
    · exact Settings.sound_default
  · rw [settings_of_works made fits adjusts]
    exact sound

theorem get_perform_of_sets (sound : w.settings.Sound) (fits : operation.Fits .free w)
    (sets : operation.Sets setting s) : (w.perform operation).settings.get setting = s := by
  obtain ⟨options, rfl, fit, text⟩ := sets
  rw [settings_perform_configure, Settings.get_adjust sound fits, Options.revise, if_pos fit, text,
    Option.getD_some]

theorem get_perform_of_leaves (made : w.WellMade) (sound : w.settings.Sound)
    (fits : operation.Fits .free w) (leaves : operation.Leaves setting) :
    (w.perform operation).settings.get setting = w.settings.get setting := by
  by_cases adjusts : operation.Adjusts
  · rcases adjusts with ⟨options, rfl⟩ | rfl
    · rw [settings_perform_configure, Settings.get_adjust sound fits, Options.revise]
      split
      · rename_i fit
        cases text : options.text? setting with
        | none => rfl
        | some s => exact absurd ⟨options, rfl, fit, text⟩ (leaves.2 s)
      · rfl
    · exact absurd rfl leaves.1
  · rw [settings_of_works made fits adjusts]

/-! ## Runs -/

theorem after_concat (w : Workspace) (operations : List Operation) (operation : Operation) :
    w.after (operations ++ [operation]) = (w.after operations).perform operation := by
  rw [after, List.foldl_append]
  rfl

theorem sound_after {operations : List Operation} (made : w.WellMade) (sound : w.settings.Sound)
    (allows : w.Allows .free operations) : (w.after operations).settings.Sound := by
  induction operations generalizing w with
  | nil => exact sound
  | cons operation rest ih =>
      exact ih (made.perform trivial trivial allows.1) (sound_perform made sound allows.1) allows.2

theorem settings_after_configures (w : Workspace) (calls : List Options) :
    (w.after (calls.map .configure)).settings = calls.foldl Settings.adjust w.settings := by
  induction calls generalizing w with
  | nil => rfl
  | cons options rest ih =>
      rw [List.foldl_cons, ← settings_perform_configure]
      exact ih _

/-- After a run every setting has its last word, and if there is none, its initial text. -/
theorem get_after (n : Nat) {operations : List Operation}
    (allows : Workspace.Allows .free { nextIdentifier := n } operations) (setting : Setting) :
    let settings := (Workspace.after { nextIdentifier := n } operations).settings
    (∀ s, LastWord operations setting s → settings.get setting = s) ∧
      ((∀ s, ¬ LastWord operations setting s) →
        settings.get setting = Settings.get {} setting) := by
  induction operations using List.reverseRecOn with
  | nil => exact ⟨fun s word => absurd word Operation.not_lastWord_nil, fun _ => rfl⟩
  | append_singleton operations operation ih =>
      obtain ⟨allows, fits, -⟩ := allows_append.mp allows
      obtain ⟨word, initial⟩ := ih allows
      have made := WellMade.after (p := .free) trivial trivial (.empty n) allows
      have sound := sound_after (.empty n) Settings.sound_default allows
      simp only [Operation.lastWord_concat, after_concat]
      by_cases sets : ∃ s, operation.Sets setting s
      · obtain ⟨s, sets⟩ := sets
        refine ⟨?_, fun none' => absurd (.inl sets) (none' s)⟩
        rintro t (sets' | ⟨leaves, -⟩)
        · exact get_perform_of_sets sound fits sets'
        · exact absurd sets (leaves.2 s)
      · rw [not_exists] at sets
        by_cases reset : operation = .reset
        · subst reset
          refine ⟨?_, fun _ => rfl⟩
          rintro s (sets' | ⟨leaves, -⟩)
          · exact absurd sets' (sets s)
          · exact absurd rfl leaves.1
        · have leaves : operation.Leaves setting := ⟨reset, sets⟩
          rw [get_perform_of_leaves made sound fits leaves]
          refine ⟨?_, fun none' => initial fun s word => none' s (.inr ⟨leaves, word⟩)⟩
          rintro s (sets' | ⟨-, last⟩)
          · exact absurd sets' (sets s)
          · exact word s last

end Workspace

namespace WorkspaceM

/-- After every run: an update is accepted exactly if its options fit, whatever the settings are by
then, and it is logged; otherwise nothing changes, and the fault tells what is wrong with the
options. Every setting has its last word, and if there is none, its initial text. So updates with no
setting in common can change places, and updates that are accepted can be done in one. -/
theorem settings_overridden (n : Nat) {operations : List Operation}
    (allows : Workspace.Allows .free { nextIdentifier := n } operations) {w : Workspace}
    (made : w = Workspace.after { nextIdentifier := n } operations) :
    (∀ options : Options, (Table.keys options).Nodup →
      ((∃ settings, run (configure options) w = (.ok settings, { w with
          settings, records := w.records ++ [⟨.settingsUpdated options, w.toForest⟩] })) ↔
        options.Fit) ∧
      (run (configure options) w = (.error (.invalid (Settings.issues options)), w) ↔
        ¬ options.Fit)) ∧
    (∀ setting, (∀ s, LastWord operations setting s → w.settings.get setting = s) ∧
      ((∀ s, ¬ LastWord operations setting s) →
        w.settings.get setting = Settings.get {} setting)) ∧
    (∀ first second : Options, (Table.keys first).Nodup → (Table.keys second).Nodup →
      (Table.keys first).Disjoint (Table.keys second) →
      (w.after [.configure first, .configure second]).settings =
        (w.after [.configure second, .configure first]).settings) ∧
    ∀ calls : List Options, (∀ options ∈ calls, (Table.keys options).Nodup ∧ options.Fit) →
      (Options.merged calls).Fit ∧
      (w.after (calls.map .configure)).settings =
        (w.perform (.configure (Options.merged calls))).settings := by
  have sound : w.settings.Sound :=
    made ▸ Workspace.sound_after (.empty n) Settings.sound_default allows
  refine ⟨fun options once => ?_, fun setting => made ▸ Workspace.get_after n allows setting,
    fun first second once once' apart => ?_, fun calls each => ?_⟩
  · by_cases fit : options.Fit
    · obtain ⟨settings, updated⟩ := sound.update_of_fit once fit
      have done := run_configure_ok updated
      refine ⟨iff_of_true ⟨settings, done⟩ fit, iff_of_false ?_ (not_not_intro fit)⟩
      rw [done]
      exact nofun
    · have failed := run_configure_error (sound.update_of_not_fit once fit)
      refine ⟨iff_of_false ?_ fit, iff_of_true failed fit⟩
      rw [failed]
      exact nofun
  · calc (w.after [.configure first, .configure second]).settings
      _ = (w.settings.adjust first).adjust second :=
        Workspace.settings_after_configures w [first, second]
      _ = (w.settings.adjust second).adjust first := Settings.adjust_comm sound once once' apart
      _ = (w.after [.configure second, .configure first]).settings :=
        (Workspace.settings_after_configures w [second, first]).symm
  · have fit := fun options member => (each options member).2
    refine ⟨Options.fit_merged fit, ?_⟩
    rw [Workspace.settings_after_configures, Workspace.settings_perform_configure]
    exact Settings.foldl_adjust sound (fun options member => (each options member).1) fit

/-- Two updates with a reset and a tree before the second, and one more that is refused. -/
def overriding : List Operation :=
  [.configure [("placeholder_prefix", .text "p"), ("array_separator", .text ",")],
    .newTree (.text "a = 1") .null .null none, .reset,
    .configure [("placeholder_prefix", .text "q"), ("multi_marker", .bytes [42])],
    .configure [("placeholder_prefix", .text "r"), ("multi_marker", .text "")]]

theorem allows_overriding : Workspace.Allows .free { nextIdentifier := 1 } overriding := by
  refine ⟨?_, ⟨fun _ _ _ => trivial, nofun⟩, trivial, ?_, ?_, trivial⟩
  all_goals
    show (Table.keys _).Nodup
    decide

theorem lastWord_overriding : LastWord overriding .placeholderStem "q" := by
  refine ⟨overriding.take 3, _, overriding.drop 4, rfl, ⟨_, rfl, by decide, rfl⟩, ?_⟩
  intro other member
  rw [List.mem_singleton.mp member]
  refine ⟨nofun, ?_⟩
  rintro s ⟨options, same, fit, -⟩
  cases same
  exact absurd fit (by decide)

theorem no_lastWord_overriding (s : String) : ¬ LastWord overriding .arraySeparator s := by
  show ¬ LastWord ((overriding.take 2 ++ [.reset]) ++ [_] ++ [_]) .arraySeparator s
  rw [Operation.lastWord_concat, Operation.lastWord_concat, Operation.lastWord_concat]
  rintro (⟨_, same, -, text⟩ | ⟨-, ⟨_, same, -, text⟩ | ⟨-, ⟨_, same, -⟩ | ⟨leaves, -⟩⟩⟩)
  · cases same
    cases text
  · cases same
    cases text
  · cases same
  · exact leaves.1 rfl

theorem settings_overridden_overriding :
    let w := Workspace.after { nextIdentifier := 1 } overriding
    Workspace.Allows .free { nextIdentifier := 1 } overriding ∧
    (LastWord overriding .placeholderStem "q" ∧ w.settings.get .placeholderStem = "q") ∧
    ((∀ s, ¬ LastWord overriding .arraySeparator s) ∧ w.settings.get .arraySeparator = ", ") ∧
    run (configure [("quoting", .text "double")]) w =
      (.error (.invalid [⟨"quoting", .unknownField⟩]), w) ∧
    (w.after [.configure [("array_separator", .text ";")],
        .configure [("placeholder_prefix", .text "r")]]).settings =
      (w.after [.configure [("placeholder_prefix", .text "r")],
        .configure [("array_separator", .text ";")]]).settings ∧
    (w.after [.configure [("placeholder_prefix", .text "r"), ("array_separator", .text ";")],
        .configure [("placeholder_prefix", .text "s")]]).settings =
      (w.perform
        (.configure [("placeholder_prefix", .text "s"), ("array_separator", .text ";")])).settings := by
  obtain ⟨verdict, texts, swap, merge⟩ := settings_overridden 1 allows_overriding rfl
  have joined := merge [[("placeholder_prefix", .text "r"), ("array_separator", .text ";")],
    [("placeholder_prefix", .text "s")]] (by decide)
  refine ⟨allows_overriding, ⟨lastWord_overriding, (texts _).1 _ lastWord_overriding⟩,
    ⟨no_lastWord_overriding, (texts _).2 no_lastWord_overriding⟩, ?_,
    swap _ _ (by decide) (by decide) (by simp [Table.keys]), joined.2⟩
  exact (verdict [("quoting", .text "double")] (by decide)).2.mpr (by decide)

end WorkspaceM
end WhereClause
