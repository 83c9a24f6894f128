import WhereClause.Proofs.Renaming
import WhereClause.Proofs.Rosters
import WhereClause.Proofs.Shortcut

/-!
# Expanding under another stem

Settings with another stem expand the same bindings, to the same elements under the same numbers;
only the names that are made up for the elements have the other stem. If a binder holds only names
that it made up under the initial settings, then whatever the other stem is, no name for an element
is one of the names that are replaced, since it has a later number.

* `SelfNamed.final`, `SelfNamed.rewriting`: what compiling makes of bindings and of texts.
* `SelfNamed.independent`: the replacements do not get in the way of one another.
-/

namespace WhereClause

open Text (IsPlaceholder isWordChar)

/-- Settings that expand as the initial ones do, up to the stem. -/
structure Settings.Customary (settings : Settings) : Prop where
  marker : settings.multiMarker = "[]"
  mark : settings.positionalMark = "?"
  separator : settings.arraySeparator = ", "
  stem : settings.placeholderStem.toList.all isWordChar = true

theorem Settings.customary_default : Settings.Customary {} := ⟨rfl, rfl, rfl, by decide⟩

/-- Options that change the stem and what only building looks at. The new stem is in ASCII. -/
structure Cosmetic (options : Options) (changed : Settings) : Prop where
  only : ∀ name ∈ Table.keys options, name = "placeholder_prefix" ∨ name = "default_multi_type" ∨
    name = "default_conjunction"
  once : (Table.keys options).Nodup
  accepted : Settings.update {} options = .ok changed
  ascii : ∀ c ∈ changed.placeholderStem.toList, c.toNat < 128

theorem Text.all_word_of_isIdentifier {s : List Char} (identifier : isIdentifier s = true)
    (ascii : ∀ c ∈ s, c.toNat < 128) : s.all isWordChar = true := by
  have each : ∀ c ∈ s, isIdentifierChar c = true := by
    cases s with
    | nil => exact nofun
    | cons c rest =>
        simp only [isIdentifier, Bool.and_eq_true, List.all_eq_true] at identifier
        exact List.forall_mem_cons.mpr ⟨isIdentifierChar_of_start identifier.1, identifier.2⟩
  rw [List.all_eq_true]
  intro c member
  have low := ascii c member
  have plain := each c member
  rw [isIdentifierChar, if_pos low, Char.isAlphanum] at plain
  rw [isWordChar, isLetter_of_isAlpha low, isDigit_of_ascii low]
  cases letter : c.isAlpha <;> cases digit : c.isDigit <;> simp_all

/-- A setting that no option names is left as it is. -/
theorem Cosmetic.kept {options : Options} {changed : Settings} (cosmetic : Cosmetic options changed)
    (setting : Setting) (absent : setting.name ∉ Table.keys options) :
    changed.get setting = Settings.get {} setting := by
  rw [Settings.get_update cosmetic.once cosmetic.accepted, Options.text?_of_notMem absent,
    Option.getD_none]

theorem Cosmetic.customary {options : Options} {changed : Settings}
    (cosmetic : Cosmetic options changed) : changed.Customary where
  marker := cosmetic.kept .multiMarker
    fun named => absurd (cosmetic.only _ named) (by decide)
  mark := cosmetic.kept .positionalMark
    fun named => absurd (cosmetic.only _ named) (by decide)
  separator := cosmetic.kept .arraySeparator
    fun named => absurd (cosmetic.only _ named) (by decide)
  stem := Text.all_word_of_isIdentifier (Settings.sound_update cosmetic.accepted).isIdentifier
    cosmetic.ascii

namespace Settings.Customary

variable {settings : Settings} (customary : settings.Customary) (binding : Binding)
include customary

theorem isMulti : binding.isMulti settings = binding.isMulti {} :=
  BindingOf.isMulti_congr customary.marker binding

theorem elementType : binding.elementType settings = binding.elementType {} := by
  have unmarked : settings.unmarked = Settings.unmarked {} := by
    funext type
    rw [Settings.unmarked, customary.marker]
    rfl
  rw [BindingOf.elementType, unmarked]
  rfl

theorem placeholder : binding.placeholder settings = binding.placeholder {} := by
  rw [BindingOf.placeholder, customary.mark]
  rfl

end Settings.Customary

/-! ## Names -/

namespace Binder

variable {settings : Settings} {identifier other : String} {m n : Int}

theorem isPlaceholder_synthesized (customary : settings.Customary)
    (word : identifier.toList.all isWordChar = true) (known : 0 ≤ n) :
    IsPlaceholder (synthesized settings identifier n).toList := by
  obtain ⟨k, rfl⟩ := Int.eq_ofNat_of_zero_le known
  have digits : (Text.numeral k).all isWordChar = true := by
    have decimal : Text.numeral k = Nat.toDigits 10 k := by
      simp [Text.numeral, Int.toString_eq_repr, Int.repr]
    rw [decimal, List.all_eq_true]
    exact fun c member => isWordChar_of_digit (Text.isDigit_of_toDigits member)
  have line : isWordChar '_' = true := by decide
  refine ⟨_, toList_synthesized .., by simp, ?_⟩
  simp only [List.all_append, List.all_cons, customary.stem, word, digits, line, Bool.and_self]

theorem nameFor_of_madeUp (settings : Settings) (identifier : String) (number : Int)
    {token : String} (madeUp : MadeUp token) :
    nameFor settings identifier number (.text token) = synthesized settings identifier number := by
  obtain ⟨numeral, colon⟩ := madeUp
  have head : (token.toList.head? == some ':') = false := by
    rw [beq_eq_false_iff_ne]
    exact fun first => colon (List.mem_of_head? first)
  simp only [nameFor, Value.isNumeric, numeral, head, Bool.false_eq_true, if_false]

/-- What is bound for values, under names that are made up for the numbers from one on. -/
def mint (settings : Settings) (identifier : String) (number : Int) :
    List (Value × Option String) → Bindings
  | [] => []
  | (value, type) :: rest =>
    (number, ⟨withoutFirst (synthesized settings identifier number), value, type⟩) ::
      mint settings identifier (number + 1) rest

/-- The names for numbers, as they stand in the place of a name for several elements. -/
def listing (settings : Settings) (identifier : String) (numbers : List Int) : String :=
  ", ".intercalate (numbers.map (synthesized settings identifier))

theorem mint_append (settings : Settings) (identifier : String) (number : Int)
    (pairs more : List (Value × Option String)) :
    mint settings identifier number (pairs ++ more) =
      mint settings identifier number pairs ++
        mint settings identifier (number + pairs.length) more := by
  induction pairs generalizing number with
  | nil => simp [mint]
  | cons pair rest ih =>
      obtain ⟨value, type⟩ := pair
      simp only [List.cons_append, mint, ih, List.length_cons]
      push_cast
      rw [Int.add_assoc, Int.add_comm 1]

theorem keys_mint (settings : Settings) (identifier : String) (number : Int)
    (pairs : List (Value × Option String)) :
    Table.keys (mint settings identifier number pairs) =
      (List.range pairs.length).map fun i : Nat => number + i := by
  induction pairs generalizing number with
  | nil => rfl
  | cons pair rest ih =>
      obtain ⟨value, type⟩ := pair
      have later := ih (number + 1)
      rw [Table.keys] at later
      rw [mint, Table.keys, List.map_cons, later, List.length_cons, List.range_succ_eq_map,
        List.map_cons, List.map_map]
      congr 1
      · simp
      · refine List.map_congr_left fun i _ => ?_
        simp only [Function.comp_apply]
        push_cast
        omega

end Binder

/-! ## Renewals -/

/-- The placeholders to replace, each with the numbers of the elements that take its place. -/
def Forest.changes (forest : Forest) (number : Int) : List Binding → List (String × List Int)
  | [] => []
  | binding :: rest =>
    let elements := forest.pieces binding
    (binding.placeholder {}, (List.range elements.length).map fun i : Nat => number + i) ::
      forest.changes (number + elements.length) rest

section
variable (settings : Settings) (identifier : String) (forest : Forest)

theorem reservations_mint {token : String} (madeUp : Binder.MadeUp token) (type : Option String)
    (number : Int) (vs : List Value) :
    (Expansion.reservations settings identifier (.text token) number vs).map
        (fun made => (made.1.number, (⟨withoutFirst made.1.name, made.2, type⟩ : Binding))) =
      Binder.mint settings identifier number (vs.map fun v => (v, type)) := by
  induction vs generalizing number with
  | nil => rfl
  | cons v rest ih =>
      rw [Expansion.reservations, List.map_cons, ih, List.map_cons, Binder.mint,
        Binder.nameFor_of_madeUp settings identifier number madeUp]

theorem names_reservations {token : String} (madeUp : Binder.MadeUp token) (number : Int)
    (vs : List Value) :
    (Expansion.reservations settings identifier (.text token) number vs).map (·.1.name) =
      ((List.range vs.length).map fun i : Nat => number + i).map
        (Binder.synthesized settings identifier) := by
  rw [← Expansion.numbers_reservations settings identifier (.text token), List.map_map]
  refine List.map_congr_left fun made member => ?_
  rw [Expansion.name_of_reservations member, Binder.nameFor_of_madeUp _ _ _ madeUp]
  rfl

variable {settings} in
theorem renewals_customary (customary : settings.Customary) {bindings : Bindings} (number : Int)
    (madeUp : ∀ entry ∈ bindings, Binder.MadeUp entry.2.fragment) :
    let renewals := forest.renewals settings identifier number bindings
    let several := bindings.several {}
    renewals.flatMap (Renewal.entries settings) =
        Binder.mint settings identifier number (several.flatMap forest.pieces) ∧
      renewals.map (Renewal.replaced settings) =
        (forest.changes number several).map (Prod.map id (Binder.listing settings identifier)) := by
  induction bindings generalizing number with
  | nil => exact ⟨rfl, rfl⟩
  | cons entry rest ih =>
      obtain ⟨_, binding⟩ := entry
      obtain ⟨here, others⟩ := List.forall_mem_cons.mp madeUp
      cases multi : binding.isMulti {} with
      | false =>
          simpa only [Forest.renewals, customary.isMulti, Bindings.several, List.filter_cons, multi,
            Bool.false_eq_true, if_false] using ih number others
      | true =>
          obtain ⟨added, replaced⟩ := ih (number + (forest.elements binding.value).length) others
          have length : (forest.pieces binding).length = (forest.elements binding.value).length :=
            List.length_map _
          have entries := reservations_mint settings identifier here (binding.elementType {}) number
            (forest.elements binding.value)
          have names := names_reservations settings identifier here number
            (forest.elements binding.value)
          simp only [Bindings.several] at added replaced
          simp only [Forest.renewals, customary.isMulti, Bindings.several, List.filter_cons, multi,
            if_true, List.flatMap_cons, List.map_cons, Forest.changes, Binder.mint_append, length,
            added, replaced]
          refine ⟨?_, ?_⟩
          · rw [Renewal.entries, customary.elementType, entries]
            rfl
          · rw [Renewal.replaced, customary.placeholder, customary.separator, Renewal.names, names]
            rfl

omit settings identifier in
theorem keys_changes (number : Int) (bindings : List Binding) :
    Table.keys (forest.changes number bindings) =
      bindings.map fun binding => binding.placeholder {} := by
  induction bindings generalizing number with
  | nil => rfl
  | cons binding rest ih =>
      rw [Forest.changes, Table.keys, List.map_cons, ← Table.keys, ih, List.map_cons]

theorem mem_changes {number : Int} {bindings : List Binding} {change : String × List Int}
    (member : change ∈ forest.changes number bindings) :
    (∃ binding ∈ bindings, change.1 = binding.placeholder {}) ∧ ∀ n ∈ change.2,
      n ∈ Table.keys (Binder.mint settings identifier number (bindings.flatMap forest.pieces)) := by
  induction bindings generalizing number with
  | nil => cases member
  | cons binding rest ih =>
      rw [List.flatMap_cons, Binder.mint_append, Table.keys, List.map_append]
      rcases List.mem_cons.mp member with rfl | later
      · refine ⟨⟨binding, List.mem_cons_self, rfl⟩, fun n inside => List.mem_append_left _ ?_⟩
        rw [← Table.keys, Binder.keys_mint]
        exact inside
      · obtain ⟨⟨other, known, same⟩, numbers⟩ := ih later
        exact ⟨⟨other, List.mem_cons_of_mem _ known, same⟩,
          fun n inside => List.mem_append_right _ (numbers n inside)⟩

end

/-! ## Compiling -/

namespace Binder

/-- The bindings that compiling renews. -/
def renewing (b : Binder) : List Binding := if b.expands then b.bindings.several {} else []

/-- The bindings that compiling keeps. -/
def keeping (b : Binder) : Bindings := if b.expands then b.bindings.single {} else b.bindings

/-- The bindings of the elements that take the place of what is renewed. -/
def minted (b : Binder) (forest : Forest) (settings : Settings) : Bindings :=
  mint settings b.identifier b.count (b.renewing.flatMap forest.pieces)

/-- The placeholders that compiling replaces, each with the numbers of the elements that take its
place. -/
def numbering (b : Binder) (forest : Forest) : Table String (List Int) :=
  Table.putAll (forest.changes b.count b.renewing) []

/-- The placeholders that compiling replaces, each with the text that takes its place. -/
def exchanges (b : Binder) (forest : Forest) (settings : Settings) : Table String String :=
  (b.numbering forest).map (Prod.map id (listing settings b.identifier))

theorem keys_exchanges (b : Binder) (forest : Forest) (settings : Settings) :
    Table.keys (b.exchanges forest settings) = Table.keys (b.numbering forest) := by
  rw [exchanges, Table.keys, List.map_map]
  rfl

theorem mem_exchanges {b : Binder} (forest : Forest) (settings : Settings) {binding : Binding}
    (member : binding ∈ b.renewing) :
    binding.placeholder {} ∈ Table.keys (b.exchanges forest settings) := by
  rw [keys_exchanges, numbering]
  apply Table.mem_keys_putAll
  rw [keys_changes]
  exact .inl (List.mem_map.mpr ⟨binding, member, rfl⟩)

theorem mem_numbering {b : Binder} (forest : Forest) (settings : Settings)
    {change : String × List Int} (member : change ∈ b.numbering forest) :
    (∃ binding ∈ b.renewing, change.1 = binding.placeholder {}) ∧
      ∀ n ∈ change.2, n ∈ Table.keys (b.minted forest settings) :=
  mem_changes settings b.identifier forest
    ((Table.mem_putAll member).resolve_right List.not_mem_nil)

/-- The binder holds only names that it made up itself under the initial settings. -/
structure SelfNamed (b : Binder) : Prop where
  word : b.identifier.toList.all isWordChar = true
  madeUp : ∀ entry ∈ b.bindings, ∃ k : Nat,
    (k : Int) < b.count ∧ entry.2.placeholder {} = synthesized {} b.identifier k

namespace SelfNamed

variable {b : Binder} {settings : Settings} (forest : Forest)

theorem fragment (selfNamed : b.SelfNamed) : ∀ entry ∈ b.bindings, MadeUp entry.2.fragment := by
  intro entry member
  obtain ⟨k, -, same⟩ := selfNamed.madeUp entry member
  obtain ⟨word, start, -, all⟩ :=
    isPlaceholder_synthesized Settings.customary_default selfNamed.word (Int.natCast_nonneg k)
  have chars : entry.2.fragment.toList = word ∧ word.head? = some 'c' := by
    rw [BindingOf.placeholder] at same
    split at same
    · have mark := congrArg String.toList same
      rw [start] at mark
      cases mark
    · have colon := congrArg String.toList same
      rw [start, String.toList_append] at colon
      refine ⟨List.tail_eq_of_cons_eq colon, ?_⟩
      rw [toList_synthesized] at start
      rw [← List.tail_eq_of_cons_eq start]
      rfl
  obtain ⟨rest, first⟩ := List.head?_eq_some_iff.mp chars.2
  constructor
  · rw [isNumeral, chars.1, first]
    rfl
  · rw [chars.1]
    exact Text.no_colon_of_word all

theorem mem_renewing {binding : Binding} (member : binding ∈ b.renewing) :
    ∃ entry ∈ b.bindings, entry.2 = binding := by
  rw [renewing] at member
  split at member
  · obtain ⟨entry, inside, same⟩ := List.mem_map.mp member
    exact ⟨entry, List.mem_of_mem_filter inside, same⟩
  · cases member

theorem exchange (selfNamed : b.SelfNamed) {replaced : String × String}
    (member : replaced ∈ b.exchanges forest settings) :
    (∃ k : Nat, (k : Int) < b.count ∧ replaced.1 = synthesized {} b.identifier k) ∧
      ∃ numbers, replaced.2 = listing settings b.identifier numbers ∧
        ∀ n ∈ numbers, n ∈ Table.keys (b.minted forest settings) := by
  obtain ⟨change, put, rfl⟩ := List.mem_map.mp member
  obtain ⟨⟨binding, inside, token⟩, numbers⟩ := mem_numbering forest settings put
  obtain ⟨entry, known, rfl⟩ := mem_renewing inside
  obtain ⟨k, below, name⟩ := selfNamed.madeUp entry known
  exact ⟨⟨k, below, token.trans name⟩, change.2, rfl, numbers⟩

/-- The numbers of the elements come after those of what is bound. -/
theorem number_minted (selfNamed : b.SelfNamed) {n : Int}
    (member : n ∈ Table.keys (b.minted forest settings)) : b.count ≤ n ∧ 0 ≤ n := by
  rw [minted, keys_mint] at member
  obtain ⟨i, inside, rfl⟩ := List.mem_map.mp member
  -- Where there is an element there is a binding, and its number was counted.
  obtain ⟨binding, known⟩ : ∃ binding, binding ∈ b.renewing := by
    refine List.exists_mem_of_ne_nil _ fun none' => ?_
    simp [none'] at inside
  obtain ⟨entry, bound, -⟩ := mem_renewing known
  obtain ⟨k, below, -⟩ := selfNamed.madeUp entry bound
  omega

theorem isPlaceholder_minted (selfNamed : b.SelfNamed) (customary : settings.Customary) {n : Int}
    (member : n ∈ Table.keys (b.minted forest settings)) :
    IsPlaceholder (synthesized settings b.identifier n).toList :=
  isPlaceholder_synthesized customary selfNamed.word (selfNamed.number_minted forest member).2

theorem names_listing (selfNamed : b.SelfNamed) (customary : settings.Customary)
    {numbers : List Int} (known : ∀ n ∈ numbers, n ∈ Table.keys (b.minted forest settings)) :
    ∀ name ∈ numbers.map (synthesized settings b.identifier), IsPlaceholder name.toList := by
  intro name member
  obtain ⟨n, inside, rfl⟩ := List.mem_map.mp member
  exact selfNamed.isPlaceholder_minted forest customary (known n inside)

theorem independent (selfNamed : b.SelfNamed) (customary : settings.Customary) :
    Independent (b.exchanges forest settings) where
  distinct := by
    rw [keys_exchanges]
    exact Table.nodup_putAll .nil
  token replaced member := by
    obtain ⟨⟨k, -, same⟩, -⟩ := selfNamed.exchange forest member
    rw [same]
    exact isPlaceholder_synthesized Settings.customary_default selfNamed.word
      (Int.natCast_nonneg k)
  ends replaced member := by
    obtain ⟨-, numbers, text, known⟩ := selfNamed.exchange forest member
    rw [text]
    exact endsWord_intercalate (selfNamed.names_listing forest customary known)
  fresh replaced member other member' := by
    obtain ⟨⟨k, below, same⟩, -⟩ := selfNamed.exchange forest member
    obtain ⟨-, numbers, text, known⟩ := selfNamed.exchange forest member'
    have ends : Text.endsWord [] = true := rfl
    have mentioned :=
      placeholders_intercalate (selfNamed.names_listing forest customary known) ends
    rw [List.append_nil, Text.placeholders, List.append_nil] at mentioned
    rw [same, text, listing, mentioned]
    intro found
    obtain ⟨n, inside, equal⟩ := List.mem_map.mp found
    have late := (selfNamed.number_minted forest (known n inside)).1
    have number := makesUp_inj ⟨settings, rfl⟩ ⟨{}, equal⟩
    omega

theorem final (selfNamed : b.SelfNamed) (numbered : b.Numbered) (customary : settings.Customary) :
    b.final forest settings = b.keeping ++ b.minted forest settings := by
  rw [Binder.final, keeping, minted, renewing]
  split
  · have single : b.bindings.single settings = b.bindings.single {} := by
      simp only [Bindings.single, customary.isMulti]
    rw [numbered.bindings_expand, renewals,
      (renewals_customary b.identifier forest customary b.count selfNamed.fragment).1, single]
  · rw [List.flatMap_nil, mint, List.append_nil]

theorem rewriting (selfNamed : b.SelfNamed) (customary : settings.Customary) (v : Value) :
    b.rewriting forest settings v = v.mapText fun s =>
      String.ofList (Expansion.substituteText (b.exchanges forest settings) s.toList) := by
  rw [Binder.rewriting]
  cases expands : b.expands with
  | true =>
      obtain ⟨-, -, replaced, -⟩ := Expansion.ofBindings_renewals forest settings b.bindings b
      have replacements : (b.expand forest settings).1.replacements =
          b.exchanges forest settings := by
        rw [expand, Expansion.replacements, replaced,
          (renewals_customary b.identifier forest customary b.count selfNamed.fragment).2,
          exchanges, numbering, renewing, expands, if_pos rfl]
        exact Table.putAll_map (p := fun _ => True) (fun _ _ _ _ same => same) (fun _ _ => trivial)
          [] fun _ _ => trivial
      rw [if_pos rfl, WorkspaceM.substitute_mapText, replacements]
  | false =>
      have none' : b.exchanges forest settings = [] := by
        rw [exchanges, numbering, renewing, expands]
        rfl
      rw [none', if_neg Bool.false_ne_true]
      cases v with
      | text s => exact congrArg Value.text String.ofList_toList.symm
      | _ => rfl

end SelfNamed

end Binder
end WhereClause
