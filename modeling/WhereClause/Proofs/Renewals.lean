import WhereClause.Proofs.Numbering

/-!
# What expanding comes to

Expanding a binder keeps the bindings that are not for several elements, and renews each of the
others: every element is bound under a number of its own, from the count on, and the placeholder of
the binding is replaced by those of the elements. This holds under any settings and for any names.

* `ofBindings_renewals`: what is kept, what is added, what is replaced, and what is left.
* `Numbered.bindings_expand`: nothing that is added takes the place of what is kept.
-/

namespace WhereClause

/-- A binding for several elements, with what was handed out for each. -/
structure Renewal where
  binding : Binding
  elements : List (Reservation × Value)

namespace Renewal

variable (settings : Settings) (renewal : Renewal)

def names : List String := renewal.elements.map (·.1.name)

def entries : Bindings :=
  renewal.elements.map fun made =>
    (made.1.number, ⟨withoutFirst made.1.name, made.2, renewal.binding.elementType settings⟩)

/-- The placeholder to replace, with the text that takes its place. -/
def replaced : String × String :=
  (renewal.binding.placeholder settings, settings.arraySeparator.intercalate renewal.names)

end Renewal

/-- What is handed out for elements, under the numbers from one on. -/
def Expansion.reservations (settings : Settings) (identifier : String) (token : Value)
    (number : Int) : List Value → List (Reservation × Value)
  | [] => []
  | v :: rest =>
    (⟨number, Binder.nameFor settings identifier number token⟩, v) ::
      reservations settings identifier token (number + 1) rest

/-- The bindings for several elements, each renewed under the numbers that follow. -/
def Forest.renewals (forest : Forest) (settings : Settings) (identifier : String) (number : Int) :
    Bindings → List Renewal
  | [] => []
  | (_, binding) :: rest =>
    if binding.isMulti settings then
      let elements := forest.elements binding.value
      ⟨binding, Expansion.reservations settings identifier (.text binding.fragment) number elements⟩
        :: forest.renewals settings identifier (number + elements.length) rest
    else forest.renewals settings identifier number rest

def Binder.renewals (b : Binder) (forest : Forest) (settings : Settings) : List Renewal :=
  forest.renewals settings b.identifier b.count b.bindings

namespace Bindings

/-- What expanding keeps. -/
def single (bindings : Bindings) (settings : Settings) : Bindings :=
  bindings.filter fun entry => !entry.2.isMulti settings

/-- What expanding renews. -/
def several (bindings : Bindings) (settings : Settings) : List Binding :=
  (bindings.filter fun entry => entry.2.isMulti settings).map Prod.snd

end Bindings

namespace Expansion

variable (forest : Forest) (settings : Settings)

theorem reserveEach_reservations (token : Value) (vs : List Value) (b : Binder) :
    (reserveEach settings token vs b).1 =
      reservations settings b.identifier token b.count vs := by
  induction vs generalizing b with
  | nil => rfl
  | cons v rest ih =>
      simp only [reserveEach, reservations, ih, Binder.count_reserve, Binder.identifier_reserve]
      rfl

theorem length_reservations (identifier : String) (token : Value) (number : Int)
    (vs : List Value) :
    (reservations settings identifier token number vs).length = vs.length := by
  induction vs generalizing number with
  | nil => rfl
  | cons v rest ih => rw [reservations, List.length_cons, ih, List.length_cons]

theorem numbers_reservations (identifier : String) (token : Value) (number : Int)
    (vs : List Value) :
    (reservations settings identifier token number vs).map (·.1.number) =
      (List.range vs.length).map fun i : Nat => number + i := by
  induction vs generalizing number with
  | nil => rfl
  | cons v rest ih =>
      rw [reservations, List.map_cons, ih, List.length_cons, List.range_succ_eq_map,
        List.map_cons, List.map_map]
      congr 1
      · simp
      · refine List.map_congr_left fun i _ => ?_
        simp only [Function.comp_apply]
        push_cast
        omega

variable {settings} in
theorem name_of_reservations {identifier : String} {token : Value} {number : Int}
    {vs : List Value} {made : Reservation × Value}
    (member : made ∈ reservations settings identifier token number vs) :
    made.1.name = Binder.nameFor settings identifier made.1.number token := by
  induction vs generalizing number with
  | nil => cases member
  | cons v rest ih =>
      rcases List.mem_cons.mp member with rfl | later
      · rfl
      · exact ih later

theorem ofBindings_renewals (bindings : Bindings) (b : Binder) :
    let renewals := forest.renewals settings b.identifier b.count bindings
    let made := ofBindings forest settings bindings b
    made.1.kept = bindings.single settings ∧
      made.1.added = renewals.flatMap (Renewal.entries settings) ∧
      made.1.replaced = renewals.map (Renewal.replaced settings) ∧
      made.2 = { b with
        count := b.count + (renewals.flatMap (Renewal.entries settings)).length } := by
  induction bindings generalizing b with
  | nil => exact ⟨rfl, rfl, rfl, by simp [ofBindings, Forest.renewals]⟩
  | cons entry rest ih =>
      obtain ⟨number, binding⟩ := entry
      cases multi : binding.isMulti settings with
      | false =>
          obtain ⟨kept, added, replaced, spent⟩ := ih b
          simp only [ofBindings, Forest.renewals, multi, Bool.false_eq_true, if_false]
          refine ⟨?_, added, replaced, spent⟩
          simp only [kept, Bindings.single, List.filter_cons, multi, Bool.not_false, if_true]
      | true =>
          have drawn := reserveEach_reservations settings (.text binding.fragment)
            (forest.elements binding.value) b
          have advanced := reserveEach_binder settings (.text binding.fragment)
            (forest.elements binding.value) b
          obtain ⟨kept, added, replaced, spent⟩ :=
            ih (reserveEach settings (.text binding.fragment) (forest.elements binding.value) b).2
          rw [advanced] at kept added replaced spent
          simp only [ofBindings, Forest.renewals, multi, if_true, advanced, drawn, addMulti]
          refine ⟨?_, ?_, ?_, ?_⟩
          · simp only [kept, Bindings.single, List.filter_cons, multi, Bool.not_true,
              Bool.false_eq_true, if_false]
          · rw [added, List.flatMap_cons]
            rfl
          · rw [replaced, List.map_cons]
            rfl
          · rw [spent, List.flatMap_cons, List.length_append, Renewal.entries, List.length_map,
              length_reservations]
            simp only [Binder.mk.injEq, true_and, and_true]
            push_cast
            omega

theorem keys_renewals (identifier : String) (number : Int) (bindings : Bindings) :
    let entries := (forest.renewals settings identifier number bindings).flatMap
      (Renewal.entries settings)
    Table.keys entries = (List.range entries.length).map fun i : Nat => number + i := by
  induction bindings generalizing number with
  | nil => rfl
  | cons entry rest ih =>
      obtain ⟨_, binding⟩ := entry
      simp only [Forest.renewals]
      split
      · have later := ih (number + (forest.elements binding.value).length)
        have here := numbers_reservations settings identifier (.text binding.fragment) number
          (forest.elements binding.value)
        dsimp only at later ⊢
        rw [List.flatMap_cons, Table.keys, List.map_append, List.length_append, List.range_add,
          List.map_append, ← Table.keys, ← Table.keys, later]
        congr 1
        · rw [Table.keys, Renewal.entries, List.map_map, List.length_map, length_reservations]
          exact here
        · rw [List.map_map]
          refine List.map_congr_left fun i _ => ?_
          rw [Function.comp_apply, Renewal.entries, List.length_map, length_reservations]
          push_cast
          omega
      · exact ih number

theorem nodup_renewals (identifier : String) (number : Int) (bindings : Bindings) :
    (Table.keys ((forest.renewals settings identifier number bindings).flatMap
      (Renewal.entries settings))).Nodup := by
  rw [keys_renewals]
  exact List.nodup_range.map fun i j same => Int.ofNat.inj (Int.add_left_cancel same)

end Expansion

/-- A renewal is that of a binding for several elements, which are all those of its value. -/
theorem Forest.mem_renewals {forest : Forest} {settings : Settings} {identifier : String}
    {number : Int} {bindings : Bindings} {renewal : Renewal}
    (member : renewal ∈ forest.renewals settings identifier number bindings) :
    renewal.binding ∈ bindings.several settings ∧ ∃ start, renewal.elements =
      Expansion.reservations settings identifier (.text renewal.binding.fragment) start
        (forest.elements renewal.binding.value) := by
  induction bindings generalizing number with
  | nil => cases member
  | cons entry rest ih =>
      obtain ⟨_, binding⟩ := entry
      simp only [Forest.renewals, Bindings.several] at member ih ⊢
      cases multi : binding.isMulti settings with
      | false =>
          rw [List.filter_cons, multi]
          rw [multi] at member
          exact ih member
      | true =>
          rw [List.filter_cons, multi, if_pos rfl, List.map_cons]
          rw [multi, if_pos rfl] at member
          rcases List.mem_cons.mp member with rfl | later
          · exact ⟨List.mem_cons_self, number, rfl⟩
          · obtain ⟨inside, start, drawn⟩ := ih later
            exact ⟨List.mem_cons_of_mem _ inside, start, drawn⟩

theorem Forest.bindings_renewals (forest : Forest) (settings : Settings) (identifier : String)
    (number : Int) (bindings : Bindings) :
    (forest.renewals settings identifier number bindings).map Renewal.binding =
      bindings.several settings := by
  induction bindings generalizing number with
  | nil => rfl
  | cons entry rest ih =>
      obtain ⟨_, binding⟩ := entry
      simp only [Forest.renewals, Bindings.several] at ih ⊢
      cases multi : binding.isMulti settings with
      | false => simpa only [List.filter_cons, multi, Bool.false_eq_true, if_false] using ih number
      | true => simp only [List.filter_cons, multi, if_true, List.map_cons, ih]

namespace Binder

variable {b : Binder} (forest : Forest) (settings : Settings)

/-- After expanding, what is kept comes first, and then the elements in order. -/
theorem Numbered.bindings_expand (numbered : b.Numbered) :
    (b.expand forest settings).1.bindings =
      b.bindings.single settings ++
        (b.renewals forest settings).flatMap (Renewal.entries settings) := by
  obtain ⟨kept, added, -, -⟩ := Expansion.ofBindings_renewals forest settings b.bindings b
  rw [expand, Expansion.bindings, kept, added]
  have before : (Table.keys (b.bindings.single settings)).Sublist (Table.keys b.bindings) :=
    List.filter_sublist.map _
  apply Table.putAll_of_nodup
  rw [Table.keys, List.map_append, List.nodup_append]
  refine ⟨numbered.distinct.sublist before, Expansion.nodup_renewals .., ?_⟩
  rintro number known other free rfl
  rw [← Table.keys, Expansion.keys_renewals] at free
  obtain ⟨i, -, same⟩ := List.mem_map.mp free
  have less := numbered.below number (before.subset known)
  omega

end Binder

/-! ## Under the initial settings -/

theorem nameFor_fragment (identifier : String) (number : Int) {fragment : String}
    (noColon : ':' ∉ fragment.toList) :
    Binder.nameFor {} identifier number (.text fragment) =
      if isNumeral fragment then "?" else Binder.synthesized {} identifier number := by
  have head : (fragment.toList.head? == some ':') = false := by
    rw [beq_eq_false_iff_ne]
    exact fun start => noColon (List.mem_of_head? start)
  simp only [Binder.nameFor, Value.isNumeric, head, Bool.false_eq_true, if_false]

theorem toList_synthesized (identifier : String) (number : Int) :
    (Binder.synthesized {} identifier number).toList =
      ':' :: 'c' :: (identifier.toList ++ '_' :: Text.numeral number) := by
  simp [Binder.synthesized, Text.numeral]

theorem placeholder_synthesized (identifier : String) (number : Int) (value : Value)
    (type : Option String) :
    (⟨withoutFirst (Binder.synthesized {} identifier number), value, type⟩ : Binding).placeholder
        {} = Binder.synthesized {} identifier number ∧
      (⟨withoutFirst (Binder.synthesized {} identifier number), value, type⟩ : Binding).isNamed =
        true := by
  have fragment : (withoutFirst (Binder.synthesized {} identifier number)).toList =
      'c' :: (identifier.toList ++ '_' :: Text.numeral number) := by
    rw [withoutFirst, String.toList_ofList, toList_synthesized, List.drop_succ_cons,
      List.drop_zero]
  have some' : (withoutFirst (Binder.synthesized {} identifier number)).isEmpty = false := by
    rw [← Bool.not_eq_true, String.isEmpty_iff, ← String.toList_inj, fragment]
    exact List.cons_ne_nil _ _
  constructor
  · rw [BindingOf.placeholder, some', if_neg Bool.false_ne_true, ← String.toList_inj,
      String.toList_append, fragment, toList_synthesized]
    rfl
  · rw [BindingOf.isNamed, some', Bool.not_false]

theorem placeholder_nameFor (identifier : String) (number : Int) {fragment : String}
    (noColon : ':' ∉ fragment.toList) (value : Value) (type : Option String) :
    let name := Binder.nameFor {} identifier number (.text fragment)
    (⟨withoutFirst name, value, type⟩ : Binding).placeholder {} = name := by
  simp only [nameFor_fragment identifier number noColon]
  split
  · rfl
  · exact (placeholder_synthesized identifier number value type).1

namespace Renewal

variable {b : Binder} {forest : Forest} {renewal : Renewal}

/-- The placeholder to replace, with those that take its place. -/
def listing (renewal : Renewal) : String × String :=
  (renewal.binding.placeholder {},
    ", ".intercalate ((renewal.entries {}).map fun entry => entry.2.placeholder {}))

section
variable (member : renewal ∈ b.renewals forest {}) (noColon : ':' ∉ renewal.binding.fragment.toList)
include member noColon

theorem mem_entries {entry : Int × Binding} (inside : entry ∈ renewal.entries {}) :
    ∃ made ∈ renewal.elements, made.1.name =
        (if isNumeral renewal.binding.fragment then "?"
          else Binder.synthesized {} b.identifier entry.1) ∧
      entry.2 = ⟨withoutFirst made.1.name, made.2, renewal.binding.elementType {}⟩ := by
  obtain ⟨-, start, drawn⟩ := Forest.mem_renewals member
  obtain ⟨made, known, rfl⟩ := List.mem_map.mp inside
  refine ⟨made, known, ?_, rfl⟩
  rw [drawn] at known
  rw [Expansion.name_of_reservations known, nameFor_fragment _ _ noColon]

theorem positional_of_numeral (numeral : isNumeral renewal.binding.fragment = true)
    {entry : Int × Binding} (inside : entry ∈ renewal.entries {}) : entry.2.fragment = "" := by
  obtain ⟨made, -, name, same⟩ := mem_entries member noColon inside
  rw [numeral, if_pos rfl] at name
  rw [same, name]
  rfl

theorem named_of_not_numeral (numeral : isNumeral renewal.binding.fragment = false)
    {entry : Int × Binding} (inside : entry ∈ renewal.entries {}) :
    entry.2.placeholder {} = Binder.synthesized {} b.identifier entry.1 ∧
      entry.2.isNamed = true := by
  obtain ⟨made, -, name, same⟩ := mem_entries member noColon inside
  rw [numeral, if_neg Bool.false_ne_true] at name
  rw [same, name]
  exact placeholder_synthesized _ _ _ _

theorem replaced_eq_listing : renewal.replaced {} = renewal.listing := by
  obtain ⟨-, start, drawn⟩ := Forest.mem_renewals member
  have names : renewal.names = (renewal.entries {}).map fun entry => entry.2.placeholder {} := by
    rw [names, entries, List.map_map]
    refine List.map_congr_left fun made known => ?_
    rw [drawn] at known
    show made.1.name = (⟨withoutFirst made.1.name, made.2, _⟩ : Binding).placeholder {}
    rw [Expansion.name_of_reservations known]
    exact (placeholder_nameFor _ _ noColon _ _).symm
  rw [replaced, listing, names]

end

end Renewal

namespace Binder

variable {b : Binder} {forest : Forest}

theorem exists_of_renewals {settings : Settings} {renewal : Renewal}
    (member : renewal ∈ b.renewals forest settings) :
    ∃ entry ∈ b.bindings, entry.2 = renewal.binding := by
  obtain ⟨known, -⟩ := Forest.mem_renewals member
  obtain ⟨entry, inside, same⟩ := List.mem_map.mp known
  exact ⟨entry, List.mem_of_mem_filter inside, same⟩

theorem replacements_expand
    (noColon : ∀ renewal ∈ b.renewals forest {}, ':' ∉ renewal.binding.fragment.toList) :
    (b.expand forest {}).1.replacements =
      Table.putAll ((b.renewals forest {}).map Renewal.listing) [] := by
  obtain ⟨-, -, replaced, -⟩ := Expansion.ofBindings_renewals forest {} b.bindings b
  rw [expand, Expansion.replacements, replaced, ← renewals]
  exact congrArg (Table.putAll · []) (List.map_congr_left fun renewal member =>
    renewal.replaced_eq_listing member (noColon renewal member))

end Binder
end WhereClause
