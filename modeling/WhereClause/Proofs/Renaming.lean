import WhereClause.Proofs.Renewals
import WhereClause.Proofs.Substitution

/-!
# Expanding names that are made up

If a binder holds only names that it made up itself, each once, expanding gives every element the
name for the next number, and replaces the names in any text at once. What is replaced has numbers
below the count, and what is put in has numbers from the count on, so that the replacements do not
get in the way of one another, whatever the text and their order.

* `expandConditions_at_once`: this is so for every binder of every run.
-/

namespace WhereClause

/-- The elements of what is bound, each with the type that it gets. -/
def Forest.pieces (forest : Forest) (binding : Binding) : List (Value × Option String) :=
  (forest.elements binding.value).map fun v => (v, binding.elementType {})

/-- The names of bindings, each with the names that take its place: one for each element, under the
numbers from one on. -/
def Forest.substitutions (forest : Forest) (own number : Nat) : List Binding → Table String String
  | [] => []
  | binding :: rest =>
    let here := forest.pieces binding
    (binding.placeholder {}, ", ".intercalate ((place own number here).map Placed.name)) ::
      forest.substitutions own (number + here.length) rest

def Value.mapText (f : String → String) : Value → Value
  | .text s => .text (f s)
  | v => v

/-- The binder holds only names that it made up itself, each once. -/
structure Binder.OwnNames (b : Binder) (own next : Nat) : Prop where
  identifier : b.identifier = toString own
  count : b.count = next
  madeUp : ∀ entry ∈ b.bindings, ∃ k < next, entry.2.placeholder {} = mention own k
  distinct : (b.bindings.map fun entry => entry.2.placeholder {}).Nodup

theorem fragment_of_mention {binding : Binding} {own k : Nat}
    (same : binding.placeholder {} = mention own k) :
    binding.fragment = fragmentOf (mention own k) := by
  rw [BindingOf.placeholder] at same
  split at same
  · rw [← String.toList_inj, toList_mention] at same
    cases same
  · rw [← same]
    simp [fragmentOf]

section
variable {own : Nat} (forest : Forest)

theorem renewals_place {bindings : Bindings} (number : Nat)
    (madeUp : ∀ entry ∈ bindings, Binder.MadeUp entry.2.fragment) :
    let renewals := forest.renewals {} (toString own) number bindings
    let several := bindings.several {}
    renewals.flatMap (Renewal.entries {}) =
        (place own number (several.flatMap forest.pieces)).map Placed.entry ∧
      renewals.map (Renewal.replaced {}) = forest.substitutions own number several := by
  induction bindings generalizing number with
  | nil => exact ⟨rfl, rfl⟩
  | cons entry rest ih =>
      obtain ⟨_, binding⟩ := entry
      obtain ⟨here, others⟩ := List.forall_mem_cons.mp madeUp
      cases multi : binding.isMulti {} with
      | false =>
          simpa only [Forest.renewals, Bindings.several, List.filter_cons, multi,
            Bool.false_eq_true, if_false] using ih number others
      | true =>
          let b : Binder := { identifier := toString own, count := number }
          have identifier : b.identifier = toString own := rfl
          obtain ⟨names, entries⟩ := reserveEach_place here (binding.elementType {})
            (forest.elements binding.value) identifier rfl
          rw [Expansion.reserveEach_reservations] at names entries
          have length : (forest.pieces binding).length = (forest.elements binding.value).length :=
            List.length_map _
          obtain ⟨added, replaced⟩ := ih (number + (forest.pieces binding).length) others
          push_cast [length] at added replaced
          simp only [Forest.renewals, Bindings.several, List.filter_cons, multi, if_true,
            List.flatMap_cons, List.map_cons, Forest.substitutions, place_append, List.map_append,
            length]
          exact ⟨congrArg₂ _ entries added, congrArg₂ _ (congrArg _ (congrArg _ names)) replaced⟩

theorem mem_substitutions {number : Nat} {bindings : List Binding} {replaced : String × String}
    (member : replaced ∈ forest.substitutions own number bindings) :
    (∃ binding ∈ bindings, replaced.1 = binding.placeholder {}) ∧
      ∃ later pairs, number ≤ later ∧
        replaced.2 = ", ".intercalate ((place own later pairs).map Placed.name) := by
  induction bindings generalizing number with
  | nil => cases member
  | cons binding rest ih =>
      rcases List.mem_cons.mp member with rfl | later
      · exact ⟨⟨binding, List.mem_cons_self, rfl⟩, number, _, le_rfl, rfl⟩
      · obtain ⟨⟨other, inside, token⟩, after, pairs, low, text⟩ := ih later
        exact ⟨⟨other, List.mem_cons_of_mem _ inside, token⟩, after, pairs, by omega, text⟩

theorem keys_substitutions (number : Nat) (bindings : List Binding) :
    Table.keys (forest.substitutions own number bindings) =
      bindings.map fun binding => binding.placeholder {} := by
  induction bindings generalizing number with
  | nil => rfl
  | cons binding rest ih =>
      rw [Forest.substitutions, Table.keys, List.map_cons, ← Table.keys, ih, List.map_cons]

theorem endsWord_intercalate {names : List String}
    (each : ∀ name ∈ names, Text.IsPlaceholder name.toList) :
    Text.endsWord (", ".intercalate names).toList = true := by
  cases names with
  | nil => rfl
  | cons name rest =>
      obtain ⟨word, start, -, -⟩ := each name List.mem_cons_self
      cases rest with
      | nil =>
          rw [String.intercalate_singleton, start]
          rfl
      | cons second rest =>
          rw [String.intercalate_cons_cons, String.toList_append, String.toList_append, start]
          rfl

end

namespace Binder.OwnNames

variable {b : Binder} {own next : Nat} (forest : Forest)

theorem fragment (names : b.OwnNames own next) :
    ∀ entry ∈ b.bindings, MadeUp entry.2.fragment := by
  intro entry member
  obtain ⟨k, -, same⟩ := names.madeUp entry member
  rw [fragment_of_mention same]
  exact madeUp_fragment own k

theorem several (names : b.OwnNames own next) {binding : Binding}
    (member : binding ∈ b.bindings.several {}) :
    ∃ k < next, binding.placeholder {} = mention own k := by
  obtain ⟨entry, inside, rfl⟩ := List.mem_map.mp member
  exact names.madeUp entry (List.mem_of_mem_filter inside)

theorem independent (names : b.OwnNames own next) :
    Independent (forest.substitutions own next (b.bindings.several {})) where
  distinct := by
    rw [keys_substitutions]
    have sublist : (b.bindings.several {}).Sublist (b.bindings.map Prod.snd) :=
      List.filter_sublist.map _
    have distinct :
        ((b.bindings.map Prod.snd).map fun binding => binding.placeholder {}).Nodup := by
      rw [List.map_map]
      exact names.distinct
    exact distinct.sublist (sublist.map _)
  token replaced member := by
    obtain ⟨⟨binding, inside, token⟩, -⟩ := mem_substitutions forest member
    obtain ⟨k, -, same⟩ := names.several inside
    rw [token, same]
    exact isPlaceholder_mention own k
  ends replaced member := by
    obtain ⟨-, later, pairs, -, text⟩ := mem_substitutions forest member
    rw [text]
    exact endsWord_intercalate (isPlaceholder_place own later pairs)
  fresh replaced member other member' := by
    obtain ⟨⟨binding, inside, token⟩, -⟩ := mem_substitutions forest member
    obtain ⟨-, later, pairs, low, text⟩ := mem_substitutions forest member'
    obtain ⟨k, below, same⟩ := names.several inside
    have ends : Text.endsWord [] = true := rfl
    have mentioned := placeholders_intercalate (isPlaceholder_place own later pairs) ends
    rw [List.append_nil, Text.placeholders, List.append_nil] at mentioned
    rw [token, same, text, mentioned]
    intro found
    obtain ⟨placed, known, equal⟩ := List.mem_map.mp found
    obtain ⟨-, high, -⟩ := mem_place own known
    have := (mention_inj equal).2
    omega

/-- What is kept, what is added, what is replaced, and what is left. -/
theorem expand (names : b.OwnNames own next) (numbered : b.Numbered) :
    let pairs := (b.bindings.several {}).flatMap forest.pieces
    (b.expand forest {}).1.bindings =
        b.bindings.single {} ++ (place own next pairs).map Placed.entry ∧
      (b.expand forest {}).1.replacements = forest.substitutions own next (b.bindings.several {}) ∧
      (b.expand forest {}).2 = { b with count := (next + pairs.length : Nat) } := by
  obtain ⟨-, -, replaced, spent⟩ := Expansion.ofBindings_renewals forest {} b.bindings b
  obtain ⟨entries, substitutions⟩ := renewals_place forest next names.fragment
  rw [names.identifier, names.count] at replaced spent
  rw [entries] at spent
  rw [substitutions] at replaced
  have added := numbered.bindings_expand forest {}
  rw [Binder.renewals, names.identifier, names.count, entries] at added
  refine ⟨added, ?_, ?_⟩
  · rw [Binder.expand, Expansion.replacements, replaced]
    exact Table.putAll_of_nodup [] (names.independent forest).distinct
  · have length := congrArg List.length
      (pair_place own next ((b.bindings.several {}).flatMap forest.pieces))
    rw [List.length_map] at length
    rw [Binder.expand, spent, List.length_map, length, names.identifier]
    push_cast
    rfl

end Binder.OwnNames

namespace WorkspaceM

theorem substitute_mapText (expansion : Expansion) (v : Value) :
    expansion.substitute v = v.mapText fun s =>
      String.ofList (Expansion.substituteText expansion.replacements s.toList) := by
  cases v <;> rfl

/-- A sequence is gone through as its elements, whatever is bound meanwhile. -/
theorem run_expandConditions {w : Workspace} {conditions : Value} {vs : List Value}
    (elements : w.sequence? conditions = some vs) (id : BinderId) :
    let made := (w.binder id).expand w.toForest w.settings
    ∃ after, run (expandConditions conditions id) w =
        (.ok (vs.map made.1.substitute, made.1.bindings), after) ∧
      after.toForest = w.setBinder id made.2 := by
  have parts (b : Binder) : (w.setBinder id b).parts? conditions = some vs := by
    have same : (w.setBinder id b).sequence? conditions = some vs := elements
    cases conditions with
    | dict | text | bytes => cases elements
    | _ => simp only [Forest.parts?, same]
  simp only [expandConditions, run_bind, run_get, run_changeForest, run_log, run_forest, parts]
  exact ⟨_, rfl, rfl⟩

/-- After every run, under the initial settings: if a binder holds only names that it made up
itself, each once, then expanding conditions by it keeps the bindings for single values, and binds
the elements of the others under the next numbers. In the texts all names are replaced at once, and
in whichever order they are taken, it comes to the same. -/
theorem expandConditions_at_once (n : Nat) {operations : List Operation}
    (allows : Workspace.Allows .free { nextIdentifier := n } operations) {w : Workspace}
    (made : w = Workspace.after { nextIdentifier := n } operations) (settings : w.settings = {})
    {id : BinderId} (known : id.index < w.binders.size) {own next : Nat}
    (names : (w.binder id).OwnNames own next) {conditions : Value} {vs : List Value}
    (elements : w.sequence? conditions = some vs) :
    let several := (w.binder id).bindings.several {}
    let pairs := several.flatMap w.pieces
    let substitutions := w.substitutions own next several
    ∃ after, run (expandConditions conditions id) w =
        (.ok (vs.map (Value.mapText fun s =>
            String.ofList (Text.replaceAtOnce substitutions 0 s.toList)),
          (w.binder id).bindings.single {} ++ (place own next pairs).map Placed.entry), after) ∧
      after.binder id = { w.binder id with count := (next + pairs.length : Nat) } ∧
      ∀ order : Table String String, order.Perm substitutions → ∀ s,
        Expansion.substituteText order s = Text.replaceAtOnce substitutions 0 s := by
  have numbered : w.Numbered := made ▸ Workspace.numbered_after n allows
  have independent := names.independent w.toForest
  obtain ⟨bindings, replacements, spent⟩ := names.expand w.toForest (numbered id)
  have done := run_expandConditions elements id
  rw [settings] at done
  obtain ⟨after, done, left⟩ := done
  refine ⟨after, ?_, ?_, fun order same s => ?_⟩
  · rw [done, bindings]
    simp only [funext (substitute_mapText _), replacements, independent.substituteText_eq]
  · rw [left, Forest.binder_setBinder, if_pos ⟨rfl, known⟩, spent]
  · rw [independent.substituteText_perm same, independent.substituteText_eq]

/-- A binder with two elements under one name, a value, and a name for no elements. -/
def namingThree : List Operation :=
  [.newBinder none none,
    .register ⟨0⟩ (.text "a") (.list .passing [.int 1, .int 2]) (.text "int[]"),
    .register ⟨0⟩ (.text "b") (.int 5) (.text "int"),
    .register ⟨0⟩ (.text "d") (.list .passing []) (.text "string[]")]

def threeNamed : Workspace := Workspace.after { nextIdentifier := 1 } namingThree

def mentioningThree : List Value :=
  [.text "a IN (:c1_0) OR :c1_01 < :c1_1", .node ⟨0⟩, .text ":c1_0:c1_2"]

theorem allows_namingThree : Workspace.Allows .free { nextIdentifier := 1 } namingThree :=
  ⟨.inl rfl, Nat.zero_lt_one, Nat.zero_lt_one, Nat.zero_lt_one, trivial⟩

theorem names_threeNamed : (threeNamed.binder ⟨0⟩).OwnNames 1 3 where
  identifier := rfl
  count := rfl
  madeUp := by
    have known : ∀ entry ∈ (threeNamed.binder ⟨0⟩).bindings, ∃ k < 3,
        entry.2.placeholder {} = mention 1 k := by decide +kernel
    exact known
  distinct := by decide +kernel

theorem expandConditions_at_once_threeNamed :
    Workspace.Allows .free { nextIdentifier := 1 } namingThree ∧ threeNamed.settings = {} ∧
    (threeNamed.binder ⟨0⟩).OwnNames 1 3 ∧
    ∃ after, run (expandConditions (.list .passing mentioningThree) ⟨0⟩) threeNamed =
      (.ok ([.text "a IN (:c1_3, :c1_4) OR :c1_01 < :c1_1", .node ⟨0⟩, .text ":c1_3, :c1_4"],
        [(1, ⟨"c1_1", .int 5, some "int"⟩), (3, ⟨"c1_3", .int 1, some "int"⟩),
          (4, ⟨"c1_4", .int 2, some "int"⟩)]), after) := by
  have known : (⟨0⟩ : BinderId).index < threeNamed.binders.size := by decide +kernel
  have elements : threeNamed.sequence? (.list .passing mentioningThree) = some mentioningThree :=
    rfl
  obtain ⟨after, done, -, -⟩ :=
    expandConditions_at_once 1 allows_namingThree rfl rfl known names_threeNamed elements
  exact ⟨allows_namingThree, rfl, names_threeNamed, after, done⟩

end WorkspaceM
end WhereClause
