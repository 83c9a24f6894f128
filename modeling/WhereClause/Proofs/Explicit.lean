import WhereClause.Proofs.Renaming

/-!
# Expanding names that are given

A binder may hold names that were given to it and that it would never make up. When they are
expanded, each name is taken for a token once more, now without its colon: one that is a numeral is
taken for a position, and its elements become positional, while the elements of every other name get
names of their own.

* `expandConditions_explicit`: which elements keep a name, for every binder of every run.
-/

namespace WhereClause

/-- The binder holds only names that were given to it, each once. -/
structure Binder.GivenNames (b : Binder) : Prop where
  word : ∀ entry ∈ b.bindings,
    entry.2.fragment ≠ "" ∧ entry.2.fragment.toList.all Text.isWordChar = true
  other : ∀ entry ∈ b.bindings, ∀ number,
    entry.2.placeholder {} ≠ Binder.synthesized {} b.identifier number
  distinct : (b.bindings.map fun entry => entry.2.fragment).Nodup

namespace Binder.GivenNames

variable {b : Binder} {forest : Forest} {renewal : Renewal}

theorem noColon (given : b.GivenNames) (member : renewal ∈ b.renewals forest {}) :
    ':' ∉ renewal.binding.fragment.toList := by
  obtain ⟨entry, inside, same⟩ := Binder.exists_of_renewals member
  rw [← same]
  exact Text.no_colon_of_word (given.word entry inside).2

theorem isNamed (given : b.GivenNames) {entry : Int × Binding} (member : entry ∈ b.bindings) :
    entry.2.isNamed = true := by
  rw [BindingOf.isNamed, Bool.not_eq_true', ← Bool.not_eq_true, String.isEmpty_iff]
  exact (given.word entry member).1

/-- Different names have different placeholders, so that each is replaced by its own. -/
theorem replacements (given : b.GivenNames) :
    (b.expand forest {}).1.replacements = (b.renewals forest {}).map Renewal.listing := by
  rw [Binder.replacements_expand fun _ => given.noColon]
  apply Table.putAll_of_nodup
  have tokens : Table.keys ((b.renewals forest {}).map Renewal.listing) =
      (b.bindings.several {}).map fun binding => binding.placeholder {} := by
    rw [Table.keys, List.map_map, ← forest.bindings_renewals {} b.identifier b.count, List.map_map]
    rfl
  have inj : ∀ first ∈ b.bindings, ∀ second ∈ b.bindings,
      first.2.placeholder {} = second.2.placeholder {} → first.2.fragment = second.2.fragment := by
    intro first member second member' same
    have empty (entry : Int × Binding) (inside : entry ∈ b.bindings) :
        entry.2.fragment.isEmpty = false := by
      simpa [BindingOf.isNamed] using given.isNamed inside
    rw [BindingOf.placeholder, BindingOf.placeholder, empty _ member, empty _ member'] at same
    simpa using same
  have distinct : (b.bindings.map fun entry => entry.2.placeholder {}).Nodup :=
    given.distinct.of_map.map_on fun first member second member' same =>
      List.inj_on_of_nodup_map given.distinct member member' (inj first member second member' same)
  rw [List.nil_append, tokens, Bindings.several, List.map_map]
  exact distinct.sublist (List.filter_sublist.map _)

/-- The name of an element that has one is found nowhere else. -/
theorem eq_of_placeholder (given : b.GivenNames) (member : renewal ∈ b.renewals forest {})
    (numeral : isNumeral renewal.binding.fragment = false) {entry other : Int × Binding}
    (inside : entry ∈ renewal.entries {})
    (known : other ∈ b.bindings.single {} ++
      (b.renewals forest {}).flatMap (Renewal.entries {}))
    (same : other.2.placeholder {} = entry.2.placeholder {}) : other = entry := by
  obtain ⟨name, -⟩ := Renewal.named_of_not_numeral member (given.noColon member) numeral inside
  rw [name] at same
  rcases List.mem_append.mp known with kept | added
  · exact absurd same (given.other other (List.mem_of_mem_filter kept) entry.1)
  · obtain ⟨renewal', member', inside'⟩ := List.mem_flatMap.mp added
    have noColon' := given.noColon member'
    cases numeral' : isNumeral renewal'.binding.fragment with
    | true =>
        have empty := Renewal.positional_of_numeral member' noColon' numeral' inside'
        have mark : other.2.placeholder {} = "?" := by
          rw [BindingOf.placeholder, empty]
          rfl
        rw [mark, ← String.toList_inj] at same
        simp [Binder.synthesized] at same
    | false =>
        obtain ⟨name', -⟩ := Renewal.named_of_not_numeral member' noColon' numeral' inside'
        rw [name'] at same
        have mine := List.mem_flatMap.mpr ⟨renewal, member, inside⟩
        exact List.inj_on_of_nodup_map (Expansion.nodup_renewals forest {} b.identifier b.count
          b.bindings) added mine (Binder.eq_of_synthesized same).2

theorem isNamed_iff (given : b.GivenNames) :
    (∀ entry ∈ b.bindings.single {} ++ (b.renewals forest {}).flatMap (Renewal.entries {}),
        entry.2.isNamed = true) ↔
      ∀ renewal ∈ b.renewals forest {}, renewal.elements ≠ [] →
        isNumeral renewal.binding.fragment = false := by
  constructor
  · intro all renewal member some'
    by_contra numeral
    rw [Bool.not_eq_false] at numeral
    obtain ⟨first, rest, split⟩ := List.exists_cons_of_ne_nil some'
    have inside : _ ∈ renewal.entries {} := List.mem_map_of_mem (split ▸ List.mem_cons_self)
    have empty := Renewal.positional_of_numeral member (given.noColon member) numeral inside
    have named := all _ (List.mem_append_right _ (List.mem_flatMap.mpr ⟨renewal, member, inside⟩))
    rw [BindingOf.isNamed, empty] at named
    cases named
  · intro words entry known
    rcases List.mem_append.mp known with kept | added
    · exact given.isNamed (List.mem_of_mem_filter kept)
    · obtain ⟨renewal, member, inside⟩ := List.mem_flatMap.mp added
      have some' : renewal.elements ≠ [] := by
        intro none'
        rw [Renewal.entries, none'] at inside
        cases inside
      exact (Renewal.named_of_not_numeral member (given.noColon member)
        (words renewal member some') inside).2

end Binder.GivenNames

namespace WorkspaceM

/-- After every run, under the initial settings: if a binder holds only names that were given to it,
each once, then expanding lists the placeholders of the elements in the place of each name. They are
names found nowhere else if the name without its colon is no numeral, and positional if it is one.
So all that is left is named exactly if no name with elements is a numeral. -/
theorem expandConditions_explicit (n : Nat) {operations : List Operation}
    (allows : Workspace.Allows .free { nextIdentifier := n } operations) {w : Workspace}
    (made : w = Workspace.after { nextIdentifier := n } operations) (settings : w.settings = {})
    {id : BinderId} (given : (w.binder id).GivenNames) {conditions : Value} {vs : List Value}
    (elements : w.sequence? conditions = some vs) :
    let renewals := (w.binder id).renewals w.toForest {}
    let table := (w.binder id).bindings.single {} ++ renewals.flatMap (Renewal.entries {})
    (∃ after, run (expandConditions conditions id) w =
      (.ok (vs.map (Value.mapText fun s => String.ofList
        (Expansion.substituteText (renewals.map Renewal.listing) s.toList)), table), after)) ∧
    (∀ renewal ∈ renewals, isNumeral renewal.binding.fragment = false →
      ∀ entry ∈ renewal.entries {},
        entry.2.placeholder {} = Binder.synthesized {} (w.binder id).identifier entry.1 ∧
        ∀ other ∈ table, other.2.placeholder {} = entry.2.placeholder {} → other = entry) ∧
    (∀ renewal ∈ renewals, isNumeral renewal.binding.fragment = true →
      ∀ entry ∈ renewal.entries {}, entry.2.isNamed = false) ∧
    ((∀ entry ∈ table, entry.2.isNamed = true) ↔ ∀ renewal ∈ renewals, renewal.elements ≠ [] →
      isNumeral renewal.binding.fragment = false) := by
  have numbered : w.Numbered := made ▸ Workspace.numbered_after n allows
  have done := run_expandConditions elements id
  rw [settings] at done
  obtain ⟨after, done, -⟩ := done
  refine ⟨⟨after, ?_⟩, fun renewal member numeral entry inside => ?_,
    fun renewal member numeral entry inside => ?_, given.isNamed_iff⟩
  · rw [done, (numbered id).bindings_expand]
    simp only [funext (substitute_mapText _), given.replacements]
  · exact ⟨(Renewal.named_of_not_numeral member (given.noColon member) numeral inside).1,
      fun other known => given.eq_of_placeholder member numeral inside known⟩
  · have empty := Renewal.positional_of_numeral member (given.noColon member) numeral inside
    rw [BindingOf.isNamed, empty]
    rfl

/-- A binder with two names for several elements, of which one is a numeral, and a value. -/
def givingThree : List Operation :=
  [.newBinder none none,
    .register ⟨0⟩ (.text ":1") (.list .passing [.int 1, .int 2]) (.text "int[]"),
    .register ⟨0⟩ (.text ":ids") (.list .passing [.int 3]) (.text "int[]"),
    .register ⟨0⟩ (.text ":b") (.int 5) (.text "int")]

def threeGiven : Workspace := Workspace.after { nextIdentifier := 1 } givingThree

theorem allows_givingThree : Workspace.Allows .free { nextIdentifier := 1 } givingThree :=
  ⟨.inl rfl, Nat.zero_lt_one, Nat.zero_lt_one, Nat.zero_lt_one, trivial⟩

theorem names_threeGiven : (threeGiven.binder ⟨0⟩).GivenNames where
  word := by decide +kernel
  other entry member number := by
    have bindings : (threeGiven.binder ⟨0⟩).bindings =
        [(0, ⟨"1", .list .passing [.int 1, .int 2], some "int[]"⟩),
          (1, ⟨"ids", .list .passing [.int 3], some "int[]"⟩), (2, ⟨"b", .int 5, some "int"⟩)] :=
      rfl
    rw [bindings] at member
    intro same
    have letters := congrArg String.toList same
    simp only [List.mem_cons, List.not_mem_nil, or_false] at member
    rcases member with rfl | rfl | rfl <;>
      simp [BindingOf.placeholder, Binder.synthesized] at letters
  distinct := by decide +kernel

theorem expandConditions_explicit_threeGiven :
    Workspace.Allows .free { nextIdentifier := 1 } givingThree ∧ threeGiven.settings = {} ∧
    (threeGiven.binder ⟨0⟩).GivenNames ∧ ∃ after table,
      run (expandConditions (.list .passing [.text "a IN (:1) AND b IN (:ids)"]) ⟨0⟩) threeGiven =
        (.ok ([.text "a IN (?, ?) AND b IN (:c1_5)"], table), after) ∧
      ¬ ∀ entry ∈ table, entry.2.isNamed = true := by
  have elements : threeGiven.sequence? (.list .passing [.text "a IN (:1) AND b IN (:ids)"]) =
    some [.text "a IN (:1) AND b IN (:ids)"] := rfl
  obtain ⟨⟨after, done⟩, -, -, named⟩ :=
    expandConditions_explicit 1 allows_givingThree rfl rfl names_threeGiven elements
  refine ⟨allows_givingThree, rfl, names_threeGiven, after, _, done, fun all => ?_⟩
  have words := named.mp all
  have first : ∃ renewal ∈ (threeGiven.binder ⟨0⟩).renewals threeGiven.toForest {},
      renewal.elements ≠ [] ∧ isNumeral renewal.binding.fragment = true :=
    ⟨_, List.mem_cons_self, List.cons_ne_nil _ _, by decide +kernel⟩
  obtain ⟨renewal, member, some', numeral⟩ := first
  rw [words renewal member some'] at numeral
  cases numeral

end WorkspaceM
end WhereClause
