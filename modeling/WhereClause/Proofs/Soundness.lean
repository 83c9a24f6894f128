import WhereClause.Proofs.Mentions

/-!
# What is bound is what was described

Under the initial settings, in a description whose texts mention no placeholder, the placeholders of
the outcome's text are pairwise distinct, and from left to right they are bound to what a plain walk
through the description finds. The connective has to mention no placeholder either.

* `slots_speakAll`: no place is taken twice.
* `pairs_speakAll`: what is spoken is what the walk finds.
* `compileDescription_binds`: the text, the parameters and the types of an outcome.
-/

namespace WhereClause

/-! ## Places -/

/-- What is spoken from some identifier and number on takes places from there on only, and none of
them twice. -/
structure Spoken.From (own low start : Nat) (said : Spoken) : Prop where
  next : low ≤ said.next
  number : start ≤ said.number
  each : ∀ placed ∈ said.placed,
    placed.own = own ∧ start ≤ placed.number ∧ placed.number < said.number ∨
      low ≤ placed.own ∧ placed.own < said.next
  distinct : (said.placed.map Placed.slot).Nodup

namespace Spoken

variable {own next number : Nat}

theorem From.nothing : From own next number ⟨[], next, number⟩ :=
  ⟨Nat.le_refl _, Nat.le_refl _, nofun, .nil⟩

theorem From.append {first later : Spoken} (below : own < next) (here : From own next number first)
    (rest : From own first.next first.number later) :
    From own next number ⟨first.placed ++ later.placed, later.next, later.number⟩ := by
  have next' := here.next
  have number' := here.number
  have next'' := rest.next
  have number'' := rest.number
  refine ⟨next'.trans next'', number'.trans number'', fun placed member => ?_, ?_⟩
  · rcases List.mem_append.mp member with early | late
    · have place := here.each placed early
      simp only
      omega
    · have place := rest.each placed late
      simp only
      omega
  · rw [List.map_append, List.nodup_append]
    refine ⟨here.distinct, rest.distinct, fun slot early other late => ?_⟩
    obtain ⟨x, first', rfl⟩ := List.mem_map.mp early
    obtain ⟨y, later', rfl⟩ := List.mem_map.mp late
    intro same
    obtain ⟨own', number'⟩ := Prod.mk.inj same
    have place := here.each x first'
    have place' := rest.each y later'
    omega

theorem From.place (own next number : Nat) (pairs : List (Value × Option String)) :
    From own next number ⟨place own number pairs, next, number + pairs.length⟩ where
  next := Nat.le_refl _
  number := Nat.le_add_right ..
  each placed member := .inl (mem_place own member)
  distinct := by
    apply List.Nodup.of_map Prod.snd
    rw [List.map_map]
    exact nodup_place own number pairs

theorem From.inside (own number : Nat) {start : Nat} {inner : Spoken}
    (inside : From next (next + 1) start inner) :
    From own next number ⟨inner.placed, inner.next, number⟩ where
  next := (Nat.le_succ _).trans inside.next
  number := Nat.le_refl _
  each placed member := by
    have next' := inside.next
    have place := inside.each placed member
    right
    simp only
    omega
  distinct := inside.distinct

end Spoken

namespace Item

variable (forest : Forest) (types : Table String String)

mutual
theorem slots_speak (own next number : Nat) : (item : Item) →
    (speak forest types own next number item).From own next number
  | .raw _ | .nested _ => by
      rw [speak]
      exact .nothing
  | .field key value => by
      simp only [speak]
      generalize (Leaf.entry key value).pairs forest types = pairs
      split
      · exact .place own next number pairs
      · exact .inside own number (.place next (next + 1) 0 pairs)
  | .group _ items | .negation items => by
      simp only [speak]
      split
      · exact .nothing
      · exact .inside own number (slots_speakAll _ (Nat.lt_succ_self next) items)

theorem slots_speakAll {own next : Nat} (number : Nat) (below : own < next) :
    (items : List Item) → (speakAll forest types own next number items).From own next number
  | [] => by
      rw [speakAll]
      exact .nothing
  | item :: rest => by
      have first := slots_speak own next number item
      rw [speakAll]
      exact .append below first (slots_speakAll _ (Nat.lt_of_lt_of_le below first.next) rest)
end

mutual
theorem pairs_speak (own next number : Nat) : (item : Item) →
    (speak forest types own next number item).placed.map Placed.pair =
      item.leaves.flatMap (Leaf.pairs forest types)
  | .raw _ | .nested _ => by rw [speak, leaves, List.flatMap_singleton]; rfl
  | .field key value => by
      simp only [speak, leaves, List.flatMap_singleton]
      generalize (Leaf.entry key value).pairs forest types = pairs
      split
      · exact pair_place own number pairs
      · exact pair_place next 0 pairs
  | .group _ items | .negation items => by
      simp only [speak, leaves]
      split
      · rename_i empty
        rw [List.isEmpty_iff.mp empty]
        rfl
      · exact pairs_speakAll next (next + 1) _ items

theorem pairs_speakAll (own next number : Nat) : (items : List Item) →
    (speakAll forest types own next number items).placed.map Placed.pair =
      (allLeaves items).flatMap (Leaf.pairs forest types)
  | [] => by rw [speakAll, allLeaves]; rfl
  | item :: rest => by
      have first := pairs_speak own next number item
      have later := pairs_speakAll own (speak forest types own next number item).next
        (speak forest types own next number item).number rest
      rw [speakAll, allLeaves, List.map_append, List.flatMap_append, first, later]
end

end Item

/-! ## Connectives of a description -/

namespace Item

variable {forest : Forest}

theorem allJoined_append {items more : List Item} (first : AllJoined items)
    (second : AllJoined more) : AllJoined (items ++ more) := by
  induction items with
  | nil => exact second
  | cons item rest ih => exact ⟨first.1, ih first.2⟩

theorem quiet_of_keyword {name word : String} (keyword : Key.connective? name = some word) :
    Text.placeholders (Text.upper word).toList = [] := by
  simp only [Key.connective?, Option.ite_none_right_eq_some, Option.some.injEq] at keyword
  obtain ⟨known, rfl⟩ := keyword
  rcases known with same | same | same <;> rw [same] <;> decide +kernel

theorem quiet_of_classify {k v : Value} {connective : String}
    (group : Entry.classify forest k v = .group connective) :
    Text.placeholders (Text.upper connective).toList = [] := by
  unfold Entry.classify at group
  split at group
  · unfold Entry.atPosition at group
    split at group
    · cases v with
      | list | conditions | tuple | dict =>
          cases group
          decide +kernel
      | node id =>
          simp only at group
          split at group <;> cases group
      | _ => cases group
    · cases group
  · unfold Entry.underName at group
    split at group
    · rename_i word keyword
      cases group
      exact quiet_of_keyword keyword
    · split at group
      · cases group
      · cases v with
        | node id =>
            simp only at group
            split at group <;> cases group
        | _ => cases group

theorem joined_item? {k v : Value} {inner : List Item} (joined : AllJoined inner) :
    AllJoined ((Entry.classify forest k v).item? v inner).toList := by
  cases entry : Entry.classify forest k v with
  | group connective => exact ⟨⟨quiet_of_classify entry, joined⟩, trivial⟩
  | negation => exact ⟨joined, trivial⟩
  | raw | nested | field => exact ⟨trivial, trivial⟩
  | vacant | dropped => trivial

mutual
theorem joined_ofView : (v : View) → AllJoined (ofView forest v)
  | .atom v => by
      cases v with
      | text s => exact ⟨trivial, trivial⟩
      | node id =>
          rw [ofView]
          split
          · trivial
          · exact ⟨trivial, trivial⟩
      | _ => trivial
  | .sequence v elements => by
      rw [ofView]
      split
      · exact joined_ofElements 0 elements
      · trivial
  | .dict _ entries => by
      rw [ofView]
      exact joined_ofEntries entries

theorem joined_ofElements (position : Nat) : (vs : List View) →
    AllJoined (ofElements forest position vs)
  | [] => by rw [ofElements]; trivial
  | v :: rest => by
      rw [ofElements]
      exact allJoined_append (joined_item? (joined_ofView v)) (joined_ofElements _ rest)

theorem joined_ofEntries : (entries : List (View × View)) → AllJoined (ofEntries forest entries)
  | [] => by rw [ofEntries]; trivial
  | (k, v) :: rest => by
      rw [ofEntries]
      exact allJoined_append (joined_item? (joined_ofView v)) (joined_ofEntries rest)
end

theorem joined_items (forest : Forest) (description : Value) :
    AllJoined (forest.items description) := by
  rw [Forest.items]
  split
  · exact joined_ofView _
  · trivial

end Item

/-! ## Outcomes -/

theorem table_of_placed {υ : Type} (content : Binding → υ) {bindings : List Binding}
    {placed : List Placed} (binds : bindings.Perm (placed.map Placed.binding))
    (distinct : (placed.map Placed.name).Nodup) {table : Table String υ}
    (given : table = Table.putAll ((bindings.filter BindingOf.isNamed).map fun binding =>
      (binding.placeholder {}, content binding)) []) :
    (Table.keys table).Perm (placed.map Placed.name) ∧
      ∀ x ∈ placed, Table.get? x.name table = some (content x.binding) := by
  have named : bindings.filter BindingOf.isNamed = bindings := by
    rw [List.filter_eq_self]
    intro binding member
    obtain ⟨x, -, rfl⟩ := List.mem_map.mp (binds.subset member)
    exact x.isNamed_binding
  have names : (bindings.map (BindingOf.placeholder {})).Perm (placed.map Placed.name) := by
    refine (binds.map _).trans (.of_eq ?_)
    rw [List.map_map]
    apply List.map_congr_left
    intro x _
    rw [Function.comp_apply, x.placeholder_binding]
  have keys : Table.keys (bindings.map fun binding =>
      (binding.placeholder {}, content binding)) = bindings.map (BindingOf.placeholder {}) := by
    rw [Table.keys, List.map_map]
    rfl
  have nodup := names.nodup_iff.mpr distinct
  rw [← keys] at names nodup
  rw [given, named, Table.putAll_of_nodup [] nodup, List.nil_append]
  refine ⟨names, fun x member => Table.get?_of_mem nodup ?_⟩
  rw [List.mem_map]
  exact ⟨x.binding, binds.mem_iff.mpr (List.mem_map_of_mem member), by rw [x.placeholder_binding]⟩

theorem positional_of_placed {bindings : List Binding} {placed : List Placed}
    (binds : bindings.Perm (placed.map Placed.binding)) : positionalValues bindings = [] := by
  rw [positionalValues, List.map_eq_nil_iff, List.filter_eq_nil_iff]
  intro binding member
  obtain ⟨x, -, rfl⟩ := List.mem_map.mp (binds.subset member)
  rw [x.isNamed_binding]
  exact Bool.false_ne_true

theorem Picture.outcome_of_placed {p : Picture} {placed : List Placed}
    (mentions : p.mentions = placed.map Placed.name)
    (binds : p.collected.Perm (placed.map Placed.binding))
    (distinct : (placed.map Placed.name).Nodup) :
    let outcome := p.outcome {}
    let tokens := Text.placeholders outcome.sql.toList
    tokens.Nodup ∧ (Table.keys outcome.parameters).Perm tokens ∧
      (Table.keys outcome.types).Perm tokens ∧ outcome.positional = [] ∧
      tokens.map (fun token =>
        (Table.get? token outcome.parameters, Table.get? token outcome.types)) =
        (placed.map Placed.pair).map fun (value, type) => (some value, some type) := by
  intro outcome tokens
  have tokens_eq : tokens = placed.map Placed.name := mentions
  have parameters : outcome.parameters = namedValues {} p.collected := rfl
  have types : outcome.types = namedTypes {} p.collected := rfl
  obtain ⟨names, values⟩ := table_of_placed BindingOf.value binds distinct parameters
  obtain ⟨names', declared⟩ := table_of_placed BindingOf.type binds distinct types
  rw [tokens_eq]
  refine ⟨distinct, names, names', positional_of_placed binds, ?_⟩
  rw [List.map_map, List.map_map]
  apply List.map_congr_left
  intro x member
  rw [Function.comp_apply, values x member, declared x member]
  rfl

namespace Forest

variable {forest : Forest}

/-- What a plain walk through a description binds, from left to right: a value with the type that is
declared for its field, and of a membership test each element with the type of one. -/
def walk (forest : Forest) (types : Table String String) (description : Value) :
    List (Value × Option String) :=
  (forest.leaves description).flatMap (Leaf.pairs forest types)

theorem pairs_of_entries (types : Table String String) (leaves : List Leaf) :
    leaves.flatMap (Leaf.pairs forest types) =
      (leaves.filterMap Leaf.entry?).flatMap fun (key, value) =>
        (Leaf.entry key value).pairs forest types := by
  induction leaves with
  | nil => rfl
  | cons leaf rest ih =>
      rw [List.flatMap_cons, ih]
      cases leaf <;> rfl

theorem walk_eq {description : Value} (plain : (forest.view description).Plain forest)
    (types : Table String String) :
    (Item.allLeaves (forest.items description)).flatMap (Leaf.pairs forest types) =
      forest.walk types description := by
  rw [walk, pairs_of_entries, pairs_of_entries, (covers_items plain).entries]

end Forest

namespace Workspace

variable {w : Workspace}

theorem picture_placed (initial : w.settings = {}) {description : Value}
    (table : Table String String) {connective : String}
    (plain : (w.view description).Plain w.toForest)
    (quiet : ∀ leaf ∈ w.leaves description, leaf.Quiet)
    (joining : Text.placeholders connective.toList = []) :
    ∃ placed : List Placed,
      (w.picture table connective (w.items description)).mentions = placed.map Placed.name ∧
      (w.picture table connective (w.items description)).collected.Perm
        (placed.map Placed.binding) ∧
      (placed.map Placed.name).Nodup ∧ placed.map Placed.pair = w.walk table description := by
  have quietItems : ∀ leaf ∈ Item.allLeaves (w.items description), leaf.Quiet := fun leaf member =>
    quiet leaf ((Forest.covers_items plain).sublist.subset member)
  have told := Item.told_inside w.toForest table w.nextIdentifier
    (Item.joined_items w.toForest description) quietItems
  obtain ⟨mentions, binds⟩ := told.tree joining (.fresh 0)
  rw [Draft.picture] at mentions binds
  have slots := Item.slots_speakAll w.toForest table
    (Item.members table (w.items description)).length (Nat.lt_succ_self w.nextIdentifier)
    (w.items description)
  have distinct := slots.distinct.map (f := fun slot => mention slot.1 slot.2) (by
    intro slot slot' same
    obtain ⟨own, number⟩ := mention_inj same
    exact Prod.ext own number)
  rw [List.map_map] at distinct
  refine ⟨_, ?_, ?_, distinct, ?_⟩
  · rw [picture, initial]
    exact mentions
  · rw [picture, initial]
    exact binds
  · rw [Item.pairs_speakAll, Forest.walk_eq plain]

end Workspace

namespace WorkspaceM

variable {w : Workspace}

/-- From left to right, the placeholders of the text are bound to what the walk finds. -/
theorem compileDescription_binds (initial : w.settings = {}) {description types : Value}
    {table : Table String String} {connective : String} (typed : types.typeTable? = some table)
    (plain : (w.view description).Plain w.toForest)
    (quiet : ∀ leaf ∈ w.leaves description, leaf.Quiet)
    (joining : Text.placeholders (Text.upper connective).toList = []) :
    ∃ outcome after,
      run (compileDescription description types (.text connective)) w = (.ok outcome, after) ∧
      let tokens := Text.placeholders outcome.sql.toList
      tokens.Nodup ∧ (Table.keys outcome.parameters).Perm tokens ∧
        (Table.keys outcome.types).Perm tokens ∧ outcome.positional = [] ∧
        tokens.map (fun token =>
          (Table.get? token outcome.parameters, Table.get? token outcome.types)) =
          (w.walk table description).map fun (value, type) => (some value, some type) := by
  have joins : w.settings.joins? (.text connective) = some (Text.upper connective) := rfl
  obtain ⟨after, done⟩ := compileDescription_ok joins typed plain
  obtain ⟨placed, mentions, binds, distinct, pairs⟩ :=
    Workspace.picture_placed initial table plain quiet joining
  refine ⟨_, after, done, ?_⟩
  rw [initial, ← pairs]
  exact Picture.outcome_of_placed mentions binds distinct

def nestedConditions : Value :=
  .dict ⟨1⟩ [(.text "a >", .int 1), (.text "or", .list ⟨2⟩ [.text "b IS NULL",
    .dict ⟨3⟩ [(.text "c IN", .tuple ⟨4⟩ [.int 2, .null])]])]

theorem nestedConditions_binds :
    ∃ outcome after,
      run (compileDescription nestedConditions (.dict ⟨5⟩ [(.text "c", .text "int[]")])
        (.text "and")) {} = (.ok outcome, after) ∧
      (Text.placeholders outcome.sql.toList).Nodup ∧ outcome.positional = [] ∧
      (Text.placeholders outcome.sql.toList).map (fun token =>
        (Table.get? token outcome.parameters, Table.get? token outcome.types)) =
        [(some (.int 1), some none), (some (.int 2), some (some "int")),
          (some .null, some (some "int"))] := by
  have comparison : Forest.fieldKey? {} (.text "a >") = some ⟨"a", ">"⟩ := by decide +kernel
  have keyword : Forest.fieldKey? {} (.text "or") = none := by decide +kernel
  have membership : Forest.fieldKey? {} (.text "c IN") = some ⟨"c", "IN"⟩ := by decide +kernel
  have describes : Forest.Describes {} nestedConditions := by
    simp only [nestedConditions, Forest.Describes, Forest.EntriesDescribe, Forest.AllDescribe,
      comparison, keyword, membership]
    exact ⟨trivial, ⟨rfl, nofun⟩, trivial, ⟨trivial, ⟨trivial, ⟨rfl, nofun⟩, trivial⟩, trivial⟩,
      trivial⟩
  have leaves : Forest.leaves {} nestedConditions = [.entry ⟨"a", ">"⟩ (.int 1),
      .raw "b IS NULL", .entry ⟨"c", "IN"⟩ (.tuple ⟨4⟩ [.int 2, .null])] := by
    simp [Forest.leaves, nestedConditions, Forest.view, Forest.viewWithin, Forest.kept,
      View.ofValue, View.ofElements, View.ofEntries, View.leaves, View.elementLeaves,
      View.entryLeaves, View.value, Value.isOrdered, Table.get?, comparison, keyword, membership]
  have quiet : ∀ leaf ∈ Forest.leaves {} nestedConditions, leaf.Quiet := by
    simp only [leaves, List.forall_mem_cons, Leaf.Quiet]
    have plain : Key.Plain ⟨"a", ">"⟩ := ⟨⟨by decide +kernel, by decide⟩, by decide⟩
    have plain' : Key.Plain ⟨"c", "IN"⟩ := ⟨⟨by decide +kernel, by decide⟩, by decide⟩
    exact ⟨plain, by decide +kernel, plain', List.forall_mem_nil _⟩
  have walk : Forest.walk {} [("c", "int[]")] nestedConditions =
      [(.int 1, none), (.int 2, some "int"), (.null, some "int")] := by
    rw [Forest.walk, leaves]
    rfl
  have typed : (Value.dict ⟨5⟩ [(.text "c", .text "int[]")]).typeTable? =
      some [("c", "int[]")] := rfl
  have joining : Text.placeholders (Text.upper "and").toList = [] := by decide +kernel
  obtain ⟨outcome, after, done, distinct, -, -, positional, pairs⟩ :=
    compileDescription_binds (w := {}) rfl typed (Forest.plain_of_describes rfl describes) quiet
      joining
  refine ⟨outcome, after, done, distinct, positional, ?_⟩
  rw [pairs, walk]
  rfl

theorem connective_unbound :
    ∃ outcome,
      (run (compileDescription (.dict ⟨1⟩ [(.text "a", .int 1), (.text "b", .int 2)]) .null
        (.text ":x")) {}).1 = .ok outcome ∧
      ¬(Table.keys outcome.parameters).Perm (Text.placeholders outcome.sql.toList) := by
  have names : (run (compileDescription (.dict ⟨1⟩ [(.text "a", .int 1), (.text "b", .int 2)]) .null
      (.text ":x")) {}).1.toOption.map (fun outcome =>
        (Table.keys outcome.parameters, Text.placeholders outcome.sql.toList)) =
      some ([":c2_0", ":c3_0"], [":c2_0", ":X", ":c3_0"]) := by
    decide +kernel
  cases result : (run (compileDescription (.dict ⟨1⟩ [(.text "a", .int 1), (.text "b", .int 2)])
      .null (.text ":x")) {}).1 with
  | error fault =>
      rw [result] at names
      cases names
  | ok outcome =>
      rw [result] at names
      obtain ⟨keys, tokens⟩ := Prod.mk.inj (Option.some.inj names)
      refine ⟨outcome, rfl, fun perm => ?_⟩
      have length := perm.length_eq
      rw [keys, tokens] at length
      cases length

end WorkspaceM
end WhereClause
