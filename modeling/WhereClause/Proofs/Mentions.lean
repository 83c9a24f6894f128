import WhereClause.Proofs.Compiling
import WhereClause.Proofs.Members

/-!
# What the text of a description mentions

What is drafted is spoken at the same time: the elements that are bound, each at its place, in the
order in which the text mentions them. The text of a tree mentions what its parts mention, its
bindings come after those of its parts, and either way it is the same elements.

* `tells_draftAll`: what a list of drafts mentions and what it binds.
* `told_inside`, `ToldInside.tree`: the same of a tree and what is in it.
-/

namespace WhereClause

theorem Text.placeholders_parenthesized (s : String) :
    placeholders (parenthesized s).toList = placeholders s.toList := by
  have parts : (parenthesized s).toList = ['('] ++ (s.toList ++ [')']) := by simp [parenthesized]
  rw [parts, placeholders_of_no_colon (by decide), placeholders_append _ (by decide),
    placeholders_eq_nil (s := [')']) (by decide), List.append_nil]

theorem Text.placeholders_joined {connective : String}
    (quiet : placeholders connective.toList = []) (parts : List String) :
    placeholders (joined connective parts).toList = parts.flatMap (placeholders ·.toList) := by
  have body : placeholders ((" " ++ connective ++ " ").intercalate parts).toList =
      parts.flatMap (placeholders ·.toList) := by
    induction parts with
    | nil => rw [String.intercalate_nil]; rfl
    | cons part rest ih =>
        cases rest with
        | nil => rw [String.intercalate_singleton, List.flatMap_singleton]
        | cons second rest =>
            have split : ((" " ++ connective ++ " ").intercalate (part :: second :: rest)).toList =
                part.toList ++ ([' '] ++ (connective.toList ++ ([' '] ++
                  ((" " ++ connective ++ " ").intercalate (second :: rest)).toList))) := by
              simp [String.intercalate_cons_cons]
            rw [split, placeholders_append _ (by rfl), placeholders_of_no_colon (by decide),
              placeholders_append _ (by rfl), quiet, List.nil_append,
              placeholders_of_no_colon (by decide), ih]
            rfl
  match parts with
  | [] | [_] => exact body
  | _ :: _ :: _ => exact (placeholders_parenthesized _).trans body

namespace Picture

def mentions (p : Picture) : List String := Text.placeholders p.texts.alone.toList

theorem mentions_beside : (p : Picture) → Text.placeholders p.texts.beside.toList = p.mentions
  | text _ | leaf .. | nested .. | unary .. | tree _ _ [] => Text.placeholders_parenthesized _
  | tree _ _ [p] => mentions_beside p
  | tree _ _ (_ :: _ :: _) => rfl

theorem mentions_tree {connective : String} (quiet : Text.placeholders connective.toList = [])
    (own : Bindings) (parts : List Picture) :
    (tree connective own parts).mentions = parts.flatMap mentions := by
  rw [mentions, texts, Texts.alone_join, Text.placeholders_joined quiet, allTexts_eq, List.map_map,
    List.flatMap_map]
  rfl

theorem mentions_negation (p : Picture) : (unary "NOT" false p).mentions = p.mentions := by
  have split : (unary "NOT" false p).texts.alone.toList =
      ['N', 'O', 'T', ' '] ++ p.texts.beside.toList := by
    simp [texts, Texts.wrapping]
  rw [mentions, split, Text.placeholders_of_no_colon (by decide), mentions_beside]

end Picture

/-! ## Speaking -/

/-- The leaf mentions no placeholder, and its field has its placeholder made up. -/
def Leaf.Quiet : Leaf → Prop
  | raw s => ':' ∉ s.toList
  | entry key _ => key.Plain
  | node _ => False

/-- The values of a leaf in the order in which they are bound, with their types. -/
def Leaf.pairs (forest : Forest) (types : Table String String) : Leaf → List (Value × Option String)
  | raw _ | node _ => []
  | entry key value =>
    let declared := Table.get? key.field types
    if key.isMembership then forest.spread (value, Settings.memberType {} declared)
    else [(value, declared)]

/-- What is spoken, with the next identifier and the next number of an element. -/
structure Spoken where
  placed : List Placed
  next : Nat
  number : Nat

namespace Item

mutual
def Joined : Item → Prop
  | group connective items =>
    Text.placeholders (Text.upper connective).toList = [] ∧ AllJoined items
  | negation items => AllJoined items
  | raw _ | nested _ | field .. => True

def AllJoined : List Item → Prop
  | [] => True
  | item :: rest => item.Joined ∧ AllJoined rest
end

section
variable (forest : Forest) (types : Table String String)

def member? : Item → Option Member
  | field key value =>
    if key.isMembership then
      some (value, Settings.memberType {} (Table.get? key.field types))
    else none
  | _ => none

def members (items : List Item) : List Member := items.filterMap (member? types)

mutual
def speak (own next number : Nat) : Item → Spoken
  | raw _ | nested _ => ⟨[], next, number⟩
  | field key value =>
    let pairs := (Leaf.entry key value).pairs forest types
    if key.isMembership then ⟨place own number pairs, next, number + pairs.length⟩
    else ⟨place next 0 pairs, next + 1, number⟩
  | group _ items | negation items =>
    if items.isEmpty then ⟨[], next, number⟩
    else
      let inner := speakAll next (next + 1) (members types items).length items
      ⟨inner.placed, inner.next, number⟩

def speakAll (own next number : Nat) : List Item → Spoken
  | [] => ⟨[], next, number⟩
  | item :: rest =>
    let first := speak own next number item
    let later := speakAll own first.next first.number rest
    ⟨first.placed ++ later.placed, later.next, later.number⟩
end

end

theorem members_cons (types : Table String String) (item : Item) (rest : List Item) :
    members types (item :: rest) = members types [item] ++ members types rest := by
  rw [members, ← List.singleton_append, List.filterMap_append]
  rfl

theorem marked_members (types : Table String String) (items : List Item) :
    ∀ member ∈ members types items, Settings.marks {} member.2 = true := by
  intro member known
  obtain ⟨item, -, found⟩ := List.mem_filterMap.mp known
  cases item with
  | field key value =>
      rw [member?] at found
      split at found
      · cases found
        exact Settings.marks_withMarker ..
      · cases found
  | _ => cases found

end Item

/-- What is drafted from some items is spoken: the binder of the tree at hand has their members, and
in its text, the drafts mention what is bound by them and for these members. -/
structure Tells (forest : Forest) (b : Binder) (own start : Nat) (before members : List Member)
    (made : Drafted (List Draft)) (said : Spoken) : Prop where
  next : made.next = said.next
  binder : made.binder = .having own (before ++ members)
  number : said.number = start + (members.flatMap forest.spread).length
  mentions : (Draft.pictures forest {} b made.made).flatMap Picture.mentions =
    said.placed.map Placed.name
  binds : ((Draft.pictures forest {} b made.made).flatMap Picture.collected ++
    (place own start (members.flatMap forest.spread)).map Placed.binding).Perm
      (said.placed.map Placed.binding)

namespace Tells

variable {forest : Forest} {b : Binder} {own start : Nat} {before members more : List Member}

theorem tree {made : Drafted (List Draft)} {said : Spoken}
    (inner : Tells forest (.having own members) own members.length [] members made said)
    (marked : ∀ member ∈ members, Settings.marks {} member.2 = true) {connective : String}
    (quiet : Text.placeholders connective.toList = []) (b : Binder) :
    let p := (Draft.tree connective made.binder made.made).picture forest {} b
    p.mentions = said.placed.map Placed.name ∧
      p.collected.Perm (said.placed.map Placed.binding) := by
  have binder := inner.binder
  rw [List.nil_append] at binder
  constructor
  · rw [Draft.picture, Picture.mentions_tree quiet, binder, inner.mentions]
  · have final := final_having own forest marked
    rw [Draft.picture, Picture.collected, Picture.allCollected_eq, binder, final, Table.values,
      List.map_map]
    exact inner.binds

theorem skipped (next : Nat) :
    Tells forest b own start before [] ⟨[], next, .having own before⟩ ⟨[], next, start⟩ :=
  ⟨rfl, by rw [List.append_nil], rfl, rfl, .nil⟩

theorem single {d : Draft} {placed : List Placed} (next : Nat)
    (mentions : (d.picture forest {} b).mentions = placed.map Placed.name)
    (binds : (d.picture forest {} b).collected.Perm (placed.map Placed.binding)) :
    Tells forest b own start before [] ⟨[d], next, .having own before⟩ ⟨placed, next, start⟩ := by
  refine ⟨rfl, by rw [List.append_nil], rfl, ?_, ?_⟩
  · rw [Draft.pictures, Draft.pictures, List.flatMap_singleton, mentions]
  · rw [Draft.pictures, Draft.pictures, List.flatMap_singleton]
    exact (List.append_nil _).symm ▸ binds

theorem append {made later : Drafted (List Draft)} {said : Spoken} {others : Spoken}
    (first : Tells forest b own start before members made said)
    (second : Tells forest b own said.number (before ++ members) more later others) :
    Tells forest b own start before (members ++ more)
      ⟨made.made ++ later.made, later.next, later.binder⟩
      ⟨said.placed ++ others.placed, others.next, others.number⟩ := by
  have number := first.number
  have mentions := first.mentions
  have mentions' := second.mentions
  have binds := first.binds
  have binds' := second.binds
  rw [Draft.pictures_eq] at mentions mentions' binds binds'
  refine ⟨second.next, by rw [second.binder, List.append_assoc], ?_, ?_, ?_⟩
  · rw [second.number, number, List.flatMap_append, List.length_append, Nat.add_assoc]
  · rw [Draft.pictures_eq, List.map_append, List.flatMap_append, List.map_append, mentions,
      mentions']
  · rw [Draft.pictures_eq, List.map_append, List.flatMap_append, List.flatMap_append, place_append,
      ← number, List.map_append, List.map_append, List.append_assoc]
    -- What the later drafts bind comes before the elements of the first members.
    refine ((List.perm_append_comm_assoc _ _ _).append_left _).trans ?_
    rw [← List.append_assoc]
    exact binds.append binds'

theorem member (forest : Forest) (own : Nat) {key : Key} (plain : key.Plain) (next : Nat)
    {member : Member} {after : List Member}
    (marked : ∀ m ∈ before ++ member :: after, Settings.marks {} m.2 = true) :
    let all := before ++ member :: after
    let start := all.length + (before.flatMap forest.spread).length
    Tells forest (.having own all) own start before [member]
      ⟨[.member key ((Binder.having own before).nextName {} key.field)], next,
        (Binder.having own before).registered {} key.field member.1 (.text member.2)⟩
      ⟨place own start (forest.spread member), next, start + (forest.spread member).length⟩ := by
  intro all start
  have isMarked := marked member (by simp)
  have name : (Binder.having own before).nextName {} key.field = mention own before.length :=
    Binder.nextName_eq plain.madeUp rfl rfl
  have text := rewriteText_membership own forest plain marked
  have names := placeholders_membership plain _
    (isPlaceholder_place own start (forest.spread member))
  refine ⟨rfl, Binder.registered_having plain.madeUp isMarked, ?_, ?_, ?_⟩
  · rw [List.flatMap_singleton]
  · rw [name, Draft.pictures, Draft.pictures, List.flatMap_singleton, Draft.picture, text]
    exact names
  · rw [Draft.pictures, Draft.pictures, List.flatMap_singleton, Draft.picture,
      List.flatMap_singleton]
    exact .refl _

theorem comparison {key : Key} (plain : key.Plain) (next : Nat) (value : Value)
    (type : Option String) :
    let own' := Binder.fresh next
    Tells forest b own start before []
      ⟨[.leaf (key.comparison (own'.nextName {} key.field))
        (own'.registered {} key.field value (.ofText? type)).bindings], next + 1,
        .having own before⟩
      ⟨place next 0 [(value, type)], next + 1, start⟩ := by
  intro own'
  have name : own'.nextName {} key.field = mention next 0 :=
    Binder.nextName_eq plain.madeUp rfl rfl
  have registered := own'.registered_eq {} key.field value type
  simp only [name] at registered
  rw [registered, name]
  apply single
  · have split : (key.comparison (mention next 0)).toList =
        key.field.toList ++ ' ' :: (key.operator.toList ++ [' ']) ++ (mention next 0).toList := by
      simp [Key.comparison]
    have noColon : ':' ∉ key.field.toList ++ ' ' :: (key.operator.toList ++ [' ']) := by
      simp [plain.madeUp.2, plain.operator]
    have token := Text.placeholders_token (isPlaceholder_mention next 0)
    rw [String.ofList_toList] at token
    rw [Draft.picture, Picture.mentions, Picture.texts, Texts.wrapping, split,
      Text.placeholders_of_no_colon noColon, token]
    rfl
  · exact .refl _

end Tells

namespace Item

variable (forest : Forest) (types : Table String String)

def ToldInside (next : Nat) (items : List Item) : Prop :=
  Tells forest (.having next (members types items)) next (members types items).length []
    (members types items) (draftAll {} types (next + 1) (.having next []) items)
    (speakAll forest types next (next + 1) (members types items).length items)

section
variable {forest types} {own next start : Nat} {b : Binder} {before : List Member}
  {items : List Item}

theorem ToldInside.of_all
    (told : Tells forest (.having next (members types items)) next
      ((members types items).length + (([] : List Member).flatMap forest.spread).length) []
      (members types items) (draftAll {} types (next + 1) (.having next []) items)
      (speakAll forest types next (next + 1)
        ((members types items).length + (([] : List Member).flatMap forest.spread).length) items)) :
    ToldInside forest types next items := by
  simp only [List.flatMap_nil, List.length_nil, Nat.add_zero] at told
  exact told

theorem ToldInside.tree (inner : ToldInside forest types next items) {connective : String}
    (quiet : Text.placeholders connective.toList = []) (b : Binder) :
    let made := draftAll {} types (next + 1) (.fresh next) items
    let said := speakAll forest types next (next + 1) (members types items).length items
    let p := (Draft.tree connective made.binder made.made).picture forest {} b
    p.mentions = said.placed.map Placed.name ∧
      p.collected.Perm (said.placed.map Placed.binding) := by
  rw [Binder.fresh_eq_having]
  exact Tells.tree inner (marked_members types items) quiet b

theorem tells_raw (own next : Nat) {s : String} (noColon : ':' ∉ s.toList) {all : List Member}
    (marked : ∀ member ∈ all, Settings.marks {} member.2 = true) :
    Tells forest (.having own all) own start before [] ⟨[.raw s], next, .having own before⟩
      ⟨[], next, start⟩ := by
  have nothing : Text.placeholders s.toList = [] := Text.placeholders_eq_nil noColon
  have text : (Binder.having own all).rewriteText forest {} s = s := by
    apply rewriteText_of_not_mem own forest marked
    rw [nothing]
    exact fun _ _ => List.not_mem_nil
  refine .single next ?_ (.refl _)
  rw [Draft.picture, text]
  exact nothing

theorem tells_group (inner : ToldInside forest types next items) {connective : String}
    (joined : Text.placeholders (Text.upper connective).toList = []) :
    let made := draft {} types next (.having own before) (.group connective items)
    Tells forest b own start before [] ⟨made.made.toList, made.next, made.binder⟩
      (speak forest types own next start (.group connective items)) := by
  simp only [draft, speak]
  by_cases empty : items.isEmpty = true
  · simp only [empty, if_true, Option.toList_none]
    exact .skipped next
  · simp only [empty, Bool.false_eq_true, if_false, Option.toList_some]
    obtain ⟨mentions, binds⟩ := inner.tree joined b
    rw [Binder.fresh_eq_having] at mentions binds ⊢
    rw [Tells.next inner]
    exact .single _ mentions binds

theorem tells_negation (inner : ToldInside forest types next items) :
    let made := draft {} types next (.having own before) (.negation items)
    Tells forest b own start before [] ⟨made.made.toList, made.next, made.binder⟩
      (speak forest types own next start (.negation items)) := by
  have joined : Text.placeholders (Text.upper (Settings.defaultConnective {})).toList = [] := by
    decide +kernel
  simp only [draft, speak]
  by_cases empty : items.isEmpty = true
  · simp only [empty, if_true, Option.toList_none]
    exact .skipped next
  · simp only [empty, Bool.false_eq_true, if_false, Option.toList_some]
    obtain ⟨mentions, binds⟩ := inner.tree joined b
    rw [Binder.fresh_eq_having] at mentions binds ⊢
    rw [Tells.next inner]
    refine .single _ ?_ ?_
    · rw [Draft.picture, Picture.mentions_negation, mentions]
    · rw [Draft.picture, Picture.collected]
      exact binds

end

mutual
theorem tells_draft (own next : Nat) {all : List Member} (before after : List Member) :
    (item : Item) → item.Joined → (∀ leaf ∈ item.leaves, leaf.Quiet) →
    all = before ++ (members types [item] ++ after) →
    (∀ member ∈ all, Settings.marks {} member.2 = true) →
    Tells forest (.having own all) own (all.length + (before.flatMap forest.spread).length) before
      (members types [item])
      ⟨(draft {} types next (.having own before) item).made.toList,
        (draft {} types next (.having own before) item).next,
        (draft {} types next (.having own before) item).binder⟩
      (speak forest types own next (all.length + (before.flatMap forest.spread).length) item)
  | .raw s => fun _ quiet _ marked => by
      have noColon : ':' ∉ s.toList := quiet (.raw s) (by rw [leaves]; exact List.mem_cons_self)
      simp only [draft, speak, members, List.filterMap_cons, member?, List.filterMap_nil,
        Option.toList_some]
      exact tells_raw own next noColon marked
  | .nested id => fun _ quiet =>
      (quiet (.node id) (by rw [leaves]; exact List.mem_cons_self)).elim
  | .field key value => fun _ quiet whole marked => by
      have plain : key.Plain :=
        quiet (.entry key value) (by rw [leaves]; exact List.mem_cons_self)
      cases isMember : key.isMembership with
      | true =>
          simp only [members, List.filterMap_cons, member?, isMember, if_true,
            List.filterMap_nil, List.singleton_append] at whole ⊢
          subst whole
          have told := Tells.member forest own plain next marked
          simpa only [draft, draftField, speak, Leaf.pairs, isMember, if_true,
            Option.toList_some] using told
      | false =>
          have told : Tells forest (.having own all) own
              (all.length + (before.flatMap forest.spread).length) before [] _ _ :=
            .comparison plain next value (Table.get? key.field types)
          simpa only [members, List.filterMap_cons, List.filterMap_nil, member?, draft, draftField,
            speak, Leaf.pairs, isMember, Bool.false_eq_true, if_false, Option.toList_some]
            using told
  | .group connective items => fun joined quiet _ _ => by
      rw [leaves] at quiet
      exact tells_group (.of_all (tells_draftAll next (next + 1) [] [] items joined.2 quiet
        (List.append_nil _).symm (marked_members types items))) joined.1
  | .negation items => fun joined quiet _ _ => by
      rw [leaves] at quiet
      exact tells_negation (.of_all (tells_draftAll next (next + 1) [] [] items joined quiet
        (List.append_nil _).symm (marked_members types items)))

theorem tells_draftAll (own next : Nat) {all : List Member} (before after : List Member) :
    (items : List Item) → AllJoined items → (∀ leaf ∈ allLeaves items, leaf.Quiet) →
    all = before ++ (members types items ++ after) →
    (∀ member ∈ all, Settings.marks {} member.2 = true) →
    Tells forest (.having own all) own (all.length + (before.flatMap forest.spread).length) before
      (members types items)
      (draftAll {} types next (.having own before) items)
      (speakAll forest types own next (all.length + (before.flatMap forest.spread).length) items)
  | [] => fun _ _ _ _ => by
      simp only [draftAll, speakAll]
      exact .skipped next
  | item :: rest => fun joined quiet whole marked => by
      obtain ⟨here, later⟩ := List.forall_mem_append.mp (by simpa only [allLeaves] using quiet)
      rw [members_cons] at whole ⊢
      have first := tells_draft own next before (members types rest ++ after) item joined.1
        here (by rw [whole, List.append_assoc]) marked
      rw [draftAll, speakAll]
      generalize draft {} types next (.having own before) item = made at first ⊢
      generalize speak forest types own next _ item = said at first ⊢
      have second := tells_draftAll own made.next (before ++ members types [item]) after rest
        joined.2 later (by rw [whole, List.append_assoc, List.append_assoc]) marked
      have number := first.number
      rw [List.flatMap_append, List.length_append, ← Nat.add_assoc, ← number] at second
      have binder : made.binder = _ := first.binder
      have next' : made.next = said.next := first.next
      rw [← binder] at second
      rw [← next']
      exact first.append second
end

theorem told_inside (next : Nat) {items : List Item} (joined : AllJoined items)
    (quiet : ∀ leaf ∈ allLeaves items, leaf.Quiet) : ToldInside forest types next items :=
  .of_all (tells_draftAll forest types next (next + 1) [] [] items joined quiet
    (List.append_nil _).symm (marked_members types items))

end Item
end WhereClause
