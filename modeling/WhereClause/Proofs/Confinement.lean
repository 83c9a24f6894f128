import WhereClause.Proofs.Compiling

/-!
# Values stay out of the text

Two descriptions that differ in what fields are compared with, and declared types that differ at
will, compile to one text. The relation between the two runs is carried from the views to the items,
the binders and the pictures; of a value it keeps only how many elements a membership test has.

* `sql_independent_of_values`: alike descriptions have the same text.
-/

namespace WhereClause

/-! ## Binders -/

/-- Bindings of one number and placeholder, which expand to as many elements or not at all. -/
structure Binding.Alike (forest : Forest) (settings : Settings) (x y : Int × Binding) : Prop where
  number : x.1 = y.1
  fragment : x.2.fragment = y.2.fragment
  multi : x.2.isMulti settings = y.2.isMulti settings
  length : (forest.elements x.2.value).length = (forest.elements y.2.value).length

structure Binder.Alike (forest : Forest) (settings : Settings) (b c : Binder) : Prop where
  identifier : b.identifier = c.identifier
  count : b.count = c.count
  reserved : b.reserved = c.reserved
  expands : b.expands = c.expands
  bindings : List.Forall₂ (Binding.Alike forest settings) b.bindings c.bindings

theorem Table.put_forall₂ {κ υ : Type} [DecidableEq κ] {related : κ × υ → κ × υ → Prop}
    (keys : ∀ x y, related x y → x.1 = y.1) {key : κ} {v u : υ} (new : related (key, v) (key, u))
    {table more : Table κ υ} (old : List.Forall₂ related table more) :
    List.Forall₂ related (Table.put key v table) (Table.put key u more) := by
  induction old with
  | nil => exact .cons new .nil
  | @cons x y _ _ first rest ih =>
      have same := keys x y first
      by_cases here : x.1 = key
      · simp only [Table.put, if_pos here, if_pos (same ▸ here)]
        rw [show y.1 = key from same ▸ here, here]
        exact .cons new rest
      · simp only [Table.put, if_neg here, if_neg (same ▸ here)]
        exact .cons first ih

namespace Binder.Alike

variable {forest : Forest} {settings : Settings} {b c : Binder}

theorem refl_fresh (identifier : Nat) :
    Binder.Alike forest settings (.fresh identifier) (.fresh identifier) :=
  ⟨rfl, rfl, rfl, rfl, .nil⟩

theorem nextName (alike : b.Alike forest settings c) (field : String) :
    b.nextName settings field = c.nextName settings field := by
  simp only [Binder.nextName, Binder.next, alike.identifier, alike.count]

theorem registered (alike : b.Alike forest settings c) (field : String) {v u : Value}
    (length : (forest.elements v).length = (forest.elements u).length) {type more : String}
    (multi : settings.marks type = settings.marks more) :
    (b.registered settings field v (.text type)).Alike forest settings
      (c.registered settings field u (.text more)) := by
  have left := b.registered_eq settings field v (some type)
  have right := c.registered_eq settings field u (some more)
  simp only [Value.ofText?] at left right
  rw [left, right]
  have name := alike.nextName field
  constructor
  · exact alike.identifier
  · simp only [alike.count]
  · simp only [name, alike.count, alike.reserved]
  · simp only [alike.expands, BindingOf.isMulti, Option.any_some, multi]
  · rw [alike.count, name]
    refine Table.put_forall₂ (fun x y same => same.number) ?_ alike.bindings
    exact ⟨rfl, rfl, by simp only [BindingOf.isMulti, Option.any_some, multi], length⟩

theorem advanced (settings : Settings) (token : Value) {vs us : List Value}
    (identifier : b.identifier = c.identifier) (count : b.count = c.count)
    (length : vs.length = us.length) :
    (Expansion.reserveEach settings token vs b).1.map (·.1.name) =
      (Expansion.reserveEach settings token us c).1.map (·.1.name) := by
  induction vs generalizing us b c with
  | nil =>
      rw [List.eq_nil_of_length_eq_zero length.symm]
      rfl
  | cons v rest ih =>
      cases us with
      | nil => cases length
      | cons u others =>
          have later := ih (b := (b.reserve settings token false).2)
            (c := (c.reserve settings token false).2) identifier
            (by simp only [Binder.count_reserve, count]) (Nat.succ.inj length)
          simp only [Expansion.reserveEach, List.map_cons, later]
          simp only [Binder.reserve, Binder.next, identifier, count]

theorem replaced {bindings more : Bindings}
    (related : List.Forall₂ (Binding.Alike forest settings) bindings more)
    (identifier : b.identifier = c.identifier) (count : b.count = c.count) :
    (Expansion.ofBindings forest settings bindings b).1.replaced =
      (Expansion.ofBindings forest settings more c).1.replaced := by
  induction related generalizing b c with
  | nil => rfl
  | @cons x y _ _ first _ ih =>
      obtain ⟨number, xb⟩ := x
      obtain ⟨number', yb⟩ := y
      have fragment := first.fragment
      have multi := first.multi
      simp only at fragment multi
      cases isMulti : xb.isMulti settings with
      | false =>
          rw [isMulti] at multi
          simp only [Expansion.ofBindings, isMulti, ← multi, Bool.false_eq_true, if_false]
          exact ih identifier count
      | true =>
          rw [isMulti] at multi
          -- The names of elements depend on how many there are, not on what they are.
          have names := advanced settings (.text xb.fragment) identifier count first.length
          have later := ih
            (b := (Expansion.reserveEach settings (.text xb.fragment)
              (forest.elements xb.value) b).2)
            (c := (Expansion.reserveEach settings (.text xb.fragment)
              (forest.elements yb.value) c).2)
            (by simp only [Expansion.reserveEach_binder, identifier])
            (by simp only [Expansion.reserveEach_binder, count, first.length])
          simp only [Expansion.ofBindings, isMulti, ← multi, if_true, Expansion.addMulti,
            BindingOf.placeholder, ← fragment, names, later]

theorem rewriteText (alike : b.Alike forest settings c) (s : String) :
    b.rewriteText forest settings s = c.rewriteText forest settings s := by
  have same := replaced alike.bindings alike.identifier alike.count
  simp only [Binder.rewriteText, Binder.expand, Expansion.replacements, alike.expands, same]

end Binder.Alike

/-! ## Items -/

namespace Item

mutual
def Alike (forest : Forest) : Item → Item → Prop
  | raw s, raw t => s = t
  | group c items, group d more => c = d ∧ AllAlike forest items more
  | negation items, negation more => AllAlike forest items more
  | field key v, field key' u =>
    key = key' ∧ (key.isMembership → (forest.elements v).length = (forest.elements u).length)
  | _, _ => False

def AllAlike (forest : Forest) : List Item → List Item → Prop
  | [], [] => True
  | item :: rest, other :: more => item.Alike forest other ∧ AllAlike forest rest more
  | _, _ => False
end

end Item

def SameTexts (forest : Forest) (settings : Settings) (parts more : List Draft) : Prop :=
  ∀ b c : Binder, b.Alike forest settings c →
    parts.map (fun d => (d.picture forest settings b).texts) =
      more.map (fun d => (d.picture forest settings c).texts)

structure Drafted.Alike (forest : Forest) (settings : Settings)
    (made other : Drafted (List Draft)) : Prop where
  next : made.next = other.next
  binder : made.binder.Alike forest settings other.binder
  texts : SameTexts forest settings made.made other.made

namespace Item

variable {forest : Forest} {settings : Settings} (types more : Table String String)

theorem alike_draftField (key : Key) {v u : Value}
    (length : key.isMembership → (forest.elements v).length = (forest.elements u).length)
    (next : Nat) {b c : Binder} (alike : b.Alike forest settings c) :
    let made := draftField settings types next b key v
    let other := draftField settings more next c key u
    Drafted.Alike forest settings ⟨[made.made], made.next, made.binder⟩
      ⟨[other.made], other.next, other.binder⟩ := by
  simp only [draftField]
  by_cases isMember : key.isMembership = true
  · simp only [isMember, if_true]
    have multi : settings.marks (settings.memberType (Table.get? key.field types)) =
        settings.marks (settings.memberType (Table.get? key.field more)) := by
      simp only [Settings.memberType, Settings.marks_withMarker]
    refine ⟨rfl, alike.registered key.field (length isMember) multi, fun b' c' same => ?_⟩
    simp only [List.map_cons, List.map_nil, Draft.picture, Picture.texts, alike.nextName,
      same.rewriteText]
  · simp only [isMember]
    exact ⟨rfl, alike, fun _ _ _ => rfl⟩

theorem AllAlike.isEmpty {items others : List Item} (alike : AllAlike forest items others) :
    items.isEmpty = others.isEmpty := by
  cases items <;> cases others <;> first | rfl | cases alike

theorem alike_skipped (next : Nat) {b c : Binder} (alike : b.Alike forest settings c) :
    Drafted.Alike forest settings ⟨[], next, b⟩ ⟨[], next, c⟩ :=
  ⟨rfl, alike, fun _ _ _ => rfl⟩

theorem texts_tree {made other : Drafted (List Draft)} (inner : made.Alike forest settings other)
    (connective : String) (b c : Binder) :
    ((Draft.tree connective made.binder made.made).picture forest settings b).texts =
      ((Draft.tree connective other.binder other.made).picture forest settings c).texts := by
  have same := inner.texts _ _ inner.binder
  simp only [Draft.picture, Picture.texts, Draft.pictures_eq, Picture.allTexts_eq, List.map_map,
    Function.comp_def, same]

mutual
theorem alike_draft (next : Nat) {b c : Binder} (alike : b.Alike forest settings c) :
    (item other : Item) → item.Alike forest other →
    Drafted.Alike forest settings
      ⟨(draft settings types next b item).made.toList, (draft settings types next b item).next,
        (draft settings types next b item).binder⟩
      ⟨(draft settings more next c other).made.toList, (draft settings more next c other).next,
        (draft settings more next c other).binder⟩
  | .raw s, .raw t, same => by
      cases same
      simp only [draft, Option.toList_some]
      refine ⟨rfl, alike, fun b' c' related => ?_⟩
      simp only [List.map_cons, List.map_nil, Draft.picture, related.rewriteText]
  | .field key v, .field key' u, ⟨same, length⟩ => by
      cases same
      simp only [draft, Option.toList_some]
      exact alike_draftField types more key length next alike
  | .group connective items, .group connective' others, ⟨same, each⟩ => by
      cases same
      have inner := alike_draftAll (next + 1) (.refl_fresh next) items others each
      simp only [draft, ← each.isEmpty]
      by_cases empty : items.isEmpty = true
      · simp only [empty, if_true, Option.toList_none]
        exact alike_skipped next alike
      · simp only [empty, Bool.false_eq_true, if_false, Option.toList_some]
        refine ⟨inner.next, alike, fun b' c' _ => ?_⟩
        simp only [List.map_cons, List.map_nil, texts_tree inner _ b' c']
  | .negation items, .negation others, each => by
      have inner := alike_draftAll (next + 1) (.refl_fresh next) items others each
      have empty' : items.isEmpty = others.isEmpty := AllAlike.isEmpty each
      simp only [draft, ← empty']
      by_cases empty : items.isEmpty = true
      · simp only [empty, if_true, Option.toList_none]
        exact alike_skipped next alike
      · simp only [empty, Bool.false_eq_true, if_false, Option.toList_some]
        refine ⟨inner.next, alike, fun b' c' _ => ?_⟩
        have tree := texts_tree inner (Text.upper settings.defaultConnective) b' c'
        rw [Draft.picture] at tree
        simp only [List.map_cons, List.map_nil, Draft.picture, Picture.texts] at tree ⊢
        rw [tree]
  | .nested _, _, each => by cases each
  | .raw _, .group .., each | .raw _, .negation _, each | .raw _, .field .., each
  | .raw _, .nested _, each | .field .., .raw _, each | .field .., .group .., each
  | .field .., .negation _, each | .field .., .nested _, each | .group .., .raw _, each
  | .group .., .negation _, each | .group .., .field .., each | .group .., .nested _, each
  | .negation _, .raw _, each | .negation _, .group .., each | .negation _, .field .., each
  | .negation _, .nested _, each => by cases each

theorem alike_draftAll (next : Nat) {b c : Binder} (alike : b.Alike forest settings c) :
    (items others : List Item) → AllAlike forest items others →
    Drafted.Alike forest settings (draftAll settings types next b items)
      (draftAll settings more next c others)
  | [], [], _ => by
      simp only [draftAll]
      exact alike_skipped next alike
  | item :: rest, other :: others, ⟨here, later⟩ => by
      -- Both runs go on with the same identifier and with alike binders.
      have first := alike_draft next alike item other here
      simp only [draftAll]
      generalize draft settings types next b item = made at first ⊢
      generalize draft settings more next c other = made' at first ⊢
      have next_eq : made.next = made'.next := first.next
      have second := alike_draftAll made.next first.binder rest others later
      rw [← next_eq]
      refine ⟨second.next, second.binder, fun b' c' related => ?_⟩
      simp only [List.map_append, first.texts b' c' related, second.texts b' c' related]
  | [], _ :: _, each | _ :: _, [], each => by cases each
end

end Item

/-! ## Views -/

namespace View

mutual
/-- The descriptions differ at most in what fields are compared with. Of the values of a membership
test, there are as many. -/
def Alike (forest : Forest) : View → View → Prop
  | atom v, atom u => v = u
  | sequence v vs, sequence u us => v.isOrdered = u.isOrdered ∧ AllAlike forest vs us
  | dict _ entries, dict _ others => EntriesAlike forest entries others
  | _, _ => False

def AllAlike (forest : Forest) : List View → List View → Prop
  | [], [] => True
  | v :: rest, u :: others => v.Alike forest u ∧ AllAlike forest rest others
  | _, _ => False

def EntriesAlike (forest : Forest) : List (View × View) → List (View × View) → Prop
  | [], [] => True
  | (k, v) :: rest, (l, u) :: others =>
    k.value.isNumeric = l.value.isNumeric ∧
      forest.plainText k.value = forest.plainText l.value ∧
      (match forest.fieldKey? k.value with
        | some key => key.isMembership →
          (forest.elements v.value).length = (forest.elements u.value).length
        | none => v.Alike forest u) ∧
      EntriesAlike forest rest others
  | _, _ => False
end

variable {forest : Forest}

theorem AllAlike.isEmpty {vs us : List View} (alike : AllAlike forest vs us) :
    vs.isEmpty = us.isEmpty := by
  cases vs <;> cases us <;> first | rfl | cases alike

theorem EntriesAlike.isEmpty {entries others : List (View × View)}
    (alike : EntriesAlike forest entries others) : entries.isEmpty = others.isEmpty := by
  cases entries <;> cases others <;> first | rfl | cases alike

end View

namespace Item

variable {forest : Forest}

theorem AllAlike.append {items others more rest : List Item}
    (first : AllAlike forest items others) (second : AllAlike forest more rest) :
    AllAlike forest (items ++ more) (others ++ rest) := by
  induction items generalizing others with
  | nil =>
      cases others with
      | nil => exact second
      | cons other others => cases first
  | cons item items ih =>
      cases others with
      | nil => cases first
      | cons other others => exact ⟨first.1, ih first.2⟩

theorem alike_ofElement {v u : View} (formed : v.Formed) (formed' : u.Formed)
    (plain : v.Plain forest) (plain' : u.Plain forest) (alike : v.Alike forest u)
    (inner : AllAlike forest (ofView forest v) (ofView forest u)) :
    AllAlike forest (ofElement forest v) (ofElement forest u) := by
  cases v with
  | atom v =>
      cases u with
      | atom u =>
          cases alike
          cases text : v.text? with
          | some s =>
              obtain rfl := Value.text?_eq_some.mp text
              rw [ofElement_text]
              split
              · trivial
              · exact ⟨rfl, trivial⟩
          | none =>
              rw [ofElement_atom formed plain text]
              trivial
      | _ => cases alike
  | sequence v vs =>
      cases u with
      | sequence u us =>
          obtain ⟨ordered, each⟩ := alike
          rw [ofElement_sequence formed plain, ofElement_sequence formed' plain', ordered,
            each.isEmpty]
          split
          · exact ⟨⟨rfl, inner⟩, trivial⟩
          · trivial
      | _ => cases alike
  | dict v entries =>
      cases u with
      | dict u others =>
          have empty := View.EntriesAlike.isEmpty alike
          rw [ofElement_dict formed, ofElement_dict formed', empty]
          split
          · trivial
          · exact ⟨⟨rfl, inner⟩, trivial⟩
      | _ => cases alike

mutual
theorem alike_ofView : (v u : View) → v.Formed → u.Formed → v.Plain forest → u.Plain forest →
    v.Alike forest u → AllAlike forest (ofView forest v) (ofView forest u)
  | .atom v, .atom u, _, _, plain, _, alike => by
      cases alike
      cases v with
      | node id => cases plain
      | text s => exact ⟨rfl, trivial⟩
      | _ => trivial
  | .sequence v vs, .sequence u us, ⟨_, formed⟩, ⟨_, formed'⟩, ⟨_, _, plain⟩, ⟨_, _, plain'⟩,
      ⟨ordered, alike⟩ => by
      simp only [ofView, ← ordered, ofElements_eq]
      split
      · exact alike_elements vs us formed formed' plain plain' alike
      · trivial
  | .dict _ entries, .dict _ others, ⟨_, formed⟩, ⟨_, formed'⟩, plain, plain', alike => by
      simp only [ofView]
      exact alike_entries entries others formed formed' plain plain' alike
  | .atom _, .sequence .., _, _, _, _, alike | .atom _, .dict .., _, _, _, _, alike
  | .sequence .., .atom _, _, _, _, _, alike | .sequence .., .dict .., _, _, _, _, alike
  | .dict .., .atom _, _, _, _, _, alike | .dict .., .sequence .., _, _, _, _, alike => by
      cases alike

theorem alike_elements : (vs us : List View) → View.AllFormed vs → View.AllFormed us →
    View.AllPlain forest vs → View.AllPlain forest us → View.AllAlike forest vs us →
    AllAlike forest (vs.flatMap (ofElement forest)) (us.flatMap (ofElement forest))
  | [], [], _, _, _, _, _ => trivial
  | v :: rest, u :: others, ⟨formed, restFormed⟩, ⟨formed', othersFormed⟩, ⟨plain, restPlain⟩,
      ⟨plain', othersPlain⟩, ⟨alike, later⟩ => by
      have inner := alike_ofView v u formed formed' plain plain' alike
      have here := alike_ofElement formed formed' plain plain' alike inner
      rw [List.flatMap_cons, List.flatMap_cons]
      exact here.append
        (alike_elements rest others restFormed othersFormed restPlain othersPlain later)
  | [], _ :: _, _, _, _, _, alike | _ :: _, [], _, _, _, _, alike => by cases alike

theorem alike_entries : (entries others : List (View × View)) → View.EntriesFormed entries →
    View.EntriesFormed others → View.EntriesPlain forest entries →
    View.EntriesPlain forest others → View.EntriesAlike forest entries others →
    AllAlike forest (ofEntries forest entries) (ofEntries forest others)
  | [], [], _, _, _, _, _ => trivial
  | (k, v) :: rest, (l, u) :: others, ⟨_, formed, restFormed⟩, ⟨_, formed', othersFormed⟩,
      ⟨_, plain, restPlain⟩, ⟨_, plain', othersPlain⟩, ⟨numeric, name, alike, later⟩ => by
      have after := alike_entries rest others restFormed othersFormed restPlain othersPlain later
      have sameKey : forest.fieldKey? l.value = forest.fieldKey? k.value := by
        rw [Forest.fieldKey?, Forest.fieldKey?, numeric, name]
      rw [sameKey] at plain'
      rw [ofEntries, ofEntries]
      refine AllAlike.append ?_ after
      cases named : forest.fieldKey? k.value with
      | some key =>
          simp only [named] at plain plain' alike
          rw [Forest.classify_of_fieldKey? named plain.1,
            Forest.classify_of_fieldKey? (sameKey.trans named) plain'.1]
          exact ⟨⟨rfl, alike⟩, trivial⟩
      | none =>
          simp only [named] at plain plain' alike
          have inner := alike_ofView v u formed formed' plain plain' alike
          rw [← Forest.classify_congr numeric name]
          rcases Forest.classify_of_no_fieldKey named with position | ⟨c, group⟩ | negation
          · rw [position]
            exact alike_ofElement formed formed' plain plain' alike inner
          · rw [group, group]
            exact ⟨⟨rfl, inner⟩, trivial⟩
          · rw [negation, negation]
            exact ⟨inner, trivial⟩
  | [], _ :: _, _, _, _, _, alike | _ :: _, [], _, _, _, _, alike => by cases alike
end

end Item

namespace Forest

variable {forest : Forest}

theorem text?_of_alike {v u : Value} {s : String} (text : v.text? = some s)
    (alike : (forest.view v).Alike forest (forest.view u)) : u = .text s := by
  obtain rfl := Value.text?_eq_some.mp text
  have value := value_view forest u
  rw [view_text] at alike
  generalize forest.view u = other at alike value
  cases other with
  | atom other =>
      rw [← value]
      exact alike.symm
  | _ => cases alike

theorem alike_symm_text {v u : Value} (text : v.text? = none)
    (alike : (forest.view v).Alike forest (forest.view u)) : u.text? = none := by
  cases other : u.text? with
  | none => rfl
  | some s =>
      obtain rfl := Value.text?_eq_some.mp other
      have value := value_view forest v
      rw [view_text] at alike
      generalize forest.view v = view at alike value
      cases view with
      | atom view =>
          cases alike
          rw [← value] at text
          cases text
      | _ => cases alike

theorem alike_items {v u : Value} (plain : (forest.view v).Plain forest)
    (plain' : (forest.view u).Plain forest)
    (alike : (forest.view v).Alike forest (forest.view u)) :
    Item.AllAlike forest (forest.items v) (forest.items u) := by
  cases text : v.text? with
  | none =>
      rw [items_of_not_text plain text, items_of_not_text plain' (alike_symm_text text alike)]
      exact Item.alike_ofView _ _ (View.formed_view forest v) (View.formed_view forest u) plain
        plain' alike
  | some s =>
      rw [text?_of_alike text alike, Value.text?_eq_some.mp text, items_text]
      split
      · trivial
      · exact ⟨rfl, trivial⟩

end Forest

namespace WorkspaceM

variable {w : Workspace}

/-- What fields are compared with and the types that are declared are not in the text. -/
theorem sql_independent_of_values {description other types types' connective : Value} {c : String}
    {table table' : Table String String} (joins : w.settings.joins? connective = some c)
    (typed : types.typeTable? = some table) (typed' : types'.typeTable? = some table')
    (plain : (w.view description).Plain w.toForest) (plain' : (w.view other).Plain w.toForest)
    (alike : (w.view description).Alike w.toForest (w.view other)) :
    ∃ outcome outcome' after after',
      run (compileDescription description types connective) w = (.ok outcome, after) ∧
      run (compileDescription other types' connective) w = (.ok outcome', after') ∧
      outcome.sql = outcome'.sql := by
  obtain ⟨after, done⟩ := compileDescription_ok joins typed plain
  obtain ⟨after', done'⟩ := compileDescription_ok joins typed' plain'
  have items := Forest.alike_items plain plain' alike
  have fresh : (Binder.fresh w.nextIdentifier).Alike w.toForest w.settings
      (.fresh w.nextIdentifier) := .refl_fresh _
  have drafted := Item.alike_draftAll table table' (w.nextIdentifier + 1) fresh _ _ items
  have texts := Item.texts_tree drafted c (.fresh 0) (.fresh 0)
  rw [Draft.picture, Draft.picture] at texts
  refine ⟨_, _, after, after', done, done', ?_⟩
  simp only [Picture.outcome, Workspace.picture, texts]

def comparedWithNumbers : Value :=
  .dict ⟨1⟩ [(.text "a", .int 1), (.text "b IN", .list ⟨2⟩ [.int 1, .int 2])]

def comparedWithTexts : Value :=
  .dict ⟨1⟩ [(.text "a", .text "1 OR a"), (.text "b IN", .tuple ⟨2⟩ [.text ":c2_0", .null])]

theorem sql_independent_of_numbers :
    ∃ outcome outcome' after after',
      run (compileDescription comparedWithNumbers .null (.text "or")) {} = (.ok outcome, after) ∧
      run (compileDescription comparedWithTexts (.dict ⟨3⟩ [(.text "b", .text "int[]")])
        (.text "or")) {} = (.ok outcome', after') ∧
      outcome.sql = outcome'.sql := by
  have comparison : Forest.fieldKey? ({} : Forest) (.text "a") = some ⟨"a", "="⟩ := by
    decide +kernel
  have membership : Forest.fieldKey? ({} : Forest) (.text "b IN") = some ⟨"b", "IN"⟩ := by
    decide +kernel
  have plain : (Forest.view {} comparedWithNumbers).Plain {} := by
    apply Forest.plain_of_describes rfl
    simp only [comparedWithNumbers, Forest.Describes, Forest.EntriesDescribe, comparison,
      membership]
    exact ⟨trivial, ⟨rfl, nofun⟩, trivial, ⟨rfl, nofun⟩, trivial⟩
  have plain' : (Forest.view {} comparedWithTexts).Plain {} := by
    apply Forest.plain_of_describes rfl
    simp only [comparedWithTexts, Forest.Describes, Forest.EntriesDescribe, comparison,
      membership]
    exact ⟨trivial, ⟨rfl, nofun⟩, trivial, ⟨rfl, nofun⟩, trivial⟩
  have alike : (Forest.view {} comparedWithNumbers).Alike {}
      (Forest.view {} comparedWithTexts) := by
    refine ⟨rfl, rfl, ?_, rfl, rfl, ?_, trivial⟩
    · simp only [View.ofValue, View.value, comparison]
      exact fun _ => rfl
    · simp only [View.ofValue, View.value, membership]
      exact fun _ => rfl
  exact sql_independent_of_values rfl rfl rfl plain plain' alike

end WorkspaceM

end WhereClause
