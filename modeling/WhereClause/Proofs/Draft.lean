import WhereClause.Build
import WhereClause.Proofs.Outline

/-!
# Drafts

A draft is a condition as it is built, as finite data: a tree carries the binder that it is built
on, and what it becomes when it is compiled can be read off. Drafting does for items what building
does, without a workspace; it passes on the next identifier and the binder of the tree at hand.

* `picture_congr`: the picture of a draft depends on the forest through the lists in it only.
-/

namespace WhereClause

/-- A piece of a description that is no container. -/
inductive Leaf
  | raw (text : String)
  | entry (key : Key) (value : Value)
  | node (id : NodeId)

namespace Item

mutual
def leaves : Item → List Leaf
  | raw text => [.raw text]
  | field key value => [.entry key value]
  | nested id => [.node id]
  | group _ items | negation items => allLeaves items

def allLeaves : List Item → List Leaf
  | [] => []
  | item :: rest => item.leaves ++ allLeaves rest
end

end Item

/-- If the value is a list of conditions, then one of a tree with a number below this. -/
def Value.Below (n : Nat) (v : Value) : Prop :=
  ∀ tree stage, v = .conditions tree stage → tree.index < n

/-- The leaf can be built, is no node, and knows trees with numbers below this only. -/
def Leaf.Plain (n : Nat) : Leaf → Prop
  | raw _ => True
  | entry key value => value.node? = none ∧ Text.trim key.operator ≠ "" ∧ value.Below n
  | node _ => False

def Key.membership (key : Key) (placeholder : String) : String :=
  key.field ++ " " ++ key.operator ++ " (" ++ placeholder ++ ")"

def Key.comparison (key : Key) (placeholder : String) : String :=
  key.field ++ " " ++ key.operator ++ " " ++ placeholder

def Settings.memberType (settings : Settings) (declared : Option String) : String :=
  settings.withMarker (match declared with
    | some type => if type.isEmpty then settings.defaultMultiType else type
    | none => settings.defaultMultiType)

theorem Settings.marks_withMarker (settings : Settings) (type : String) :
    settings.marks (settings.withMarker type) = true := by
  unfold withMarker
  split
  · assumption
  · simp only [marks, String.toList_append]
    exact Text.occurs_iff.mpr ⟨type.toList, [], by rw [List.append_nil]⟩

/-- A condition as it is built. The binder of a tree holds the bindings of its members. -/
inductive Draft
  | raw (text : String)
  | member (key : Key) (placeholder : String)
  | leaf (sql : String) (own : Bindings)
  | negation (inner : Draft)
  | tree (connective : String) (binder : Binder) (parts : List Draft)

structure Drafted (α : Type) where
  made : α
  next : Nat
  binder : Binder

def Binder.registered (settings : Settings) (field : String) (value type : Value) (b : Binder) :
    Binder :=
  (b.register settings (.text field) value type).2

def Binder.nextName (settings : Settings) (field : String) (b : Binder) : String :=
  (b.next settings (.text field)).name

theorem Binder.registered_eq (settings : Settings) (field : String) (value : Value)
    (type : Option String) (b : Binder) :
    b.registered settings field value (.ofText? type) =
      let name := b.nextName settings field
      let binding : Binding := ⟨fragmentOf name, value, type⟩
      { b with
        count := b.count + 1
        bindings := Table.put b.count binding b.bindings
        reserved := Table.erase name (Table.put name b.count b.reserved)
        expands := b.expands || binding.isMulti settings } := by
  cases type <;>
    simp [registered, nextName, register, reserve, bindName, takeNumber, keep, advance, next,
      Table.get?_put, Value.ofText?, Value.toType, Value.toText, record, note, Except.map]

theorem Binder.register_ofText? (settings : Settings) (field : String) (value : Value)
    (type : Option String) (b : Binder) :
    b.register settings (.text field) value (.ofText? type) =
      (.ok (b.nextName settings field), b.registered settings field value (.ofText? type)) := by
  cases type <;>
    simp [registered, nextName, register, reserve, bindName, takeNumber, keep, advance, next,
      Table.get?_put, Value.ofText?, Value.toType, Value.toText, Except.map]

def Binder.fresh (identifier : Nat) : Binder := { identifier := toString identifier }

namespace Item

section
variable (settings : Settings) (types : Table String String)

def draftField (next : Nat) (b : Binder) (key : Key) (value : Value) : Drafted Draft :=
  let declared := Table.get? key.field types
  if key.isMembership then
    ⟨.member key (b.nextName settings key.field), next,
      b.registered settings key.field value (.text (settings.memberType declared))⟩
  else
    let own := Binder.fresh next
    ⟨.leaf (key.comparison (own.nextName settings key.field))
        (own.registered settings key.field value (.ofText? declared)).bindings, next + 1, b⟩

mutual
def draft (next : Nat) (b : Binder) : Item → Drafted (Option Draft)
  | raw text => ⟨some (.raw text), next, b⟩
  | nested _ => ⟨none, next, b⟩
  | field key value =>
    let made := draftField settings types next b key value
    ⟨some made.made, made.next, made.binder⟩
  | group connective items =>
    if items.isEmpty then ⟨none, next, b⟩
    else
      let inner := draftAll (next + 1) (.fresh next) items
      ⟨some (.tree (Text.upper connective) inner.binder inner.made), inner.next, b⟩
  | negation items =>
    if items.isEmpty then ⟨none, next, b⟩
    else
      let inner := draftAll (next + 1) (.fresh next) items
      ⟨some (.negation (.tree (Text.upper settings.defaultConnective) inner.binder inner.made)),
        inner.next, b⟩

def draftAll (next : Nat) (b : Binder) : List Item → Drafted (List Draft)
  | [] => ⟨[], next, b⟩
  | item :: rest =>
    let first := draft next b item
    let later := draftAll first.next first.binder rest
    ⟨first.made.toList ++ later.made, later.next, later.binder⟩
end

end

end Item

def Binder.rewriteText (forest : Forest) (settings : Settings) (b : Binder) (s : String) : String :=
  if b.expands then
    String.ofList
      (Expansion.substituteText (b.expand forest settings).1.replacements s.toList)
  else s

namespace Draft

mutual
def picture (forest : Forest) (settings : Settings) (b : Binder) : Draft → Picture
  | raw text => .text (b.rewriteText forest settings text)
  | member key placeholder => .text (b.rewriteText forest settings (key.membership placeholder))
  | leaf sql own => .leaf sql own
  | negation inner => .unary "NOT" false (picture forest settings b inner)
  | tree connective binder parts =>
    .tree connective (binder.final forest settings) (pictures forest settings binder parts)

def pictures (forest : Forest) (settings : Settings) (b : Binder) : List Draft → List Picture
  | [] => []
  | d :: rest => picture forest settings b d :: pictures forest settings b rest
end

theorem pictures_eq (forest : Forest) (settings : Settings) (b : Binder) (parts : List Draft) :
    pictures forest settings b parts = parts.map (picture forest settings b) := by
  induction parts with
  | nil => rfl
  | cons d rest ih => rw [pictures, ih, List.map_cons]

end Draft

/-- Every list of conditions among the bound values is one of a tree with a number below this. -/
def Binder.Holds (n : Nat) (b : Binder) : Prop := ∀ entry ∈ b.bindings, entry.2.value.Below n

theorem Binder.holds_fresh (n identifier : Nat) : (Binder.fresh identifier).Holds n := nofun

theorem Binder.Holds.registered {n : Nat} {b : Binder} (holds : b.Holds n) (settings : Settings)
    (field : String) {value : Value} (below : value.Below n) (type : Option String) :
    (b.registered settings field value (.ofText? type)).Holds n := by
  intro entry member
  rw [registered_eq] at member
  rcases Table.mem_put member with rfl | before
  · exact below
  · exact holds entry before

/-- Lists hold the same in both forests, if they were there before. -/
def Forest.Agree (n : Nat) (forest other : Forest) : Prop :=
  ∀ v : Value, v.Below n → other.elements v = forest.elements v

section
variable {forest other : Forest} {settings : Settings} {types : Table String String} {n : Nat}

theorem Binder.final_agree (agree : forest.Agree n other) {b : Binder} (holds : b.Holds n) :
    b.final other settings = b.final forest settings :=
  Binder.final_congr other forest settings fun _ entry member => agree _ (holds entry member)

theorem Binder.rewriting_agree (settings : Settings) (agree : forest.Agree n other) {b : Binder}
    (holds : b.Holds n) :
    b.rewriting other settings = b.rewriting forest settings :=
  Binder.rewriting_congr other forest settings fun _ entry member => agree _ (holds entry member)

theorem Binder.rewriting_raw (b : Binder) (s : String) :
    b.rewriting forest settings (.text s) = .text (b.rewriteText forest settings s) := by
  unfold rewriting rewriteText
  split <;> rfl

theorem Binder.rewriteText_agree (agree : forest.Agree n other) {b : Binder} (holds : b.Holds n)
    (s : String) : b.rewriteText other settings s = b.rewriteText forest settings s := by
  have same := congrFun (rewriting_agree settings agree holds) (.text s)
  simpa only [rewriting_raw, Value.text.injEq] using same

end

namespace Item

variable (settings : Settings) (types : Table String String) {n : Nat}

theorem holds_draft {item : Item} (plain : ∀ leaf ∈ item.leaves, leaf.Plain n) (next : Nat)
    {b : Binder} (holds : b.Holds n) : (draft settings types next b item).binder.Holds n := by
  cases item with
  | raw text => exact holds
  | nested id => exact holds
  | field key value =>
      obtain ⟨-, -, below⟩ := plain (.entry key value) (by simp [leaves])
      simp only [draft, draftField]
      split
      · exact holds.registered settings key.field below (some _)
      · exact holds
  | group connective items | negation items =>
      simp only [draft]
      split <;> exact holds

theorem holds_draftAll {items : List Item} (plain : ∀ leaf ∈ allLeaves items, leaf.Plain n)
    (next : Nat) {b : Binder} (holds : b.Holds n) :
    (draftAll settings types next b items).binder.Holds n := by
  induction items generalizing next b with
  | nil => exact holds
  | cons item rest ih =>
      obtain ⟨here, later⟩ := List.forall_mem_append.mp plain
      exact ih later _ (holds_draft settings types here next holds)

end Item

namespace Draft

variable {forest other : Forest} {settings : Settings} {types : Table String String} {n : Nat}

mutual
theorem picture_congr (agree : forest.Agree n other) {b : Binder} (holds : b.Holds n)
    (next : Nat) (start : Binder) : (item : Item) → (∀ leaf ∈ item.leaves, leaf.Plain n) →
    (item.draft settings types next start).made.map (picture other settings b) =
      (item.draft settings types next start).made.map (picture forest settings b)
  | .raw text, _ => by
      simp only [Item.draft, Option.map_some, picture, Binder.rewriteText_agree agree holds]
  | .nested id, _ => by simp only [Item.draft, Option.map_none]
  | .field key value, _ => by
      simp only [Item.draft, Item.draftField]
      split
      · simp only [Option.map_some, picture, Binder.rewriteText_agree agree holds]
      · simp only [Option.map_some, picture]
  | .group connective items, plain => by
      simp only [Item.draft]
      split
      · simp only [Option.map_none]
      · have fresh := Binder.holds_fresh n next
        have inner := Item.holds_draftAll settings types plain (next + 1) fresh
        simp only [Option.map_some, picture, Binder.final_agree agree inner,
          pictures_congr agree inner (next + 1) (.fresh next) items plain]
  | .negation items, plain => by
      simp only [Item.draft]
      split
      · simp only [Option.map_none]
      · have fresh := Binder.holds_fresh n next
        have inner := Item.holds_draftAll settings types plain (next + 1) fresh
        simp only [Option.map_some, picture, Binder.final_agree agree inner,
          pictures_congr agree inner (next + 1) (.fresh next) items plain]

theorem pictures_congr (agree : forest.Agree n other) {b : Binder} (holds : b.Holds n)
    (next : Nat) (start : Binder) : (items : List Item) →
    (∀ leaf ∈ Item.allLeaves items, leaf.Plain n) →
    pictures other settings b (Item.draftAll settings types next start items).made =
      pictures forest settings b (Item.draftAll settings types next start items).made
  | [], _ => by simp only [Item.draftAll, pictures]
  | item :: rest, plain => by
      obtain ⟨here, later⟩ := List.forall_mem_append.mp plain
      have first := picture_congr agree holds next start item here
      have others := pictures_congr agree holds (item.draft settings types next start).next
        (item.draft settings types next start).binder rest later
      simp only [Item.draftAll, pictures_eq, List.map_append, ← Option.toList_map] at others ⊢
      rw [first, others]
end

end Draft
end WhereClause
