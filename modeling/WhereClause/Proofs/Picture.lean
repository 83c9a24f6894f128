import Mathlib.Data.Finset.Card
import Mathlib.Data.Fintype.Card
import Mathlib.Data.List.Forall2
import WhereClause.Collect

/-!
# Pictures

A picture is a condition as finite data: what stands in a forest below a handle, with every tree as
it is after compiling. A forest is read through outlines, one for each node that can be rendered,
and a value shows at most one picture.

* `Shows.unique`: a value shows one picture only.
* `Shows.mono`: more outlines show no less.
* `Shows.height_le`: a picture is no higher than there are nodes.
-/

namespace WhereClause

/-- The text of a condition by itself, and its text beside an operator. -/
structure Texts where
  alone : String
  beside : String
  deriving DecidableEq

namespace Texts

def wrapping (s : String) : Texts := ⟨s, parenthesized s⟩

def join (connective : String) : List Texts → Texts
  | [] => wrapping ""
  | [texts] => texts
  | texts =>
    let s := joined connective (texts.map alone)
    ⟨s, s⟩

theorem alone_join (connective : String) (texts : List Texts) :
    (join connective texts).alone = joined connective (texts.map alone) := by
  match texts with
  | [] => simp [join, wrapping, joined]
  | [one] => simp [join, joined]
  | _ :: _ :: _ => rfl

end Texts

/-- A condition down to its leaves. Nodes that can bind values carry their own bindings. -/
inductive Picture
  | text (s : String)
  | leaf (sql : String) (own : Bindings)
  | nested (field operator : String) (own : Bindings) (operand : Picture)
  | unary (symbol : String) (trailing : Bool) (argument : Picture)
  | tree (connective : String) (own : Bindings) (parts : List Picture)

namespace Picture

mutual
def texts : Picture → Texts
  | text s | leaf s _ => .wrapping s
  | nested field operator _ operand =>
    .wrapping (field ++ " " ++ operator ++ " " ++ operand.texts.beside)
  | unary symbol trailing argument =>
    .wrapping (if trailing then argument.texts.alone ++ " " ++ symbol
      else symbol ++ " " ++ argument.texts.beside)
  | tree connective _ parts => .join connective (allTexts parts)

def allTexts : List Picture → List Texts
  | [] => []
  | p :: rest => p.texts :: allTexts rest
end

mutual
/-- The bindings of a condition, those of the nodes below a node before its own. -/
def collected : Picture → List Binding
  | text _ => []
  | leaf _ own => Table.values own
  | nested _ _ own operand => operand.collected ++ Table.values own
  | unary _ _ argument => argument.collected
  | tree _ own parts => allCollected parts ++ Table.values own

def allCollected : List Picture → List Binding
  | [] => []
  | p :: rest => p.collected ++ allCollected rest
end

mutual
def height : Picture → Nat
  | text _ => 0
  | leaf .. => 1
  | nested _ _ _ operand => operand.height + 1
  | unary _ _ argument => argument.height + 1
  | tree _ _ parts => maxHeight parts + 1

def maxHeight : List Picture → Nat
  | [] => 0
  | p :: rest => max p.height (maxHeight rest)
end

@[simp] theorem allTexts_eq (parts : List Picture) : allTexts parts = parts.map texts := by
  induction parts with
  | nil => rfl
  | cons p rest ih => simp [allTexts, ih]

@[simp] theorem allCollected_eq (parts : List Picture) :
    allCollected parts = parts.flatMap collected := by
  induction parts with
  | nil => rfl
  | cons p rest ih => simp [allCollected, ih]

theorem height_le_maxHeight {p : Picture} {parts : List Picture} (member : p ∈ parts) :
    p.height ≤ maxHeight parts := by
  induction parts with
  | nil => cases member
  | cons q rest ih =>
      simp only [maxHeight]
      rcases List.mem_cons.mp member with rfl | later
      · exact Nat.le_max_left ..
      · exact (ih later).trans (Nat.le_max_right ..)

theorem height_of_part (connective : String) (own : Bindings) {p : Picture} {parts : List Picture}
    (member : p ∈ parts) : p.height < (tree connective own parts).height := by
  rw [height]
  exact Nat.lt_succ_of_le (height_le_maxHeight member)

theorem exists_maxHeight {parts : List Picture} (high : 0 < maxHeight parts) :
    ∃ p ∈ parts, p.height = maxHeight parts := by
  induction parts with
  | nil => simp [maxHeight] at high
  | cons q rest ih =>
      simp only [maxHeight] at high ⊢
      by_cases first : maxHeight rest ≤ q.height
      · exact ⟨q, by simp, by omega⟩
      · obtain ⟨p, member, same⟩ := ih (by omega)
        exact ⟨p, by simp [member], by omega⟩

end Picture

/-- What rendering needs to know of a node: for a tree, the conditions and the bindings that it has
after compiling. -/
inductive Outline
  | leaf (sql : String) (own : Bindings)
  | nested (field operator : String) (own : Bindings) (operand : NodeId)
  | unary (symbol : String) (trailing : Bool) (argument : NodeId)
  | tree (connective : String) (own : Bindings) (conditions : List Value)

abbrev Outlines := NodeId → Option Outline

def Outlines.Within (outlines more : Outlines) : Prop :=
  ∀ id outline, outlines id = some outline → more id = some outline

theorem Outlines.Within.refl (outlines : Outlines) : outlines.Within outlines := fun _ _ h => h

theorem Outlines.Within.trans {first second third : Outlines} (h : first.Within second)
    (h' : second.Within third) : first.Within third :=
  fun id outline found => h' id outline (h id outline found)

/-- The value shows the picture when nodes are read by their outlines. -/
inductive Shows (outlines : Outlines) : Value → Picture → Prop
  | text (s : String) : Shows outlines (.text s) (.text s)
  | leaf {id : NodeId} {sql : String} {own : Bindings}
      (found : outlines id = some (.leaf sql own)) : Shows outlines (.node id) (.leaf sql own)
  | nested {id operand : NodeId} {field operator : String} {own : Bindings} {p : Picture}
      (found : outlines id = some (.nested field operator own operand))
      (inner : Shows outlines (.node operand) p) :
      Shows outlines (.node id) (.nested field operator own p)
  | unary {id argument : NodeId} {symbol : String} {trailing : Bool} {p : Picture}
      (found : outlines id = some (.unary symbol trailing argument))
      (inner : Shows outlines (.node argument) p) :
      Shows outlines (.node id) (.unary symbol trailing p)
  | tree {id : NodeId} {connective : String} {own : Bindings} {conditions : List Value}
      {parts : List Picture} (found : outlines id = some (.tree connective own conditions))
      (lengths : conditions.length = parts.length)
      (each : ∀ v p, (v, p) ∈ conditions.zip parts → Shows outlines v p) :
      Shows outlines (.node id) (.tree connective own parts)

namespace Shows

variable {outlines more : Outlines}

theorem mono (within : outlines.Within more) {v : Value} {p : Picture}
    (shows' : Shows outlines v p) : Shows more v p := by
  induction shows' with
  | text s => exact .text s
  | leaf found => exact .leaf (within _ _ found)
  | nested found _ ih => exact .nested (within _ _ found) ih
  | unary found _ ih => exact .unary (within _ _ found) ih
  | tree found lengths _ ih => exact .tree (within _ _ found) lengths ih

theorem forall₂_iff {conditions : List Value} {parts : List Picture} :
    List.Forall₂ (Shows outlines) conditions parts ↔
      conditions.length = parts.length ∧
        ∀ v p, (v, p) ∈ conditions.zip parts → Shows outlines v p := by
  simp only [List.forall₂_iff_zip]

theorem node_iff {id : NodeId} {p : Picture} :
    Shows outlines (.node id) p ↔
      ∃ outline, outlines id = some outline ∧
        match outline with
        | .leaf sql own => p = .leaf sql own
        | .nested field operator own operand =>
          ∃ q, p = .nested field operator own q ∧ Shows outlines (.node operand) q
        | .unary symbol trailing argument =>
          ∃ q, p = .unary symbol trailing q ∧ Shows outlines (.node argument) q
        | .tree connective own conditions =>
          ∃ parts, p = .tree connective own parts ∧
            List.Forall₂ (Shows outlines) conditions parts := by
  constructor
  · intro shown
    cases shown with
    | leaf found => exact ⟨_, found, rfl⟩
    | nested found inner => exact ⟨_, found, _, rfl, inner⟩
    | unary found inner => exact ⟨_, found, _, rfl, inner⟩
    | tree found lengths each => exact ⟨_, found, _, rfl, forall₂_iff.mpr ⟨lengths, each⟩⟩
  · rintro ⟨outline, found, shown⟩
    cases outline with
    | leaf sql own => exact shown ▸ .leaf found
    | nested field operator own operand =>
        obtain ⟨q, rfl, inner⟩ := shown
        exact .nested found inner
    | unary symbol trailing argument =>
        obtain ⟨q, rfl, inner⟩ := shown
        exact .unary found inner
    | tree connective own conditions =>
        obtain ⟨parts, rfl, each⟩ := shown
        obtain ⟨lengths, each⟩ := forall₂_iff.mp each
        exact .tree found lengths each

theorem text_iff {s : String} {p : Picture} : Shows outlines (.text s) p ↔ p = .text s := by
  constructor
  · intro shown
    cases shown
    rfl
  · rintro rfl
    exact .text s

theorem text_or_node {v : Value} {p : Picture} (shown : Shows outlines v p) :
    (∃ s, v = .text s ∧ p = .text s) ∨ ∃ id, v = .node id := by
  cases shown with
  | text s => exact .inl ⟨s, rfl, rfl⟩
  | leaf | nested | unary | tree => exact .inr ⟨_, rfl⟩

theorem leaf_of {id : NodeId} {sql : String} {own : Bindings} {p : Picture}
    (known : outlines id = some (.leaf sql own)) (shown : Shows outlines (.node id) p) :
    p = .leaf sql own := by
  obtain ⟨outline, found, rest⟩ := node_iff.mp shown
  cases Option.some.inj (known.symm.trans found)
  exact rest

theorem nested_of {id operand : NodeId} {field operator : String} {own : Bindings} {p : Picture}
    (known : outlines id = some (.nested field operator own operand))
    (shown : Shows outlines (.node id) p) :
    ∃ q, p = .nested field operator own q ∧ Shows outlines (.node operand) q := by
  obtain ⟨outline, found, rest⟩ := node_iff.mp shown
  cases Option.some.inj (known.symm.trans found)
  exact rest

theorem unary_of {id argument : NodeId} {symbol : String} {trailing : Bool} {p : Picture}
    (known : outlines id = some (.unary symbol trailing argument))
    (shown : Shows outlines (.node id) p) :
    ∃ q, p = .unary symbol trailing q ∧ Shows outlines (.node argument) q := by
  obtain ⟨outline, found, rest⟩ := node_iff.mp shown
  cases Option.some.inj (known.symm.trans found)
  exact rest

theorem tree_of {id : NodeId} {connective : String} {own : Bindings} {conditions : List Value}
    {p : Picture} (known : outlines id = some (.tree connective own conditions))
    (shown : Shows outlines (.node id) p) :
    ∃ parts, p = .tree connective own parts ∧
      List.Forall₂ (Shows outlines) conditions parts := by
  obtain ⟨outline, found, rest⟩ := node_iff.mp shown
  cases Option.some.inj (known.symm.trans found)
  exact rest

theorem of_tree {id : NodeId} {connective : String} {own : Bindings} {conditions : List Value}
    {parts : List Picture} (known : outlines id = some (.tree connective own conditions))
    (each : List.Forall₂ (Shows outlines) conditions parts) :
    Shows outlines (.node id) (.tree connective own parts) :=
  node_iff.mpr ⟨_, known, _, rfl, each⟩

theorem beside_of_not_tree {id : NodeId} {p : Picture} (shown : Shows outlines (.node id) p)
    (other : ∀ connective own conditions,
      outlines id ≠ some (.tree connective own conditions)) :
    p.texts.beside = parenthesized p.texts.alone := by
  cases shown with
  | leaf | nested | unary => rfl
  | tree found => exact absurd found (other _ _ _)

theorem height_pos {id : NodeId} {p : Picture} (shown : Shows outlines (.node id) p) :
    0 < p.height := by
  cases shown <;> exact Nat.succ_pos _

theorem unique {v : Value} {p q : Picture} (first : Shows outlines v p)
    (second : Shows outlines v q) : p = q := by
  induction first generalizing q with
  | text s => exact (text_iff.mp second).symm
  | leaf found => exact (leaf_of found second).symm
  | nested found _ ih =>
      obtain ⟨q, rfl, inner⟩ := nested_of found second
      rw [ih inner]
  | unary found _ ih =>
      obtain ⟨q, rfl, inner⟩ := unary_of found second
      rw [ih inner]
  | @tree id connective own conditions parts found lengths _ ih =>
      obtain ⟨others, rfl, each⟩ := tree_of found second
      rw [forall₂_iff] at each
      congr 1
      apply List.ext_getElem (lengths.symm.trans each.1)
      intro i bound bound'
      refine ih (conditions.get ⟨i, lengths ▸ bound⟩) parts[i] ?_ (each.2 _ _ ?_)
      all_goals exact List.mem_iff_getElem.mpr ⟨i, by simp; omega, by simp⟩

theorem exists_height {v : Value} {p : Picture} (shown : Shows outlines v p) :
    ∀ k, 0 < k → k ≤ p.height → ∃ id q, Shows outlines (.node id) q ∧ q.height = k := by
  induction shown with
  | text s =>
      intro k positive le
      simp only [Picture.height] at le
      omega
  | @leaf id sql own found =>
      intro k positive le
      simp only [Picture.height] at le
      exact ⟨id, _, .leaf found, by simp only [Picture.height]; omega⟩
  | @nested id operand field operator own p found inner ih =>
      intro k positive le
      simp only [Picture.height] at le
      by_cases below : k ≤ p.height
      · exact ih k positive below
      · exact ⟨id, _, .nested found inner, by simp only [Picture.height]; omega⟩
  | @unary id argument symbol trailing p found inner ih =>
      intro k positive le
      simp only [Picture.height] at le
      by_cases below : k ≤ p.height
      · exact ih k positive below
      · exact ⟨id, _, .unary found inner, by simp only [Picture.height]; omega⟩
  | @tree id connective own conditions parts found lengths each ih =>
      intro k positive le
      simp only [Picture.height] at le
      by_cases below : k ≤ Picture.maxHeight parts
      · have some_part : 0 < Picture.maxHeight parts := positive.trans_le below
        obtain ⟨p, member, high⟩ := Picture.exists_maxHeight some_part
        obtain ⟨i, bound, rfl⟩ := List.mem_iff_getElem.mp member
        refine ih (conditions.get ⟨i, lengths ▸ bound⟩) parts[i] ?_ k positive (by omega)
        exact List.mem_iff_getElem.mpr ⟨i, by simp; omega, by simp⟩
      · exact ⟨id, _, .tree found lengths each, by simp only [Picture.height]; omega⟩

theorem height_le {n : Nat} (bounded : ∀ id outline, outlines id = some outline → id.index < n)
    {v : Value} {p : Picture} (shown : Shows outlines v p) : p.height ≤ n := by
  have level (k : Fin p.height) :
      ∃ id q, Shows outlines (.node id) q ∧ q.height = k.val + 1 :=
    shown.exists_height (k.val + 1) (Nat.succ_pos _) k.isLt
  -- The node at each height: two heights at one node would be those of one picture.
  choose id q shows' heights using level
  have inRange (k : Fin p.height) : (id k).index < n := by
    obtain ⟨outline, found, -⟩ := node_iff.mp (shows' k)
    exact bounded _ _ found
  have injective : Function.Injective fun k => (⟨(id k).index, inRange k⟩ : Fin n) := by
    intro k l same
    have sameNode : id k = id l := by
      rw [Fin.mk.injEq] at same
      exact congrArg NodeId.mk same
    have samePicture : q k = q l := (shows' k).unique (sameNode ▸ shows' l)
    have := heights k
    rw [samePicture, heights l] at this
    exact Fin.ext (by omega)
  simpa using Fintype.card_le_of_injective _ injective

end Shows
end WhereClause
