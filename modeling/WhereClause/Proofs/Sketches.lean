import WhereClause.Proofs.Compiling
import WhereClause.Proofs.Keeping
import WhereClause.Proofs.Rosters
import WhereClause.Proofs.Totality

/-!
# The counter of identifiers is only renaming

A sketch is a draft with places instead of placeholders: it says what is built from items without
saying where counting of identifiers starts. The draft that is built is the sketch, filled; so are
its texts and its bindings. What a description is compiled to from two values of the counter is
therefore the same up to the names in the places.

* `draft_sketch`: what is built is what is sketched.
* `picture_fill`: its texts and its bindings.
* `compileDescription_renames`: one form of the outcome for every value of the counter.
-/

namespace WhereClause

/-! ## Outcomes with places -/

/-- A text by itself and beside an operator, with places. -/
structure Sides where
  alone : Template
  beside : Template

namespace Template

def parenthesized (t : Template) : Template := .char '(' :: (t ++ [.char ')'])

theorem fill_parenthesized (stem : String) (first : Nat) (t : Template) :
    String.ofList (fill stem first t.parenthesized) =
      WhereClause.parenthesized (String.ofList (fill stem first t)) := by
  simp [parenthesized, WhereClause.parenthesized, Piece.fill, ← String.toList_inj]

end Template

namespace Sides

def wrapping (t : Template) : Sides := ⟨t, t.parenthesized⟩

def join (connective : String) : List Sides → Sides
  | [] => wrapping []
  | [sides] => sides
  | parts =>
    let t := Template.parenthesized
      (.between (" " ++ connective ++ " ").toList (parts.map alone))
    ⟨t, t⟩

variable (stem : String) (first : Nat)

def fill (sides : Sides) : Texts :=
  ⟨String.ofList (sides.alone.fill stem first), String.ofList (sides.beside.fill stem first)⟩

theorem fill_wrapping (t : Template) :
    (wrapping t).fill stem first = .wrapping (String.ofList (t.fill stem first)) := by
  rw [fill, wrapping, Template.fill_parenthesized, Texts.wrapping]

theorem fill_join (connective : String) (parts : List Sides) :
    (join connective parts).fill stem first =
      .join connective (parts.map (fill stem first)) := by
  match parts with
  | [] => exact fill_wrapping stem first []
  | [sides] => rfl
  | one :: two :: rest =>
      have alone := Template.fill_between stem first (" " ++ connective ++ " ")
        ((one :: two :: rest).map alone)
      rw [List.map_map] at alone
      simp only [join, fill, Template.fill_parenthesized, alone]
      simp only [List.map_cons, Texts.join, joined, List.map_map]
      rfl

end Sides

/-- A binding in a binder whose identifier is given by how many were drawn before it. -/
structure Holding where
  own : Nat
  seat : Seat

def Holding.binding (stem : String) (first : Nat) (holding : Holding) : Binding :=
  holding.seat.binding stem first holding.own

def Holding.slot (holding : Holding) : Slot := ⟨holding.own, holding.seat.number⟩

/-- An outcome with places for the placeholders. -/
structure Form where
  sql : Template
  parameters : Table Slot Value
  types : Table Slot (Option String)
  positional : List Value

namespace Form

def fill (stem : String) (first : Nat) (form : Form) : Outcome where
  sql := String.ofList (form.sql.fill stem first)
  parameters := form.parameters.map (Prod.map (Slot.name stem first) id)
  types := form.types.map (Prod.map (Slot.name stem first) id)
  positional := form.positional

def ofHoldings (sql : Template) (held : List Holding) : Form :=
  let named := held.filter (·.seat.named)
  { sql
    parameters := Table.putAll (named.map fun holding => (holding.slot, holding.seat.value)) []
    types := Table.putAll (named.map fun holding => (holding.slot, holding.seat.type)) []
    positional := (held.filter fun holding => !holding.seat.named).map (·.seat.value) }

section
variable {settings : Settings} {first : Nat} {held : List Holding}

theorem isNamed_binding (holding : Holding) :
    (holding.binding settings.placeholderStem first).isNamed = holding.seat.named :=
  holding.seat.isNamed_binding

/-- A table of named bindings is one of places, with their names. -/
theorem table_of_holdings {υ : Type} (fit : Template.Stem settings.placeholderStem)
    (mark : settings.positionalMark = "?") {content : Binding → υ} {content' : Holding → υ}
    (same : ∀ holding : Holding,
      content (holding.binding settings.placeholderStem first) = content' holding) :
    Table.putAll (((held.map (Holding.binding settings.placeholderStem first)).filter
        BindingOf.isNamed).map fun binding => (binding.placeholder settings, content binding)) [] =
      (Table.putAll ((held.filter (·.seat.named)).map fun holding =>
        (holding.slot, content' holding)) []).map
          (Prod.map (Slot.name settings.placeholderStem first) id) := by
  have injective (slot slot' : Slot) (_ : True) (_ : True)
      (equal : slot.name settings.placeholderStem first =
        slot'.name settings.placeholderStem first) : slot = slot' := by
    have pieces := Template.fill_injective fit (.slot slot) (.slot slot')
      (congrArg String.toList equal)
    cases pieces
    rfl
  rw [← Table.putAll_map (p := fun _ => True) (g := id) injective (fun _ _ => trivial) []
    (fun _ _ => trivial)]
  congr 1
  rw [List.filter_map, List.map_map, List.map_map]
  have named : BindingOf.isNamed ∘ Holding.binding settings.placeholderStem first =
      fun holding => holding.seat.named := funext isNamed_binding
  rw [named]
  apply List.map_congr_left
  intro holding member
  have isNamed : holding.seat.named = true := (List.mem_filter.mp member).2
  have placeholder : (holding.binding settings.placeholderStem first).placeholder settings =
      _ := holding.seat.placeholder_binding mark
  rw [Seat.text_piece, isNamed, if_pos rfl] at placeholder
  simp only [Function.comp_apply, placeholder, same, Prod.map_apply, id_eq]
  rfl

theorem fill_ofHoldings (fit : Template.Stem settings.placeholderStem)
    (mark : settings.positionalMark = "?") (first : Nat) (sql : Template) (held : List Holding) :
    let bindings := held.map (Holding.binding settings.placeholderStem first)
    (ofHoldings sql held).fill settings.placeholderStem first =
      ⟨String.ofList (sql.fill settings.placeholderStem first), namedValues settings bindings,
        namedTypes settings bindings, positionalValues bindings⟩ := by
  intro bindings
  have values : namedValues settings bindings = _ := table_of_holdings fit mark fun _ => rfl
  have types : namedTypes settings bindings = _ := table_of_holdings fit mark fun _ => rfl
  have positional : positionalValues bindings =
      (held.filter fun holding => !holding.seat.named).map (·.seat.value) := by
    have named : (fun binding : Binding => !binding.isNamed) ∘
        Holding.binding settings.placeholderStem first =
        fun holding => !holding.seat.named := funext fun holding => by
      rw [Function.comp_apply, isNamed_binding]
    rw [positionalValues, List.filter_map, List.map_map, named]
    rfl
  rw [values, types, positional]
  rfl

end
end Form

/-! ## Sketches -/

/-- A condition as it is built, with places for placeholders. -/
inductive Sketch
  | raw (text : String)
  | member (key : Key) (place : Piece)
  | leaf (key : Key) (own : Nat) (value : Value) (type : Option String)
  | negation (inner : Sketch)
  | tree (connective : String) (roster : Roster) (parts : List Sketch)

structure Key.NoColon (key : Key) : Prop where
  field : ':' ∉ key.field.toList
  operator : ':' ∉ key.operator.toList

/-- The texts of the leaf hold no colon. -/
def Leaf.NoColon : Leaf → Prop
  | raw s => ':' ∉ s.toList
  | entry key _ => key.NoColon
  | node _ => True

/-- The text of a membership test whose placeholder stands in a place. -/
def Key.membershipAt (key : Key) (place : Piece) : Template :=
  .ofText key.opening ++ [place, .char ')']

def Key.comparisonAt (key : Key) (place : Piece) : Template :=
  .ofText (key.field.toList ++ ' ' :: (key.operator.toList ++ [' '])) ++ [place]

section
variable (stem : String) (first : Nat) (key : Key) (place : Piece)

theorem fill_membershipAt : String.ofList ((key.membershipAt place).fill stem first) =
    key.membership (place.text stem first) := by
  rw [← String.toList_inj, toList_membership]
  simp [Key.membershipAt, Piece.text, Piece.fill]

theorem fill_comparisonAt : String.ofList ((key.comparisonAt place).fill stem first) =
    key.comparison (place.text stem first) := by
  simp [Key.comparisonAt, Key.comparison, Piece.text, ← String.toList_inj]

theorem Key.NoColon.formed {key : Key} (noColon : key.NoColon) {place : Piece}
    (target : Template.Target place) : Template.Formed (key.membershipAt place) := by
  apply Template.formed_ofText_append
  · simp [Key.opening, noColon.field, noColon.operator]
  · cases target with
    | slot s => exact ⟨rfl, by decide, trivial⟩
    | mark => exact ⟨by decide, by decide, trivial⟩

end

namespace Sketch

def seat (key : Key) (value : Value) (type : Option String) : Seat :=
  ⟨0, !isNumeral key.field, value, type⟩

section
variable (stem : String) (first : Nat)

mutual
def fill : Sketch → Draft
  | raw text => .raw text
  | member key place => .member key (place.text stem first)
  | leaf key own value type =>
    .leaf (key.comparison ((pieceFor own 0 key.field).text stem first))
      [(seat key value type).entry stem first own]
  | negation inner => .negation inner.fill
  | tree connective roster parts => .tree connective (roster.binder stem first) (fillAll parts)

def fillAll : List Sketch → List Draft
  | [] => []
  | sketch :: rest => sketch.fill :: fillAll rest
end

theorem fillAll_eq (parts : List Sketch) :
    fillAll stem first parts = parts.map (fill stem first) := by
  induction parts with
  | nil => rfl
  | cons sketch rest ih => rw [fillAll, ih, List.map_cons]

end

section
variable (forest : Forest) (settings : Settings)

mutual
/-- The texts of a condition in the tree with this roster. -/
def sides (roster : Roster) : Sketch → Sides
  | raw text =>
    .wrapping (Template.rewrite (roster.exchanged forest settings) (.ofText text.toList))
  | member key place =>
    .wrapping (Template.rewrite (roster.exchanged forest settings) (key.membershipAt place))
  | leaf key own _ _ => .wrapping (key.comparisonAt (pieceFor own 0 key.field))
  | negation inner => .wrapping (.ofText "NOT ".toList ++ (sides roster inner).beside)
  | tree connective inner parts => .join connective (allSides inner parts)

def allSides (roster : Roster) : List Sketch → List Sides
  | [] => []
  | sketch :: rest => sides roster sketch :: allSides roster rest
end

mutual
/-- The bindings of a condition once it is compiled. -/
def held : Sketch → List Holding
  | raw _ | member .. => []
  | leaf key own value type => [⟨own, seat key value type⟩]
  | negation inner => inner.held
  | tree _ roster parts =>
    allHeld parts ++ (roster.seats forest settings).map (Holding.mk roster.own)

def allHeld : List Sketch → List Holding
  | [] => []
  | sketch :: rest => sketch.held ++ allHeld rest
end

mutual
/-- No text holds a colon, and the rosters can be compiled. -/
def Sound : Sketch → Prop
  | raw text => ':' ∉ text.toList
  | member key place => key.NoColon ∧ Template.Target place
  | leaf .. => True
  | negation inner => inner.Sound
  | tree _ roster parts => roster.Sound settings ∧ AllSound parts

def AllSound : List Sketch → Prop
  | [] => True
  | sketch :: rest => sketch.Sound ∧ AllSound rest
end

end

theorem allSound_append {settings : Settings} {parts more : List Sketch}
    (sound : AllSound settings parts) (later : AllSound settings more) :
    AllSound settings (parts ++ more) := by
  induction parts with
  | nil => exact later
  | cons sketch rest ih => exact ⟨sound.1, ih sound.2⟩

section
variable {settings : Settings} (forest : Forest) (first : Nat)

mutual
theorem picture_fill (regular : settings.Regular) {roster : Roster}
    (known : roster.Sound settings) : (sketch : Sketch) → sketch.Sound settings →
      let p := (sketch.fill settings.placeholderStem first).picture forest settings
        (roster.binder settings.placeholderStem first)
      p.texts = (sketch.sides forest settings roster).fill settings.placeholderStem first ∧
        p.collected = (sketch.held forest settings).map
          (Holding.binding settings.placeholderStem first)
  | raw text, noColon => by
      have rewritten := Roster.rewriteText_binder forest regular known first
        (Template.formed_ofText noColon)
      rw [Template.fill_ofText, String.ofList_toList] at rewritten
      simp only [fill, Draft.picture, Picture.texts, sides, Sides.fill_wrapping, rewritten,
        Picture.collected, held, List.map_nil, and_self]
  | member key place, ⟨noColon, target⟩ => by
      have rewritten := Roster.rewriteText_binder forest regular known first
        (noColon.formed target)
      rw [fill_membershipAt] at rewritten
      simp only [fill, Draft.picture, Picture.texts, sides, Sides.fill_wrapping, rewritten,
        Picture.collected, held, List.map_nil, and_self]
  | leaf key own value type, _ => by
      simp only [fill, Draft.picture, Picture.texts, sides, Sides.fill_wrapping, fill_comparisonAt,
        Picture.collected, held, true_and]
      rfl
  | negation inner, sound => by
      obtain ⟨texts, collected⟩ := picture_fill regular known inner sound
      simp only [fill, Draft.picture, Picture.texts, sides, Sides.fill_wrapping, texts,
        Picture.collected, held, collected, Bool.false_eq_true, if_false, and_true]
      rw [Template.fill_append, Template.fill_ofText, String.ofList_append, String.ofList_toList,
        Sides.fill]
      rfl
  | tree connective inner parts, ⟨sound, all⟩ => by
      obtain ⟨texts, collected⟩ := pictures_fill regular sound parts all
      have final := Roster.final_binder forest regular sound first
      simp only [fill, Draft.picture, Picture.texts, sides, Sides.fill_join, texts,
        Picture.collected, held, collected, final, List.map_append, Table.values, List.map_map,
        true_and]
      rfl

theorem pictures_fill (regular : settings.Regular) {roster : Roster}
    (known : roster.Sound settings) : (parts : List Sketch) → AllSound settings parts →
      let pictures := Draft.pictures forest settings (roster.binder settings.placeholderStem first)
        (fillAll settings.placeholderStem first parts)
      Picture.allTexts pictures =
          (allSides forest settings roster parts).map (Sides.fill settings.placeholderStem first) ∧
        Picture.allCollected pictures = (allHeld forest settings parts).map
          (Holding.binding settings.placeholderStem first)
  | [], _ => ⟨rfl, rfl⟩
  | sketch :: rest, ⟨here, later⟩ => by
      obtain ⟨texts, collected⟩ := picture_fill regular known sketch here
      obtain ⟨others, collecteds⟩ := pictures_fill regular known rest later
      simp only [fillAll, Draft.pictures, Picture.allTexts, allSides, List.map_cons, texts, others,
        Picture.allCollected, allHeld, List.map_append, collected, collecteds, and_self]
end

end
end Sketch

/-! ## Sketching -/

structure Sketched (α : Type) where
  made : α
  next : Nat
  roster : Roster

namespace Item

section
variable (settings : Settings) (types : Table String String)

def sketchField (next : Nat) (roster : Roster) (key : Key) (value : Value) : Sketched Sketch :=
  let declared := Table.get? key.field types
  if key.isMembership then
    ⟨.member key (pieceFor roster.own roster.count key.field), next,
      roster.join (!isNumeral key.field) value (some (settings.memberType declared))⟩
  else ⟨.leaf key next value declared, next + 1, roster⟩

mutual
/-- What is built from an item, when so many identifiers were drawn before. -/
def sketch (next : Nat) (roster : Roster) : Item → Sketched (Option Sketch)
  | raw text => ⟨some (.raw text), next, roster⟩
  | nested _ => ⟨none, next, roster⟩
  | field key value =>
    let made := sketchField settings types next roster key value
    ⟨some made.made, made.next, made.roster⟩
  | group connective items =>
    if items.isEmpty then ⟨none, next, roster⟩
    else
      let inner := sketchAll (next + 1) ⟨next, 0, []⟩ items
      ⟨some (.tree (Text.upper connective) inner.roster inner.made), inner.next, roster⟩
  | negation items =>
    if items.isEmpty then ⟨none, next, roster⟩
    else
      let inner := sketchAll (next + 1) ⟨next, 0, []⟩ items
      ⟨some (.negation (.tree (Text.upper settings.defaultConnective) inner.roster inner.made)),
        inner.next, roster⟩

def sketchAll (next : Nat) (roster : Roster) : List Item → Sketched (List Sketch)
  | [] => ⟨[], next, roster⟩
  | item :: rest =>
    let here := sketch next roster item
    let later := sketchAll here.next here.roster rest
    ⟨here.made.toList ++ later.made, later.next, later.roster⟩
end

end

section
variable {settings : Settings} (types : Table String String)

mutual
theorem sound_sketch (next : Nat) {roster : Roster} (known : roster.Sound settings) :
    (item : Item) → (∀ leaf ∈ item.leaves, leaf.NoColon) →
      (sketch settings types next roster item).roster.Sound settings ∧
        Sketch.AllSound settings (sketch settings types next roster item).made.toList
  | .raw text, noColon => by
      have here := noColon (.raw text) (by rw [leaves]; exact List.mem_cons_self)
      exact ⟨known, here, trivial⟩
  | .nested id, _ => ⟨known, trivial⟩
  | .field key value, noColon => by
      have here : key.NoColon :=
        noColon (.entry key value) (by rw [leaves]; exact List.mem_cons_self)
      simp only [sketch, sketchField]
      split
      · have marked := settings.marks_withMarker
        exact ⟨known.join _ value (marked _), ⟨here, target_pieceFor ..⟩, trivial⟩
      · exact ⟨known, trivial, trivial⟩
  | .group _ items, noColon | .negation items, noColon => by
      obtain ⟨inner, parts⟩ := sound_sketchAll (next + 1) (Roster.sound_empty settings next 0)
        items (by rwa [leaves] at noColon)
      simp only [sketch]
      split
      · exact ⟨known, trivial⟩
      · exact ⟨known, ⟨inner, parts⟩, trivial⟩

theorem sound_sketchAll (next : Nat) {roster : Roster} (known : roster.Sound settings) :
    (items : List Item) → (∀ leaf ∈ allLeaves items, leaf.NoColon) →
      (sketchAll settings types next roster items).roster.Sound settings ∧
        Sketch.AllSound settings (sketchAll settings types next roster items).made
  | [], _ => ⟨known, trivial⟩
  | item :: rest, noColon => by
      obtain ⟨here, later⟩ := List.forall_mem_append.mp (by simpa only [allLeaves] using noColon)
      obtain ⟨first, made⟩ := sound_sketch next known item here
      obtain ⟨roster', others⟩ := sound_sketchAll _ first rest later
      simp only [sketchAll]
      exact ⟨roster', Sketch.allSound_append made others⟩
end

variable (first : Nat)

theorem draftField_sketch (regular : settings.Regular) (next : Nat) {roster : Roster}
    (known : roster.Sound settings) {key : Key} (noColon : key.NoColon) (value : Value) :
    draftField settings types (first + next) (roster.binder settings.placeholderStem first) key
        value =
      let made := sketchField settings types next roster key value
      ⟨made.made.fill settings.placeholderStem first, first + made.next,
        made.roster.binder settings.placeholderStem first⟩ := by
  simp only [draftField, sketchField]
  split
  · have name : (roster.binder settings.placeholderStem first).nextName settings key.field = _ :=
      nextName_eq_text regular noColon.field rfl rfl
    have marked := settings.marks_withMarker
    have registered := Roster.registered_binder regular known first noColon.field value
      (some (settings.memberType (Table.get? key.field types))) (marked _)
    rw [Value.ofText?] at registered
    rw [name, registered]
    rfl
  · have name : (Binder.fresh (first + next)).nextName settings key.field = _ :=
      nextName_eq_text regular noColon.field rfl rfl
    rw [name, Roster.bindings_registered_fresh regular first next noColon.field]
    rfl

mutual
/-- What is built is the sketch, filled. -/
theorem draft_sketch (regular : settings.Regular) (next : Nat) {roster : Roster}
    (known : roster.Sound settings) : (item : Item) → (∀ leaf ∈ item.leaves, leaf.NoColon) →
      draft settings types (first + next) (roster.binder settings.placeholderStem first) item =
        let made := sketch settings types next roster item
        ⟨made.made.map (Sketch.fill settings.placeholderStem first), first + made.next,
          made.roster.binder settings.placeholderStem first⟩
  | .raw text, _ => by
      simp only [draft, sketch, Option.map_some, Sketch.fill]
  | .nested id, _ => by
      simp only [draft, sketch, Option.map_none]
  | .field key value, noColon => by
      have here : key.NoColon :=
        noColon (.entry key value) (by rw [leaves]; exact List.mem_cons_self)
      simp only [draft, sketch, draftField_sketch types first regular next known here,
        Option.map_some]
  | .group _ items, noColon | .negation items, noColon => by
      have inner := draftAll_sketch regular (next + 1) (Roster.sound_empty settings next 0)
        items (by rwa [leaves] at noColon)
      have fresh : Binder.fresh (first + next) =
        (⟨next, 0, []⟩ : Roster).binder settings.placeholderStem first := rfl
      simp only [draft, sketch]
      split
      · simp only [Option.map_none]
      · simp only [fresh, Nat.add_assoc, inner, Option.map_some, Sketch.fill, Sketch.fillAll_eq]

theorem draftAll_sketch (regular : settings.Regular) (next : Nat) {roster : Roster}
    (known : roster.Sound settings) :
    (items : List Item) → (∀ leaf ∈ allLeaves items, leaf.NoColon) →
      draftAll settings types (first + next) (roster.binder settings.placeholderStem first) items =
        let made := sketchAll settings types next roster items
        ⟨made.made.map (Sketch.fill settings.placeholderStem first), first + made.next,
          made.roster.binder settings.placeholderStem first⟩
  | [], _ => by
      simp only [draftAll, sketchAll, List.map_nil]
  | item :: rest, noColon => by
      obtain ⟨here, later⟩ := List.forall_mem_append.mp (by simpa only [allLeaves] using noColon)
      have first' := draft_sketch regular next known item here
      have others := draftAll_sketch regular (sketch settings types next roster item).next
        (sound_sketch types next known item here).1 rest later
      simp only [draftAll, sketchAll, first', others, List.map_append, Option.toList_map]
end

end
end Item

/-! ## Descriptions -/

namespace Workspace

variable {w : Workspace} (table : Table String String) (connective : String) (items : List Item)

/-- What a description is compiled to, with places. -/
def form (w : Workspace) (table : Table String String) (connective : String) (items : List Item) :
    Form :=
  let made := Item.sketchAll w.settings table 1 ⟨0, 0, []⟩ items
  let sketch := Sketch.tree connective made.roster made.made
  .ofHoldings (sketch.sides w.toForest w.settings ⟨0, 0, []⟩).alone
    (sketch.held w.toForest w.settings)

/-- How many identifiers a description takes. -/
def taken (w : Workspace) (table : Table String String) (items : List Item) : Nat :=
  (Item.sketchAll w.settings table 1 ⟨0, 0, []⟩ items).next

/-- The workspace, with another value of the counter. -/
def counting (w : Workspace) (first : Nat) : Workspace := { w with nextIdentifier := first }

theorem outcome_picture (regular : w.settings.Regular) {items : List Item}
    (noColon : ∀ leaf ∈ Item.allLeaves items, leaf.NoColon) (first : Nat) :
    ((w.counting first).picture table connective items).outcome w.settings =
      (w.form table connective items).fill w.settings.placeholderStem first := by
  have empty := Roster.sound_empty w.settings 0 0
  have sound := Item.sound_sketchAll table 1 empty items noColon
  have built := Item.draftAll_sketch table first regular 1 empty items noColon
  have shown := Sketch.picture_fill w.toForest first regular empty
    (.tree connective _ _) ⟨sound.1, sound.2⟩
  have fresh : Binder.fresh first =
    (⟨0, 0, []⟩ : Roster).binder w.settings.placeholderStem first := rfl
  simp only [Sketch.fill, Draft.picture, Sketch.fillAll_eq] at shown
  simp only [picture, counting, fresh, built, Picture.outcome, shown.1, shown.2, form,
    Form.fill_ofHoldings regular.stem regular.mark, Sides.fill]

end Workspace

namespace WorkspaceM

variable {w : Workspace}

/-- Rendering takes no identifier. -/
theorem counts_lasts (n : Nat) : Lasts fun w => w.nextIdentifier = n := by
  intro sql _ asked w id j _
  unfold compileJunction
  split
  · exact .pure _
  · obtain ⟨middle, done, spends⟩ := run_expandTree j w
    refine Keeps.bind (.of_run done fun same => spends.nextIdentifier.trans same)
      fun expanded middle _ => ?_
    exact (keeps_renderAll asked _ middle).bind fun _ _ _ => ⟨fun same => same⟩

/-- A description is compiled to one form, wherever counting starts, and takes as many identifiers.
The places in the form are its placeholders. -/
theorem compileDescription_renames {description types connective : Value} {c : String}
    {table : Table String String}
    (stem : Text.isIdentifier w.settings.placeholderStem.toList = true)
    (mark : w.settings.positionalMark = "?") (separator : w.settings.arraySeparator = ", ")
    (joins : w.settings.joins? connective = some c) (typed : types.typeTable? = some table)
    (plain : (w.view description).Plain w.toForest)
    (noColon : ∀ leaf ∈ w.leaves description, leaf.NoColon) :
    ∃ (form : Form) (amount : Nat), ∀ first, ∃ after,
      run (compileDescription description types connective)
          { w with nextIdentifier := first } =
        (.ok (form.fill w.settings.placeholderStem first), after) ∧
      after.nextIdentifier = first + amount := by
  have regular : w.settings.Regular :=
    ⟨⟨Text.colon_notMem_of_isIdentifier stem, Text.notMem_of_isIdentifier (by decide) stem⟩, mark,
      separator⟩
  have noColon' : ∀ leaf ∈ Item.allLeaves (w.items description), leaf.NoColon :=
    fun leaf member => noColon leaf ((Forest.covers_items plain).sublist.subset member)
  refine ⟨w.form table c (w.items description), w.taken table (w.items description),
    fun first => ?_⟩
  obtain ⟨after, done⟩ := compileDescription_ok (w := w.counting first) joins typed plain
  have outcome := Workspace.outcome_picture table c regular noColon' first
  refine ⟨after, ?_, ?_⟩
  · rw [← outcome]
    exact done
  -- The tree takes the identifiers when it is made, and rendering it takes none.
  · obtain ⟨middle, created, plants⟩ := newTree_ok (w := w.counting first) joins typed plain
    have notNode : description.node? = none := (View.value_of_plain _ rfl plain).1
    have rendered : run (compileDescription description types connective) (w.counting first) =
        run (outcomeOf ⟨w.nodes.size⟩) middle := by
      simp only [compileDescription, run_bind, run_forest, notNode, created]
      rfl
    have kept := (keeps_outcomeOf (counts_lasts middle.nextIdentifier) ⟨w.nodes.size⟩ middle).after
      rfl
    rw [← rendered, done] at kept
    have built := Item.draftAll_sketch table first regular 1 (Roster.sound_empty w.settings 0 0)
      (w.items description) noColon'
    rw [kept, plants.nextIdentifier]
    exact congrArg Drafted.next built

/-- A membership test by position beside a text with marks, under a connective that looks like a
placeholder. -/
def countedConditions : Value :=
  .dict ⟨1⟩ [(.text "3 in", .list ⟨2⟩ [.int 7, .int 8]), (.text "or", .list ⟨3⟩ [.text "a ?? b",
    .dict ⟨4⟩ [(.text "not", .dict ⟨5⟩ [(.text "c", .null)]), (.text "2 <", .bool true)]])]

theorem leaves_countedConditions : Forest.leaves {} countedConditions =
    [.entry ⟨"3", "in"⟩ (.list ⟨2⟩ [.int 7, .int 8]), .raw "a ?? b", .entry ⟨"c", "="⟩ .null,
      .entry ⟨"2", "<"⟩ (.bool true)] := by
  have membership : Forest.fieldKey? {} (.text "3 in") = some ⟨"3", "in"⟩ := by decide +kernel
  have disjunction : Forest.fieldKey? {} (.text "or") = none := by decide +kernel
  have negation : Forest.fieldKey? {} (.text "not") = none := by decide +kernel
  have equality : Forest.fieldKey? {} (.text "c") = some ⟨"c", "="⟩ := by decide +kernel
  have comparison : Forest.fieldKey? {} (.text "2 <") = some ⟨"2", "<"⟩ := by decide +kernel
  simp [Forest.leaves, countedConditions, Forest.view, Forest.viewWithin, Forest.kept,
    View.ofValue, View.ofElements, View.ofEntries, View.leaves, View.elementLeaves,
    View.entryLeaves, View.value, Value.isOrdered, Table.get?, membership, disjunction, negation,
    equality, comparison]

theorem compileDescription_renames_counted :
    ∃ (form : Form) (amount : Nat), ∀ first, ∃ after,
      run (compileDescription countedConditions .null (.text ":c1_0"))
          { nextIdentifier := first } =
        (.ok (form.fill "c" first), after) ∧
      after.nextIdentifier = first + amount := by
  have plain : (Forest.view {} countedConditions).Plain {} := by
    apply Forest.plain_of_data rfl
    simp [countedConditions, Value.Data, AllData, EntriesData, Value.isHashable]
  have noColon : ∀ leaf ∈ Forest.leaves {} countedConditions, leaf.NoColon := by
    simp only [leaves_countedConditions, List.forall_mem_cons, Leaf.NoColon]
    refine ⟨⟨by decide, by decide⟩, by decide, ⟨by decide, by decide⟩, ⟨by decide, by decide⟩,
      List.forall_mem_nil _⟩
  exact compileDescription_renames (w := {}) (by decide) rfl rfl rfl rfl plain noColon

end WorkspaceM
end WhereClause
