import WhereClause.Proofs.Apart
import WhereClause.Proofs.Building
import WhereClause.Proofs.Collecting
import WhereClause.Proofs.Walk

/-!
# Compiling a description

A description that holds no node is read, built, rendered and collected without a fault, and its
outcome is that of a picture which depends on the settings, the next identifier, the items and the
declared types only.

* `newTree_ok`: what making a tree from a description builds.
* `compileDescription_ok`: the outcome of a description.
-/

namespace WhereClause

/-- The types that a dictionary from texts to texts declares; nothing declares none. -/
def Value.typeTable? : Value → Option (Table String String)
  | .null => some []
  | .dict _ entries => entries.mapM fun (k, v) => do return (← k.text?, ← v.text?)
  | _ => none

/-- The text that joins the conditions of a tree made with this connective. -/
def Settings.joins? (settings : Settings) (connective : Value) : Option String :=
  match connective with
  | .null => some (Text.upper settings.defaultConnective)
  | .text s => some (Text.upper s)
  | _ => none

namespace WorkspaceM

theorem declares_entries {entries : List (Value × Value)} {table : Table String String}
    (mark : Mark)
    (typed : entries.mapM (fun (k, v) => do return (← k.text?, ← v.text?)) = some table) :
    Declares (.dict mark entries) table := by
  intro field
  simp only [declaredType]
  congr 1
  induction entries generalizing table with
  | nil =>
      cases typed
      rfl
  | cons entry rest ih =>
      obtain ⟨k, v⟩ := entry
      simp only [List.mapM_cons, Option.bind_eq_bind, Option.bind_eq_some_iff, Option.pure_def,
        Option.some.injEq] at typed
      obtain ⟨_, ⟨name, key, type, value, rfl⟩, later, others, rfl⟩ := typed
      obtain rfl := Value.text?_eq_some.mp key
      obtain rfl := Value.text?_eq_some.mp value
      have rest' := ih others
      by_cases here : name = field
      · simp [Table.get?, here, Value.text?, Value.ofText?]
      · simpa [Table.get?, here, Value.text?] using rest'

theorem declares_of_typeTable? {types : Value} {table : Table String String}
    (typed : types.typeTable? = some table) (forest : Forest) :
    Declares (if forest.isTruthy types then types else .dict .passing []) table := by
  cases types with
  | null =>
      cases typed
      exact fun field => rfl
  | dict mark entries =>
      cases entries with
      | nil =>
          cases typed
          exact fun field => rfl
      | cons entry rest => exact declares_entries mark typed
  | _ => cases typed

variable {w : Workspace}

theorem add_ok {description types : Value} {table : Table String String} {items : List Item}
    {n : Nat} (typed : types.typeTable? = some table)
    (plain : ∀ leaf ∈ Item.allLeaves items, leaf.Plain n) {tree : NodeId} {j : Junction}
    (found : w.junction? tree = some j) (isOpen : j.compiled = none)
    (known : j.binder.index < w.binders.size)
    (read : Item.ofView w.toForest (w.view description) = items) :
    ∃ more after, run (add tree description types) w = (.ok (), after) ∧
      after.junction? tree = some { j with conditions := j.conditions ++ more } ∧
      Workspace.Builds n tree j.binder more
        (Item.draftAll w.settings table w.nextIdentifier (w.binder j.binder) items) w after := by
  have bound := Forest.index_lt_of_tree found
  obtain ⟨logged, reads⟩ : ∃ records, run (Item.read description) w =
      (.ok items, { w with records := records }) := by
    rw [← read]
    exact ⟨_, rfl⟩
  obtain ⟨more, after, done, tree', builds⟩ := extend_ok (declares_of_typeTable? typed w.toForest)
    items plain { w with records := logged } tree j found known
  have all := (Workspace.Builds.of_records (n := n) (w := w) logged).trans bound known builds
  refine ⟨more, after, ?_, tree', all⟩
  rw [add, run_bind_ok (run_discard_ok (run_openJunction found isOpen)), run_bind_ok reads]
  exact done

theorem run_newTree {description types connective : Value} {c : String}
    (joins : w.settings.joins? connective = some c) :
    run (newTree description types connective none) w =
      run (do
        let tree ← newJunction c
        if (← get).isTruthy description then add tree description types
        return tree) w := by
  cases connective with
  | null =>
      cases joins
      rfl
  | text s =>
      cases joins
      rfl
  | _ => cases joins

theorem newTree_ok {description types connective : Value} {c : String} {table : Table String String}
    (joins : w.settings.joins? connective = some c) (typed : types.typeTable? = some table)
    (plain : (w.view description).Plain w.toForest) :
    ∃ after, run (newTree description types connective none) w = (.ok ⟨w.nodes.size⟩, after) ∧
      let made := Item.draftAll w.settings table (w.nextIdentifier + 1) (.fresh w.nextIdentifier)
        (w.items description)
      Workspace.Plants w.nodes.size ⟨w.nodes.size⟩ (.tree c made.binder made.made) made.next w
        after := by
  obtain ⟨start, created, seeds⟩ := newJunction_ok c w
  have extends' : w.toForest.Extends start.toForest := by
    refine ⟨seeds.additions, ?_, fun id bound => ?_⟩
    · rw [seeds.nodes, Array.size_push]
      exact Nat.le_succ _
    · rw [Forest.node_of_push seeds.nodes, if_neg bound.ne]
  have read := Forest.items_extends extends' plain
  have leaves := Forest.plain_of_covers plain (Forest.covers_items plain)
  have holds := Item.holds_draftAll w.settings table leaves
    (w.nextIdentifier + 1) (Binder.holds_fresh w.nodes.size w.nextIdentifier)
  rw [run_newTree joins, run_bind_ok created, run_bind_ok (run_get start)]
  -- The new tree does not change what is read, although it is there when reading starts.
  by_cases truthy : start.isTruthy description = true
  · rw [Forest.items, if_pos truthy] at read
    obtain ⟨more, after, done, inner, builds⟩ :=
      add_ok typed leaves seeds.found rfl seeds.known read
    rw [seeds.settings, seeds.nextIdentifier, seeds.fresh] at builds
    refine ⟨after, ?_, seeds.plants builds inner holds⟩
    rw [if_pos truthy, run_bind_ok done, run_pure]
  · rw [Forest.items, if_neg truthy] at read
    have builds : Workspace.Builds w.nodes.size ⟨w.nodes.size⟩ ⟨w.binders.size⟩ []
        ⟨[], start.nextIdentifier, start.binder ⟨w.binders.size⟩⟩ start start :=
      ⟨.refl .., rfl, rfl, .nil⟩
    rw [seeds.nextIdentifier, seeds.fresh] at builds
    refine ⟨start, ?_, ?_⟩
    · rw [if_neg truthy]
      rfl
    · rw [← read] at holds ⊢
      exact seeds.plants builds seeds.found holds

end WorkspaceM

def Forest.outlineFrom (low : Nat) (forest : Forest) (settings : Settings) : Outlines := fun id =>
  if low ≤ id.index then forest.outline settings id else none

theorem Forest.low_of_outlineFrom {forest : Forest} {settings : Settings} {low : Nat} {id : NodeId}
    (known : forest.outlineFrom low settings id ≠ none) : low ≤ id.index := by
  by_contra less
  exact known (if_neg less)

theorem Forest.Fresh.tracks {w : Workspace} {low lowBinder : Nat}
    (fresh : w.Fresh low low lowBinder) : w.Tracks (w.outlineFrom low w.settings) [] where
  outline id outline _ known := by
    have new := Forest.low_of_outlineFrom (by rw [known]; exact nofun)
    rw [Forest.outlineFrom, if_pos new] at known
    exact known
  separate id other j k known knownOther found foundOther shared _ :=
    fresh.separate id other j k (Forest.low_of_outlineFrom known)
      (Forest.low_of_outlineFrom knownOther) found foundOther shared
  settled id j entry tree k known found _ member value knownTree _ := by
    obtain ⟨-, -, holds⟩ := fresh.binder id j (Forest.low_of_outlineFrom known) found
    have less : tree.index < low := holds entry member tree .compiled value
    have more := Forest.low_of_outlineFrom knownTree
    omega
  coherent id j rendered p found compiled shown := by
    obtain ⟨outline, known, -⟩ := Shows.node_iff.mp shown
    have new := Forest.low_of_outlineFrom (by rw [known]; exact nofun)
    rw [fresh.isOpen id j new found] at compiled
    cases compiled

theorem Drafts.shows {forest : Forest} {low lowBinder : Nat} {v : Value} {d : Draft}
    (drafts : Drafts forest low lowBinder v d) (settings : Settings) (b : Binder) :
    Shows (forest.outlineFrom low settings) (b.rewriting forest settings v)
      (d.picture forest settings b) := by
  induction drafts generalizing b with
  | raw s =>
      rw [Binder.rewriting_raw, Draft.picture]
      exact .text _
  | member key placeholder =>
      rw [Binder.rewriting_raw, Draft.picture]
      exact .text _
  | leaf new found operator operand plain =>
      rw [Binder.rewriting_node, Draft.picture]
      apply Shows.leaf
      simp only [Forest.outlineFrom, if_pos new, Forest.outline, found, if_neg operator, operand,
        plain]
      rfl
  | @negation id inner d new found _ ih =>
      have below := ih b
      rw [Binder.rewriting_node] at below ⊢
      rw [Draft.picture]
      refine .unary ?_ below
      simp only [Forest.outlineFrom, if_pos new, Forest.outline, found]
      rfl
  | @tree id j connective parts new found isOpen written newBinder known lengths _ ih =>
      rw [Binder.rewriting_node, Draft.picture]
      have outlined := Forest.outline_of_open found isOpen settings
      rw [written, Connective.written] at outlined
      rw [← if_pos new (t := forest.outline settings id) (e := none)] at outlined
      refine .of_tree outlined ?_
      rw [Draft.pictures_eq, List.forall₂_map_left_iff, List.forall₂_map_right_iff,
        List.forall₂_iff_zip]
      exact ⟨lengths, fun member => ih _ _ member _⟩

theorem Workspace.Plants.extends {n next : Nat} {root : NodeId} {d : Draft} {w after : Workspace}
    (plants : Plants n root d next w after) : w.toForest.Extends after.toForest :=
  ⟨plants.additions, plants.nodes, plants.node⟩

/-- The picture of a description: the tree that is made from it, compiled. -/
def Workspace.picture (w : Workspace) (table : Table String String) (connective : String)
    (items : List Item) : Picture :=
  let made := Item.draftAll w.settings table (w.nextIdentifier + 1) (.fresh w.nextIdentifier) items
  .tree connective (made.binder.final w.toForest w.settings)
    (Draft.pictures w.toForest w.settings made.binder made.made)

namespace WorkspaceM

variable {w : Workspace}

theorem compileDescription_ok {description types connective : Value} {c : String}
    {table : Table String String} (joins : w.settings.joins? connective = some c)
    (typed : types.typeTable? = some table) (plain : (w.view description).Plain w.toForest) :
    ∃ after, run (compileDescription description types connective) w =
      (.ok ((w.picture table c (w.items description)).outcome w.settings), after) := by
  obtain ⟨middle, created, plants⟩ := newTree_ok joins typed plain
  have tracks := plants.fresh.tracks
  have shown := plants.drafts.shows middle.settings (.fresh 0)
  have agree := plants.extends.agree
  have leaves := Forest.plain_of_covers plain (Forest.covers_items plain)
  have holds := Item.holds_draftAll w.settings table leaves
    (w.nextIdentifier + 1) (Binder.holds_fresh w.nodes.size w.nextIdentifier)
  rw [Binder.rewriting_node, Draft.picture, plants.settings, Binder.final_agree agree holds,
    Draft.pictures_congr agree holds _ _ _ leaves, ← plants.settings] at shown
  obtain ⟨after, done⟩ := outcomeOf_ok tracks shown
  have notNode : description.node? = none := (View.value_of_plain _ rfl plain).1
  refine ⟨after, ?_⟩
  simp only [compileDescription, run_bind, run_forest, notNode, created, done, plants.settings]
  rfl

end WorkspaceM

end WhereClause
