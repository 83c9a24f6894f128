import WhereClause.Proofs.Neatness
import WhereClause.Proofs.Freezing
import WhereClause.Proofs.Handouts

/-!
# Building keeps workspaces neat

Under the default settings each operation that makes nodes or adds to trees keeps a workspace neat,
if the texts that it is given are fit. A membership test registers its member and is attached right
after that, and in between the tree is not neat, so that the two are one step.

* `keeps_extend`: adding items to an open tree.
-/

namespace WhereClause

/-- Types are texts, and identifiers are drawn. -/
def Policy.tame : Policy := { Policy.typed fun _ => True with given := False }

section
variable {forest later : Forest} {b : Binder}

theorem Forest.binder_of_lt (binders : later.binders = forest.binders.push b) {id : BinderId}
    (known : id.index < forest.binders.size) : later.binder id = forest.binder id := by
  rw [binder_of_push binders, if_neg known.ne]

theorem Forest.binder_of_new (binders : later.binders = forest.binders.push b) :
    later.binder ⟨forest.binders.size⟩ = b := by
  rw [binder_of_push binders, if_pos rfl]

end

theorem Policy.tame_noList (v : Value) (allowed : Policy.tame.type v) : v.isList = false :=
  Policy.typed_noList (fun _ => True) v allowed

theorem Policy.tame_drawn : Policy.tame.Within .drawn where
  argument _ := id
  type _ _ := trivial
  given := id
  builds := id
  renders := id

/-- A condition of a tree as it can be added: a text without placeholders, or a node. -/
def Value.IsCondition (v : Value) : Prop := (∃ s, v = .text s ∧ Text.Bare s) ∨ ∃ id, v = .node id

/-- The texts of a field condition hold no placeholders. -/
structure Key.Suits (named : Prop) (key : Key) : Prop where
  field : Text.Bare key.field
  operator : Text.Bare key.operator
  numeral : named → isNumeral key.field = false

def Leaf.Suits (named : Prop) : Leaf → Prop
  | raw s => Text.Bare s
  | entry key _ => key.Suits named
  | node _ => True

namespace Workspace

structure Kempt (wording : Wording) (w : Workspace) : Prop where
  settings : w.settings = {}
  made : w.WellMade
  neat : w.Neat wording

end Workspace

namespace WorkspaceM

open Workspace (Kempt)

variable {α β : Type} {wording : Wording} {p : Policy} {w after : Workspace} {tree : NodeId}

theorem Keeps.assuming {I : Workspace → Prop} {operation : WorkspaceM α}
    (keeps : I w → Keeps I operation w) : Keeps I operation w :=
  ⟨fun holds => (keeps holds).after holds⟩

theorem Keeps.step {I : Workspace → Prop} {operation : WorkspaceM α} {next : α → WorkspaceM β}
    (first : Keeps I operation w)
    (later : I w → ∀ a after, run operation w = (.ok a, after) → Keeps I (next a) after) :
    Keeps I (operation >>= next) w :=
  .assuming fun holds => first.bind (later holds)

theorem Keeps.of_acts {operation : WorkspaceM α} (acts : Acts p w operation)
    (neat : w.Kempt wording → (run operation w).2.Neat wording) :
    Keeps (Kempt wording) operation w where
  after kempt := by
    obtain ⟨trace, moves⟩ := acts kempt.made
    exact ⟨(Workspace.settings_of_moves moves).trans kempt.settings, kempt.made.moves moves,
      neat kempt⟩

theorem IsOpen.still (isOpen : IsOpen w tree) (made : w.WellMade) {operation : WorkspaceM α}
    (acts : Acts Policy.tame.quiet w operation) {result : Except Fault α}
    (done : run operation w = (result, after)) : IsOpen after tree := by
  obtain ⟨trace, moves⟩ := acts made
  rw [done] at moves
  exact isOpen.later (.moves id moves)

/-! ## Single steps -/

theorem keeps_log (events : List Event) : Keeps (Kempt wording) (log events) w :=
  .of_acts (p := .tame) (acts_log events) fun kempt =>
    kempt.neat.frame rfl (Nat.le_refl _) fun _ _ => rfl

theorem keeps_takeIdentifier : Keeps (Kempt wording) takeIdentifier w :=
  .of_acts (p := .tame) (acts_takeIdentifier trivial) fun kempt =>
    kempt.neat.frame rfl (Nat.le_refl _) fun _ _ => rfl

/-- A binder that was just added belongs to no node. -/
theorem unowned_of_neat (neat : w.Neat wording) (id : NodeId) :
    (w.node id).binder? ≠ some ⟨w.binders.size⟩ :=
  fun has => Nat.lt_irrefl _ (neat.known id _ has)

theorem neat_seed (n : Nat) {connective : String} (joins : wording.joins connective)
    (b : BinderId) :
    Junction.Neat wording { connective := .text connective, binder := b } (.fresh n) :=
  .built ⟨n, 0, []⟩ [] rfl joins (Roster.sound_empty {} n 0)
    ⟨nofun, rfl⟩ (by simp [Roster.binder, Binder.fresh]) rfl

theorem keeps_newJunction {connective : String} (joins : wording.joins connective) :
    Keeps (Kempt wording) (newJunction connective) w := by
  apply Keeps.of_acts (p := .tame) (acts_newJunction trivial connective)
  intro kempt
  obtain ⟨start, done, seeds⟩ := newJunction_ok connective w
  rw [done]
  refine kempt.neat.plant seeds.nodes seeds.known.le
    (fun b known _ => Forest.binder_of_lt seeds.binders known) ?_ ?_
  · rw [Node.Neat, seeds.fresh]
    exact neat_seed _ joins _
  · rintro b ⟨⟩
    exact ⟨seeds.known, unowned_of_neat kempt.neat⟩

theorem keeps_addNode {node : Node} (fits : node.Fits .tame w.binders.size)
    (neat : node.Neat wording w.toForest.binder) (free : node.binder? = none) :
    Keeps (Kempt wording) (addNode node) w := by
  apply Keeps.of_acts (p := .tame) (acts_addNode trivial fits)
  intro kempt
  refine kempt.neat.plant rfl (Nat.le_refl _) (fun _ _ _ => rfl) neat ?_
  simp [free]

theorem keeps_negation (id : NodeId) :
    Keeps (Kempt wording) (addNode (.unary ⟨"NOT", .node id, false⟩)) w :=
  keeps_addNode (fun _ => trivial) (show Text.Bare "NOT" from ⟨by decide, by decide⟩) rfl

theorem neat_fresh_operand {named : Prop} (n : Nat) {field : String} (bare : Text.Bare field)
    (numeral : named → isNumeral field = false) (value : Value) (type : Option String) :
    Operand.Neat named ((Binder.fresh n).registered {} field value (.ofText? type))
      (.bound value ((Binder.fresh n).nextName {} field)) := by
  refine ⟨n, ⟨0, !isNumeral field, value, type⟩, ?_, rfl, rfl, ?_, ?_, ?_⟩
  · rw [Binder.registered_eq]
    rfl
  · intro all
    simp [numeral all]
  · have bindings := Roster.bindings_registered_fresh Settings.regular_default 0 n bare.colon value
      type
    rwa [Nat.zero_add] at bindings
  · exact Seat.nextName_eq bare.colon rfl rfl value type

theorem neat_comparison (kempt : w.Kempt wording) {field operator : String}
    (bare : Text.Bare field) (operators : Text.Bare operator)
    (numeral : wording.named → isNumeral field = false) (value : Value) (type : Option String) :
    (run (do
      let binder ← addBinder { identifier := toString w.nextIdentifier }
      let operand ← newOperand binder field value type
      addNode (.comparison { field, operand, type, operator, binder }))
      { w with nextIdentifier := w.nextIdentifier + 1 }).2.Neat wording := by
  have unowned := unowned_of_neat kempt.neat
  rw [run_bind, run_addBinder]
  simp only
  cases flat : value.node? with
  | some id =>
      obtain rfl := Value.node?_eq_some.mp flat
      simp only [newOperand, pure_bind, run_addNode]
      refine kempt.neat.plant rfl (by simp) (fun b known _ => Forest.binder_of_lt rfl known) ?_ ?_
      · refine ⟨bare, operators, ?_⟩
        rw [Operand.Neat, Forest.binder_of_new rfl]
      · rintro b ⟨⟩
        exact ⟨by simp, unowned⟩
  | none =>
      let start : Workspace := { w with
        nextIdentifier := w.nextIdentifier + 1
        binders := w.binders.push (.fresh w.nextIdentifier) }
      have own : start.binder ⟨w.binders.size⟩ = .fresh w.nextIdentifier := Forest.binder_of_new rfl
      have operand := run_newOperand ⟨w.binders.size⟩ field flat type start
      rw [own] at operand
      have settings : start.settings = {} := kempt.settings
      rw [settings] at operand
      have set (b : Binder) : start.binders.setIfInBounds w.binders.size b = w.binders.push b := by
        simp [start, Array.setIfInBounds, Array.set_push]
      rw [Forest.setBinder, set] at operand
      simp only [start, Binder.fresh] at operand
      simp only [run_bind, operand, run_addNode]
      refine kempt.neat.plant rfl (by simp) (fun b known _ => Forest.binder_of_lt rfl known) ?_ ?_
      · refine ⟨bare, operators, ?_⟩
        dsimp only
        rw [Forest.binder_of_new rfl]
        exact neat_fresh_operand w.nextIdentifier bare numeral value type
      · rintro b ⟨⟩
        exact ⟨by simp, unowned⟩

theorem keeps_newComparison {field operator : Option Value} (value type : Option Value)
    (bare : ∀ s, Value.givenText field = .ok s →
      Text.Bare s ∧ (wording.named → isNumeral s = false))
    (operators : ∀ s, (operator.getD (.text "=")).toText = .ok s → Text.Bare s) :
    Keeps (Kempt wording) (newComparison field value type operator) w := by
  apply Keeps.of_acts (p := .tame) (acts_newComparison trivial field value type operator)
  intro kempt
  have refused : Workspace.Neat wording { w with nextIdentifier := w.nextIdentifier + 1 } :=
    kempt.neat.frame rfl (Nat.le_refl _) fun _ _ => rfl
  unfold newComparison
  rw [run_bind, run_takeIdentifier]
  simp only
  split
  · rename_i field type operator given _ shown
    exact neat_comparison kempt (bare field given).1 (operators operator shown) (bare field given).2
      (value.getD .null) type
  · exact refused

theorem keeps_attach (isOpen : IsOpen w tree) {condition : Value} (fits : condition.IsCondition) :
    Keeps (Kempt wording) (attach tree condition) w := by
  apply Keeps.of_acts (p := .tame) (acts_attach trivial isOpen condition)
  intro kempt
  obtain ⟨j, found, none'⟩ := isOpen
  obtain ⟨joins, roster, conditions, sound, enlists, binder, same⟩ := kempt.neat.built found none'
  rw [run_attach found]
  have added : ∃ c : Condition, c.Fits wording.named ∧ c.member? = none ∧
      condition = c.value roster.own := by
    rcases fits with ⟨s, rfl, bare⟩ | ⟨id, rfl⟩
    · exact ⟨.raw s, bare, rfl, rfl⟩
    · exact ⟨.node id, trivial, rfl, rfl⟩
  obtain ⟨c, fit, noMember, rfl⟩ := added
  refine kempt.neat.revise
    (k := { j with conditions := j.conditions ++ [c.value roster.own] }) found rfl
    (Forest.node_setNode_of_tree found _) (Nat.le_refl _) (fun _ _ => rfl) ?_
  refine .built roster (conditions ++ [c]) none' joins sound ?_ binder (by simp [same])
  exact enlists.snoc fit (by simp [noMember])

theorem acts_test (isOpen : IsOpen w tree) (key : Key) (value : Value) (type : String) :
    Acts Policy.tame.quiet w (buildMembership tree key value (.text type) >>= attach tree) := by
  intro made
  have built : Acts Policy.tame.quiet w (buildMembership tree key value (.text type)) :=
    acts_buildMembership trivial tree key value _
  exact built.bind (fun c _ _ _ done => acts_attach trivial (isOpen.still made built done) c) made

/-- A membership test registers its member and mentions it. -/
theorem keeps_test (isOpen : IsOpen w tree) {key : Key} (suits : key.Suits wording.named)
    (value : Value) {type : String} (marked : Settings.marks {} type = true) :
    Keeps (Kempt wording) (buildMembership tree key value (.text type) >>= attach tree) w := by
  have acts := acts_test isOpen key value type
  apply Keeps.of_acts (p := .tame) (acts.mono Policy.tame.quiet_within)
  intro kempt
  obtain ⟨j, found, none'⟩ := isOpen
  obtain ⟨joins, roster, conditions, sound, enlists, binder, same⟩ := kempt.neat.built found none'
  have known := kempt.made.binder tree j found
  let member : Seat := ⟨roster.count, !isNumeral key.field, value, some type⟩
  have marks : (some type).any (Settings.marks {}) = true := marked
  let joined := (roster.join (!isNumeral key.field) value (some type)).binder "c" 0
  have name : (w.binder j.binder).nextName w.settings key.field = member.name roster.own := by
    rw [kempt.settings, binder]
    exact Seat.nextName_eq suits.field.colon (by simp [Roster.binder]) rfl value (some type)
  have registers : (w.binder j.binder).registered w.settings key.field value (.text type) =
      joined := by
    rw [kempt.settings, binder]
    exact Roster.registered_binder Settings.regular_default sound 0 suits.field.colon value
      (some type) marks
  -- registering alone leaves a member that no condition mentions: the tree is neat again only
  -- with the condition in it
  let middle : Workspace := { w with toForest := w.setBinder j.binder joined }
  have found' : middle.junction? tree = some j := found
  have attached := run_attach found' (.text (key.membership (member.name roster.own)))
  rw [run_bind, run_buildMembership key value type found, name, registers]
  simp only [attached, middle]
  refine kempt.neat.revise
    (k := { j with
      conditions := j.conditions ++ [.text (key.membership (member.name roster.own))] }) found rfl
    (Forest.node_setNode_of_tree found' _) ?_ ?_ ?_
  · exact Array.size_setIfInBounds.ge
  · intro b other
    rw [Forest.binder_setNode, Forest.binder_setBinder, if_neg fun here => other here.1.symm]
  · rw [Forest.binder_setNode, Forest.binder_setBinder, if_pos ⟨rfl, known⟩]
    refine .built _ (conditions ++ [.test key member]) none' joins
      (sound.join (!isNumeral key.field) value marks) (enlists.snoc ?_ rfl) rfl ?_
    · exact ⟨suits.field, suits.operator, rfl, fun all => by simp [member, suits.numeral all]⟩
    · simp only [same, List.map_append]
      rfl

/-! ## Items -/

/-- Making the condition of an item and adding it to the tree. -/
def place (tree : NodeId) (types : Value) (item : Item) : WorkspaceM Unit := do
  match ← build tree types item with
  | some condition => attach tree condition
  | none => pure ()

theorem extend_cons (tree : NodeId) (types : Value) (item : Item) (rest : List Item) :
    extend tree types (item :: rest) =
      place tree types item >>= fun _ => extend tree types rest := by
  rw [extend, place, bind_assoc]
  congr 1
  funext made
  cases made <;> rfl

theorem place_field (tree : NodeId) (types : Value) (key : Key) (value : Value) :
    place tree types (.field key value) = buildField tree types key value >>= attach tree := by
  rw [place, build, bind_map_left]

theorem keeps_comparison (isOpen : IsOpen w tree) {key : Key} (suits : key.Suits wording.named)
    (value type : Value) :
    Keeps (Kempt wording) (buildComparison key value type >>= attach tree) w := by
  unfold buildComparison
  rw [bind_assoc]
  apply Keeps.step
  · apply keeps_newComparison
    · rintro s ⟨⟩
      exact ⟨suits.field, suits.numeral⟩
    · rintro s ⟨⟩
      exact suits.operator
  · intro kempt id middle done
    have stays := isOpen.still kempt.made (acts_newComparison trivial _ _ _ _) done
    exact keeps_attach stays (.inr ⟨id, rfl⟩)

theorem keeps_field (isOpen : IsOpen w tree) {types : Value} (allowed : Policy.tame.Types types)
    {key : Key} (suits : key.Suits wording.named) (value : Value) :
    Keeps (Kempt wording) (place tree types (.field key value)) w := by
  rw [place_field]
  unfold buildField
  rw [bind_assoc]
  cases declared : declaredType types key.field with
  | error fault => exact .look rfl fun _ done => nomatch done
  | ok type =>
      apply Keeps.look rfl
      rintro a ⟨⟩
      by_cases membership : key.isMembership = true
      · obtain ⟨d, rfl⟩ : ∃ d, type = .ofText? d := by
          rcases allowed _ _ declared with rfl | ⟨s, rfl⟩
          · exact ⟨none, rfl⟩
          · exact ⟨some s, rfl⟩
        have same := run_membershipType d w
        simp only [if_pos membership]
        rw [bind_assoc]
        apply Keeps.look (by rw [same])
        intro marked done
        cases done.symm.trans same
        split
        · exact keeps_comparison isOpen suits _ _
        · refine .assuming fun kempt => ?_
          rw [kempt.settings]
          exact keeps_test isOpen suits value (Settings.marks_withMarker {} _)
      · simp only [if_neg membership]
        exact keeps_comparison isOpen suits value type

theorem written_default (kempt : w.Kempt wording) :
    wording.joins (Text.upper w.settings.defaultConnective) := by
  rw [kempt.settings]
  exact wording.keyword "AND" (.inl rfl)

/-- A new tree is filled, and the one that it is made for stays open meanwhile. -/
theorem keeps_grown {connective : String} (joins : wording.joins connective)
    (isOpen : IsOpen w tree) {types : Value} (allowed : Policy.tame.Types types) {items : List Item}
    (fills : ∀ start inner, IsOpen start inner →
      Keeps (Kempt wording) (extend inner types items) start)
    {next : NodeId → WorkspaceM β}
    (later : ∀ inner middle, IsOpen middle tree → Keeps (Kempt wording) (next inner) middle) :
    Keeps (Kempt wording) (newJunction connective >>= fun inner =>
      extend inner types items >>= fun _ => next inner) w := by
  apply (keeps_newJunction joins).step
  intro kempt inner start made
  have inside := isOpen_newJunction made
  have stays := isOpen.still kempt.made (acts_newJunction trivial _) made
  apply (fills start inner inside).step
  intro kempt _ middle done
  have filled : Acts Policy.tame.quiet start (extend inner types items) :=
    acts_extend (p := .quiet .tame) trivial id allowed items start inside
  exact later inner middle (stays.still kempt.made filled done)

mutual
theorem keeps_place {types : Value} (allowed : Policy.tame.Types types) {tree : NodeId} :
    (item : Item) → item.Regular → (∀ leaf ∈ item.leaves, leaf.Suits wording.named) →
    (w : Workspace) → IsOpen w tree → Keeps (Kempt wording) (place tree types item) w
  | .raw text, _, suits, w, isOpen => by
      unfold place build
      exact keeps_attach isOpen (.inl ⟨text, rfl, suits (.raw text) (by simp [Item.leaves])⟩)
  | .nested node, _, _, w, isOpen => by
      unfold place build
      exact keeps_attach isOpen (.inr ⟨node, rfl⟩)
  | .field key value, _, suits, w, isOpen =>
      keeps_field isOpen allowed (suits (.entry key value) (by simp [Item.leaves])) value
  | .group connective items, regular, suits, w, isOpen => by
      unfold place build
      split
      · exact (keeps_log _).bind fun _ _ _ => .pure _
      · simp only [bind_assoc, pure_bind]
        apply keeps_grown (wording.keyword connective regular.1) isOpen allowed fun start inner =>
          keeps_extend allowed items regular.2 (by simpa [Item.leaves] using suits) start
        exact fun inner _ still => keeps_attach still (.inr ⟨inner, rfl⟩)
  | .negation items, regular, suits, w, isOpen => by
      unfold place build
      split
      · exact (keeps_log _).bind fun _ _ _ => .pure _
      · rw [bind_assoc]
        refine .assuming fun kempt => .get ?_
        simp only [bind_assoc, pure_bind]
        apply keeps_grown (written_default kempt) isOpen allowed fun start inner =>
          keeps_extend allowed items regular (by simpa [Item.leaves] using suits) start
        intro inner middle still
        apply (keeps_negation inner).step
        intro kempt id last planted
        have plants : Acts Policy.tame.quiet middle
            (addNode (.unary ⟨"NOT", .node inner, false⟩)) := acts_addNode trivial nofun
        exact keeps_attach (still.still kempt.made plants planted) (.inr ⟨id, rfl⟩)

theorem keeps_extend {types : Value} (allowed : Policy.tame.Types types) {tree : NodeId} :
    (items : List Item) → Item.AllRegular items →
    (∀ leaf ∈ Item.allLeaves items, leaf.Suits wording.named) → (w : Workspace) → IsOpen w tree →
    Keeps (Kempt wording) (extend tree types items) w
  | [], _, _, w, _ => by
      unfold extend
      exact .pure _
  | item :: rest, regular, suits, w, isOpen => by
      rw [extend_cons]
      have here : ∀ leaf ∈ item.leaves, leaf.Suits wording.named := fun leaf member =>
        suits leaf (by simp [Item.allLeaves, member])
      have later : ∀ leaf ∈ Item.allLeaves rest, leaf.Suits wording.named := fun leaf member =>
        suits leaf (by simp [Item.allLeaves, member])
      apply (keeps_place allowed item regular.1 here w isOpen).step
      intro kempt _ middle done
      -- the rest needs the tree open still, which is so because making an item compiles nothing
      have acts : Acts Policy.tame.quiet w (place tree types item) := by
        intro made
        have built : Acts Policy.tame.quiet w (build tree types item) :=
          acts_build (p := Policy.tame.quiet) trivial id tree allowed w item
        refine built.bind (fun c _ after _ done => ?_) made
        cases c with
        | none => exact .pure _
        | some c => exact acts_attach trivial (isOpen.still made built done) c
      exact keeps_extend allowed rest regular.2 later middle (isOpen.still kempt.made acts done)
end

end WorkspaceM
end WhereClause
