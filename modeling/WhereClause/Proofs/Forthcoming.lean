import WhereClause.Proofs.Accounts
import WhereClause.Proofs.Respelling

/-!
# Names that are yet to be made up

When a tree is compiled its binder makes up a name for every element, and which names these will be
is known beforehand. A name tells the identifier of the binder and the number, so that a text that
mentions only names that were made up before mentions none of those that are to come.

* `SelfNamed.of_made`: texts that mention what was made up mention nothing that is to come.
* `selfNamed_after`: after a calm run this holds of every tree of which nothing is compiled.
-/

namespace WhereClause

open Text (Untouched)

/-! ## Names to come -/

/-- The trees at and below the node that are not compiled. -/
def Forest.openTrees (forest : Forest) (root : NodeId) : List Junction :=
  ((forest.postorder root).filterMap forest.junction?).filter fun j => j.compiled.isNone

theorem Forest.mem_openTrees {forest : Forest} {reading : Reading} (faithful : reading.Faithful)
    {root id : NodeId} {texts : Texts} (yields : Yields forest reading (.node root) texts)
    (reached : forest.Reaches root id) {j : Junction} (found : forest.junction? id = some j)
    (isOpen : j.compiled = none) : j ∈ forest.openTrees root := by
  rw [openTrees, List.mem_filter, List.mem_filterMap]
  exact ⟨⟨id, (mem_postorder faithful yields).mpr reached, found⟩, by rw [isOpen]; rfl⟩

theorem Forest.of_mem_openTrees {forest : Forest} {root : NodeId} {j : Junction}
    (member : j ∈ forest.openTrees root) :
    ∃ id, forest.junction? id = some j ∧ j.compiled = none := by
  rw [openTrees, List.mem_filter, List.mem_filterMap] at member
  obtain ⟨⟨id, -, found⟩, isOpen⟩ := member
  exact ⟨id, found, Option.isNone_iff_eq_none.mp isOpen⟩

/-- The names that compiling makes up under the initial settings, each with the one that it makes up
under others. -/
def Binder.renamings (b : Binder) (forest : Forest) (settings : Settings) : Table String String :=
  (Table.keys (b.minted forest {})).map fun n =>
    (synthesized {} b.identifier n, synthesized settings b.identifier n)

/-- The text of a condition that is no node. -/
def Forest.conditionText? (forest : Forest) : Value → Option String
  | .text s => some s
  | .outcome _ text .. => some text
  | .compiled tree => ((forest.junction? tree).bind (·.compiled)).map (·.sql)
  | _ => none

/-- The texts that are written in a node itself. -/
def Forest.writings (forest : Forest) (id : NodeId) : List String :=
  match forest.node id with
  | .junction j =>
    match j.compiled with
    | some rendered => [rendered.sql]
    | none => j.connective.written :: j.conditions.filterMap forest.conditionText?
  | .comparison c => [c.field, c.operator] ++ c.operand.placeholder?.toList
  | .unary u => [u.symbol, forest.plainText u.argument]
  | .fragment s => [s]
  | .abstract => []

theorem Forest.plainText_node (forest : Forest) (id : NodeId) :
    forest.plainText (.node id) = "<expression>" := by
  simp only [plainText, view, viewWithin, View.ofValue, View.shown, View.shownAtom]

namespace Workspace

variable {w : Workspace} {root id : NodeId} {j : Junction}

/-- The names that rendering a node makes up under the initial settings, each with the one that it
makes up under others. -/
def renamings (w : Workspace) (settings : Settings) (root : NodeId) : Table String String :=
  (w.openTrees root).flatMap fun j => (w.binder j.binder).renamings w.toForest settings

/-- The text with the names that rendering a node makes up as they are under other settings. -/
def renamed (w : Workspace) (settings : Settings) (root : NodeId) (s : String) : String :=
  String.ofList (Text.replaceAtOnce (w.renamings settings root) 0 s.toList)

/-- At and below the node, the open trees hold only names that they made up themselves, and no text
mentions a name that is yet to be made up. -/
structure SelfNamed (w : Workspace) (root : NodeId) : Prop where
  binder : ∀ j ∈ w.openTrees root, (w.binder j.binder).SelfNamed
  text : ∀ id, w.Reaches root id → ∀ s ∈ w.writings id,
    Untouched (w.renamings {} root) s.toList

theorem keys_renamings (w : Workspace) (settings : Settings) (root : NodeId) :
    Table.keys (w.renamings settings root) = Table.keys (w.renamings {} root) := by
  simp only [renamings, Table.keys, List.map_flatMap, Binder.renamings, List.map_map,
    Function.comp_def]

theorem tokens_renamings (settings : Settings) (selfNamed : w.SelfNamed root) :
    Tokens (w.renamings settings root) := by
  intro replaced member
  obtain ⟨j, inside, names⟩ := List.mem_flatMap.mp member
  obtain ⟨n, known, rfl⟩ := List.mem_map.mp names
  exact (selfNamed.binder j inside).isPlaceholder_minted w.toForest Settings.customary_default known

theorem get?_renamings (settings : Settings) (inside : j ∈ w.openTrees root) {n : Int}
    (known : n ∈ Table.keys ((w.binder j.binder).minted w.toForest {})) :
    Table.get? (Binder.synthesized {} (w.binder j.binder).identifier n)
        (w.renamings settings root) =
      some (Binder.synthesized settings (w.binder j.binder).identifier n) := by
  cases found : Table.get? (Binder.synthesized {} (w.binder j.binder).identifier n)
      (w.renamings settings root) with
  | none =>
      have own : (Binder.synthesized {} (w.binder j.binder).identifier n,
          Binder.synthesized settings (w.binder j.binder).identifier n) ∈
            w.renamings settings root :=
        List.mem_flatMap.mpr ⟨j, inside, List.mem_map.mpr ⟨n, known, rfl⟩⟩
      exact absurd (List.mem_map.mpr ⟨_, own, rfl⟩) (Table.get?_eq_none_iff.mp found)
  | some name =>
      -- The name tells the identifier and the number, and these tell the other name.
      obtain ⟨k, -, names⟩ := List.mem_flatMap.mp (Table.mem_of_get? found)
      obtain ⟨m, -, same⟩ := List.mem_map.mp names
      obtain ⟨old, rfl⟩ := Prod.mk.inj same
      obtain ⟨identifier, rfl⟩ := Binder.eq_of_synthesized old
      rw [identifier]

/-- Some binder has made up the name under the initial settings. -/
def HasMade (w : Workspace) (name : String) : Prop :=
  ∃ (b : BinderId) (n : Int), b.index < w.binders.size ∧ n < (w.binder b).count ∧
    name = Binder.synthesized {} (w.binder b).identifier n

/-- If every binder has an identifier of its own, and every name that a text mentions was made up by
some binder, then no text mentions a name that is yet to be made up. -/
theorem SelfNamed.of_made (made : w.WellMade) (drawn : w.Drawn)
    (binder : ∀ j ∈ w.openTrees root, (w.binder j.binder).SelfNamed)
    (text : ∀ id, w.Reaches root id → ∀ s ∈ w.writings id, ∀ p ∈ Text.placeholders s.toList,
      w.HasMade p) : w.SelfNamed root where
  binder := binder
  text id reached s written p mentioned := by
    intro known
    obtain ⟨b, m, present, below, rfl⟩ := text id reached s written p mentioned
    obtain ⟨⟨_, _⟩, names, rfl⟩ := List.mem_map.mp known
    obtain ⟨j, inside, named⟩ := List.mem_flatMap.mp names
    obtain ⟨n, free, same⟩ := List.mem_map.mp named
    obtain ⟨tree, found, -⟩ := Forest.of_mem_openTrees inside
    obtain ⟨identifier, rfl⟩ := Binder.eq_of_synthesized (Prod.mk.inj same).1
    obtain rfl := drawn.own b j.binder present (made.binder tree j found) identifier.symm
    have late := ((binder j inside).number_minted w.toForest free).1
    omega

end Workspace

/-! ## Calm runs -/

/-- A condition mentions its member until the member is served. -/
theorem Condition.value_eq_served (own : Nat) (condition : Condition) :
    condition.value own = condition.served own fun member => [member] := by
  cases condition with
  | test key member => rw [value, served, List.map_singleton, String.intercalate_singleton]
  | raw | node => rfl

/-- A member that is named has a name that the binder made up. -/
theorem Roster.name_member {named : Prop} {roster : Roster} {conditions : List Condition}
    (sound : roster.Sound {}) (enlists : roster.Enlists named conditions) (all : named)
    {member : Seat} (known : member ∈ roster.members) :
    (member.number : Int) < (roster.binder "c" 0).count ∧
      member.name roster.own =
        Binder.synthesized {} (roster.binder "c" 0).identifier member.number := by
  refine ⟨Int.ofNat_lt.mpr (sound.below member known), ?_⟩
  rw [Seat.name_of_named ((enlists.test known).2 all), mention, Roster.binder, Nat.zero_add]

namespace Workspace

variable {w : Workspace} {root id : NodeId} {j : Junction}

section
variable (neat : w.Neat .naming)
include neat

/-- A tree that is built in a calm run holds only names that its binder made up. -/
theorem Neat.selfNamed (found : w.junction? id = some j) (isOpen : j.compiled = none) :
    (w.binder j.binder).SelfNamed := by
  obtain ⟨-, roster, conditions, sound, enlists, binder, -⟩ := neat.built found isOpen
  rw [binder]
  refine ⟨?_, fun entry held => ?_⟩
  · rw [Roster.binder, Nat.zero_add, List.all_eq_true]
    exact fun c member => isWordChar_of_digit (Slot.isDigit_identifier roster.own c member)
  · obtain ⟨member, known, rfl⟩ := List.mem_map.mp held
    obtain ⟨below, name⟩ := Roster.name_member sound enlists trivial known
    exact ⟨member.number, below, (Seat.placeholder_entry roster.own member).trans name⟩

/-- What an open tree writes mentions only members, and these were named when they joined. -/
theorem Neat.hasMade_of_tree (made : w.WellMade) (found : w.junction? id = some j)
    (isOpen : j.compiled = none) : ∀ s ∈ w.writings id,
    ∀ name ∈ Text.placeholders s.toList, w.HasMade name := by
  intro s written name mentioned
  obtain ⟨joins, roster, conditions, sound, enlists, binder, same⟩ := neat.built found isOpen
  simp only [Forest.writings, Forest.junction?_eq_some.mp found, isOpen, same] at written
  rcases List.mem_cons.mp written with rfl | text
  · have none' : Text.placeholders j.connective.written.toList = [] := joins
    simp [none'] at mentioned
  · obtain ⟨v, listed, shown⟩ := List.mem_filterMap.mp text
    obtain ⟨condition, inside, rfl⟩ := List.mem_map.mp listed
    have served : condition.served roster.own (fun member => [member]) = .text s := by
      rw [← condition.value_eq_served]
      cases condition <;> cases shown <;> rfl
    have named (member : Seat) (has : member ∈ condition.member?) : member.named = true :=
      (enlists.test (enlists.known inside has)).2 trivial
    have mentions := (Condition.placeholders_served (enlists.fits condition inside)
      (fun member has seat alone => List.mem_singleton.mp alone ▸ named member has)
      served w.toForest name).mp mentioned
    cases condition with
    | raw => exact mentions.elim
    | node => cases shown
    | test key member =>
        obtain ⟨seat, alone, rfl⟩ := mentions
        obtain rfl := List.mem_singleton.mp alone
        obtain ⟨below, name⟩ := Roster.name_member sound enlists trivial (enlists.known inside rfl)
        rw [← binder] at below name
        exact ⟨j.binder, seat.number, made.binder id j found, below, name⟩

theorem Neat.hasMade_of_comparison (numbered : w.Numbered) {c : Comparison}
    (kind : w.node id = .comparison c) : ∀ s ∈ w.writings id,
    ∀ name ∈ Text.placeholders s.toList, w.HasMade name := by
  intro s written name mentioned
  have here : c.Neat True (w.binder c.binder) := by
    have node := neat.node id
    rwa [kind] at node
  simp only [Forest.writings, kind, List.cons_append, List.nil_append, List.mem_cons,
    Option.mem_toList] at written
  rcases written with rfl | rfl | given
  · simp [Text.placeholders_eq_nil here.field.colon] at mentioned
  · simp [Text.placeholders_eq_nil here.operator.colon] at mentioned
  · cases operand : c.operand with
    | nested => simp [operand, Operand.placeholder?] at given
    | bound value placeholder =>
        obtain ⟨own, seat, identifier, -, named, same, held⟩ := here.own_bound kind operand
        rw [Forest.ownBindings, kind] at held
        have below := (numbered c.binder).below seat.number (by simp [held, Table.keys, Seat.entry])
        obtain rfl : seat.name own = s := by
          rw [operand, same] at given
          exact Option.some.inj given
        rw [Text.placeholders_token (seat.isPlaceholder_name (named trivial) own),
          List.mem_singleton, String.ofList_toList] at mentioned
        refine ⟨c.binder, seat.number, neat.known id c.binder (by rw [kind]; rfl), below, ?_⟩
        rw [mentioned, Seat.name_of_named (named trivial), mention, identifier]

theorem Neat.hasMade (made : w.WellMade) (numbered : w.Numbered) (hushed : w.Hushed Text.Bare)
    (isOpen : ∀ j, w.junction? id = some j → j.compiled = none) : ∀ s ∈ w.writings id,
    ∀ name ∈ Text.placeholders s.toList, w.HasMade name := by
  have bare {s name : String} (bare : Text.Bare s) (mentioned : name ∈ Text.placeholders s.toList) :
      w.HasMade name := by
    simp [Text.placeholders_eq_nil bare.colon] at mentioned
  have node := neat.node id
  cases kind : w.node id with
  | junction j =>
      have found := Forest.junction?_eq_some.mpr kind
      exact neat.hasMade_of_tree made found (isOpen j found)
  | comparison c => exact neat.hasMade_of_comparison numbered kind
  | unary u =>
      rw [kind] at node
      simp only [Forest.writings, kind, List.forall_mem_cons, List.not_mem_nil, false_implies,
        implies_true, and_true]
      refine ⟨fun _ => bare node, fun name mentioned => ?_⟩
      cases flat : u.argument.node? with
      | none => exact bare (hushed w (.refl w) id u kind flat) mentioned
      | some child =>
          rw [Value.node?_eq_some.mp flat, Forest.plainText_node] at mentioned
          exact bare ⟨by decide, by decide⟩ mentioned
  | fragment s =>
      rw [kind] at node
      simp only [Forest.writings, kind, List.forall_mem_cons, List.not_mem_nil, false_implies,
        implies_true, and_true]
      exact fun _ => bare node
  | abstract =>
      rw [Forest.writings, kind]
      exact nofun

end

/-- After a calm run every tree of which nothing is compiled holds only names that its binders made
up, and its texts mention no other names. -/
theorem selfNamed_after (n : Nat) {operations : List Operation}
    (calm : Workspace.Calm .naming { nextIdentifier := n } operations)
    (ended : w = Workspace.after { nextIdentifier := n } operations)
    (hushed : w.Hushed Text.Bare)
    (isOpen : ∀ id j, w.Reaches root id → w.junction? id = some j → j.compiled = none) :
    w.SelfNamed root := by
  obtain ⟨tidy, drawn⟩ := tidy_after (tidy_empty .naming n) (recorded_empty n).drawn calm
  have numbered := (numbered_empty n).run trivial trivial (.empty n) (allows_of_calm calm)
  rw [← ended] at tidy drawn numbered
  obtain ⟨kempt, -⟩ := tidy
  refine .of_made kempt.made drawn (fun j inside => ?_) fun id reached =>
    kempt.neat.hasMade kempt.made numbered hushed (isOpen id · reached)
  obtain ⟨id, found, isOpen⟩ := Forest.of_mem_openTrees inside
  exact kempt.neat.selfNamed found isOpen

end Workspace
end WhereClause
