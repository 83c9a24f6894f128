import WhereClause.Proofs.Calm
import WhereClause.Proofs.Orders
import WhereClause.Proofs.Outcomes
import WhereClause.Proofs.Soundness

/-!
# Every placeholder is accounted for

After a calm run in which no field is a number, the placeholders in a text that was rendered are
those of the bindings that are collected for it.

* `accounted_of_spells`: the placeholders that spell a node are those bound at and below it.
* `Neat.same_entry`: bindings with one placeholder are one binding.
* `collectBindings_closed`: the text, the bindings and the parameters have the same placeholders.
-/

namespace WhereClause

namespace Forest

variable {forest : Forest} {id lower : NodeId} {name : String}

def Binds (forest : Forest) (id : NodeId) (name : String) : Prop :=
  ∃ lower, forest.Reaches id lower ∧
    ∃ entry ∈ forest.ownBindings lower, entry.2.placeholder {} = name

theorem binds_iff : forest.Binds id name ↔
    (∃ entry ∈ forest.ownBindings id, entry.2.placeholder {} = name) ∨
      ∃ child, forest.Child id child ∧ forest.Binds child name := by
  constructor
  · rintro ⟨lower, path, held⟩
    rcases path.cases_head with rfl | ⟨child, step, rest⟩
    · exact .inl held
    · exact .inr ⟨child, step, lower, rest, held⟩
  · rintro (held | ⟨child, step, lower, rest, held⟩)
    · exact ⟨id, .refl, held⟩
    · exact ⟨lower, .head step rest, held⟩

end Forest

/-! ## Placeholders in writings -/

namespace Writing

def tokens (writing : Writing) : List String := Text.placeholders writing.letters

theorem placeholders_text (writing : Writing) :
    Text.placeholders writing.text.toList = writing.tokens := by
  rw [toList_text]
  rfl

theorem tokens_enclosed (writing : Writing) : tokens writing.enclosed = writing.tokens := by
  rw [← placeholders_text, text_enclosed, Text.placeholders_parenthesized, placeholders_text]

theorem tokens_joined {connective : String} (quiet : Text.placeholders connective.toList = [])
    (parts : List Writing) : tokens (joined connective parts) = parts.flatMap tokens := by
  rw [← placeholders_text, text_joined, Text.placeholders_joined quiet, List.flatMap_map]
  simp only [placeholders_text]

theorem tokens_words {s : String} (noColon : ':' ∉ s.toList) (writing : Writing) :
    tokens (.words s :: writing) = writing.tokens :=
  Text.placeholders_of_no_colon noColon _

@[simp] theorem tokens_nil : tokens [] = [] := rfl

theorem tokens_applied {u : Unary} (bare : Text.Bare u.symbol) (argument : Writing) :
    tokens (u.applied argument) = argument.tokens := by
  have noColon := bare.colon
  unfold Unary.applied
  split
  · have letters : letters (argument ++ [.words (" " ++ u.symbol)]) =
        argument.letters ++ ' ' :: u.symbol.toList := by simp [Segment.text]
    have closing : Text.placeholders (' ' :: u.symbol.toList) = [] :=
      Text.placeholders_eq_nil (by simp [noColon])
    rw [tokens, letters, Text.placeholders_append _ rfl, closing, List.append_nil]
    rfl
  · exact tokens_words (by simp [noColon]) argument

end Writing

/-! ## Placeholders of nodes -/

/-- No field is a number, and what joins conditions holds no placeholder. -/
def Wording.naming : Wording where
  named := True
  joins word := Text.placeholders word.toList = []
  keyword word known := by
    rcases known with rfl | rfl | rfl <;> decide +kernel

theorem Seat.placeholder_entry (own : Nat) (seat : Seat) :
    (seat.entry "c" 0 own).2.placeholder {} = seat.name own :=
  Seat.placeholder_binding rfl seat

theorem Seat.isPlaceholder_name {seat : Seat} (named : seat.named = true) (own : Nat) :
    Text.IsPlaceholder (seat.name own).toList := by
  rw [name_of_named named]
  exact isPlaceholder_mention own seat.number

namespace Condition

/-- The placeholder stands in the condition of a compiled tree, or below it. -/
def Mentions (forest : Forest) (own : Nat) (serving : Seat → List Seat) (name : String) :
    Condition → Prop
  | raw _ => False
  | test _ member => ∃ seat ∈ serving member, seat.name own = name
  | node child => forest.Binds child name

variable {own : Nat} {serving : Seat → List Seat}

theorem placeholders_served {condition : Condition} (fits : condition.Fits True)
    (seated : ∀ member ∈ condition.member?, ∀ seat ∈ serving member, seat.named = true) {s : String}
    (same : condition.served own serving = .text s) (forest : Forest) (name : String) :
    name ∈ Text.placeholders s.toList ↔ condition.Mentions forest own serving name := by
  cases condition with
  | raw s =>
      cases same
      rw [Text.placeholders_eq_nil fits.colon]
      exact iff_of_false nofun id
  | test key member =>
      cases same
      obtain ⟨field, operator, agrees, named⟩ := fits
      have numeral : isNumeral key.field = false := by simpa [named trivial] using agrees.symm
      rw [placeholders_membership ⟨⟨numeral, field.colon⟩, operator.colon⟩, List.mem_map]
      · rfl
      · rintro _ given
        obtain ⟨seat, served, rfl⟩ := List.mem_map.mp given
        exact seat.isPlaceholder_name (seated member rfl seat served) own
  | node id => cases same

end Condition

section

variable {wording : Wording} {forest : Forest} {id : NodeId} {name : String}

/-- The placeholders bound at and below a compiled tree are those that its conditions mention. -/
theorem binds_tree {j : Junction} (found : forest.junction? id = some j) {rendered : Rendered}
    (compiled : j.compiled = some rendered) {roster : Roster} {conditions : List Condition}
    {serving : Seat → List Seat} {seats : List Seat} (enlists : roster.Enlists True conditions)
    (serves : roster.Serves True serving seats)
    (same : j.conditions = conditions.map (Condition.served roster.own serving))
    (own : rendered.bindings = seats.map (Seat.entry "c" 0 roster.own)) :
    forest.Binds id name ↔
      ∃ condition ∈ conditions, condition.Mentions forest roster.own serving name := by
  have held : forest.ownBindings id = seats.map (Seat.entry "c" 0 roster.own) := by
    rw [Forest.ownBindings, Forest.junction?_eq_some.mp found]
    simp only [compiled, own]
  have child (child : NodeId) : forest.Child id child ↔ Condition.node child ∈ conditions := by
    rw [Forest.child_of_tree found, same, List.mem_map]
    constructor
    · rintro ⟨condition, listed, served⟩
      cases condition with
      | node id =>
          cases served
          exact listed
      | raw | test => cases served
    · exact fun listed => ⟨_, listed, rfl⟩
  rw [Forest.binds_iff, held]
  constructor
  · rintro (⟨entry, member, rfl⟩ | ⟨lower, step, binds⟩)
    · obtain ⟨seat, inside, rfl⟩ := List.mem_map.mp member
      obtain ⟨member, known, served⟩ := serves.whole trivial seat inside
      obtain ⟨⟨key, listed⟩, -⟩ := enlists.test known
      exact ⟨_, listed, seat, served, (seat.placeholder_entry _).symm⟩
    · exact ⟨_, (child lower).mp step, binds⟩
  · rintro ⟨condition, listed, mentions⟩
    cases condition with
    | raw => exact mentions.elim
    | test key member =>
        obtain ⟨seat, served, rfl⟩ := mentions
        have known : member ∈ roster.members := enlists.known listed rfl
        exact .inl ⟨_, List.mem_map_of_mem (serves.given member known seat served),
          seat.placeholder_entry _⟩
    | node lower => exact .inr ⟨lower, (child lower).mpr listed, mentions⟩

theorem exists_iff_of_forall₂ {α β : Type} {relates : α → β → Prop} {p : α → Prop} {q : β → Prop}
    {as : List α} {bs : List β} (all : List.Forall₂ relates as bs)
    (each : ∀ a ∈ as, ∀ b, relates a b → (p a ↔ q b)) : (∃ a ∈ as, p a) ↔ ∃ b ∈ bs, q b := by
  induction all with
  | nil => simp
  | cons first _ ih =>
      obtain ⟨here, later⟩ := List.forall_mem_cons.mp each
      simp [here _ first, ih later]

/-- A condition is spelled with the placeholders that it mentions. -/
def Accounted (forest : Forest) (v : Value) (writing : Writing) : Prop :=
  (∀ s, v = .text s → writing.tokens = Text.placeholders s.toList) ∧
    ∀ id, v = .node id → ∀ name, name ∈ writing.tokens ↔ forest.Binds id name

theorem Accounted.of_node {writing : Writing}
    (each : ∀ name, name ∈ writing.tokens ↔ forest.Binds id name) :
    Accounted forest (.node id) writing := by
  refine ⟨nofun, ?_⟩
  rintro _ ⟨⟩
  exact each

theorem Accounted.of_leaf (children : (forest.node id).children = [])
    (own : forest.ownBindings id = []) {writing : Writing} (quiet : writing.tokens = []) :
    Accounted forest (.node id) writing := by
  apply Accounted.of_node
  intro name
  rw [quiet, Forest.binds_iff, own]
  simp [Forest.Child, children]

theorem Accounted.of_child (child : NodeId) (children : (forest.node id).children = [child])
    (own : forest.ownBindings id = []) {writing inner : Writing}
    (same : writing.tokens = inner.tokens) (below : Accounted forest (.node child) inner) :
    Accounted forest (.node id) writing := by
  apply Accounted.of_node
  intro name
  have here : forest.Binds id name ↔ _ := Forest.binds_iff
  rw [same, below.2 child rfl, here, own]
  simp [Forest.Child, children]

theorem Accounted.bound {c : Comparison} (kind : forest.node id = .comparison c) {value : Value}
    {placeholder : String} (operand : c.operand = .bound value placeholder)
    (flat : value.node? = none) (neat : c.Neat True (forest.binder c.binder)) :
    Accounted forest (.node id) [.words c.opening, .placeholder id placeholder] := by
  obtain ⟨own, seat, -, -, named, rfl, held⟩ := neat.own_bound kind operand
  have tokens : Writing.tokens [.placeholder id (seat.name own)] = [seat.name own] := by
    have token := Text.placeholders_token (seat.isPlaceholder_name (named trivial) own)
    simpa [Writing.tokens, Segment.text] using token
  apply Accounted.of_node
  intro name
  rw [Writing.tokens_words neat.opening.colon, tokens, Forest.binds_iff, held]
  simp [Forest.Child, Comparison.children_bound kind operand flat, Seat.placeholder_entry, eq_comm]

theorem Accounted.tree (neat : ∀ id, (forest.node id).Neat .naming forest.binder) {j : Junction}
    (found : forest.junction? id = some j) (closed : j.compiled.isSome = true)
    {parts : List Writing} (each : List.Forall₂ (Accounted forest) j.conditions parts) :
    Accounted forest (.node id) (.joined j.connective.written parts) := by
  have here := neat id
  rw [Forest.junction?_eq_some.mp found] at here
  obtain ⟨joins, roster, conditions, serving, seats, rendered, compiled, enlists, serves, -, -,
    same, own⟩ := here.closed closed
  apply Accounted.of_node
  intro name
  rw [Writing.tokens_joined joins, binds_tree found compiled enlists serves same own,
    List.mem_flatMap]
  rw [same, List.forall₂_map_left_iff] at each
  refine (exists_iff_of_forall₂ each fun condition listed part accounted => ?_).symm
  have seated := serves.named enlists listed
  cases text : condition.served roster.own serving with
  | text s =>
      rw [accounted.1 s text]
      exact (Condition.placeholders_served (enlists.fits _ listed) seated text forest name).symm
  | node child =>
      rw [accounted.2 child text]
      cases condition with
      | node child' =>
          cases text
          rfl
      | raw | test => cases text
  | _ => cases condition <;> cases text

theorem Accounted.single (neat : ∀ id, (forest.node id).Neat .naming forest.binder) {j : Junction}
    (found : forest.junction? id = some j) (closed : j.compiled.isSome = true) {child : NodeId}
    (only : j.conditions = [.node child]) {inner : Writing}
    (below : Accounted forest (.node child) inner) : Accounted forest (.node id) inner := by
  have here := neat id
  rw [Forest.junction?_eq_some.mp found] at here
  obtain ⟨-, roster, conditions, serving, seats, rendered, compiled, enlists, serves, -, -,
    same, own⟩ := here.closed closed
  have alone : conditions = [.node child] := by
    rw [only] at same
    match conditions, same with
    | [.node _], same => simpa [Condition.served] using same.symm
  apply Accounted.of_node
  intro name
  rw [below.2 child rfl, binds_tree found compiled enlists serves same own, alone]
  simp [Condition.Mentions]

/-- The placeholders that spell a node are those bound at and below it. -/
theorem accounted_of_spells (neat : ∀ id, (forest.node id).Neat .naming forest.binder)
    (flat : ∀ id c value placeholder, forest.node id = .comparison c →
      c.operand = .bound value placeholder → value.node? = none) {v : Value} {writing : Writing}
    (spells : Spells Text.Bare forest v writing) : Accounted forest v writing := by
  have of_kind {id : NodeId} {node : Node} (kind : forest.node id = node) :
      node.Neat .naming forest.binder := kind ▸ neat id
  -- only comparisons with values and compiled trees bind anything themselves
  induction spells with
  | text s =>
      refine ⟨?_, nofun⟩
      rintro _ ⟨⟩
      simp [Writing.tokens, Segment.text]
  | other notNode notText s =>
      refine ⟨?_, ?_⟩
      · rintro _ rfl
        cases notText
      · rintro _ rfl
        cases notNode
  | @fragment id s kind =>
      have bare : Text.Bare s := of_kind kind
      exact .of_leaf (by rw [kind]; rfl) (by rw [Forest.ownBindings, kind])
        (Writing.tokens_words bare.colon [])
  | bound kind operand => exact .bound kind operand (flat _ _ _ _ kind operand) (of_kind kind)
  | @nested id operand c inner kind nested below ih =>
      have here : c.Neat True (forest.binder c.binder) := of_kind kind
      refine .of_child operand ?_ (here.own_nested kind nested)
        (Writing.tokens_words here.opening.colon inner) ih
      rw [kind, Node.children, nested]
      rfl
  | @plain id u s kind flat shown =>
      have symbol : Text.Bare u.symbol := of_kind kind
      refine .of_leaf (by rw [kind, Node.children, flat]; rfl) (by rw [Forest.ownBindings, kind]) ?_
      rw [Writing.tokens_applied symbol]
      split
      · exact Writing.tokens_words shown.colon []
      · rw [Writing.tokens_enclosed, Writing.tokens_words shown.colon, Writing.tokens_nil]
  | @unary id argument u inner kind nested below ih =>
      have symbol : Text.Bare u.symbol := of_kind kind
      refine .of_child argument ?_ (by rw [Forest.ownBindings, kind])
        (Writing.tokens_applied symbol inner) ih
      rw [kind, Node.children, nested]
      rfl
  | tree found compiled lengths each ih =>
      refine .tree neat found compiled (List.forall₂_iff_zip.mpr ⟨lengths, fun {v part} => ?_⟩)
      exact ih v part
  | single found compiled only below ih => exact .single neat found compiled only ih
  | enclosed below ih =>
      simp only [Accounted, Writing.tokens_enclosed]
      exact ih

end

/-! ## One record for every placeholder -/

namespace Workspace

variable {w after : Workspace} {id : NodeId}

/-- The bindings that a node makes itself: named seats with numbers of their own, under the
identifier of its binder. -/
theorem Neat.ownSeats (neat : w.Neat .naming) (id : NodeId) :
    ∃ (own : Nat) (seats : List Seat),
      w.ownBindings id = seats.map (Seat.entry "c" 0 own) ∧ (seats.map Seat.number).Nodup ∧
      ∀ seat ∈ seats, seat.named = true ∧
        ∃ b, (w.node id).binder? = some b ∧ (w.binder b).identifier = toString own := by
  have here := neat.node id
  cases kind : w.node id with
  | junction j =>
      rw [kind] at here
      rw [Forest.ownBindings, kind]
      cases here with
      | built roster conditions isOpen joins sound enlists binder same =>
          refine ⟨roster.own, roster.members, ?_, sound.distinct, fun member known =>
            ⟨(enlists.test known).2 trivial, j.binder, rfl, ?_⟩⟩
          · simp only [isOpen, binder]
            rfl
          · rw [binder, Roster.binder, Nat.zero_add]
      | finished roster conditions compiled joins enlists serves identifier bindings same own =>
          refine ⟨roster.own, _, ?_, serves.distinct, fun seat inside => ?_⟩
          · simp only [compiled, own]
          · exact ⟨serves.seated seat inside, j.binder, rfl, identifier⟩
  | comparison c =>
      have fits : c.Neat True (w.binder c.binder) := by rwa [kind] at here
      cases operand : c.operand with
      | nested _ => exact ⟨0, [], fits.own_nested kind operand, .nil, by simp⟩
      | bound value placeholder =>
          obtain ⟨own, seat, identifier, -, named, -, held⟩ := fits.own_bound kind operand
          refine ⟨own, [seat], held, List.nodup_singleton _, fun other inside => ?_⟩
          rw [List.mem_singleton.mp inside]
          exact ⟨named trivial, c.binder, rfl, identifier⟩
  | unary _ | fragment _ | abstract =>
      exact ⟨0, [], by rw [Forest.ownBindings, kind]; rfl, .nil, by simp⟩

theorem names_eq {own own' : Nat} {seat seat' : Seat} (named : seat.named = true)
    (named' : seat'.named = true) (same : (seat.entry "c" 0 own).2.placeholder {} =
      (seat'.entry "c" 0 own').2.placeholder {}) : own = own' ∧ seat.number = seat'.number := by
  rw [Seat.placeholder_entry, Seat.placeholder_entry, Seat.name_of_named named,
    Seat.name_of_named named'] at same
  exact mention_inj same

theorem Neat.owner (neat : w.Neat .naming) (drawn : w.Drawn) {first second : NodeId}
    {b c : BinderId} (has : (w.node first).binder? = some b)
    (has' : (w.node second).binder? = some c)
    (same : (w.binder b).identifier = (w.binder c).identifier) : first = second := by
  obtain rfl := drawn.own b c (neat.known first b has) (neat.known second c has') same
  exact neat.alone first second b has has'

/-- Bindings with one placeholder are the same binding of the same node. -/
theorem Neat.same_entry (neat : w.Neat .naming) (drawn : w.Drawn) {first second : NodeId}
    {entry other : Int × Binding} (member : entry ∈ w.ownBindings first)
    (member' : other ∈ w.ownBindings second)
    (same : entry.2.placeholder {} = other.2.placeholder {}) : first = second ∧ entry = other := by
  obtain ⟨own, seats, held, distinct, each⟩ := neat.ownSeats first
  have seated {e : Int × Binding} (inside : e ∈ w.ownBindings first) :
      ∃ seat ∈ seats, seat.entry "c" 0 own = e := by
    rw [held] at inside
    exact List.mem_map.mp inside
  obtain ⟨seat, inside, rfl⟩ := seated member
  obtain ⟨named, b, has, identifier⟩ := each seat inside
  -- the identifier in a placeholder tells the node, and the number tells which of its seats it is
  have one : first = second := by
    obtain ⟨own', seats', held', -, each'⟩ := neat.ownSeats second
    rw [held'] at member'
    obtain ⟨seat', inside', rfl⟩ := List.mem_map.mp member'
    obtain ⟨named', c, has', identifier'⟩ := each' seat' inside'
    obtain ⟨rfl, -⟩ := names_eq named named' same
    exact neat.owner drawn has has' (identifier.trans identifier'.symm)
  subst one
  obtain ⟨seat', inside', rfl⟩ := seated member'
  obtain ⟨-, numbers⟩ := names_eq named (each seat' inside').1 same
  exact ⟨rfl, by rw [List.inj_on_of_nodup_map distinct inside inside' numbers]⟩

theorem Neat.memberSeats (neat : w.Neat .naming) {tree : NodeId} {j : Junction}
    (found : w.junction? tree = some j) : ∃ (own : Nat) (members : List Seat),
      (w.binder j.binder).bindings = members.map (Seat.entry "c" 0 own) ∧
      (w.binder j.binder).identifier = toString own ∧ (∀ m ∈ members, m.named = true) ∧
      (j.compiled.isSome = true → ∃ seats : List Seat,
        w.ownBindings tree = seats.map (Seat.entry "c" 0 own) ∧
        ∀ m ∈ members, ∀ seat ∈ seats, seat.named = true ∧ m.number < seat.number) := by
  cases neat.tree found with
  | built roster conditions isOpen joins sound enlists binder same =>
      refine ⟨roster.own, roster.members, by rw [binder]; rfl, ?_,
        fun m known => (enlists.test known).2 trivial, ?_⟩
      · rw [binder, Roster.binder, Nat.zero_add]
      · simp [isOpen]
  | @finished roster conditions serving seats rendered compiled joins enlists serves identifier
      bindings same own =>
      refine ⟨roster.own, roster.members, bindings, identifier,
        fun m known => (enlists.test known).2 trivial, fun _ => ⟨seats, ?_, ?_⟩⟩
      · rw [Forest.ownBindings, Forest.junction?_eq_some.mp found]
        simp only [compiled, own]
      · exact fun m known seat inside =>
          ⟨serves.seated seat inside, serves.later m known seat inside⟩

/-- The placeholder of a member is bound nowhere below what is rendered: if the tree is there, it is
compiled, and the elements have numbers of their own. -/
theorem Neat.not_binds_member (neat : w.Neat .naming) (drawn : w.Drawn) {tree : NodeId}
    {j : Junction} (found : w.junction? tree = some j) {entry : Int × Binding}
    (member : entry ∈ (w.binder j.binder).bindings)
    (closed : ∀ lower k, w.Reaches id lower → w.junction? lower = some k →
      k.compiled.isSome = true) : ¬ w.Binds id (entry.2.placeholder {}) := by
  rintro ⟨lower, path, other, held, same⟩
  obtain ⟨own, members, bindings, identifier, named, later⟩ := neat.memberSeats found
  rw [bindings] at member
  obtain ⟨m, known, rfl⟩ := List.mem_map.mp member
  have owns : (w.node tree).binder? = some j.binder := by
    rw [Forest.junction?_eq_some.mp found]
    rfl
  have here : lower = tree := by
    obtain ⟨own', seats, held', -, each⟩ := neat.ownSeats lower
    rw [held'] at held
    obtain ⟨seat, inside, rfl⟩ := List.mem_map.mp held
    obtain ⟨named', b, has, identifier'⟩ := each seat inside
    obtain ⟨rfl, -⟩ := names_eq named' (named m known) same
    exact neat.owner drawn has owns (identifier'.trans identifier.symm)
  subst here
  obtain ⟨seats, held', above⟩ := later (closed lower j path found)
  rw [held'] at held
  obtain ⟨seat, inside, rfl⟩ := List.mem_map.mp held
  obtain ⟨named', below⟩ := above m known seat inside
  obtain ⟨-, numbers⟩ := names_eq named' (named m known) same
  omega

end Workspace

/-! ## Collecting -/

/-- The placeholders in the text are those of the bindings, each of one record only, and none is
that of a member in the place of which its elements should stand. -/
structure Workspace.Closed (w : Workspace) (id : NodeId) (s : String) (bindings : List Binding) :
    Prop where
  tokens : ∀ name, name ∈ Text.placeholders s.toList ↔
    ∃ binding ∈ bindings, binding.placeholder {} = name
  single : ∀ first ∈ w.postorder id, ∀ second ∈ w.postorder id, ∀ entry ∈ w.ownBindings first,
    ∀ other ∈ w.ownBindings second, entry.2.placeholder {} = other.2.placeholder {} →
      first = second ∧ entry = other
  expanded : ∀ tree j, w.junction? tree = some j → ∀ entry ∈ (w.binder j.binder).bindings,
    entry.2.placeholder {} ∉ Text.placeholders s.toList

namespace Workspace

variable {w : Workspace} {id : NodeId}

theorem Kempt.closed (kempt : w.Kempt .naming) (drawn : w.Drawn) {texts : Texts}
    (settled : Settled w.toForest (.node id) texts) {s : String}
    (spelled : Spelled Text.Bare w.toForest (.node id) s) : w.Closed id s (w.allBindings id) := by
  obtain ⟨writing, spells, rfl⟩ := spelled
  have accounted := (accounted_of_spells kempt.neat.node kempt.made.flat spells).2 id rfl
  refine ⟨fun name => ?_, fun first _ second _ entry member other member' same =>
    kempt.neat.same_entry drawn member member' same, fun tree j found entry member mentioned => ?_⟩
  · rw [Writing.placeholders_text, accounted]
    simp only [Forest.mem_allBindings settled]
    constructor
    · rintro ⟨lower, path, entry, member, same⟩
      exact ⟨_, ⟨lower, path, entry, member, rfl⟩, same⟩
    · rintro ⟨_, ⟨lower, path, entry, member, rfl⟩, same⟩
      exact ⟨lower, path, entry, member, same⟩
  · rw [Writing.placeholders_text, accounted] at mentioned
    exact kempt.neat.not_binds_member drawn found member
      (fun lower k => Forest.closed_of_settled settled) mentioned

end Workspace

theorem get?_namedValues {bindings : List Binding}
    (named : ∀ binding ∈ bindings, binding.isNamed = true)
    (single : ∀ binding ∈ bindings, ∀ other ∈ bindings,
      binding.placeholder {} = other.placeholder {} → binding = other) (name : String)
    (value : Value) : Table.get? name (namedValues {} bindings) = some value ↔
      ∃ binding ∈ bindings, binding.placeholder {} = name ∧ binding.value = value := by
  have all : bindings.filter BindingOf.isNamed = bindings := List.filter_eq_self.mpr named
  rw [namedValues, all]
  have pairs {name : String} {value : Value} (given : (name, value) ∈ bindings.map fun binding =>
      (binding.placeholder {}, binding.value)) :
      ∃ binding ∈ bindings, binding.placeholder {} = name ∧ binding.value = value := by
    obtain ⟨binding, member, same⟩ := List.mem_map.mp given
    exact ⟨binding, member, congrArg Prod.fst same, congrArg Prod.snd same⟩
  constructor
  · intro found
    exact pairs ((Table.mem_putAll (Table.mem_of_get? found)).resolve_right nofun)
  · rintro ⟨binding, member, rfl, rfl⟩
    have key : binding.placeholder {} ∈ Table.keys (bindings.map fun binding =>
        (binding.placeholder {}, binding.value)) :=
      List.mem_map_of_mem (List.mem_map_of_mem member)
    obtain ⟨value, found, given⟩ := Table.exists_get?_putAll key
    obtain ⟨other, member', same, rfl⟩ := pairs given
    rw [found, single other member' binding member same]

theorem Workspace.Neat.isNamed {w : Workspace} (neat : w.Neat .naming) {id : NodeId}
    {entry : Int × Binding} (member : entry ∈ w.ownBindings id) : entry.2.isNamed = true := by
  obtain ⟨own, seats, held, -, each⟩ := neat.ownSeats id
  rw [held] at member
  obtain ⟨seat, inside, rfl⟩ := List.mem_map.mp member
  exact (Seat.isNamed_binding seat).trans (each seat inside).1

namespace WorkspaceM

/-- After a calm run without numeric fields, whatever is rendered has the placeholders of its
bindings, and the parameters say what each of them is bound to. -/
theorem collectBindings_closed (n : Nat) {operations : List Operation}
    (calm : Workspace.Calm .naming { nextIdentifier := n } operations) {w after : Workspace}
    (ended : w = Workspace.after { nextIdentifier := n } operations)
    (hushed : w.Hushed Text.Bare) {id : NodeId} {s : String}
    (done : run (sql id) w = (.ok s, after)) :
    ∃ bindings parameters,
      run (collectBindings id) w = (.ok bindings, after) ∧ after.Closed id s bindings ∧
      run (collectParameters id) w = (.ok parameters, after) ∧ (Table.keys parameters).Nodup ∧
      (∀ name value, Table.get? name parameters = some value ↔
        ∃ binding ∈ bindings, binding.placeholder {} = name ∧ binding.value = value) ∧
      ∀ j, w.junction? id = some j → ∀ types connective, ∃ outcome,
        run (compileDescription (.node id) types connective) w = (.ok outcome, after) ∧
        outcome.sql = s ∧ outcome.parameters = parameters := by
  obtain ⟨tidy, drawn⟩ :=
    Workspace.tidy_after (Workspace.tidy_empty .naming n) (Workspace.recorded_empty n).drawn calm
  rw [← ended] at tidy drawn
  obtain ⟨kempt, drawn, spelled, texts, settled⟩ := tidy.rendered drawn hushed done
  have closed := kempt.closed drawn settled spelled
  have parameters := run_collectParameters done
  rw [kempt.settings] at parameters
  refine ⟨_, _, run_collectBindings done, closed, parameters, Table.nodup_putAll .nil, ?_,
    fun j found types connective => ⟨_, run_compileDescription_of_tree tidy.kempt.made found done
      types connective, rfl, ?_⟩⟩
  · apply get?_namedValues
    · intro binding member
      obtain ⟨lower, -, entry, held, rfl⟩ := (Forest.mem_allBindings settled).mp member
      exact kempt.neat.isNamed held
    · intro binding member other member' same
      obtain ⟨lower, -, entry, held, rfl⟩ := (Forest.mem_allBindings settled).mp member
      obtain ⟨lower', -, entry', held', rfl⟩ := (Forest.mem_allBindings settled).mp member'
      rw [(kempt.neat.same_entry drawn held held' same).2]
  · rw [kempt.settings]

/-- A tree that is below another one in two ways, beside a comparison. -/
def sharingBeside : List Operation :=
  Workspace.sharing ++ [.newComparison (some (.text "b")) (some (.int 3)) none (some (.text ">")),
    .append ⟨1⟩ (.node ⟨3⟩)]

def sharedBeside : Workspace := Workspace.after { nextIdentifier := 1 } sharingBeside

theorem calm_sharingBeside : Workspace.Calm .naming { nextIdentifier := 1 } sharingBeside := by
  have untyped : Policy.tame.Types .null := nofun
  have filled : Workspace.Sows .naming { nextIdentifier := 1 }
      (.dict .passing [(.text "a IN", .list .passing [.int 1, .int 2])]) .null .null := by
    refine ⟨untyped, nofun, ?_⟩
    intro leaf member
    obtain rfl : leaf = .entry ⟨"a", "IN"⟩ (.list .passing [.int 1, .int 2]) :=
      List.mem_singleton.mp member
    exact ⟨⟨by decide, by decide⟩, ⟨by decide, by decide⟩, fun _ => by decide +kernel⟩
  have empty (w : Workspace) : w.Sows .naming .null .null .null := ⟨untyped, nofun, nofun⟩
  refine ⟨⟨rfl, filled⟩, ⟨rfl, empty _⟩, .inr ⟨_, rfl⟩, ?_, .inr ⟨_, rfl⟩, ⟨?_, ?_⟩, .inr ⟨_, rfl⟩,
    trivial⟩
  · rintro s ⟨⟩
    exact ⟨by decide, by decide⟩
  · rintro s ⟨⟩
    exact ⟨⟨by decide, by decide⟩, fun _ => by decide +kernel⟩
  · rintro s ⟨⟩
    exact ⟨by decide, by decide⟩

theorem hushed_sharedBeside : sharedBeside.Hushed Text.Bare :=
  Workspace.hushed_of_nested (by decide +kernel)

/-- The elements of the shared tree are collected twice and bound once. -/
theorem collectBindings_closed_shared :
    Workspace.Calm .naming { nextIdentifier := 1 } sharingBeside ∧
    sharedBeside.Hushed Text.Bare ∧ ∃ after bindings parameters,
      run (sql ⟨1⟩) sharedBeside =
        (.ok "(a IN (:c1_1, :c1_2) AND NOT (a IN (:c1_1, :c1_2)) AND b > :c3_0)", after) ∧
      run (collectBindings ⟨1⟩) sharedBeside = (.ok bindings, after) ∧
      after.Closed ⟨1⟩ "(a IN (:c1_1, :c1_2) AND NOT (a IN (:c1_1, :c1_2)) AND b > :c3_0)"
        bindings ∧
      run (collectParameters ⟨1⟩) sharedBeside = (.ok parameters, after) := by
  have text : (run (sql ⟨1⟩) sharedBeside).1.toOption =
      some "(a IN (:c1_1, :c1_2) AND NOT (a IN (:c1_1, :c1_2)) AND b > :c3_0)" := by
    decide +kernel
  have done := run_ok_of_toOption text
  obtain ⟨bindings, parameters, collected, closed, given, -⟩ :=
    collectBindings_closed 1 calm_sharingBeside rfl hushed_sharedBeside done
  exact ⟨calm_sharingBeside, hushed_sharedBeside, _, bindings, parameters, done, collected, closed,
    given⟩

/-- A tree whose connective looks like a placeholder. -/
def joinedByToken : Workspace :=
  Workspace.after {} [.newTree (.dict ⟨1⟩ [(.text "a", .int 1), (.text "b", .int 2)]) .null
    (.text ":x") none]

theorem connective_unaccounted : ∃ s after bindings,
    run (sql ⟨0⟩) joinedByToken = (.ok s, after) ∧
    run (collectBindings ⟨0⟩) joinedByToken = (.ok bindings, after) ∧
    ":X" ∈ Text.placeholders s.toList ∧ ∀ binding ∈ bindings, binding.placeholder {} ≠ ":X" := by
  have text : (run (sql ⟨0⟩) joinedByToken).1.toOption = some "(a = :c2_0 :X b = :c3_0)" := by
    decide +kernel
  have names : (run (collectBindings ⟨0⟩) joinedByToken).1.toOption.map
      (List.map (BindingOf.placeholder {})) = some [":c2_0", ":c3_0"] := by decide +kernel
  have done := run_ok_of_toOption text
  have collected := run_collectBindings done
  rw [collected] at names
  have named := Option.some.inj names
  refine ⟨_, _, _, done, collected, by decide +kernel, fun binding member same => ?_⟩
  have known := List.mem_map_of_mem (f := BindingOf.placeholder {}) member
  rw [named, same] at known
  exact absurd known (by decide)

end WorkspaceM

end WhereClause
