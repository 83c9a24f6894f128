import WhereClause.Proofs.Draft
import WhereClause.Proofs.Runs

/-!
# Building gives what is drafted

Building adds nodes and binders behind those there are, and changes no other than the tree at hand
and its binder. What it adds is the draft of the items.

* `extend_ok`: items without nodes can be added to a tree, and their drafts are what is added.
-/

namespace WhereClause

/-- The value is what is drafted, of nodes and binders with numbers from some on. -/
inductive Drafts (forest : Forest) (low lowBinder : Nat) : Value → Draft → Prop
  | raw (s : String) : Drafts forest low lowBinder (.text s) (.raw s)
  | member (key : Key) (placeholder : String) :
      Drafts forest low lowBinder (.text (key.membership placeholder)) (.member key placeholder)
  | leaf {id : NodeId} {c : Comparison} {value : Value} {placeholder : String}
      (new : low ≤ id.index) (found : forest.node id = .comparison c)
      (operator : Text.trim c.operator ≠ "") (operand : c.operand = .bound value placeholder)
      (plain : value.node? = none) (newBinder : lowBinder ≤ c.binder.index)
      (known : c.binder.index < forest.binders.size) :
      Drafts forest low lowBinder (.node id)
        (.leaf (c.field ++ " " ++ c.operator ++ " " ++ placeholder)
          (forest.binder c.binder).bindings)
  | negation {id inner : NodeId} {d : Draft} (new : low ≤ id.index)
      (found : forest.node id = .unary ⟨"NOT", .node inner, false⟩)
      (drafts : Drafts forest low lowBinder (.node inner) d) :
      Drafts forest low lowBinder (.node id) (.negation d)
  | tree {id : NodeId} {j : Junction} {connective : String} {parts : List Draft}
      (new : low ≤ id.index) (found : forest.junction? id = some j) (isOpen : j.compiled = none)
      (written : j.connective = .text connective) (newBinder : lowBinder ≤ j.binder.index)
      (known : j.binder.index < forest.binders.size) (lengths : j.conditions.length = parts.length)
      (each : ∀ v d, (v, d) ∈ j.conditions.zip parts → Drafts forest low lowBinder v d) :
      Drafts forest low lowBinder (.node id) (.tree connective (forest.binder j.binder) parts)

namespace Drafts

variable {forest other : Forest} {low lowBinder : Nat}

theorem of_tree {id : NodeId} {j : Junction} {connective : String} {parts : List Draft}
    (new : low ≤ id.index) (found : forest.junction? id = some j) (isOpen : j.compiled = none)
    (written : j.connective = .text connective) (newBinder : lowBinder ≤ j.binder.index)
    (known : j.binder.index < forest.binders.size)
    (each : List.Forall₂ (Drafts forest low lowBinder) j.conditions parts) :
    Drafts forest low lowBinder (.node id) (.tree connective (forest.binder j.binder) parts) := by
  obtain ⟨lengths, each⟩ := List.forall₂_iff_zip.mp each
  exact .tree new found isOpen written newBinder known lengths fun v d member => each member

/-- What is drafted stays if nothing from the numbers on changes, except that more is added. -/
theorem frame (node : ∀ id, low ≤ id.index → id.index < forest.nodes.size →
      other.node id = forest.node id)
    (binder : ∀ b, lowBinder ≤ b.index → b.index < forest.binders.size →
      other.binder b = forest.binder b)
    (binders : forest.binders.size ≤ other.binders.size) {v : Value} {d : Draft}
    (drafts : Drafts forest low lowBinder v d) : Drafts other low lowBinder v d := by
  induction drafts with
  | raw s => exact .raw s
  | member key placeholder => exact .member key placeholder
  | @leaf id c value placeholder new found operator operand plain newBinder known =>
      have bound : id.index < forest.nodes.size := Forest.index_lt_of_node (by simp [found])
      rw [← binder c.binder newBinder known]
      exact .leaf new ((node id new bound).trans found) operator operand plain newBinder
        (known.trans_le binders)
  | @negation id inner d new found _ ih =>
      have bound : id.index < forest.nodes.size := Forest.index_lt_of_node (by simp [found])
      exact .negation new ((node id new bound).trans found) ih
  | @tree id j connective parts new found isOpen written newBinder known lengths _ ih =>
      have bound := Forest.index_lt_of_tree found
      have same := node id new bound
      rw [← binder j.binder newBinder known]
      refine .tree new ?_ isOpen written newBinder (known.trans_le binders) lengths ih
      rw [Forest.junction?_eq_some, same, ← Forest.junction?_eq_some, found]

theorem lower {less lessBinder : Nat} (le : less ≤ low) (leBinder : lessBinder ≤ lowBinder)
    {v : Value} {d : Draft} (drafts : Drafts forest low lowBinder v d) :
    Drafts forest less lessBinder v d := by
  induction drafts with
  | raw s => exact .raw s
  | member key placeholder => exact .member key placeholder
  | leaf new found operator operand plain newBinder known =>
      exact .leaf (le.trans new) found operator operand plain (leBinder.trans newBinder) known
  | negation new found _ ih => exact .negation (le.trans new) found ih
  | tree new found isOpen written newBinder known lengths _ ih =>
      exact .tree (le.trans new) found isOpen written (leBinder.trans newBinder) known lengths ih

end Drafts

/-- Trees with numbers from some on are not compiled and have new binders of their own, which hold
lists of earlier trees only. -/
structure Forest.Fresh (n low lowBinder : Nat) (forest : Forest) : Prop where
  isOpen : ∀ id j, low ≤ id.index → forest.junction? id = some j → j.compiled = none
  binder : ∀ id j, low ≤ id.index → forest.junction? id = some j →
    lowBinder ≤ j.binder.index ∧ j.binder.index < forest.binders.size ∧
      (forest.binder j.binder).Holds n
  separate : ∀ id other j k, low ≤ id.index → low ≤ other.index →
    forest.junction? id = some j → forest.junction? other = some k → j.binder = k.binder →
    id = other

/-- What adding conditions to a tree on its binder changes at most. -/
structure Workspace.Grows (n : Nat) (tree : NodeId) (own : BinderId) (w after : Workspace) :
    Prop where
  settings : after.settings = w.settings
  additions : after.additions = w.additions
  nodes : w.nodes.size ≤ after.nodes.size
  binders : w.binders.size ≤ after.binders.size
  node : ∀ id, id.index < w.nodes.size → id ≠ tree → after.node id = w.node id
  binder : ∀ b, b.index < w.binders.size → b ≠ own → after.binder b = w.binder b
  fresh : after.Fresh n w.nodes.size w.binders.size

namespace Forest

theorem node_of_size_le {forest : Forest} {id : NodeId} (out : forest.nodes.size ≤ id.index) :
    forest.node id = .abstract := by
  simp [node, Array.getElem?_eq_none out]

theorem fresh_of_no_tree {n low lowBinder : Nat} {forest : Forest}
    (noTree : ∀ id, low ≤ id.index → forest.junction? id = none) :
    forest.Fresh n low lowBinder where
  isOpen id j new found := by simp [noTree id new] at found
  binder id j new found := by simp [noTree id new] at found
  separate id other j k new _ found := by simp [noTree id new] at found

theorem fresh_of_size_le {n low lowBinder : Nat} {forest : Forest}
    (out : forest.nodes.size ≤ low) : forest.Fresh n low lowBinder :=
  fresh_of_no_tree fun id new => by simp [junction?, node_of_size_le (out.trans new)]

end Forest

namespace Workspace

variable {n : Nat} {tree : NodeId} {own : BinderId} {w middle after : Workspace}

theorem Grows.refl (n : Nat) (tree : NodeId) (own : BinderId) (w : Workspace) :
    Grows n tree own w w :=
  ⟨rfl, rfl, le_rfl, le_rfl, fun _ _ _ => rfl, fun _ _ _ => rfl, Forest.fresh_of_size_le le_rfl⟩

theorem Grows.junction? (grows : Grows n tree own w after) {id : NodeId}
    (bound : id.index < w.nodes.size) (other : id ≠ tree) :
    after.junction? id = w.junction? id := by
  simp only [Forest.junction?, grows.node id bound other]

theorem Grows.of_forest (settings : after.settings = w.settings)
    (forest : after.toForest = w.toForest) : Grows n tree own w after := by
  have same : after.nodes.size = w.nodes.size := by rw [forest]
  have same_binders : after.binders.size = w.binders.size := by rw [forest]
  exact ⟨settings, by rw [forest], same.ge, same_binders.ge, fun _ _ _ => by rw [forest],
    fun _ _ _ => by rw [forest], Forest.fresh_of_size_le same.le⟩

theorem Grows.found_middle (known : tree.index < w.nodes.size)
    (second : Grows n tree own middle after) {id : NodeId} {j : Junction}
    (new : w.nodes.size ≤ id.index) (bound : id.index < middle.nodes.size)
    (found : after.junction? id = some j) : middle.junction? id = some j := by
  rw [← second.junction? bound, found]
  rintro rfl
  omega

/-- The new trees of two growths do not share binders. -/
theorem Grows.apart (known : tree.index < w.nodes.size) (first : Grows n tree own w middle)
    (second : Grows n tree own middle after) {id other : NodeId} {j k : Junction}
    (new : w.nodes.size ≤ id.index) (bound : id.index < middle.nodes.size)
    (later : middle.nodes.size ≤ other.index) (found : after.junction? id = some j)
    (foundOther : after.junction? other = some k) : j.binder ≠ k.binder := by
  intro shared
  obtain ⟨-, less, -⟩ := first.fresh.binder id j new (second.found_middle known new bound found)
  obtain ⟨more, -, -⟩ := second.fresh.binder other k later foundOther
  rw [shared] at less
  omega

theorem Grows.fresh_trans (known : tree.index < w.nodes.size)
    (knownOwn : own.index < w.binders.size) (first : Grows n tree own w middle)
    (second : Grows n tree own middle after) :
    after.Fresh n w.nodes.size w.binders.size where
  isOpen id j new found := by
    by_cases bound : id.index < middle.nodes.size
    · exact first.fresh.isOpen id j new (second.found_middle known new bound found)
    · exact second.fresh.isOpen id j (Nat.le_of_not_lt bound) found
  binder id j new found := by
    by_cases bound : id.index < middle.nodes.size
    · obtain ⟨newBinder, less, holds⟩ :=
        first.fresh.binder id j new (second.found_middle known new bound found)
      refine ⟨newBinder, less.trans_le second.binders, ?_⟩
      rw [second.binder j.binder less]
      · exact holds
      · intro same
        rw [same] at newBinder
        omega
    · obtain ⟨newBinder, less, holds⟩ :=
        second.fresh.binder id j (Nat.le_of_not_lt bound) found
      exact ⟨first.binders.trans newBinder, less, holds⟩
  separate id other j k new newOther found foundOther shared := by
    by_cases bound : id.index < middle.nodes.size <;>
      by_cases boundOther : other.index < middle.nodes.size
    · exact first.fresh.separate id other j k new newOther
        (second.found_middle known new bound found)
        (second.found_middle known newOther boundOther foundOther) shared
    · exact absurd shared
        (first.apart known second new bound (Nat.le_of_not_lt boundOther) found foundOther)
    · exact absurd shared.symm
        (first.apart known second newOther boundOther (Nat.le_of_not_lt bound) foundOther found)
    · exact second.fresh.separate id other j k (Nat.le_of_not_lt bound)
        (Nat.le_of_not_lt boundOther) found foundOther shared

theorem Grows.trans (known : tree.index < w.nodes.size) (knownOwn : own.index < w.binders.size)
    (first : Grows n tree own w middle) (second : Grows n tree own middle after) :
    Grows n tree own w after where
  settings := second.settings.trans first.settings
  additions := second.additions.trans first.additions
  nodes := first.nodes.trans second.nodes
  binders := first.binders.trans second.binders
  node id bound other := by
    rw [second.node id (bound.trans_le first.nodes) other, first.node id bound other]
  binder b bound other := by
    rw [second.binder b (bound.trans_le first.binders) other, first.binder b bound other]
  fresh := first.fresh_trans known knownOwn second

end Workspace

namespace Forest

variable {forest other : Forest}

theorem node_of_push {added : Node} (nodes : other.nodes = forest.nodes.push added) (id : NodeId) :
    other.node id = if id.index = forest.nodes.size then added else forest.node id := by
  simp only [node, nodes, Array.getElem?_push]
  split <;> rfl

theorem junction?_of_push {added : Node} (nodes : other.nodes = forest.nodes.push added)
    {id : NodeId} (bound : id.index < forest.nodes.size) :
    other.junction? id = forest.junction? id := by
  simp only [junction?, node_of_push nodes, if_neg bound.ne]

theorem binder_of_push {added : Binder} (binders : other.binders = forest.binders.push added)
    (b : BinderId) :
    other.binder b = if b.index = forest.binders.size then added else forest.binder b := by
  simp only [binder, binders, Array.getElem?_push]
  split <;> rfl

end Forest

namespace Workspace

variable {n : Nat} {tree : NodeId} {own : BinderId} {w middle after : Workspace}

theorem Grows.of_push {node : Node} (settings : after.settings = w.settings)
    (additions : after.additions = w.additions) (nodes : after.nodes = w.nodes.push node)
    (other : ∀ j, node ≠ .junction j) (binders : w.binders.size ≤ after.binders.size)
    (binder : ∀ b, b.index < w.binders.size → after.binder b = w.binder b) :
    Grows n tree own w after where
  settings := settings
  additions := additions
  nodes := by simp [nodes]
  binders := binders
  node id bound _ := by rw [Forest.node_of_push nodes, if_neg bound.ne]
  binder b bound _ := binder b bound
  fresh := by
    apply Forest.fresh_of_no_tree
    intro id new
    apply Forest.junction?_eq_none (Forest.node_of_push nodes id)
    intro j
    split
    · exact other j
    · rw [Forest.node_of_size_le new]
      exact nofun

structure Builds (n : Nat) (tree : NodeId) (own : BinderId) (conditions : List Value)
    (made : Drafted (List Draft)) (w after : Workspace) : Prop where
  grows : Grows n tree own w after
  nextIdentifier : after.nextIdentifier = made.next
  binder : after.binder own = made.binder
  drafts : List.Forall₂ (Drafts after.toForest w.nodes.size w.binders.size) conditions made.made

theorem Builds.trans {conditions more : List Value} {made later : Drafted (List Draft)}
    (known : tree.index < w.nodes.size) (knownOwn : own.index < w.binders.size)
    (first : Builds n tree own conditions made w middle)
    (second : Builds n tree own more later middle after) :
    Builds n tree own (conditions ++ more) ⟨made.made ++ later.made, later.next, later.binder⟩ w
      after where
  grows := first.grows.trans known knownOwn second.grows
  nextIdentifier := second.nextIdentifier
  binder := second.binder
  drafts := by
    refine List.rel_append (first.drafts.imp fun v d drafts => ?_)
      (second.drafts.imp fun v d drafts => drafts.lower first.grows.nodes first.grows.binders)
    refine drafts.frame ?_ ?_ second.grows.binders
    · intro id new bound
      apply second.grows.node id bound
      rintro rfl
      omega
    · intro b new bound
      apply second.grows.binder b bound
      rintro rfl
      omega

theorem Builds.of_attach {conditions : List Value} {made : Drafted (List Draft)} {j k : Junction}
    (known : tree.index < w.nodes.size) (knownOwn : own.index < w.binders.size)
    (builds : Builds n tree own conditions made w middle) (found : middle.junction? tree = some j) :
    Builds n tree own conditions made w
      { middle with toForest := middle.toForest.setNode tree (.junction k) } := by
  have attaches : Builds n tree own [] ⟨[], middle.nextIdentifier, middle.binder own⟩ middle
      { middle with toForest := middle.toForest.setNode tree (.junction k) } := by
    refine ⟨⟨rfl, rfl, ?_, le_rfl, ?_, fun _ _ _ => rfl, ?_⟩, rfl, rfl, .nil⟩
    · simp [Forest.setNode]
    · intro id _ other
      rw [Forest.node_setNode_of_tree found, if_neg (Ne.symm other)]
    · apply Forest.fresh_of_size_le
      simp [Forest.setNode]
  have both := builds.trans known knownOwn attaches
  rw [List.append_nil, List.append_nil] at both
  exact ⟨both.grows, builds.nextIdentifier, builds.binder, both.drafts⟩

theorem Builds.of_records (records : List Record) :
    Builds n tree own [] ⟨[], w.nextIdentifier, w.binder own⟩ w { w with records := records } :=
  ⟨.of_forest rfl rfl, rfl, rfl, .nil⟩

theorem Builds.of_negation {inner : NodeId} {d : Draft} {next : Nat} {b : Binder}
    (known : tree.index < w.nodes.size) (knownOwn : own.index < w.binders.size)
    (builds : Builds n tree own [.node inner] ⟨[d], next, b⟩ w after) :
    Builds n tree own [.node ⟨after.nodes.size⟩] ⟨[.negation d], next, b⟩ w
      { after with nodes := after.nodes.push (.unary ⟨"NOT", .node inner, false⟩) } where
  grows := by
    refine builds.grows.trans known knownOwn (.of_push rfl rfl rfl nofun le_rfl ?_)
    intro b _
    rfl
  nextIdentifier := builds.nextIdentifier
  binder := builds.binder
  drafts := by
    obtain ⟨first, -⟩ := List.forall₂_cons.mp builds.drafts
    generalize last_eq : ({ after with
      nodes := after.nodes.push (.unary ⟨"NOT", .node inner, false⟩) } : Workspace) = last
    have nodes : last.nodes = after.nodes.push (.unary ⟨"NOT", .node inner, false⟩) := by
      rw [← last_eq]
    have binders : last.binders = after.binders := by rw [← last_eq]
    have same (b : BinderId) : last.binder b = after.binder b := by
      simp only [Forest.binder, binders]
    have found : last.node ⟨after.nodes.size⟩ = .unary ⟨"NOT", .node inner, false⟩ := by
      rw [Forest.node_of_push nodes, if_pos rfl]
    refine .cons (.negation builds.grows.nodes found (first.frame ?_ (fun b _ _ => same b) ?_)) .nil
    · intro id _ bound
      rw [Forest.node_of_push nodes, if_neg bound.ne]
    · rw [binders]

theorem Builds.of_member (key : Key) (placeholder : String) (b : Binder)
    (knownOwn : own.index < w.binders.size) :
    Builds n tree own [.text (key.membership placeholder)]
      ⟨[.member key placeholder], w.nextIdentifier, b⟩ w
      { w with toForest := w.toForest.setBinder own b } where
  grows := by
    refine ⟨rfl, rfl, le_rfl, ?_, fun _ _ _ => rfl, ?_, Forest.fresh_of_size_le le_rfl⟩
    · simp [Forest.setBinder]
    · intro other _ different
      rw [Forest.binder_setBinder, if_neg]
      rintro ⟨rfl, -⟩
      exact different rfl
  nextIdentifier := rfl
  binder := by simp [Forest.binder_setBinder, knownOwn]
  drafts := .cons (.member key placeholder) .nil

theorem Builds.of_comparison {c : Comparison} {b : Binder} {value : Value} {placeholder : String}
    (settings : after.settings = w.settings) (additions : after.additions = w.additions)
    (nodes : after.nodes = w.nodes.push (.comparison c))
    (binders : after.binders = w.binders.push b)
    (mine : c.binder = ⟨w.binders.size⟩) (operand : c.operand = .bound value placeholder)
    (plain : value.node? = none) (operator : Text.trim c.operator ≠ "") {sql : String}
    (written : sql = c.field ++ " " ++ c.operator ++ " " ++ placeholder)
    (knownOwn : own.index < w.binders.size) :
    Builds n tree own [.node ⟨w.nodes.size⟩]
      ⟨[.leaf sql b.bindings], after.nextIdentifier, w.binder own⟩ w after := by
  have binders_size : after.binders.size = w.binders.size + 1 := by simp [binders]
  have old (other : BinderId) (bound : other.index < w.binders.size) :
      after.binder other = w.binder other := by
    rw [Forest.binder_of_push binders, if_neg bound.ne]
  have mine_eq : after.binder c.binder = b := by
    rw [Forest.binder_of_push binders, mine, if_pos rfl]
  constructor
  · exact .of_push settings additions nodes nofun (by omega) old
  · rfl
  · exact old own knownOwn
  · refine .cons ?_ .nil
    rw [← mine_eq, written]
    have found : after.node ⟨w.nodes.size⟩ = .comparison c := by
      rw [Forest.node_of_push nodes, if_pos rfl]
    have newBinder : w.binders.size ≤ c.binder.index := by rw [mine]
    have known : c.binder.index < after.binders.size := by
      rw [mine, binders_size]
      exact Nat.lt_succ_self _
    exact .leaf le_rfl found operator operand plain newBinder known

structure Seeds (connective : String) (w start : Workspace) : Prop where
  settings : start.settings = w.settings
  additions : start.additions = w.additions
  nextIdentifier : start.nextIdentifier = w.nextIdentifier + 1
  nodes : start.nodes = w.nodes.push
    (.junction { connective := .text connective, binder := ⟨w.binders.size⟩ })
  binders : start.binders = w.binders.push (.fresh w.nextIdentifier)

namespace Seeds

variable {connective : String} {start : Workspace}

theorem found (seeds : Seeds connective w start) : start.junction? ⟨w.nodes.size⟩ =
    some { connective := .text connective, binder := ⟨w.binders.size⟩ } := by
  rw [Forest.junction?_eq_some, Forest.node_of_push seeds.nodes, if_pos rfl]

theorem fresh (seeds : Seeds connective w start) :
    start.binder ⟨w.binders.size⟩ = .fresh w.nextIdentifier := by
  rw [Forest.binder_of_push seeds.binders, if_pos rfl]

theorem known (seeds : Seeds connective w start) : w.binders.size < start.binders.size := by
  simp [seeds.binders]

end Seeds

structure Plants (n : Nat) (root : NodeId) (d : Draft) (next : Nat) (w after : Workspace) :
    Prop where
  settings : after.settings = w.settings
  additions : after.additions = w.additions
  nextIdentifier : after.nextIdentifier = next
  nodes : w.nodes.size ≤ after.nodes.size
  binders : w.binders.size ≤ after.binders.size
  node : ∀ id, id.index < w.nodes.size → after.node id = w.node id
  binder : ∀ b, b.index < w.binders.size → after.binder b = w.binder b
  fresh : after.Fresh n w.nodes.size w.binders.size
  drafts : Drafts after.toForest w.nodes.size w.binders.size (.node root) d

theorem Plants.builds {root : NodeId} {d : Draft} {next : Nat}
    (plants : Plants n root d next w after) (knownOwn : own.index < w.binders.size) :
    Builds n tree own [.node root] ⟨[d], next, w.binder own⟩ w after where
  grows := ⟨plants.settings, plants.additions, plants.nodes, plants.binders,
    fun id bound _ => plants.node id bound, fun b bound _ => plants.binder b bound, plants.fresh⟩
  nextIdentifier := plants.nextIdentifier
  binder := plants.binder own knownOwn
  drafts := .cons plants.drafts .nil

/-- The new trees are those that were made last and the one before them, on a binder of its own. -/
theorem Seeds.fresh_after {start : Workspace} {connective : String} {more : List Value}
    (seeds : Seeds connective w start)
    (grows : Grows n ⟨w.nodes.size⟩ ⟨w.binders.size⟩ start after)
    (inner : after.junction? ⟨w.nodes.size⟩ = some
      { connective := .text connective, binder := ⟨w.binders.size⟩, conditions := more })
    (holds : (after.binder ⟨w.binders.size⟩).Holds n) :
    after.Fresh n w.nodes.size w.binders.size := by
  have nodes_size : start.nodes.size = w.nodes.size + 1 := by simp [seeds.nodes]
  have binders_size : start.binders.size = w.binders.size + 1 := by simp [seeds.binders]
  have known : w.binders.size < after.binders.size := by
    have more := grows.binders
    omega
  have above {id : NodeId} (new : w.nodes.size ≤ id.index) (other : id ≠ ⟨w.nodes.size⟩) :
      start.nodes.size ≤ id.index := by
    have : id.index ≠ w.nodes.size := fun same => other (congrArg NodeId.mk same)
    omega
  have mine {j : Junction} (found : after.junction? ⟨w.nodes.size⟩ = some j) :
      j.compiled = none ∧ j.binder = ⟨w.binders.size⟩ := by
    rw [inner, Option.some.injEq] at found
    rw [← found]
    exact ⟨rfl, rfl⟩
  have apart {id : NodeId} {j : Junction} (new : w.nodes.size ≤ id.index)
      (other : id ≠ ⟨w.nodes.size⟩) (found : after.junction? id = some j) :
      j.binder ≠ ⟨w.binders.size⟩ := by
    intro shared
    obtain ⟨newBinder, -⟩ := grows.fresh.binder id j (above new other) found
    rw [shared, binders_size] at newBinder
    exact Nat.not_succ_le_self _ newBinder
  constructor
  · intro id j new found
    by_cases same : id = ⟨w.nodes.size⟩
    · exact (mine (same ▸ found)).1
    · exact grows.fresh.isOpen id j (above new same) found
  · intro id j new found
    by_cases same : id = ⟨w.nodes.size⟩
    · rw [(mine (same ▸ found)).2]
      exact ⟨le_rfl, known, holds⟩
    · obtain ⟨newBinder, rest⟩ := grows.fresh.binder id j (above new same) found
      exact ⟨by omega, rest⟩
  · intro id other j k new newOther found foundOther shared
    by_cases same : id = ⟨w.nodes.size⟩ <;> by_cases sameOther : other = ⟨w.nodes.size⟩
    · rw [same, sameOther]
    · exact absurd (shared.symm.trans (mine (same ▸ found)).2)
        (apart newOther sameOther foundOther)
    · exact absurd (shared.trans (mine (sameOther ▸ foundOther)).2) (apart new same found)
    · exact grows.fresh.separate id other j k (above new same) (above newOther sameOther)
        found foundOther shared

theorem Seeds.plants {start : Workspace} {connective : String} {more : List Value}
    {made : Drafted (List Draft)} (seeds : Seeds connective w start)
    (builds : Builds n ⟨w.nodes.size⟩ ⟨w.binders.size⟩ more made start after)
    (inner : after.junction? ⟨w.nodes.size⟩ = some
      { connective := .text connective, binder := ⟨w.binders.size⟩, conditions := more })
    (holds : made.binder.Holds n) :
    Plants n ⟨w.nodes.size⟩ (.tree connective made.binder made.made) made.next w after := by
  have nodes_size : start.nodes.size = w.nodes.size + 1 := by simp [seeds.nodes]
  have binders_size : start.binders.size = w.binders.size + 1 := by simp [seeds.binders]
  have more_nodes := builds.grows.nodes
  have more_binders := builds.grows.binders
  refine ⟨builds.grows.settings.trans seeds.settings,
    builds.grows.additions.trans seeds.additions, builds.nextIdentifier, by omega, by omega,
    fun id bound => ?_, fun b bound => ?_, ?_, ?_⟩
  · rw [builds.grows.node id (by omega), Forest.node_of_push seeds.nodes, if_neg bound.ne]
    rintro rfl
    exact Nat.lt_irrefl _ bound
  · rw [builds.grows.binder b (by omega), Forest.binder_of_push seeds.binders, if_neg bound.ne]
    rintro rfl
    exact Nat.lt_irrefl _ bound
  · exact seeds.fresh_after builds.grows inner (builds.binder ▸ holds)
  · have nodes_le : w.nodes.size ≤ start.nodes.size := by omega
    have binders_le : w.binders.size ≤ start.binders.size := by omega
    have known : w.binders.size < after.binders.size := by omega
    rw [← builds.binder]
    exact .of_tree le_rfl inner rfl rfl le_rfl known
      (builds.drafts.imp fun v d drafts => drafts.lower nodes_le binders_le)

end Workspace

namespace WorkspaceM

variable {n : Nat} {w : Workspace}

theorem newJunction_ok (connective : String) (w : Workspace) :
    ∃ start, run (newJunction connective) w = (.ok ⟨w.nodes.size⟩, start) ∧
      w.Seeds connective start :=
  ⟨_, rfl, rfl, rfl, rfl, rfl, rfl⟩

theorem run_membershipType (declared : Option String) (w : Workspace) :
    run (membershipType (.ofText? declared)) w =
      (.ok (.text (w.settings.memberType declared)), w) := by
  cases declared with
  | none => rfl
  | some type =>
      by_cases empty : type.isEmpty = true
      · simp [membershipType, Value.ofText?, Forest.isTruthy, Settings.memberType, empty]
        rfl
      · simp [membershipType, Value.ofText?, Forest.isTruthy, Settings.memberType, empty]
        rfl

theorem run_register (binder : BinderId) (field : String) (value : Value) (type : Option String)
    (w : Workspace) :
    run (onBinder binder fun b => b.register w.settings (.text field) value (.ofText? type)) w =
      (.ok ((w.binder binder).nextName w.settings field), { w with
        toForest := w.setBinder binder
          ((w.binder binder).registered w.settings field value (.ofText? type)) }) :=
  run_onBinder_ok (Binder.register_ofText? ..)

theorem run_buildMembership (key : Key) (value : Value) (type : String) {tree : NodeId}
    {j : Junction} (found : w.junction? tree = some j) :
    run (buildMembership tree key value (.text type)) w =
      (.ok (.text (key.membership ((w.binder j.binder).nextName w.settings key.field))), { w with
        toForest := w.setBinder j.binder
          ((w.binder j.binder).registered w.settings key.field value (.text type)) }) := by
  have registers := run_register j.binder key.field value (some type) w
  simp only [Value.ofText?] at registers
  simp only [buildMembership, run_bind, run_junction found, run_get, registers, run_pure,
    Key.membership]

theorem run_newOperand (binder : BinderId) (field : String) {value : Value}
    (plain : value.node? = none) (type : Option String) (w : Workspace) :
    run (newOperand binder field value type) w =
      (.ok (.bound value ((w.binder binder).nextName w.settings field)), { w with
        toForest := w.setBinder binder
          ((w.binder binder).registered w.settings field value (.ofText? type)) }) := by
  have registers := run_register binder field value type w
  unfold newOperand
  split
  · cases plain
  · simp only [run_bind, run_get, registers, run_pure]

theorem run_buildComparison (key : Key) {value : Value} (plain : value.node? = none)
    (type : Option String) (w : Workspace) :
    let own := Binder.fresh w.nextIdentifier
    ∃ after, run (buildComparison key value (.ofText? type)) w =
        (.ok (.node ⟨w.nodes.size⟩), after) ∧
      after.settings = w.settings ∧ after.additions = w.additions ∧
      after.nextIdentifier = w.nextIdentifier + 1 ∧
      after.binders = w.binders.push
        (own.registered w.settings key.field value (.ofText? type)) ∧
      after.nodes = w.nodes.push (.comparison {
        field := key.field
        operand := .bound value (own.nextName w.settings key.field)
        type := type
        operator := key.operator
        binder := ⟨w.binders.size⟩ }) := by
  have typed : (Value.ofText? type).toType = .ok type := by
    cases type <;> rfl
  let start : Workspace := { w with
    nextIdentifier := w.nextIdentifier + 1
    binders := w.binders.push (.fresh w.nextIdentifier) }
  have own : start.binder ⟨w.binders.size⟩ = .fresh w.nextIdentifier := by
    simp [start, Forest.binder]
  have set (b : Binder) : start.binders.setIfInBounds w.binders.size b = w.binders.push b := by
    simp [start, Array.setIfInBounds, Array.set_push]
  have operand := run_newOperand ⟨w.binders.size⟩ key.field plain type start
  rw [own, Forest.setBinder, set] at operand
  simp only [buildComparison, newComparison, run_bind, run_takeIdentifier, Value.givenText,
    Value.toText, Option.getD_some, typed, run_addBinder]
  simp only [start, Binder.fresh] at operand
  simp only [operand, run_addNode, run_pure]
  exact ⟨_, rfl, rfl, rfl, rfl, rfl, rfl⟩

def Declares (types : Value) (table : Table String String) : Prop :=
  ∀ field, declaredType types field = .ok (.ofText? (Table.get? field table))

theorem buildField_ok {types : Value} {table : Table String String}
    (declares : Declares types table) {key : Key} {value : Value}
    (plain : (Leaf.entry key value).Plain n) {tree : NodeId} {j : Junction}
    (found : w.junction? tree = some j) (known : j.binder.index < w.binders.size) :
    ∃ condition after, run (buildField tree types key value) w = (.ok condition, after) ∧
      after.junction? tree = some j ∧
      let made := Item.draftField w.settings table w.nextIdentifier (w.binder j.binder) key value
      Workspace.Builds n tree j.binder [condition] ⟨[made.made], made.next, made.binder⟩ w
        after := by
  obtain ⟨notNode, operator, below⟩ := plain
  have bound := Forest.index_lt_of_tree found
  simp only [buildField, declares key.field, run_bind, run_ofExcept_ok, Item.draftField]
  by_cases isMember : key.isMembership = true
  · simp only [isMember, if_true, run_bind, run_membershipType]
    let type := w.settings.memberType (Table.get? key.field table)
    have build := run_buildMembership key value type found
    refine ⟨_, _, ?_, ?_, .of_member key _ _ known⟩
    · split
      · cases notNode
      · exact build
    · exact found
  · simp only [isMember]
    obtain ⟨after, build, settings, additions, next, binders, nodes⟩ :=
      run_buildComparison key notNode (Table.get? key.field table) w
    refine ⟨_, after, build, ?_, ?_⟩
    · rw [Forest.junction?_of_push nodes bound, found]
    · rw [← next]
      exact .of_comparison settings additions nodes binders rfl rfl notNode operator rfl known

theorem buildInner_ok {types : Value} {table : Table String String} {items : List Item}
    (plain : ∀ leaf ∈ Item.allLeaves items, leaf.Plain n)
    (extends' : ∀ (start : Workspace) (inner : NodeId) (k : Junction),
      start.junction? inner = some k → k.binder.index < start.binders.size →
      ∃ more after, run (extend inner types items) start = (.ok (), after) ∧
        after.junction? inner = some { k with conditions := k.conditions ++ more } ∧
        Workspace.Builds n inner k.binder more
          (Item.draftAll start.settings table start.nextIdentifier (start.binder k.binder) items)
          start after)
    (connective : String) {tree : NodeId} {j : Junction} (found : w.junction? tree = some j)
    (known : j.binder.index < w.binders.size) :
    ∃ inner start after, run (newJunction connective) w = (.ok inner, start) ∧
      run (extend inner types items) start = (.ok (), after) ∧
      after.junction? tree = some j ∧
      let made := Item.draftAll w.settings table (w.nextIdentifier + 1) (.fresh w.nextIdentifier)
        items
      Workspace.Builds n tree j.binder [.node inner]
        ⟨[.tree connective made.binder made.made], made.next, w.binder j.binder⟩ w after := by
  have bound := Forest.index_lt_of_tree found
  obtain ⟨start, created, seeds⟩ := newJunction_ok connective w
  obtain ⟨more, after, done, inner, builds⟩ := extends' start _ _ seeds.found seeds.known
  rw [seeds.settings, seeds.nextIdentifier, seeds.fresh] at builds
  have holds := Item.holds_draftAll w.settings table plain
    (w.nextIdentifier + 1) (Binder.holds_fresh n w.nextIdentifier)
  refine ⟨⟨w.nodes.size⟩, start, after, created, done, ?_, ?_⟩
  · have bound' : tree.index < start.nodes.size := by
      rw [seeds.nodes, Array.size_push]
      omega
    rw [builds.grows.junction? bound']
    · rw [Forest.junction?_of_push seeds.nodes bound, found]
    · rintro rfl
      exact Nat.lt_irrefl _ bound
  · exact (seeds.plants builds inner holds).builds known

mutual
theorem build_ok {types : Value} {table : Table String String} (declares : Declares types table)
    (item : Item) (plain : ∀ leaf ∈ item.leaves, leaf.Plain n) (w : Workspace) (tree : NodeId)
    (j : Junction) (found : w.junction? tree = some j) (known : j.binder.index < w.binders.size) :
    ∃ condition after, run (build tree types item) w = (.ok condition, after) ∧
      after.junction? tree = some j ∧
      let made := item.draft w.settings table w.nextIdentifier (w.binder j.binder)
      Workspace.Builds n tree j.binder condition.toList
        ⟨made.made.toList, made.next, made.binder⟩ w after := by
  match item with
  | .raw text =>
      exact ⟨some (.text text), w, rfl, found,
        .refl n tree j.binder w, rfl, rfl, .cons (.raw text) .nil⟩
  | .nested id => exact (plain (.node id) (by simp [Item.leaves])).elim
  | .field key value =>
      have leaf : (Leaf.entry key value).Plain n := plain _ (by simp [Item.leaves])
      obtain ⟨condition, after, done, same, builds⟩ := buildField_ok declares leaf found known
      simp only [build, Item.draft]
      exact ⟨some condition, after, run_map_ok done _, same, builds⟩
  | .group connective items =>
      simp only [build, Item.draft]
      by_cases empty : items.isEmpty = true
      · simp only [empty, if_true, run_bind, run_log, run_pure]
        exact ⟨none, _, rfl, found, .of_records _⟩
      · simp only [empty, Bool.false_eq_true, if_false]
        obtain ⟨inner, start, after, created, done, same, builds⟩ :=
          buildInner_ok plain (extend_ok declares items plain) (Text.upper connective) found known
        refine ⟨some (.node inner), after, ?_, same, builds⟩
        rw [run_bind_ok created, run_bind_ok done, run_pure]
  | .negation items =>
      simp only [build, Item.draft]
      by_cases empty : items.isEmpty = true
      · simp only [empty, if_true, run_bind, run_log, run_pure]
        exact ⟨none, _, rfl, found, .of_records _⟩
      · simp only [empty, Bool.false_eq_true, if_false]
        have bound := Forest.index_lt_of_tree found
        obtain ⟨inner, start, after, created, done, same, builds⟩ :=
          buildInner_ok plain (extend_ok declares items plain)
            (Text.upper w.settings.defaultConnective) found known
        have negated := builds.of_negation bound known
        refine ⟨some (.node ⟨after.nodes.size⟩), _, ?_, ?_, negated⟩
        · rw [run_bind_ok (run_get w), run_bind_ok created, run_bind_ok done,
            run_bind_ok (run_addNode _ after), run_pure]
        · rw [← same]
          exact Forest.junction?_of_push rfl (bound.trans_le builds.grows.nodes)

theorem extend_ok {types : Value} {table : Table String String} (declares : Declares types table)
    (items : List Item) (plain : ∀ leaf ∈ Item.allLeaves items, leaf.Plain n) (w : Workspace)
    (tree : NodeId) (j : Junction) (found : w.junction? tree = some j)
    (known : j.binder.index < w.binders.size) :
    ∃ more after, run (extend tree types items) w = (.ok (), after) ∧
      after.junction? tree = some { j with conditions := j.conditions ++ more } ∧
      Workspace.Builds n tree j.binder more
        (Item.draftAll w.settings table w.nextIdentifier (w.binder j.binder) items) w after := by
  match items with
  | [] =>
      refine ⟨[], w, rfl, ?_, .refl n tree j.binder w, rfl, rfl, .nil⟩
      rw [found, List.append_nil]
  | item :: rest =>
      obtain ⟨here, later⟩ := List.forall_mem_append.mp plain
      have bound := Forest.index_lt_of_tree found
      obtain ⟨condition, middle, done, same, builds⟩ :=
        build_ok declares item here w tree j found known
      simp only [extend, Item.draftAll]
      cases condition with
      | none =>
          have knownMiddle : j.binder.index < middle.binders.size :=
            known.trans_le builds.grows.binders
          obtain ⟨more, after, done', tree', builds'⟩ :=
            extend_ok declares rest later middle tree j same knownMiddle
          rw [builds.grows.settings, builds.nextIdentifier, builds.binder] at builds'
          refine ⟨more, after, ?_, tree', builds.trans bound known builds'⟩
          rw [run_bind_ok done]
          exact done'
      | some condition =>
          let k : Junction := { j with conditions := j.conditions ++ [condition] }
          let attached : Workspace :=
            { middle with toForest := middle.setNode tree (.junction k) }
          -- The condition is attached before the rest is built, on the tree as it is then.
          have attaches : Workspace.Builds n tree j.binder [condition] _ w attached :=
            builds.of_attach bound known same
          have found' : attached.junction? tree = some k := by
            rw [Forest.junction?_eq_some, Forest.node_setNode_of_tree same, if_pos rfl]
          have knownMiddle : k.binder.index < attached.binders.size :=
            known.trans_le attaches.grows.binders
          obtain ⟨more, after, done', tree', builds'⟩ :=
            extend_ok declares rest later attached tree k found' knownMiddle
          have binder' : attached.binder k.binder = _ := attaches.binder
          rw [attaches.grows.settings, attaches.nextIdentifier, binder'] at builds'
          refine ⟨[condition] ++ more, after, ?_, ?_, attaches.trans bound known builds'⟩
          · rw [run_bind_ok done]
            exact (run_bind_ok (run_attach same condition) _).trans done'
          · rw [tree', List.append_assoc]
end

end WorkspaceM

end WhereClause
