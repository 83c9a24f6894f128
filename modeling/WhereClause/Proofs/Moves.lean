import WhereClause.Proofs.Building
import WhereClause.Proofs.Reading
import WhereClause.Proofs.Rendering
import WhereClause.Proofs.Settling

/-!
# Moves

Whatever is done in a workspace is done in moves: one for each way in which a workspace changes.
What holds of every move holds of every operation, also of one that fails on the way. A move that
hands out a placeholder says so, and nothing else does.

* `WellMade.moves`: trees have binders, and compiled trees are settled, whatever is done.
-/

namespace WhereClause

/-! ## Steady values -/

mutual
/-- Whatever is written into the value and holds no other values is as required. -/
def Value.Throughout (p : Value → Prop) : Value → Prop
  | .list _ vs | .tuple _ vs | .set _ vs | .frozenSet _ vs => AllThroughout p vs
  | .dict _ entries => EntriesThroughout p entries
  | .binding _ b => b.value.Throughout p
  | v => p v

def AllThroughout (p : Value → Prop) : List Value → Prop
  | [] => True
  | v :: rest => v.Throughout p ∧ AllThroughout p rest

def EntriesThroughout (p : Value → Prop) : List (Value × Value) → Prop
  | [] => True
  | (k, v) :: rest => k.Throughout p ∧ v.Throughout p ∧ EntriesThroughout p rest
end

/-- The value stands for no object that can change. -/
def Value.Plain : Value → Prop
  | .node _ | .binder _ | .conditions .. | .compiled _ | .outcome .. | .callable .. | .method .. =>
    False
  | _ => True

/-- The value is plain data: nothing in it changes when trees are built, bound or compiled. -/
def Value.Steady (v : Value) : Prop := v.Throughout Value.Plain

namespace View

/-- The same is kept for every list, or for one that a tree has if the requirement allows it. -/
def KeepsLists (p : Value → Prop) (later other : Value → List View) : Prop :=
  ∀ v, v.isList = true → (∀ tree stage, v = .conditions tree stage → p v) → other v = later v

variable {p : Value → Prop} {later other : Value → List View}

mutual
theorem ofValue_congr (same : KeepsLists p later other) :
    (v : Value) → v.Throughout p → ofValue other v = ofValue later v
  | .list mark vs, all => by
      simp only [ofValue, same (.list mark vs) rfl nofun, ofElements_congr same vs all]
  | .tuple _ vs, all | .set _ vs, all | .frozenSet _ vs, all => by
      simp only [ofValue, ofElements_congr same vs all]
  | .dict _ entries, all => by simp only [ofValue, ofEntries_congr same entries all]
  | .binding _ b, all => by simp only [ofValue, ofValue_congr same b.value all]
  | .conditions tree stage, here => by
      simp only [ofValue, same (.conditions tree stage) rfl fun _ _ _ => here]
  | .null, _ | .bool _, _ | .int _, _ | .float _, _ | .text _, _ | .bytes _, _ | .node _, _
  | .binder _, _ | .compiled _, _ | .outcome .., _ | .callable .., _ | .method .., _ => by
      simp only [ofValue]

theorem ofElements_congr (same : KeepsLists p later other) :
    (vs : List Value) → AllThroughout p vs → ofElements other vs = ofElements later vs
  | [], _ => by simp only [ofElements]
  | v :: rest, ⟨first, others⟩ => by
      simp only [ofElements, ofValue_congr same v first, ofElements_congr same rest others]

theorem ofEntries_congr (same : KeepsLists p later other) :
    (entries : List (Value × Value)) → EntriesThroughout p entries →
      ofEntries other entries = ofEntries later entries
  | [], _ => by simp only [ofEntries]
  | (k, v) :: rest, ⟨key, value, others⟩ => by
      simp only [ofEntries, ofValue_congr same k key, ofValue_congr same v value,
        ofEntries_congr same rest others]
end

end View

namespace Forest

variable {forest other : Forest}

/-- What stands under the unary conditions is plain data, and no list of it has grown. -/
@[mk_iff steady_iff]
structure Steady (forest : Forest) : Prop where
  additions : forest.additions = []
  argument : ∀ id u, forest.node id = .unary u → u.argument.node? = none → u.argument.Steady

theorem plainText_steady (additions : forest.additions = []) (later : other.additions = [])
    {v : Value} (steady : v.Steady) : other.plainText v = forest.plainText v := by
  have view (forest : Forest) (additions : forest.additions = []) :
      forest.view v = View.ofValue (fun _ => []) v := by
    rw [Forest.view, viewWithin]
    refine View.ofValue_congr ?_ v steady
    intro u list plain
    cases u with
    | list mark vs => simp [kept, additions, Table.get?]
    | conditions tree stage => exact (plain tree stage rfl).elim
    | _ => simp [Value.isList] at list
  unfold plainText
  split
  · rfl
  · rw [view forest additions, view other later]

end Forest

/-! ## Moves -/

/-- One call that hands out a placeholder: the binder as it was then, and the settings in force. -/
structure Handout where
  owner : BinderId
  binder : Binder
  settings : Settings
  token : Value

/-- What is allowed in a run. -/
structure Policy where
  /-- What may stand under a unary condition beside a node. -/
  argument : Value → Prop
  /-- What may be declared for a type, beside nothing. -/
  type : Value → Prop
  untyped : type .null
  /-- Whether a binder may be given an identifier. -/
  given : Prop
  /-- Whether objects may be made, and trees changed that are not compiled yet. -/
  builds : Prop
  /-- Whether trees may be compiled. -/
  renders : Prop

def Node.Fits (p : Policy) (binders : Nat) : Node → Prop
  | junction j => j.compiled = none ∧ j.binder.index < binders
  | comparison c => ∀ value placeholder, c.operand = .bound value placeholder → value.node? = none
  | unary u => u.argument.node? = none → p.argument u.argument
  | fragment _ | abstract => True

/-- Texts are replaced by texts, and everything else stays. -/
def Rewrites (rewrite : Value → Value) : Prop :=
  ∀ v, (∃ s t, v = .text s ∧ rewrite v = .text t) ∨ (v.text? = none ∧ rewrite v = v)

theorem Binder.rewrites (b : Binder) (forest : Forest) (settings : Settings) :
    Rewrites (b.rewriting forest settings) := by
  intro v
  unfold rewriting
  split
  · cases v with
    | text s => exact .inl ⟨s, _, rfl, rfl⟩
    | _ => exact .inr ⟨rfl, rfl⟩
  · cases v with
    | text s => exact .inl ⟨s, s, rfl, rfl⟩
    | _ => exact .inr ⟨rfl, rfl⟩

/-- One change of a workspace, with the placeholder that is handed out by it. -/
inductive Move (p : Policy) (w : Workspace) : List Handout → Workspace → Prop
  | note (records : List Record) (nextMark : Nat) : Move p w [] { w with records, nextMark }
  | draw (builds : p.builds) : Move p w [] { w with nextIdentifier := w.nextIdentifier + 1 }
  | adopt (builds : p.builds) (count : Int) :
      Move p w [] { w with
        nextIdentifier := w.nextIdentifier + 1
        binders := w.binders.push { identifier := toString w.nextIdentifier, count } }
  | give (given : p.given) (identifier : String) (count : Int) :
      Move p w [] { w with binders := w.binders.push { identifier, count } }
  | plant (builds : p.builds) {node : Node} (fits : node.Fits p w.binders.size) :
      Move p w [] { w with nodes := w.nodes.push node }
  | change (builds : p.builds) {id : NodeId} {j k : Junction} (found : w.junction? id = some j)
      (isOpen : j.compiled = none) (still : k.compiled = none) (binder : k.binder = j.binder) :
      Move p w [] { w with toForest := w.setNode id (.junction k) }
  | reserve {id : BinderId} (known : id.index < w.binders.size) (token : Value) (keeping : Bool) :
      Move p w [⟨id, w.binder id, w.settings, token⟩] { w with
        toForest := w.setBinder id ((w.binder id).reserve w.settings token keeping).2 }
  | bind (builds : p.builds) {id : BinderId} (known : id.index < w.binders.size)
      (name value type : Value) :
      Move p w [] { w with
        toForest := w.setBinder id ((w.binder id).bind w.settings name value type).2 }
  | lengthen (builds : p.builds) {v : Value} (allowed : p.type v) (list : v.isList = true)
      (letters : List String) :
      Move p w [] { w with toForest := w.extendList v (letters.map .text) }
  | settle (renders : p.renders) {id : NodeId} {j : Junction} {rewrite : Value → Value}
      {rendered : Rendered} {texts : Value → Texts} (found : w.junction? id = some j)
      (isOpen : j.compiled = none) (rewrites : Rewrites rewrite)
      (each : ∀ v ∈ j.conditions.map rewrite, Settled w.toForest v (texts v))
      (text : w.Steady → rendered.sql = joined j.connective.written
        ((j.conditions.map rewrite).map fun v => (texts v).alone)) :
      Move p w [] { w with
        toForest := w.setNode id (.junction (j.settle (j.conditions.map rewrite) rendered)) }

/-- Any number of moves, with what is handed out by them in turn. -/
inductive Moves (p : Policy) (w : Workspace) : List Handout → Workspace → Prop
  | refl : Moves p w [] w
  | tail {trace more : List Handout} {middle after : Workspace} (path : Moves p w trace middle)
      (move : Move p middle more after) : Moves p w (trace ++ more) after

namespace Moves

variable {p q : Policy} {w middle after : Workspace} {trace more : List Handout}

theorem single (move : Move p w trace after) : Moves p w trace after := .tail .refl move

theorem trans (first : Moves p w trace middle) (second : Moves p middle more after) :
    Moves p w (trace ++ more) after := by
  induction second with
  | refl => rwa [List.append_nil]
  | tail _ move ih =>
      rw [← List.append_assoc]
      exact .tail ih move

end Moves

namespace Policy

/-- What the one allows, the other allows too. -/
structure Within (p q : Policy) : Prop where
  argument : ∀ v, p.argument v → q.argument v
  type : ∀ v, p.type v → q.type v
  given : p.given → q.given
  builds : p.builds → q.builds
  renders : p.renders → q.renders

/-- The policy without compiling. -/
def quiet (p : Policy) : Policy := { p with renders := False }

theorem quiet_within (p : Policy) : p.quiet.Within p :=
  ⟨fun _ => id, fun _ => id, id, id, False.elim⟩

end Policy

section Mono

variable {p q : Policy} {w after : Workspace} {trace : List Handout}

theorem Node.Fits.mono (within : p.Within q) {binders : Nat} {node : Node}
    (fits : node.Fits p binders) : node.Fits q binders := by
  cases node with
  | unary u => exact fun flat => within.argument _ (fits flat)
  | _ => exact fits

theorem Move.mono (within : p.Within q) (move : Move p w trace after) : Move q w trace after := by
  cases move with
  | note records nextMark => exact .note records nextMark
  | draw builds => exact .draw (within.builds builds)
  | adopt builds count => exact .adopt (within.builds builds) count
  | give given identifier count => exact .give (within.given given) identifier count
  | plant builds fits => exact .plant (within.builds builds) (fits.mono within)
  | change builds found isOpen still binder =>
      exact .change (within.builds builds) found isOpen still binder
  | reserve known token keeping => exact .reserve known token keeping
  | bind builds known name value type => exact .bind (within.builds builds) known name value type
  | lengthen builds allowed list letters =>
      exact .lengthen (within.builds builds) (within.type _ allowed) list letters
  | settle renders found isOpen rewrites each text =>
      exact .settle (within.renders renders) found isOpen rewrites each text

theorem Moves.mono (within : p.Within q) (moves : Moves p w trace after) :
    Moves q w trace after := by
  induction moves with
  | refl => exact .refl
  | tail _ move ih => exact .tail ih (move.mono within)

end Mono

namespace Forest

variable {forest : Forest}

theorem junction?_extendList (forest : Forest) (v : Value) (more : List Value) (id : NodeId) :
    ((forest.extendList v more).junction? id = forest.junction? id) ∨
      ∃ j stage, forest.junction? id = some j ∧
        (forest.extendList v more).junction? id = some (j.appendAt stage more) := by
  cases v with
  | conditions tree stage =>
      cases found : forest.junction? tree with
      | none => exact .inl (by simp only [extendList, found])
      | some j =>
          simp only [extendList, found, junction?_setNode found]
          split
          · rename_i same
            exact .inr ⟨j, stage, same ▸ found, rfl⟩
          · exact .inl rfl
  | _ => exact .inl rfl

theorem node_extendList (forest : Forest) (v : Value) (more : List Value) {id : NodeId}
    (other : forest.junction? id = none) : (forest.extendList v more).node id = forest.node id := by
  cases v with
  | conditions tree stage =>
      cases found : forest.junction? tree with
      | none => simp only [extendList, found]
      | some j =>
          simp only [extendList, found]
          rw [node_setNode_of_tree found, if_neg]
          rintro rfl
          simp [found] at other
  | _ => rfl

end Forest

namespace Forest

variable {forest other : Forest}

theorem junction?_push {node : Node} (nodes : other.nodes = forest.nodes.push node) {id : NodeId}
    {j : Junction} (found : other.junction? id = some j) :
    (id.index = forest.nodes.size ∧ node = .junction j) ∨ forest.junction? id = some j := by
  rw [junction?_eq_some, node_of_push nodes] at found
  split at found
  · exact .inl ⟨‹_›, found⟩
  · exact .inr (junction?_eq_some.mpr found)

end Forest

@[simp] theorem Junction.binder_appendAt (j : Junction) (stage : Stage) (more : List Value) :
    (j.appendAt stage more).binder = j.binder := by
  unfold appendAt
  split <;> rfl

@[simp] theorem Junction.compiled_appendAt (j : Junction) (stage : Stage) (more : List Value) :
    (j.appendAt stage more).compiled = j.compiled := by
  unfold appendAt
  split <;> rfl

theorem Forest.binders_extendList (forest : Forest) (v : Value) (more : List Value) :
    (forest.extendList v more).binders = forest.binders := by
  unfold extendList
  split
  · rfl
  · split <;> rfl
  · rfl

theorem Rewrites.node_iff {rewrite : Value → Value} (rewrites : Rewrites rewrite) {v : Value}
    {id : NodeId} : rewrite v = .node id ↔ v = .node id := by
  rcases rewrites v with ⟨s, t, rfl, same⟩ | ⟨-, same⟩
  · simp [same]
  · rw [same]

section Endures

variable {p : Policy} {w after : Workspace} {trace : List Handout}

theorem Workspace.keeps_of_nodes (nodes : after.nodes = w.nodes) :
    w.Keeps after.toForest where
  node id _ _ := by simp only [Forest.node, nodes]
  tree id j found _ := by
    rw [← found]
    exact Forest.junction?_congr (by simp only [Forest.node, nodes])

theorem Forest.keeps_setNode {forest : Forest} {id : NodeId} {j k : Junction}
    (found : forest.junction? id = some j) (isOpen : j.compiled = none) :
    forest.Keeps (forest.setNode id (.junction k)) where
  node other _ notTree := by
    rw [node_setNode_of_tree found, if_neg]
    rintro rfl
    simp [found] at notTree
  tree other l tree compiled := by
    rw [junction?_setNode found, if_neg, tree]
    rintro rfl
    cases found.symm.trans tree
    simp [isOpen] at compiled

theorem Move.keeps_or_lengthens (move : Move p w trace after) :
    w.Keeps after.toForest ∨ ∃ v letters, p.type v ∧ v.isList = true ∧
      after.toForest = w.extendList v (List.map .text letters) := by
  cases move with
  | plant builds fits =>
      refine .inl ⟨fun id present _ => ?_, fun id j found _ => ?_⟩
      · rw [Forest.node_of_push rfl, if_neg (Forest.index_lt_of_node present).ne]
      · rw [← found]
        exact Forest.junction?_of_push rfl (Forest.index_lt_of_tree found)
  | change builds found isOpen => exact .inl (Forest.keeps_setNode found isOpen)
  | lengthen builds allowed list letters => exact .inr ⟨_, letters, allowed, list, rfl⟩
  | settle renders found isOpen => exact .inl (Forest.keeps_setNode found isOpen)
  | _ => exact .inl (Workspace.keeps_of_nodes rfl)

/-- Moves change open trees only, unless a list of conditions is taken for a type. -/
theorem Move.keeps (noList : ∀ v, p.type v → v.isList = false) (move : Move p w trace after) :
    w.Keeps after.toForest := by
  rcases move.keeps_or_lengthens with keeps | ⟨v, _, allowed, list, -⟩
  · exact keeps
  · simp [noList v allowed] at list

theorem Forest.endures_extendList (forest : Forest) (v : Value) (letters : List String) :
    forest.Endures (forest.extendList v (letters.map .text)) where
  node id _ notTree := forest.node_extendList v _ notTree
  tree id j found compiled := by
    rcases forest.junction?_extendList v (letters.map .text) id with
      same | ⟨k, stage, before, later⟩
    · exact ⟨j, [], by rw [same, found], rfl, by simp⟩
    · cases found.symm.trans before
      refine ⟨_, if stage = j.stage then letters else [], later, by simp, ?_⟩
      unfold Junction.appendAt
      split <;> simp

theorem Move.endures (move : Move p w trace after) : w.Endures after.toForest := by
  rcases move.keeps_or_lengthens with keeps | ⟨v, letters, -, -, same⟩
  · exact keeps.endures
  · rw [same]
    exact w.endures_extendList v letters

end Endures

/-- Every tree has its binder, what a comparison binds is no node, and compiled trees are
settled. -/
structure Workspace.WellMade (w : Workspace) : Prop where
  binder : ∀ id j, w.junction? id = some j → j.binder.index < w.binders.size
  flat : ∀ id c value placeholder, w.node id = .comparison c →
    c.operand = .bound value placeholder → value.node? = none
  settled : ∀ id j, w.junction? id = some j → j.compiled.isSome = true →
    ∃ texts, Settled w.toForest (.node id) texts

namespace Workspace.WellMade

variable {p : Policy} {w after : Workspace} {trace : List Handout}

theorem empty (n : Nat) : WellMade { nextIdentifier := n } where
  binder _ _ found := by simp [Forest.junction?, Forest.node] at found
  flat _ _ _ _ kind := by simp [Forest.node] at kind
  settled _ _ found := by simp [Forest.junction?, Forest.node] at found

theorem binder_setNode (made : w.WellMade) {id : NodeId} {j k : Junction}
    (found : w.junction? id = some j) (same : k.binder = j.binder) (other : NodeId) (l : Junction)
    (tree : (w.setNode id (.junction k)).junction? other = some l) :
    l.binder.index < w.binders.size := by
  rw [Forest.junction?_setNode found] at tree
  split at tree
  · cases tree
    rw [same]
    exact made.binder id j found
  · exact made.binder other l tree

theorem binder_move (made : w.WellMade) (move : Move p w trace after) (id : NodeId) (j : Junction)
    (found : after.junction? id = some j) : j.binder.index < after.binders.size := by
  cases move with
  | adopt builds count =>
      have known := made.binder id j found
      simp only [Array.size_push]
      omega
  | give given identifier count =>
      have known := made.binder id j found
      simp only [Array.size_push]
      omega
  | plant builds fits =>
      rcases Forest.junction?_push rfl found with ⟨-, rfl⟩ | found
      · exact fits.2
      · exact made.binder id j found
  | change builds tree isOpen still binder => exact made.binder_setNode tree binder id j found
  | settle renders tree =>
      refine made.binder_setNode tree ?_ id j found
      rfl
  | reserve | bind =>
      have known := made.binder id j found
      simpa [Forest.setBinder] using known
  | @lengthen builds v allowed list letters =>
      simp only [Forest.binders_extendList]
      rcases w.junction?_extendList v (letters.map .text) id with same | ⟨k, stage, before, later⟩
      · exact made.binder id j (same ▸ found)
      · cases later.symm.trans found
        rw [Junction.binder_appendAt]
        exact made.binder id k before
  | _ => exact made.binder id j found

theorem flat_move (made : w.WellMade) (move : Move p w trace after) (id : NodeId) (c : Comparison)
    (value : Value) (placeholder : String) (kind : after.node id = .comparison c)
    (operand : c.operand = .bound value placeholder) : value.node? = none := by
  have setNode {other : NodeId} {j k : Junction} (found : w.junction? other = some j)
      (kind : (w.setNode other (.junction k)).node id = .comparison c) : value.node? = none := by
    rw [Forest.node_setNode_of_tree found] at kind
    split at kind
    · cases kind
    · exact made.flat id c value placeholder kind operand
  cases move with
  | plant builds fits =>
      rw [Forest.node_of_push rfl] at kind
      split at kind
      · subst kind
        exact fits value placeholder operand
      · exact made.flat id c value placeholder kind operand
  | change builds found => exact setNode found kind
  | settle renders found => exact setNode found kind
  | @lengthen builds v allowed list letters =>
      refine made.flat id c value placeholder ?_ operand
      rw [← kind, w.node_extendList v _]
      rcases w.junction?_extendList v (letters.map .text) id with same | ⟨k, stage, _, later⟩
      · rw [← same]
        exact Forest.junction?_eq_none kind nofun
      · exact absurd (kind.symm.trans (Forest.junction?_eq_some.mp later)) nofun
  | _ => exact made.flat id c value placeholder kind operand

theorem settled_move (made : w.WellMade) (move : Move p w trace after) (id : NodeId) (j : Junction)
    (found : after.junction? id = some j) (compiled : j.compiled.isSome = true) :
    ∃ texts, Settled after.toForest (.node id) texts := by
  have endures := move.endures
  have before {k : Junction} (tree : w.junction? id = some k) (closed : k.compiled.isSome = true) :
      ∃ texts, Settled after.toForest (.node id) texts := by
    obtain ⟨texts, settled⟩ := made.settled id k tree closed
    exact settled.endure endures
  cases move with
  | plant builds fits =>
      rcases Forest.junction?_push rfl found with ⟨-, rfl⟩ | tree
      · simp [fits.1] at compiled
      · exact before tree compiled
  | change builds tree isOpen still =>
      rw [Forest.junction?_setNode tree] at found
      split at found
      · cases found
        simp [still] at compiled
      · exact before found compiled
  | @lengthen builds v allowed list letters =>
      rcases w.junction?_extendList v (letters.map .text) id with same | ⟨k, stage, tree, later⟩
      · exact before (same ▸ found) compiled
      · cases later.symm.trans found
        exact before tree (by simpa using compiled)
  | @settle renders other k rewrite rendered texts tree isOpen rewrites each text =>
      have known := found
      rw [Forest.junction?_setNode tree] at found
      split at found
      · cases found
        have later : ∀ v ∈ k.conditions.map rewrite, ∃ texts, Settled _ v texts :=
          fun v member => (each v member).endure endures
        choose! texts yields using later
        exact ⟨_, .tree known (compiledReading_eq_some.mpr ⟨compiled, rfl⟩) yields⟩
      · exact before found compiled
  | _ => exact before found compiled

theorem move (made : w.WellMade) (move : Move p w trace after) : after.WellMade :=
  ⟨made.binder_move move, made.flat_move move, made.settled_move move⟩

theorem moves (made : w.WellMade) (moves : Moves p w trace after) : after.WellMade := by
  induction moves with
  | refl => exact made
  | tail _ move ih => exact ih.move move

end Workspace.WellMade

/-- Trees that are not compiled are not compiled later either, and keep their binders. -/
def Workspace.LeavesOpen (w after : Workspace) : Prop :=
  ∀ id j, w.junction? id = some j → j.compiled = none →
    ∃ k, after.junction? id = some k ∧ k.compiled = none ∧ k.binder = j.binder

namespace Workspace.LeavesOpen

variable {p : Policy} {w middle after : Workspace} {trace : List Handout}

theorem refl (w : Workspace) : w.LeavesOpen w := fun _ j found isOpen => ⟨j, found, isOpen, rfl⟩

theorem trans (first : w.LeavesOpen middle) (second : middle.LeavesOpen after) :
    w.LeavesOpen after := by
  intro id j found isOpen
  obtain ⟨k, found, isOpen, binder⟩ := first id j found isOpen
  obtain ⟨l, found, isOpen, binder'⟩ := second id k found isOpen
  exact ⟨l, found, isOpen, binder'.trans binder⟩

theorem of_nodes (same : ∀ id, w.junction? id ≠ none → after.junction? id = w.junction? id) :
    w.LeavesOpen after :=
  fun id j found isOpen => ⟨j, by rw [same id (by simp [found]), found], isOpen, rfl⟩

theorem move (silent : ¬ p.renders) (move : Move p w trace after) : w.LeavesOpen after := by
  cases move with
  | plant builds fits =>
      apply of_nodes
      intro id tree
      obtain ⟨j, found⟩ := Option.ne_none_iff_exists'.mp tree
      exact Forest.junction?_of_push rfl (Forest.index_lt_of_tree found)
  | @change builds id j k found isOpen still binder =>
      intro other l tree isOpen'
      by_cases same : id = other
      · subst same
        cases found.symm.trans tree
        exact ⟨k, by simp [Forest.junction?_setNode found], still, binder⟩
      · exact ⟨l, by simp [Forest.junction?_setNode found, same, tree], isOpen', rfl⟩
  | @lengthen builds v allowed list letters =>
      intro id j found isOpen
      rcases w.junction?_extendList v (letters.map .text) id with same | ⟨k, stage, before, later⟩
      · exact ⟨j, by rw [← found]; exact same, isOpen, rfl⟩
      · cases found.symm.trans before
        exact ⟨_, later, by simpa using isOpen, by simp⟩
  | settle renders => exact absurd renders silent
  | _ => exact of_nodes fun _ _ => rfl

theorem moves (silent : ¬ p.renders) (moves : Moves p w trace after) : w.LeavesOpen after := by
  induction moves with
  | refl => exact refl w
  | tail _ next ih => exact ih.trans (move silent next)

end Workspace.LeavesOpen
end WhereClause
