import WhereClause.Proofs.Compiling
import WhereClause.Proofs.Items
import WhereClause.Proofs.Keeping

/-!
# Every description has an outcome

A description that is plain nested data is compiled without a fault, whatever its shape and its
keys. A key is trimmed before it is split, so that no comparison which is made from it lacks an
operator.

* `plain_of_data`: nested data is followed to its end and holds no node.
* `compileDescription_succeeds`: nested data has an outcome.
-/

namespace WhereClause

/-! ## Nested data -/

mutual
/-- The value is plain data, nested in any way, with keys and members of sets that never change. -/
def Value.Data : Value → Prop
  | .null | .bool _ | .int _ | .float _ | .text _ | .bytes _ => True
  | .list _ vs | .tuple _ vs => AllData vs
  | .set _ vs | .frozenSet _ vs => AllData vs ∧ Value.allHashable vs = true
  | .dict _ entries => EntriesData entries
  | _ => False

def AllData : List Value → Prop
  | [] => True
  | v :: rest => v.Data ∧ AllData rest

def EntriesData : List (Value × Value) → Prop
  | [] => True
  | (k, v) :: rest => k.Data ∧ k.isHashable = true ∧ v.Data ∧ EntriesData rest
end

namespace Value

theorem Data.node? {v : Value} (data : v.Data) : v.node? = none := by
  cases v with
  | node id => exact data.elim
  | _ => rfl

theorem Data.below {v : Value} (data : v.Data) (n : Nat) : v.Below n := by
  rintro tree stage rfl
  exact data.elim

mutual
/-- What never changes holds no list. -/
theorem Data.fixed : (v : Value) → v.Data → v.isHashable = true → v.Fixed
  | .tuple _ vs, data, hashable => Data.allFixed vs data hashable
  | .frozenSet _ vs, ⟨data, hashable⟩, _ => Data.allFixed vs data hashable
  | .null, _, _ | .bool _, _, _ | .int _, _, _ | .float _, _, _ | .text _, _, _
  | .bytes _, _, _ => trivial

theorem Data.allFixed : (vs : List Value) → AllData vs → allHashable vs = true → AllFixed vs
  | [], _, _ => trivial
  | v :: rest, ⟨first, others⟩, hashable => by
      rw [allHashable, Bool.and_eq_true] at hashable
      exact ⟨Data.fixed v first hashable.1, Data.allFixed rest others hashable.2⟩
end

end Value

namespace Forest

variable {forest : Forest} {later : Value → List View}

mutual
theorem plain_ofData (written : ∀ mark vs, forest.kept (.list mark vs) = [])
    (nothing : ∀ mark vs, later (.list mark vs) = []) :
    (v : Value) → v.Data → (View.ofValue later v).Plain forest
  | .list mark vs, data => by
      rw [View.ofValue, nothing, List.append_nil]
      refine ⟨nofun, fun ws found => ?_, plain_ofAllData written nothing vs data⟩
      simp only [sequence?, Value.written?, written, Option.map_some, List.append_nil,
        Option.some.injEq] at found
      rw [View.values_ofElements, found]
  | .tuple mark vs, data | .set mark vs, ⟨data, _⟩ | .frozenSet mark vs, ⟨data, _⟩ => by
      rw [View.ofValue]
      refine ⟨nofun, fun ws found => ?_, plain_ofAllData written nothing vs data⟩
      simp only [sequence?, Value.written?, kept, Option.map_some, List.append_nil,
        Option.some.injEq] at found
      rw [View.values_ofElements, found]
  | .dict _ entries, data => plain_ofEntriesData written nothing entries data
  | .null, _ | .bool _, _ | .int _, _ | .float _, _ | .text _, _ | .bytes _, _ => rfl

theorem plain_ofAllData (written : ∀ mark vs, forest.kept (.list mark vs) = [])
    (nothing : ∀ mark vs, later (.list mark vs) = []) :
    (vs : List Value) → AllData vs → View.AllPlain forest (View.ofElements later vs)
  | [], _ => trivial
  | v :: rest, ⟨first, others⟩ =>
    ⟨plain_ofData written nothing v first, plain_ofAllData written nothing rest others⟩

theorem plain_ofEntriesData (written : ∀ mark vs, forest.kept (.list mark vs) = [])
    (nothing : ∀ mark vs, later (.list mark vs) = []) :
    (entries : List (Value × Value)) → EntriesData entries →
      View.EntriesPlain forest (View.ofEntries later entries)
  | [], _ => trivial
  | (k, v) :: rest, ⟨key, hashable, value, others⟩ => by
      refine ⟨?_, ?_, plain_ofEntriesData written nothing rest others⟩
      · rw [View.value_ofValue]
        exact key.fixed k hashable
      · rw [View.value_ofValue, View.value_ofValue]
        split
        · exact ⟨value.node?, value.below _⟩
        · exact plain_ofData written nothing v value
end

theorem plain_of_data (written : forest.additions = []) {v : Value} (data : v.Data) :
    (forest.view v).Plain forest := by
  have nothing (mark : Mark) (vs : List Value) : forest.kept (.list mark vs) = [] := by
    rw [kept, written]
    rfl
  apply plain_ofData nothing _ v data
  intro mark vs
  rw [nothing, List.map_nil]

end Forest

/-! ## Operators of comparisons -/

/-- The comparisons among the nodes from a number on have operators that are not blank. -/
def Workspace.Worded (n : Nat) (w : Workspace) : Prop :=
  ∀ id c, n ≤ id.index → w.node id = .comparison c → Text.trim c.operator ≠ ""

namespace Workspace.Worded

variable {n : Nat} {w after : Workspace}

theorem of_nodes (worded : w.Worded n) (nodes : after.nodes = w.nodes) : after.Worded n := by
  intro id c new kind
  refine worded id c new ?_
  simpa only [Forest.node, nodes] using kind

theorem push (worded : w.Worded n) {node : Node} (nodes : after.nodes = w.nodes.push node)
    (operator : ∀ c, node = .comparison c → Text.trim c.operator ≠ "") : after.Worded n := by
  intro id c new kind
  rw [Forest.node_of_push nodes] at kind
  split at kind
  · exact operator c kind
  · exact worded id c new kind

theorem setTree (worded : w.Worded n) (tree : NodeId) (k : Junction) :
    Worded n { w with toForest := w.setNode tree (.junction k) } := by
  intro other c new kind
  rw [Forest.node_setNode] at kind
  split at kind
  · cases kind
  · exact worded other c new kind

end Workspace.Worded

namespace WorkspaceM

variable {α : Type} {n : Nat} {w : Workspace}

theorem words_of_nodes {operation : WorkspaceM α} (same : (run operation w).2.nodes = w.nodes) :
    Keeps (Workspace.Worded n) operation w :=
  ⟨fun worded => worded.of_nodes same⟩

theorem words_addNode {node : Node}
    (operator : ∀ c, node = .comparison c → Text.trim c.operator ≠ "") :
    Keeps (Workspace.Worded n) (addNode node) w :=
  ⟨fun worded => worded.push rfl operator⟩

theorem words_newJunction (connective : String) :
    Keeps (Workspace.Worded n) (newJunction connective) w := by
  unfold newJunction
  exact (words_of_nodes rfl).bind fun _ _ _ => words_addNode nofun

theorem words_attach (tree : NodeId) (condition : Value) :
    Keeps (Workspace.Worded n) (attach tree condition) w := by
  unfold attach
  exact .look (same_junction tree w) fun j _ => ⟨fun worded => worded.setTree tree _⟩

theorem nodes_onBinder (id : BinderId) (operation : Binder → Except Fault α × Binder) :
    (run (onBinder id operation) w).2.nodes = w.nodes := by
  simp only [onBinder, run_bind, run_get, run_changeForest]
  cases (operation (w.binder id)).1 <;> rfl

theorem words_membershipType (declared : Value) :
    Keeps (Workspace.Worded n) (membershipType declared) w := by
  have lengthen (v : Value) (more : List Value) :
      Keeps (Workspace.Worded n) (changeForest (·.extendList v more)) w := by
    constructor
    intro worded
    cases v with
    | conditions tree stage =>
        simp only [run_changeForest, Forest.extendList]
        split
        · exact worded.setTree tree _
        · exact worded
    | _ => exact worded
  refine .get ?_
  simp only
  by_cases given : w.isTruthy declared = true
  · simp only [given, if_true]
    split
    · exact .pure _
    · split
      · exact .pure _
      · exact .throw _
    · split
      · exact .throw _
      · split
        · exact .pure _
        · split
          · exact (lengthen _ _).bind fun _ _ _ => .pure _
          · exact .throw _
  · simp only [given]
    exact .pure _

theorem words_buildComparison (key : Key) (value type : Value)
    (operator : Text.trim key.operator ≠ "") :
    Keeps (Workspace.Worded n) (buildComparison key value type) w := by
  unfold buildComparison newComparison
  refine Keeps.bind ?_ fun _ _ _ => .pure _
  refine Keeps.bind (words_of_nodes rfl) fun identifier _ _ => ?_
  dsimp only [Value.givenText, Value.toText, Option.getD_some]
  split
  · rename_i field type' operator' _ _ named
    cases named
    refine Keeps.bind (words_of_nodes rfl) fun binder _ _ => ?_
    refine Keeps.bind ?_ fun operand _ _ => words_addNode ?_
    · unfold newOperand
      split
      · exact .pure _
      · exact .get ((words_of_nodes (nodes_onBinder ..)).bind fun _ _ _ => .pure _)
    · rintro c same
      cases same
      exact operator
  · exact .throw _

theorem words_buildField (tree : NodeId) (types : Value) (key : Key) (value : Value)
    (operator : Text.trim key.operator ≠ "") :
    Keeps (Workspace.Worded n) (buildField tree types key value) w := by
  unfold buildField
  refine Keeps.bind (words_of_nodes ?_) fun declared _ _ => ?_
  · cases declaredType types key.field <;> rfl
  · split
    · refine (words_membershipType _).bind fun type middle _ => ?_
      split
      · exact words_buildComparison _ _ _ operator
      · refine .look (same_junction tree middle) fun j _ => ?_
        exact .get ((words_of_nodes (nodes_onBinder ..)).bind fun _ _ _ => .pure _)
    · exact words_buildComparison _ _ _ operator

mutual
theorem words_build (tree : NodeId) (types : Value) (w : Workspace) : (item : Item) →
    item.Regular → Keeps (Workspace.Worded n) (build tree types item) w
  | .raw _, _ | .nested _, _ => by
      unfold build
      exact .pure _
  | .field key value, operator => by
      unfold build
      exact (words_buildField tree types key value operator).map _
  | .group connective items, ⟨_, regular⟩ => by
      unfold build
      split
      · exact (words_of_nodes rfl).bind fun _ _ _ => .pure _
      · refine (words_newJunction _).bind fun id middle _ => ?_
        exact (words_extend id types items regular middle).bind fun _ _ _ => .pure _
  | .negation items, regular => by
      unfold build
      split
      · exact (words_of_nodes rfl).bind fun _ _ _ => .pure _
      · refine .get ((words_newJunction _).bind fun id middle _ => ?_)
        refine (words_extend id types items regular middle).bind fun _ _ _ => ?_
        exact (words_addNode (by simp)).bind fun _ _ _ => .pure _

theorem words_extend (tree : NodeId) (types : Value) : (items : List Item) →
    Item.AllRegular items → (w : Workspace) →
      Keeps (Workspace.Worded n) (extend tree types items) w
  | [], _, w => by
      unfold extend
      exact .pure _
  | item :: rest, ⟨here, later⟩, w => by
      unfold extend
      refine (words_build tree types w item here).bind fun made middle _ => ?_
      cases made with
      | none => exact words_extend tree types rest later middle
      | some condition =>
          exact (words_attach tree condition).bind fun _ last _ =>
            words_extend tree types rest later last
end

theorem words_add (tree : NodeId) (description types : Value) :
    Keeps (Workspace.Worded n) (add tree description types) w := by
  unfold add
  rw [discard_bind]
  refine .look (same_openJunction tree w) fun j _ => ?_
  refine Keeps.bind (words_of_nodes rfl) fun items middle read => .get ?_
  cases read
  exact words_extend tree _ _ (Item.regular_ofView _ _) _

theorem words_newTree {description types connective : Value} {c : String}
    (joins : w.settings.joins? connective = some c) :
    Keeps (Workspace.Worded n) (newTree description types connective none) w := by
  constructor
  rw [run_newTree joins]
  refine Keeps.after ?_
  refine (words_newJunction c).bind fun tree middle _ => .get ?_
  dsimp only
  split
  · exact (words_add tree description types).bind fun _ _ _ => .pure _
  · exact .pure _

theorem words_compileJunction {sql : NodeId → WorkspaceM String}
    (asked : ∀ id w, Keeps (Workspace.Worded n) (sql id) w) (id : NodeId) (j : Junction) :
    Keeps (Workspace.Worded n) (compileJunction sql id j) w := by
  unfold compileJunction
  split
  · exact .pure _
  · obtain ⟨middle, done, spends⟩ := run_expandTree j w
    refine Keeps.bind (.of_run done fun worded => worded.of_nodes spends.nodes)
      fun expanded middle _ => ?_
    refine (keeps_renderAll asked _ middle).bind fun parts last _ => ?_
    exact Keeps.bind ⟨fun worded => worded.setTree id _⟩ fun _ _ _ => .pure _

theorem words_lasts : Lasts (Workspace.Worded n) :=
  fun _ _ asked _ id j _ => words_compileJunction asked id j

variable {description types : Value} {table : Table String String}

/-- Nested data has an outcome, under any settings, connective and types, wherever counting starts.
No comparison is made from it whose operator is blank. -/
theorem compileDescription_succeeds (written : w.additions = []) (data : description.Data)
    (typed : types.typeTable? = some table) (connective : String) :
    ∃ outcome after,
      run (compileDescription description types (.text connective)) w = (.ok outcome, after) ∧
        after.Worded w.nodes.size := by
  have plain := Forest.plain_of_data written data
  have joins : w.settings.joins? (.text connective) = some (Text.upper connective) := rfl
  obtain ⟨after, done⟩ := compileDescription_ok joins typed plain
  refine ⟨_, after, done, ?_⟩
  have keeps : Keeps (Workspace.Worded w.nodes.size)
      (compileDescription description types (.text connective)) w := by
    refine .look rfl fun forest found => ?_
    cases found
    simp only [data.node?]
    exact (words_newTree joins).bind fun tree middle _ => keeps_outcomeOf words_lasts tree middle
  have worded := keeps.after fun id c new kind => by
    rw [Forest.node_of_size_le new] at kind
    cases kind
  rwa [done] at worded

/-- Keys with blanks at their ends and in between, keys that are no texts, and values that describe
nothing. -/
def oddConditions : Value :=
  .list ⟨1⟩ [
    .dict ⟨2⟩ [
      (.text "\u00a0 a \u2003\t", .null),
      (.text " \n ", .set ⟨3⟩ [.int 1, .bytes [0]]),
      (.tuple ⟨4⟩ [.null, .frozenSet ⟨5⟩ [.text "x"]], .dict ⟨6⟩ []),
      (.bytes [58], .list ⟨7⟩ [.bool true]),
      (.text "3 in ", .list ⟨8⟩ [.list ⟨9⟩ []])],
    .set ⟨10⟩ [.text "unread"],
    .dict ⟨11⟩ [(.text "Not", .tuple ⟨12⟩ [.text "b", .text ""]), (.int 0, .text "c")]]

theorem data_oddConditions : oddConditions.Data := by
  simp [oddConditions, Value.Data, AllData, EntriesData, Value.isHashable, Value.allHashable]

def oddStart : Workspace :=
  { settings := { placeholderStem := "q", multiMarker := "*", positionalMark := "" }
    nextIdentifier := 99 }

theorem compileDescription_succeeds_odd :
    oddStart.additions = [] ∧ oddConditions.Data ∧
      (Value.dict ⟨13⟩ [(.text "3", .text "*")]).typeTable? = some [("3", "*")] ∧
      ∃ outcome after,
        run (compileDescription oddConditions (.dict ⟨13⟩ [(.text "3", .text "*")]) (.text "?"))
          oddStart = (.ok outcome, after) ∧ after.Worded oddStart.nodes.size :=
  ⟨rfl, data_oddConditions, rfl, compileDescription_succeeds rfl data_oddConditions rfl "?"⟩

end WorkspaceM
end WhereClause
