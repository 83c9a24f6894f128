import WhereClause.Proofs.Orders
import WhereClause.Proofs.Tending

/-!
# Calm runs

A run is calm if it makes trees, comparisons and other nodes, fills trees, and renders, all with
texts that hold no placeholders, under the default settings, and never asks a binder for anything
itself. After a calm run everything is neat, and every compiled tree is spelled by its text.

* `tidy_after`: calm runs leave tidy workspaces.
-/

namespace WhereClause

def Node.isNested : Node → Bool
  | unary u => u.argument.node?.isSome
  | _ => true

namespace Workspace

variable {wording : Wording} {w after : Workspace}

/-- No text that is read from the description can hold a placeholder. -/
def Suits (wording : Wording) (w : Workspace) (description : Value) : Prop :=
  ∀ leaf ∈ Item.allLeaves (Item.ofView w.toForest (w.view description)), leaf.Suits wording.named

/-- What a new tree is made with. The description is read once the empty tree is there. -/
structure Sows (wording : Wording) (w : Workspace) (description types connective : Value) :
    Prop where
  allowed : Policy.tame.Types types
  joins : ∀ word s, Connective.ofValue? connective = some word → word.toValue.toText = .ok s →
    wording.joins s
  suits : (WorkspaceM.run (WorkspaceM.newTree .null types connective none) w).2.Suits wording
    description

/-- The description that is made of the text of a field, which is rendered if it is a node. -/
def Tells (wording : Wording) (w : Workspace) (field : Value) (description : String → Value) :
    Prop :=
  w.Hushed Text.Bare ∧ ∀ s after, WorkspaceM.run (WorkspaceM.textOf field) w = (.ok s, after) →
    after.Suits wording (description s)

structure Tidy (wording : Wording) (w : Workspace) : Prop where
  kempt : w.Kempt wording
  told : w.Told Text.Bare

theorem Drawn.moves (drawn : w.Drawn) {trace : List Handout}
    (moves : Moves .drawn w trace after) : after.Drawn := by
  induction moves with
  | refl => exact drawn
  | tail _ move ih => exact ih.move move

end Workspace

/-- The operation makes nodes, fills trees or renders, and no text in it can hold a placeholder.
Plain values under unary conditions matter only when something is rendered. -/
def Operation.Calm (wording : Wording) (w : Workspace) : Operation → Prop
  | newTree description types connective binder =>
    binder = none ∧ w.Sows wording description types connective
  | newComparison field _ _ operator =>
    (∀ s, Value.givenText field = .ok s → Text.Bare s ∧ (wording.named → isNumeral s = false)) ∧
      ∀ s, (operator.getD (.text "=")).toText = .ok s → Text.Bare s
  | newUnary symbol _ _ => ∀ s, Value.givenText symbol = .ok s → Text.Bare s
  | newFragment text => ∀ s, Value.givenText text = .ok s → Text.Bare s
  | newAbstract | takeIdentifier | invert _ => True
  | add _ description types => Policy.tame.Types types ∧ w.Suits wording description
  | append _ condition => condition.IsCondition
  | compare _ comparator field value type =>
    Policy.tame.type type ∧ w.Tells wording field fun s =>
      .dict .passing [(.text (s ++ " " ++ comparator.operator), value)]
  | isNull _ field => w.Tells wording field fun s => .text (s ++ " IS NULL")
  | isNotNull _ field => w.Tells wording field fun s => .text (s ++ " IS NOT NULL")
  | negate _ description types =>
    Policy.tame.Types types ∧ w.Suits wording (.dict .passing [(.text "NOT", description)])
  | join connective _ right => wording.joins connective ∧ right.IsCondition
  | sql _ | wrapped _ | compile _ | collectBindings _ | collectParameters _ => w.Hushed Text.Bare
  | compileDescription description types connective =>
    Policy.tame.Types types ∧
      if (description.node?.bind w.junction?).isSome then w.Hushed Text.Bare
      else w.Sows wording description types connective ∧
        ∀ tree after, WorkspaceM.run (WorkspaceM.newTree description types connective none) w =
          (.ok tree, after) → after.Hushed Text.Bare
  | newBinder .. | setConnective .. | bindInTree .. | placeholderOf .. | placeholder ..
  | reserve .. | register .. | bind .. | expand .. | configure .. | reset => False

def Workspace.Calm (wording : Wording) : Workspace → List Operation → Prop
  | _, [] => True
  | w, operation :: rest => operation.Calm wording w ∧ Calm wording (w.perform operation) rest

namespace WorkspaceM

open Workspace (Kempt Tidy Suits Sows)

variable {α β : Type} {wording : Wording} {w after : Workspace}

/-! ## Making and filling -/

theorem keeps_add (tree : NodeId) {description types : Value} (allowed : Policy.tame.Types types)
    (suits : w.Suits wording description) :
    Keeps (Kempt wording) (add tree description types) w := by
  unfold add Item.read
  rw [discard_bind]
  apply Keeps.look (same_openJunction tree w)
  intro j done
  have isOpen : IsOpen w tree := ⟨j, open_of_openJunction done⟩
  simp only [bind_assoc, pure_bind]
  apply Keeps.look rfl
  rintro forest ⟨⟩
  apply (keeps_log _).bind
  rintro _ after ⟨⟩
  apply Keeps.get
  refine keeps_extend ?_ _ (Item.regular_ofView _ _) suits _ isOpen
  split
  · exact allowed
  · exact Policy.tame.types_empty _

theorem keeps_append (tree : NodeId) {condition : Value} (fits : condition.IsCondition) :
    Keeps (Kempt wording) (append tree condition) w := by
  unfold append
  rw [discard_bind]
  apply Keeps.look (same_openJunction tree w)
  intro j done
  exact keeps_attach ⟨j, open_of_openJunction done⟩ fits

theorem run_bind_congr {operation : WorkspaceM α} {next other : α → WorkspaceM β}
    (same : ∀ a after, run (next a) after = run (other a) after) :
    run (operation >>= next) w = run (operation >>= other) w := by
  rw [run_bind, run_bind]
  split
  · exact same _ _
  · rfl

/-- A tree is made empty and then filled. -/
theorem run_newTree_filled (description types connective : Value) (w : Workspace) :
    run (newTree description types connective none) w =
      run (newTree .null types connective none >>= fun tree => do
        if (← MonadState.get).isTruthy description then add tree description types
        return tree) w := by
  unfold newTree
  dsimp only
  split
  all_goals
    simp only [bind_assoc]
    repeat refine run_bind_congr fun _ _ => ?_
    split
    · rfl
    · rw [bind_assoc]
      exact run_bind_congr fun _ _ => rfl

theorem keeps_freshBinder : Keeps (Kempt wording) freshBinder w := by
  apply Keeps.of_acts (p := .tame) (acts_freshBinder trivial)
  intro kempt
  exact kempt.neat.frame rfl (by simp [freshBinder, run_bind]) fun b known =>
    Forest.binder_of_lt rfl known

/-- An empty tree with a binder of its own, unless the connective is no text. -/
theorem keeps_plant (word : Connective)
    (joins : ∀ s, word.toValue.toText = .ok s → wording.joins s)
    (types : Value) : Keeps (Kempt wording) (freshBinder >>= fun b => do
      match word.toValue.toText with
      | .error reason => MonadExcept.throw (.invalid [⟨"conjunction", reason⟩])
      | .ok connective =>
        let tree ← addNode (.junction { connective := .text connective, binder := b })
        if (← MonadState.get).isTruthy .null then add tree .null types
        return tree) w := by
  cases text : word.toValue.toText with
  | error reason => exact keeps_freshBinder.bind fun _ _ _ => .throw _
  | ok connective =>
      have made : Keeps (Kempt wording) (newJunction connective >>= Pure.pure) w :=
        (keeps_newJunction (joins connective text)).bind fun _ _ _ => .pure _
      rw [newJunction, bind_assoc] at made
      exact ⟨made.after⟩

theorem keeps_emptyTree (types : Value) {connective : Value}
    (joins : ∀ word s, Connective.ofValue? connective = some word → word.toValue.toText = .ok s →
      wording.joins s) : Keeps (Kempt wording) (newTree .null types connective none) w := by
  have ofValue (v : Value) (word : Connective) (done : run (connectiveOf v) w = (.ok word, w)) :
      Connective.ofValue? v = some word := by
    unfold connectiveOf at done
    split at done
    · cases done
      assumption
    · cases done
  unfold newTree
  dsimp only
  split
  · refine .assuming fun kempt => .get (.look (same_connectiveOf _ w) fun word done => ?_)
    rw [kempt.settings] at done
    have default := ofValue _ word done
    cases default
    refine keeps_plant (.text (Text.upper "AND")) ?_ types
    rintro s ⟨⟩
    exact wording.keyword "AND" (.inl rfl)
  · refine .look (same_connectiveOf _ w) fun word done => ?_
    exact keeps_plant word (fun s => joins word s (ofValue _ word done)) types

theorem keeps_newTree {description types connective : Value}
    (sows : w.Sows wording description types connective) :
    Keeps (Kempt wording) (newTree description types connective none) w := by
  constructor
  rw [run_newTree_filled]
  refine ((keeps_emptyTree types sows.joins).bind fun tree after done => .get ?_).after
  split
  · have suits := sows.suits
    rw [done] at suits
    exact (keeps_add tree sows.allowed suits).bind fun _ _ _ => .pure _
  · exact .pure _

theorem keeps_newUnary {symbol : Option Value} (argument trailing : Option Value)
    (bare : ∀ s, Value.givenText symbol = .ok s → Text.Bare s) :
    Keeps (Kempt wording) (newUnary symbol argument trailing) w := by
  unfold newUnary
  split
  · rename_i symbol trailing given _
    exact keeps_addNode (fun _ => trivial) (bare symbol given) rfl
  · exact .throw _

theorem keeps_newFragment {text : Option Value}
    (bare : ∀ s, Value.givenText text = .ok s → Text.Bare s) :
    Keeps (Kempt wording) (newFragment text) w := by
  unfold newFragment
  split
  · rename_i text given
    exact keeps_addNode trivial (bare text given) rfl
  · exact .throw _

theorem keeps_join {connective : String} (joins : wording.joins connective) (left : Value)
    {right : Value} (fits : right.IsCondition) :
    Keeps (Kempt wording) (join connective left right) w := by
  unfold join
  split
  · rename_i id
    apply (keeps_newJunction joins).bind
    intro tree _ _
    apply (keeps_append tree (.inr ⟨id, rfl⟩)).bind
    intro _ _ _
    exact (keeps_append tree fits).bind fun _ _ _ => .pure _
  · exact .throw _

theorem keeps_invert (operand : Value) : Keeps (Kempt wording) (invert operand) w := by
  unfold invert
  split
  · rename_i id
    refine .assuming fun kempt => .get ?_
    apply (keeps_newJunction (written_default kempt)).bind
    intro tree _ _
    apply (keeps_append tree (.inr ⟨id, rfl⟩)).bind
    exact fun _ _ _ => keeps_negation tree
  · exact .throw _

/-! ## Telling -/

theorem Tells.look {p : String → Prop} {operation : WorkspaceM α} {next : α → WorkspaceM β}
    {answer : β → Workspace → Prop} (same : (run operation w).2 = w)
    (later : ∀ a, run operation w = (.ok a, w) → Tells p answer (next a) w) :
    Tells p answer (operation >>= next) w := by
  have first : Tells p (fun _ _ => True) operation w := by
    intro telling
    rw [same]
    exact ⟨.refl w, telling, fun _ _ => trivial⟩
  apply first.bind
  intro a after done _ _ _
  obtain rfl : after = w := by rw [← same, done]
  exact later a done

variable {p : String → Prop}

theorem tells_textOf (p : String → Prop) (v : Value) (w : Workspace) :
    Tells p (fun _ _ => True) (textOf v) w := by
  unfold textOf
  split
  · intro telling
    obtain ⟨ripens, told, -⟩ := tells_sql p _ w telling
    exact ⟨ripens, told, fun _ _ => trivial⟩
  · exact .get (.pure fun _ => trivial)

theorem tells_collectBindings (p : String → Prop) (id : NodeId) (w : Workspace) :
    Tells p (fun _ _ => True) (collectBindings id) w := by
  unfold collectBindings
  rw [discard_bind]
  apply (tells_sql p id w).bind
  intro _ _ _ _ _ _
  exact .look rfl fun _ _ => .pure fun _ => trivial

theorem tells_collectParameters (p : String → Prop) (id : NodeId) (w : Workspace) :
    Tells p (fun _ _ => True) (collectParameters id) w :=
  (tells_collectBindings p id w).bind fun _ _ _ _ _ _ => .get (.pure fun _ => trivial)

theorem tells_outcomeOf (p : String → Prop) (tree : NodeId) (w : Workspace) :
    Tells p (fun _ _ => True) (outcomeOf tree) w := by
  apply (tells_collectBindings p tree w).bind
  intro bindings middle _ _ _ _
  apply Tells.get
  exact (tells_sql p tree middle).bind fun _ _ _ _ _ _ => .pure fun _ => trivial

/-! ## Operations -/

/-- What only builds compiles nothing. -/
theorem Keeps.quietly {operation : WorkspaceM α} (keeps : Keeps (Kempt wording) operation w)
    (acts : Acts Policy.tame.quiet w operation) : Keeps (Tidy wording) operation w where
  after tidy := by
    obtain ⟨trace, moves⟩ := acts tidy.kempt.made
    have silent : ¬ Policy.tame.quiet.renders := id
    exact ⟨keeps.after tidy.kempt, tidy.told.moves silent Policy.tame_noList moves⟩

theorem Keeps.aloud {operation : WorkspaceM α} {answer : α → Workspace → Prop}
    (keeps : Keeps (Kempt wording) operation w) (tells : Tells Text.Bare answer operation w)
    (hushed : w.Hushed Text.Bare) : Keeps (Tidy wording) operation w where
  after tidy :=
    ⟨keeps.after tidy.kempt, (tells ⟨tidy.kempt.made, hushed, tidy.told⟩).2.1.told⟩

theorem tidies_add (tree : NodeId) {description types : Value}
    (allowed : Policy.tame.Types types) (suits : w.Suits wording description) :
    Keeps (Tidy wording) (add tree description types) w :=
  (keeps_add tree allowed suits).quietly (acts_add trivial tree description allowed)

theorem tidies_textOf {field : Value} {description : String → Value}
    (tells : w.Tells wording field description) : Keeps (Tidy wording) (textOf field) w :=
  (keeps_textOf kempt_lasts field w).aloud (tells_textOf _ field w) tells.1

theorem tidies_addTest (tree : NodeId) {field : Value} {test : String}
    (tells : w.Tells wording field fun s => .text (s ++ test)) :
    Keeps (Tidy wording) (addTest tree field test) w := by
  apply (tidies_textOf tells).bind
  intro s after done
  refine tidies_add tree ?_ (tells.2 s after done)
  rintro _ _ ⟨⟩

theorem tidies_addComparison (tree : NodeId) {operator : String} {field value type : Value}
    (allowed : Policy.tame.type type) (tells : w.Tells wording field fun s =>
      .dict .passing [(.text (s ++ " " ++ operator), value)]) :
    Keeps (Tidy wording) (addComparison tree operator field value type) w := by
  apply (tidies_textOf tells).bind
  intro s after done
  apply Keeps.get
  split
  · exact tidies_add tree (Policy.tame.types_empty _) (tells.2 s after done)
  · split
    · exact tidies_add tree (types_single .tame _ field allowed) (tells.2 s after done)
    · exact .look rfl fun _ done => nomatch done

theorem tidies_outcomeOf (tree : NodeId) (hushed : w.Hushed Text.Bare) :
    Keeps (Tidy wording) (outcomeOf tree) w :=
  (keeps_outcomeOf kempt_lasts tree w).aloud (tells_outcomeOf _ tree w) hushed

theorem tidies_newTree {description types connective : Value}
    (sows : w.Sows wording description types connective) :
    Keeps (Tidy wording) (newTree description types connective none) w := by
  apply (keeps_newTree sows).quietly
  exact acts_newTree (p := Policy.tame.quiet) trivial description sows.allowed connective (by simp)

theorem tidies_compileDescription {description types connective : Value}
    (calm : (Operation.compileDescription description types connective).Calm wording w) :
    Keeps (Tidy wording) (compileDescription description types connective) w := by
  have calm := calm.2
  apply Keeps.look rfl
  rintro forest ⟨⟩
  have fresh (sows : w.Sows wording description types connective)
      (hushed : ∀ tree after, run (newTree description types connective none) w =
        (.ok tree, after) → after.Hushed Text.Bare) :
      Keeps (Tidy wording) (newTree description types connective none >>= outcomeOf) w :=
    (tidies_newTree sows).bind fun tree after done => tidies_outcomeOf tree (hushed tree after done)
  cases nested : description.node? with
  | some id =>
      simp only [nested, Option.bind_some] at calm ⊢
      split
      · rename_i tree
        rw [if_pos tree] at calm
        exact tidies_outcomeOf id calm
      · rename_i notTree
        rw [if_neg notTree] at calm
        exact fresh calm.1 calm.2
  | none =>
      simp only [nested, Option.bind_none, Option.isSome_none, Bool.false_eq_true,
        if_false] at calm ⊢
      exact fresh calm.1 calm.2

theorem tidies_run {operation : Operation} (calm : operation.Calm wording w) :
    Keeps (Tidy wording) operation.run w := by
  cases operation with
  | newTree description types connective binder =>
      obtain ⟨rfl, sows⟩ := calm
      exact (tidies_newTree sows).map _
  | newComparison field value type operator =>
      exact ((keeps_newComparison value type calm.1 calm.2).quietly
        (acts_newComparison trivial field value type operator)).map _
  | newUnary symbol argument trailing =>
      exact ((keeps_newUnary argument trailing calm).quietly
        (acts_newUnary trivial symbol trailing fun _ => trivial)).map _
  | newFragment text =>
      exact ((keeps_newFragment calm).quietly (acts_newFragment trivial text)).map _
  | newAbstract =>
      have fits (p : Policy) : Node.abstract.Fits p w.binders.size := trivial
      exact ((keeps_addNode (fits _) trivial rfl).quietly (acts_addNode trivial (fits _))).map _
  | takeIdentifier => exact (keeps_takeIdentifier.quietly (acts_takeIdentifier trivial)).map _
  | add tree description types => exact tidies_add tree calm.1 calm.2
  | append tree condition =>
      exact (keeps_append tree calm).quietly (acts_append trivial tree condition)
  | compare tree comparator field value type => exact tidies_addComparison tree calm.1 calm.2
  | isNull tree field => exact tidies_addTest tree calm
  | isNotNull tree field => exact tidies_addTest tree calm
  | negate tree description types => exact tidies_add tree calm.1 calm.2
  | join connective left right =>
      exact ((keeps_join calm.1 left calm.2).quietly
        (acts_join trivial connective left right)).map _
  | invert operand => exact ((keeps_invert operand).quietly (acts_invert trivial operand)).map _
  | sql id => exact ((keeps_sql kempt_lasts id w).aloud (tells_sql _ id w) calm).map _
  | wrapped id => exact ((keeps_wrapped kempt_lasts id w).aloud (tells_wrapped _ id w) calm).map _
  | compile id => exact ((keeps_compile kempt_lasts id w).aloud (tells_compile _ id w) calm).map _
  | collectBindings id =>
      exact ((keeps_collectBindings kempt_lasts id w).aloud
        (tells_collectBindings _ id w) calm).map _
  | collectParameters id =>
      exact ((keeps_collectParameters kempt_lasts id w).aloud
        (tells_collectParameters _ id w) calm).map _
  | compileDescription description types connective => exact (tidies_compileDescription calm).map _
  | _ => exact calm.elim

end WorkspaceM

namespace Workspace

variable {wording : Wording} {w : Workspace}

theorem fits_of_calm {operation : Operation} (calm : operation.Calm wording w) :
    operation.Fits .tame w := by
  cases operation with
  | newTree description types connective binder =>
      obtain ⟨rfl, sows⟩ := calm
      exact ⟨sows.allowed, by simp⟩
  | newUnary => exact fun _ => trivial
  | add | negate | compare | compileDescription => exact calm.1
  | newBinder | placeholder | reserve | register | bind | expand | configure => exact calm.elim
  | _ => trivial

theorem allows_of_calm {operations : List Operation} (calm : w.Calm wording operations) :
    w.Allows .tame operations := by
  induction operations generalizing w with
  | nil => trivial
  | cons operation rest ih => exact ⟨fits_of_calm calm.1, ih calm.2⟩

theorem calm_append {before rest : List Operation} :
    w.Calm wording (before ++ rest) ↔ w.Calm wording before ∧
      (w.after before).Calm wording rest := by
  induction before generalizing w with
  | nil => simp [Calm, after]
  | cons operation before ih =>
      simp only [List.cons_append, Calm, ih, and_assoc]
      rfl

theorem Drawn.perform (drawn : w.Drawn) (made : w.WellMade) {operation : Operation}
    (calm : operation.Calm wording w) : (w.perform operation).Drawn := by
  obtain ⟨trace, moves⟩ := moves_perform trivial trivial made (fits_of_calm calm)
  have later := drawn.moves (moves.mono Policy.tame_drawn)
  exact ⟨later.identifier, later.own⟩

/-- Calm runs leave tidy workspaces, in which every binder has an identifier of its own. -/
theorem tidy_after {operations : List Operation} (tidy : w.Tidy wording) (drawn : w.Drawn)
    (calm : w.Calm wording operations) :
    (w.after operations).Tidy wording ∧ (w.after operations).Drawn := by
  induction operations generalizing w with
  | nil => exact ⟨tidy, drawn⟩
  | cons operation rest ih =>
      exact ih ((WorkspaceM.tidies_run calm.1).after tidy) (drawn.perform tidy.kempt.made calm.1)
        calm.2

theorem tidy_empty (wording : Wording) (n : Nat) : Tidy wording { nextIdentifier := n } :=
  ⟨⟨rfl, .empty n, neat_empty wording n⟩, told_empty _ n⟩

/-- Rendering makes new lists and changes none that is there. -/
theorem Ripens.shares {after : Workspace} (ripens : w.Ripens after) :
    w.Shares after.toForest where
  additions := ripens.additions
  size := ripens.size
  listAt tree stage made := by
    rcases ripens.node tree with same | ⟨j, rewrite, rendered, found, isOpen, -, now⟩
    · rw [Forest.junction?_congr same]
    · rw [found, Forest.junction?_eq_some.mpr now]
      cases stage with
      | built => simp [Junction.settle, Junction.listAt, Junction.stage, isOpen]
      | compiled =>
          obtain ⟨k, found', closed⟩ := made tree (.inl rfl)
          cases found.symm.trans found'
          simp [isOpen] at closed

/-- What is shown under a unary condition is what it is printed as now. -/
theorem hushed_iff {p : String → Prop} (present : w.Present) : w.Hushed p ↔
    ∀ id u, w.node id = .unary u → u.argument.node? = none → p (w.plainText u.argument) := by
  constructor
  · exact fun hushed => hushed w (.refl w)
  · intro now after ripens id u kind flat
    rw [ripens.shares.plainText present (present.argument id u kind)]
    exact now id u kind flat

theorem hushed_of_nested {p : String → Prop} (nested : w.nodes.all Node.isNested = true) :
    w.Hushed p := by
  intro after _ id u kind flat
  rw [Forest.node] at kind
  cases found : w.nodes[id.index]? with
  | none => simp [found] at kind
  | some node =>
      rw [found, Option.getD_some] at kind
      have member := Array.mem_of_getElem? found
      have here := Array.all_eq_true'.mp nested node member
      simp [kind, Node.isNested, flat] at here

/-- What is rendered after a calm run. -/
structure RenderedAs (wording : Wording) (w : Workspace) (id : NodeId) (s : String) : Prop where
  kempt : w.Kempt wording
  drawn : w.Drawn
  spelled : Spelled Text.Bare w.toForest (.node id) s
  settled : ∃ texts, Settled w.toForest (.node id) texts

theorem Tidy.rendered {after : Workspace} {id : NodeId} {s : String} (tidy : w.Tidy wording)
    (drawn : w.Drawn) (hushed : w.Hushed Text.Bare)
    (done : WorkspaceM.run (WorkspaceM.sql id) w = (.ok s, after)) :
    RenderedAs wording after id s := by
  have made := tidy.kempt.made
  have kempt := (WorkspaceM.keeps_sql WorkspaceM.kempt_lasts id w).after tidy.kempt
  have told := (WorkspaceM.tells_sql Text.Bare id w ⟨made, hushed, tidy.told⟩).2.2
  have settled := (WorkspaceM.settles_sql made id).2
  have moved := WorkspaceM.acts_sql (p := .drawn) trivial id made
  rw [done] at kempt told settled moved
  obtain ⟨trace, moves⟩ := moved
  obtain ⟨texts, settled, -⟩ := settled s rfl
  exact ⟨kempt, drawn.moves moves, told s rfl, texts, settled⟩

end Workspace
end WhereClause
