import WhereClause.Proofs.Asking

/-!
# Runs of operations

What a caller can do with trees, comparisons, binders and settings, one operation after the other.
An operation that fails leaves what it has changed, and the run goes on from there.

* `moves_perform`: every operation is done in moves.
* `exists_traces`: so is every run, apart from the settings.
-/

namespace WhereClause

namespace WorkspaceM

variable {α : Type} {p : Policy} {w : Workspace}

theorem Acts.of_settles (renders : p.renders) {scope : NodeId → Prop}
    {answer : α → Workspace → Prop} {operation : WorkspaceM α}
    (settles : w.WellMade → Settles scope answer operation w) : Acts p w operation := by
  intro made
  obtain ⟨trace, moves⟩ := (settles made).1.moves
  exact ⟨trace, moves.mono (Policy.rendering_within renders)⟩

theorem acts_sql (renders : p.renders) (id : NodeId) : Acts p w (sql id) :=
  .of_settles renders fun made => settles_sql made id

theorem acts_wrapped (renders : p.renders) (id : NodeId) : Acts p w (wrapped id) :=
  .of_settles renders fun made => settles_wrapped made id

theorem acts_compile (renders : p.renders) (id : NodeId) : Acts p w (compile id) :=
  .of_settles renders fun made => settles_compile made id

theorem acts_collectBindings (renders : p.renders) (id : NodeId) :
    Acts p w (collectBindings id) := by
  unfold collectBindings
  rw [discard_bind]
  exact (acts_sql renders id).bind fun _ _ _ _ _ => .look rfl fun _ _ => .pure _

theorem acts_collectParameters (renders : p.renders) (id : NodeId) :
    Acts p w (collectParameters id) :=
  (acts_collectBindings renders id).bind fun _ _ _ _ _ => .get (.pure _)

theorem acts_outcomeOf (renders : p.renders) (tree : NodeId) : Acts p w (outcomeOf tree) := by
  apply (acts_collectBindings renders tree).bind
  intro bindings _ _ _ _
  apply Acts.get
  exact (acts_sql renders tree).bind fun _ _ _ _ _ => .pure _

theorem acts_compileDescription (builds : p.builds) (renders : p.renders) (description : Value)
    {types : Value} (allowed : p.Types types) (connective : Value) :
    Acts p w (compileDescription description types connective) := by
  have fresh : Acts p w (newTree description types connective none >>= outcomeOf) :=
    (acts_newTree builds description allowed connective (by simp)).bind
      fun _ _ _ _ _ => acts_outcomeOf renders _
  apply Acts.look rfl
  intro forest _
  split
  · split
    · exact acts_outcomeOf renders _
    · exact fresh
  · exact fresh

theorem acts_expandConditions (conditions : Value) {b : BinderId}
    (known : b.index < w.binders.size) : Acts p w (expandConditions conditions b) := by
  apply Acts.get
  simp only
  have spend : Acts p w (changeForest
      (·.setBinder b ((w.binder b).expand w.toForest w.settings).2)) :=
    fun _ => Moves.ofBindings known w.toForest (w.binder b).bindings
  apply spend.bind
  intro _ _ after _ _
  apply (acts_log _).bind
  intro _ _ last _ _
  apply Acts.look rfl
  intro forest _
  split
  · exact .pure _
  · exact .throw _

theorem acts_textOf (renders : p.renders) (v : Value) : Acts p w (textOf v) := by
  unfold textOf
  split
  · exact acts_sql renders _
  · exact .get (.pure _)

theorem acts_addTest (builds : p.builds) (renders : p.renders) (tree : NodeId) (field : Value)
    (test : String) : Acts p w (addTest tree field test) := by
  apply (acts_textOf renders field).bind
  intro _ _ _ _ _
  apply acts_add builds tree
  intro _ _ same
  cases same

theorem acts_addNegation (builds : p.builds) (tree : NodeId) (description : Value) {types : Value}
    (allowed : p.Types types) : Acts p w (addNegation tree description types) :=
  acts_add builds tree _ allowed

/-- A type given with a comparison is declared for its field alone. -/
theorem types_single (p : Policy) (mark : Mark) (field : Value) {type : Value}
    (allowed : p.type type) : p.Types (.dict mark [(field, type)]) := by
  intro name declared same
  simp only [declaredType, List.find?_cons, List.find?_nil] at same
  split at same
  · simp only [Option.map_some, Option.getD_some, Except.ok.injEq] at same
    exact same ▸ allowed
  · cases same
    exact p.untyped

theorem acts_addComparison (builds : p.builds) (renders : p.renders) (tree : NodeId)
    (operator : String) (field value : Value) {type : Value} (allowed : p.type type) :
    Acts p w (addComparison tree operator field value type) := by
  apply (acts_textOf renders field).bind
  intro text _ after _ _
  apply Acts.get
  split
  · exact acts_add builds tree _ (p.types_empty _)
  · split
    · exact acts_add builds tree _ (types_single p _ field allowed)
    · exact .look rfl fun _ done => nomatch done

end WorkspaceM

/-- One call of what a caller can call, with its arguments. -/
inductive Operation
  | newTree (description types connective : Value) (binder : Option BinderId)
  | newComparison (field value type operator : Option Value)
  | newUnary (symbol argument trailing : Option Value)
  | newFragment (text : Option Value)
  | newAbstract
  | newBinder (identifier count : Option Value)
  | takeIdentifier
  | add (tree : NodeId) (description types : Value)
  | append (tree : NodeId) (condition : Value)
  | compare (tree : NodeId) (comparator : Comparator) (field value type : Value)
  | isNull (tree : NodeId) (field : Value)
  | isNotNull (tree : NodeId) (field : Value)
  | negate (tree : NodeId) (description types : Value)
  | setConnective (tree : NodeId) (connective : Value)
  | bindInTree (tree : NodeId) (name value type : Value)
  | placeholderOf (tree : NodeId) (token : Value)
  | placeholder (binder : BinderId) (token : Value)
  | reserve (binder : BinderId) (token keeping : Value)
  | register (binder : BinderId) (token value type : Value)
  | bind (binder : BinderId) (name value type : Value)
  | expand (conditions : Value) (binder : BinderId)
  | join (connective : String) (left right : Value)
  | invert (operand : Value)
  | sql (id : NodeId)
  | wrapped (id : NodeId)
  | compile (id : NodeId)
  | collectBindings (id : NodeId)
  | collectParameters (id : NodeId)
  | compileDescription (description types connective : Value)
  | configure (options : Options)
  | reset

namespace Operation

open WorkspaceM in
def run : Operation → WorkspaceM Unit
  | newTree description types connective binder =>
    discard (WorkspaceM.newTree description types connective binder)
  | newComparison field value type operator =>
    discard (WorkspaceM.newComparison field value type operator)
  | newUnary symbol argument trailing => discard (WorkspaceM.newUnary symbol argument trailing)
  | newFragment text => discard (WorkspaceM.newFragment text)
  | newAbstract => discard (addNode .abstract)
  | newBinder identifier count => discard (WorkspaceM.newBinder identifier count)
  | takeIdentifier => discard WorkspaceM.takeIdentifier
  | add tree description types => WorkspaceM.add tree description types
  | append tree condition => WorkspaceM.append tree condition
  | compare tree comparator field value type =>
    addComparison tree comparator.operator field value type
  | isNull tree field => addTest tree field " IS NULL"
  | isNotNull tree field => addTest tree field " IS NOT NULL"
  | negate tree description types => addNegation tree description types
  | setConnective tree connective => WorkspaceM.setConnective tree connective
  | bindInTree tree name value type => WorkspaceM.bindInTree tree name value type
  | placeholderOf tree token => do discard (WorkspaceM.placeholder (← junction tree).binder token)
  | placeholder binder token => discard (WorkspaceM.placeholder binder token)
  | reserve binder token keeping => discard (reserveIn binder token keeping)
  | register binder token value type => discard (registerIn binder token value type)
  | bind binder name value type => discard (bindIn binder name value type)
  | expand conditions binder => discard (expandConditions conditions binder)
  | join connective left right => discard (WorkspaceM.join connective left right)
  | invert operand => discard (WorkspaceM.invert operand)
  | sql id => discard (WorkspaceM.sql id)
  | wrapped id => discard (WorkspaceM.wrapped id)
  | compile id => discard (WorkspaceM.compile id)
  | collectBindings id => discard (WorkspaceM.collectBindings id)
  | collectParameters id => discard (WorkspaceM.collectParameters id)
  | compileDescription description types connective =>
    discard (WorkspaceM.compileDescription description types connective)
  | configure options => discard (WorkspaceM.configure options)
  | reset => discard resetSettings

/-- The operation is about the settings alone. -/
def Adjusts (operation : Operation) : Prop :=
  (∃ options, operation = configure options) ∨ operation = reset

/-- The arguments are allowed, a binder that is given is one that was made, and an option is given
only once. -/
def Fits (p : Policy) (w : Workspace) : Operation → Prop
  | newTree _ types _ binder => p.Types types ∧ ∀ id ∈ binder, id.index < w.binders.size
  | newUnary _ argument _ =>
    (argument.getD .null).node? = none → p.argument (argument.getD .null)
  | newBinder identifier _ => identifier = none ∨ p.given
  | add _ _ types | negate _ _ types | compileDescription _ types _ => p.Types types
  | compare _ _ _ _ type => p.type type
  | placeholder binder _ | reserve binder _ _ | register binder _ _ _ | bind binder _ _ _
  | expand _ binder => binder.index < w.binders.size
  | configure options => (Table.keys options).Nodup
  | _ => True

end Operation

namespace Workspace

/-- The workspace after an operation, whether or not it fails. -/
def perform (w : Workspace) (operation : Operation) : Workspace := (operation.run.run w).2

def after (w : Workspace) (operations : List Operation) : Workspace :=
  operations.foldl perform w

/-- Every operation fits the workspace that it is performed in. -/
def Allows (p : Policy) : Workspace → List Operation → Prop
  | _, [] => True
  | w, operation :: rest => operation.Fits p w ∧ Allows p (w.perform operation) rest

theorem allows_append {p : Policy} {w : Workspace} {before rest : List Operation} :
    w.Allows p (before ++ rest) ↔ w.Allows p before ∧ (w.after before).Allows p rest := by
  induction before generalizing w with
  | nil => simp [Allows, after]
  | cons operation before ih =>
      simp only [List.cons_append, Allows, ih, and_assoc]
      rfl

end Workspace

namespace WorkspaceM

variable {p : Policy} {w : Workspace}

theorem acts_run (builds : p.builds) (renders : p.renders) {operation : Operation}
    (fits : operation.Fits p w) (works : ¬ operation.Adjusts) : Acts p w operation.run := by
  cases operation with
  | newTree description types connective binder =>
      exact (acts_newTree builds description fits.1 connective fits.2).map _
  | newComparison field value type operator =>
      exact (acts_newComparison builds field value type operator).map _
  | newUnary symbol argument trailing => exact (acts_newUnary builds symbol trailing fits).map _
  | newFragment text => exact (acts_newFragment builds text).map _
  | newAbstract => exact (acts_addNode builds (show Node.abstract.Fits p _ from trivial)).map _
  | newBinder identifier count => exact (acts_newBinder builds fits count).map _
  | takeIdentifier => exact (acts_takeIdentifier builds).map _
  | add tree description types => exact acts_add builds tree description fits
  | append tree condition => exact acts_append builds tree condition
  | compare tree comparator field value type =>
      exact acts_addComparison builds renders tree _ field value fits
  | isNull tree field => exact acts_addTest builds renders tree field _
  | isNotNull tree field => exact acts_addTest builds renders tree field _
  | negate tree description types => exact acts_addNegation builds tree description fits
  | setConnective tree connective => exact acts_setConnective builds tree connective
  | bindInTree tree name value type => exact acts_bindInTree builds tree name value type
  | placeholderOf tree token =>
      intro made
      refine Acts.look (same_junction tree w) (fun j done => ?_) made
      exact (acts_placeholder (made.binder tree j (found_of_junction done)) token).map _
  | placeholder binder token => exact (acts_placeholder fits token).map _
  | reserve binder token keeping => exact (acts_reserveIn fits token keeping).map _
  | register binder token value type => exact (acts_registerIn builds fits token value type).map _
  | bind binder name value type => exact (acts_bindIn builds fits name value type).map _
  | expand conditions binder => exact (acts_expandConditions conditions fits).map _
  | join connective left right => exact (acts_join builds connective left right).map _
  | invert operand => exact (acts_invert builds operand).map _
  | sql id => exact (acts_sql renders id).map _
  | wrapped id => exact (acts_wrapped renders id).map _
  | compile id => exact (acts_compile renders id).map _
  | collectBindings id => exact (acts_collectBindings renders id).map _
  | collectParameters id => exact (acts_collectParameters renders id).map _
  | compileDescription description types connective =>
      exact (acts_compileDescription builds renders description fits connective).map _
  | configure options => exact absurd (.inl ⟨options, rfl⟩) works
  | reset => exact absurd (.inr rfl) works

theorem run_configure_ok {options : Options} {settings : Settings}
    (updated : w.settings.update options = .ok settings) : run (configure options) w =
      (.ok settings,
        { w with settings, records := w.records ++ [⟨.settingsUpdated options, w.toForest⟩] }) := by
  simp only [configure, run_bind, run_get, updated]
  rfl

theorem run_configure_error {options : Options} {fault : Fault}
    (refused : w.settings.update options = .error fault) :
    run (configure options) w = (.error fault, w) := by
  simp only [configure, run_bind, run_get, refused]
  rfl

end WorkspaceM

namespace Workspace

variable {p : Policy} {w : Workspace}

theorem settings_of_moves {after : Workspace} {trace : List Handout}
    (moves : Moves p w trace after) :
    after.settings = w.settings := by
  induction moves with
  | refl => rfl
  | tail _ move ih => cases move <;> exact ih

theorem WellMade.withSettings (made : w.WellMade) (settings : Settings) :
    WellMade { w with settings } :=
  ⟨made.binder, made.flat, made.settled⟩

theorem perform_configure {options : Options} {settings : Settings}
    (updated : w.settings.update options = .ok settings) : w.perform (.configure options) =
      { w with settings, records := w.records ++ [⟨.settingsUpdated options, w.toForest⟩] } := by
  show (WorkspaceM.run (discard (WorkspaceM.configure options)) w).2 = _
  rw [WorkspaceM.snd_run_discard, WorkspaceM.run_configure_ok updated]

theorem perform_configure_refused {options : Options} {fault : Fault}
    (refused : w.settings.update options = .error fault) : w.perform (.configure options) = w := by
  show (WorkspaceM.run (discard (WorkspaceM.configure options)) w).2 = _
  rw [WorkspaceM.snd_run_discard, WorkspaceM.run_configure_error refused]

/-- The settings after an update are as they were, those at first, or the updated ones. -/
theorem forest_of_adjusts {operation : Operation} (adjusts : operation.Adjusts) :
    ∃ settings records, w.perform operation = { w with settings, records } ∧
      (settings = w.settings ∨ settings = {} ∨
        ∃ options, operation = .configure options ∧ w.settings.update options = .ok settings) := by
  rcases adjusts with ⟨options, rfl⟩ | rfl
  · cases updated : w.settings.update options with
    | error fault =>
        exact ⟨w.settings, w.records, perform_configure_refused updated, .inl rfl⟩
    | ok settings =>
        exact ⟨settings, _, perform_configure updated, .inr (.inr ⟨options, rfl, updated⟩)⟩
  · exact ⟨{}, w.records, rfl, .inr (.inl rfl)⟩

theorem acts_of_works (builds : p.builds) (renders : p.renders) (made : w.WellMade)
    {operation : Operation} (fits : operation.Fits p w) (works : ¬ operation.Adjusts) :
    ∃ trace, Moves p w trace (w.perform operation) :=
  WorkspaceM.acts_run builds renders fits works made

/-- Every operation is done in moves, apart from what it changes in the settings. -/
theorem moves_perform (builds : p.builds) (renders : p.renders) (made : w.WellMade)
    {operation : Operation} (fits : operation.Fits p w) :
    ∃ trace, Moves p w trace { w.perform operation with settings := w.settings } := by
  by_cases adjusts : operation.Adjusts
  · obtain ⟨settings, records, same, -⟩ := forest_of_adjusts (w := w) adjusts
    rw [same]
    exact ⟨[], .single (.note records w.nextMark)⟩
  · obtain ⟨trace, moves⟩ := acts_of_works builds renders made fits adjusts
    rw [← settings_of_moves moves]
    exact ⟨trace, moves⟩

theorem WellMade.perform (builds : p.builds) (renders : p.renders) (made : w.WellMade)
    {operation : Operation} (fits : operation.Fits p w) : (w.perform operation).WellMade := by
  obtain ⟨trace, moves⟩ := moves_perform builds renders made fits
  exact (made.moves moves).withSettings (w.perform operation).settings

theorem WellMade.after (builds : p.builds) (renders : p.renders) (made : w.WellMade)
    {operations : List Operation} (allows : w.Allows p operations) :
    (w.after operations).WellMade := by
  induction operations generalizing w with
  | nil => exact made
  | cons operation rest ih => exact ih (made.perform builds renders allows.1) allows.2

/-- What the operations of a run hand out in turn, each in moves and under the settings then in
force. -/
def Traces (p : Policy) : Workspace → List Operation → List Handout → Prop
  | _, [], trace => trace = []
  | w, operation :: rest, trace => ∃ first later, trace = first ++ later ∧
      Moves p w first { w.perform operation with settings := w.settings } ∧
      Traces p (w.perform operation) rest later

theorem exists_traces (builds : p.builds) (renders : p.renders) (made : w.WellMade)
    {operations : List Operation} (allows : w.Allows p operations) :
    ∃ trace, w.Traces p operations trace := by
  induction operations generalizing w with
  | nil => exact ⟨[], rfl⟩
  | cons operation rest ih =>
      obtain ⟨first, moves⟩ := moves_perform builds renders made allows.1
      obtain ⟨later, traces⟩ := ih (made.perform builds renders allows.1) allows.2
      exact ⟨first ++ later, first, later, rfl, moves, traces⟩

end Workspace
end WhereClause
