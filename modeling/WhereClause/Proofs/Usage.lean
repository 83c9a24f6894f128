import WhereClause.Proofs.Keeping
import WhereClause.Proofs.Uses

/-!
# How binders are used

A workspace does with its binders what can be done with a binder alone: it makes new ones, and calls
those that it has. Trees are made and rendered by calls under the settings in force, and none of
these gives a type as bytes. Other calls are those that a caller asks for.

* `used_after`: in every run, each binder came to be what it is by calls, and by calls of one kind
  where those of the caller are of this kind.
-/

namespace WhereClause

/-- The binder came to be what it is by calls of the kind. -/
def Binder.UsedBy (kind : Use → Prop) (b : Binder) : Prop :=
  ∃ identifier first calls, (∀ call ∈ calls, kind call) ∧
    b = uses { identifier, count := first } calls

theorem Binder.usedBy_fresh (kind : Use → Prop) (identifier : String) (count : Int) :
    UsedBy kind { identifier, count } :=
  ⟨identifier, count, [], nofun, rfl⟩

theorem Binder.UsedBy.use {kind : Use → Prop} {b : Binder} (used : b.UsedBy kind) {call : Use}
    (own : kind call) : (b.use call).UsedBy kind := by
  obtain ⟨identifier, first, calls, all, rfl⟩ := used
  refine ⟨identifier, first, calls ++ [call], fun other member => ?_, by simp [uses]⟩
  rcases List.mem_append.mp member with before | last
  · exact all other before
  · exact List.mem_singleton.mp last ▸ own

/-- The type is given as bytes. -/
def Value.IsBytes (v : Value) : Prop := ∃ bytes, v = .bytes bytes

/-- What trees are made and rendered by under the settings is of the kind. -/
structure Settings.Calls (settings : Settings) (kind : Use → Prop) : Prop where
  reserve : ∀ token keeping, kind (.reserve settings token keeping)
  register : ∀ token value type, ¬ type.IsBytes → kind (.register settings token value type)
  expand : ∀ forest, kind (.expand forest settings)

namespace Workspace

variable {kind : Use → Prop} {settings : Settings} {w after : Workspace}

/-- Under the settings, with binders that came to be what they are by calls of the kind. -/
structure Using (kind : Use → Prop) (settings : Settings) (w : Workspace) : Prop where
  settings : w.settings = settings
  used : ∀ id, (w.binder id).UsedBy kind

theorem Using.of_binders (using' : w.Using kind settings) (binders : after.binders = w.binders)
    (same : after.settings = w.settings) : after.Using kind settings where
  settings := same.trans using'.settings
  used id := by
    have kept : after.binder id = w.binder id := by simp only [Forest.binder, binders]
    exact kept ▸ using'.used id

theorem Using.push (using' : w.Using kind settings) (identifier : String) (count : Int)
    (binders : after.binders = w.binders.push { identifier, count })
    (same : after.settings = w.settings) : after.Using kind settings where
  settings := same.trans using'.settings
  used id := by
    rw [Forest.binder_of_push binders]
    split
    · exact Binder.usedBy_fresh kind identifier count
    · exact using'.used id

theorem Using.setBinder (using' : w.Using kind settings) (id : BinderId) {call : Use}
    (own : kind call) {b : Binder} (called : b = (w.binder id).use call) :
    Using kind settings { w with toForest := w.setBinder id b } where
  settings := using'.settings
  used other := by
    simp only [Forest.binder_setBinder]
    split
    · exact called ▸ (using'.used id).use own
    · exact using'.used other

end Workspace

namespace WorkspaceM

open Workspace (Using)

variable {α : Type} {kind : Use → Prop} {settings : Settings} {w : Workspace}

/-! ## Making and filling -/

/-- The operation is about no binder. -/
theorem uses_of_binders {operation : WorkspaceM α}
    (binders : (run operation w).2.binders = w.binders)
    (same : (run operation w).2.settings = w.settings) :
    Keeps (Using kind settings) operation w :=
  ⟨fun using' => using'.of_binders binders same⟩

theorem uses_addBinder (identifier : String) (count : Int) :
    Keeps (Using kind settings) (addBinder { identifier, count }) w :=
  ⟨fun using' => using'.push identifier count rfl rfl⟩

theorem uses_freshBinder : Keeps (Using kind settings) freshBinder w := by
  unfold freshBinder
  exact (uses_of_binders rfl rfl).bind fun _ _ _ => uses_addBinder _ 0

theorem uses_onBinder (id : BinderId) {operation : Binder → Except Fault α × Binder}
    (call : w.settings = settings → ∃ call, kind call ∧
      (operation (w.binder id)).2 = (w.binder id).use call) :
    Keeps (Using kind settings) (onBinder id operation) w := by
  constructor
  intro using'
  obtain ⟨call, own, called⟩ := call using'.settings
  simp only [onBinder, run_bind, run_get, run_changeForest]
  have after := using'.setBinder id own called
  cases (operation (w.binder id)).1 <;> exact after

theorem uses_newJunction (connective : String) :
    Keeps (Using kind settings) (newJunction connective) w := by
  unfold newJunction
  exact uses_freshBinder.bind fun _ _ _ => uses_of_binders rfl rfl

theorem uses_attach (tree : NodeId) (condition : Value) :
    Keeps (Using kind settings) (attach tree condition) w := by
  unfold attach
  exact .look (same_junction tree w) fun j _ => uses_of_binders rfl rfl

theorem uses_membershipType (declared : Value) :
    Keeps (Using kind settings) (membershipType declared) w := by
  refine .get ?_
  dsimp only
  generalize (if w.isTruthy declared then declared else .text w.settings.defaultMultiType) = type
  have lengthened : Keeps (Using kind settings)
      (changeForest (·.extendList type w.settings.markerLetters)) w :=
    uses_of_binders (Forest.binders_extendList ..) rfl
  split
  · exact .pure _
  · split
    · exact .pure _
    · exact .throw _
  · split
    · exact .throw _
    · split
      · exact .pure _
      · split
        · exact lengthened.bind fun _ _ _ => .pure _
        · exact .throw _

/-- The values of a membership test are bound with no type that is given as bytes. -/
theorem not_isBytes_of_membershipType {declared type : Value} {after : Workspace}
    (done : run (membershipType declared) w = (.ok type, after)) : ¬ type.IsBytes := by
  rintro ⟨bytes, rfl⟩
  simp only [membershipType, run_bind, run_get] at done
  generalize (if w.isTruthy declared then declared else .text w.settings.defaultMultiType) = type
    at done
  split at done
  · cases done
  · split at done <;> cases done
  · split at done
    · cases done
    · rename_i found
      split at done
      · cases done
        cases found
      · split at done
        · cases done
          cases found
        · cases done

theorem not_isBytes_ofText? (type : Option String) : ¬ (Value.ofText? type).IsBytes := by
  rintro ⟨bytes, same⟩
  cases type <;> cases same

section Building

variable (suits : settings.Calls kind)
include suits

theorem uses_register (id : BinderId) (token value : Value) {type : Value}
    (textual : ¬ type.IsBytes) : Keeps (Using kind settings)
      (onBinder id fun b => b.register w.settings token value type) w := by
  refine uses_onBinder id fun same => ⟨.register w.settings token value type, ?_, rfl⟩
  exact same ▸ suits.register token value type textual

theorem uses_newComparison (field value type operator : Option Value) :
    Keeps (Using kind settings) (newComparison field value type operator) w := by
  unfold newComparison
  refine Keeps.bind (uses_of_binders rfl rfl) fun identifier middle _ => ?_
  dsimp only
  split
  · refine Keeps.bind (uses_addBinder _ 0) fun binder last _ => ?_
    refine Keeps.bind ?_ fun operand _ _ => uses_of_binders rfl rfl
    unfold newOperand
    split
    · exact .pure _
    · refine .get (Keeps.bind ?_ fun _ _ _ => .pure _)
      exact uses_register suits _ _ _ (not_isBytes_ofText? _)
  · exact .throw _

theorem uses_buildComparison (key : Key) (value type : Value) :
    Keeps (Using kind settings) (buildComparison key value type) w := by
  unfold buildComparison
  exact (uses_newComparison suits _ _ _ _).bind fun _ _ _ => .pure _

theorem uses_buildMembership (tree : NodeId) (key : Key) (value : Value) {type : Value}
    (textual : ¬ type.IsBytes) :
    Keeps (Using kind settings) (buildMembership tree key value type) w := by
  unfold buildMembership
  refine .look (same_junction tree w) fun j _ => .get ?_
  exact (uses_register suits _ _ _ textual).bind fun _ _ _ => .pure _

theorem uses_buildField (tree : NodeId) (types : Value) (key : Key) (value : Value) :
    Keeps (Using kind settings) (buildField tree types key value) w := by
  unfold buildField
  refine Keeps.bind (.of_same ?_) fun declared middle _ => ?_
  · cases declaredType types key.field <;> rfl
  · split
    · refine (uses_membershipType _).bind fun type last done => ?_
      split
      · exact uses_buildComparison suits _ _ _
      · exact uses_buildMembership suits tree key value (not_isBytes_of_membershipType done)
    · exact uses_buildComparison suits _ _ _

end Building

mutual
theorem uses_build (suits : settings.Calls kind) (tree : NodeId) (types : Value) (w : Workspace) :
    (item : Item) → Keeps (Using kind settings) (build tree types item) w
  | .raw _ | .nested _ => by
      unfold build
      exact .pure _
  | .field key value => by
      unfold build
      exact (uses_buildField suits tree types key value).map _
  | .group connective items => by
      unfold build
      split
      · exact (uses_of_binders rfl rfl).bind fun _ _ _ => .pure _
      · refine (uses_newJunction _).bind fun id middle _ => ?_
        exact (uses_extend suits id types items middle).bind fun _ _ _ => .pure _
  | .negation items => by
      unfold build
      split
      · exact (uses_of_binders rfl rfl).bind fun _ _ _ => .pure _
      · refine .get ((uses_newJunction _).bind fun id middle _ => ?_)
        refine (uses_extend suits id types items middle).bind fun _ _ _ => ?_
        exact (uses_of_binders rfl rfl).bind fun _ _ _ => .pure _

theorem uses_extend (suits : settings.Calls kind) (tree : NodeId) (types : Value) :
    (items : List Item) → (w : Workspace) →
      Keeps (Using kind settings) (extend tree types items) w
  | [], w => by
      unfold extend
      exact .pure _
  | item :: rest, w => by
      unfold extend
      refine (uses_build suits tree types w item).bind fun made middle _ => ?_
      cases made with
      | none => exact uses_extend suits tree types rest middle
      | some condition =>
          exact (uses_attach tree condition).bind fun _ last _ =>
            uses_extend suits tree types rest last
end

section Building

variable (suits : settings.Calls kind)
include suits

theorem uses_add (tree : NodeId) (description types : Value) (w : Workspace) :
    Keeps (Using kind settings) (add tree description types) w := by
  unfold add
  rw [discard_bind]
  refine .look (same_openJunction tree w) fun j _ => ?_
  refine Keeps.bind (uses_of_binders rfl rfl) fun items middle _ => .get ?_
  exact uses_extend suits tree _ _ _

theorem uses_planted (description types : Value) (b : BinderId) (connective : Connective)
    (w : Workspace) : Keeps (Using kind settings) (do
      match connective.toValue.toText with
      | .error reason => MonadExcept.throw (.invalid [⟨"conjunction", reason⟩])
      | .ok connective =>
        let tree ← addNode (.junction { connective := .text connective, binder := b })
        if (← MonadState.get).isTruthy description then add tree description types
        return tree) w := by
  split
  · exact .throw _
  · refine Keeps.bind (uses_of_binders rfl rfl) fun tree middle _ => .get ?_
    dsimp only
    split
    · exact (uses_add suits tree description types middle).bind fun _ _ _ => .pure _
    · exact .pure _

theorem uses_newTree (description types connective : Value) (binder : Option BinderId)
    (w : Workspace) :
    Keeps (Using kind settings) (newTree description types connective binder) w := by
  have planted := uses_planted suits description types
  cases binder with
  | some id =>
      unfold newTree
      dsimp only
      split
      · exact .get (.look (same_connectiveOf _ w) fun connective _ => planted id connective w)
      · exact .look (same_connectiveOf _ w) fun connective _ => planted id connective w
  | none =>
      unfold newTree
      dsimp only
      split
      · exact .get (.look (same_connectiveOf _ w) fun connective _ =>
          uses_freshBinder.bind fun b middle _ => planted b connective middle)
      · exact .look (same_connectiveOf _ w) fun connective _ =>
          uses_freshBinder.bind fun b middle _ => planted b connective middle

end Building

theorem uses_append (tree : NodeId) (condition : Value) :
    Keeps (Using kind settings) (append tree condition) w := by
  unfold append
  rw [discard_bind]
  exact .look (same_openJunction tree w) fun _ _ => uses_attach tree condition

theorem uses_setConnective (tree : NodeId) (connective : Value) :
    Keeps (Using kind settings) (setConnective tree connective) w := by
  unfold setConnective
  rw [discard_bind]
  refine .look (same_openJunction tree w) fun _ _ => ?_
  refine .look (same_connectiveOf connective w) fun connective _ => ?_
  exact .look (same_junction tree w) fun _ _ => uses_of_binders rfl rfl

theorem uses_newBinder (identifier count : Option Value) :
    Keeps (Using kind settings) (newBinder identifier count) w := by
  unfold newBinder
  cases identifier with
  | some v =>
      dsimp only
      rw [pure_bind]
      split
      · exact uses_addBinder _ _
      · exact .throw _
  | none =>
      refine Keeps.bind (uses_of_binders rfl rfl) fun given middle _ => ?_
      dsimp only
      split
      · exact uses_addBinder _ _
      · exact .throw _

theorem uses_newUnary (symbol argument trailing : Option Value) :
    Keeps (Using kind settings) (newUnary symbol argument trailing) w := by
  unfold newUnary
  split
  · exact uses_of_binders rfl rfl
  · exact .throw _

theorem uses_newFragment (text : Option Value) :
    Keeps (Using kind settings) (newFragment text) w := by
  unfold newFragment
  split
  · exact uses_of_binders rfl rfl
  · exact .throw _

theorem uses_join (connective : String) (left right : Value) :
    Keeps (Using kind settings) (join connective left right) w := by
  unfold join
  split
  · refine (uses_newJunction _).bind fun tree _ _ => ?_
    refine (uses_append tree _).bind fun _ _ _ => ?_
    exact (uses_append tree right).bind fun _ _ _ => .pure _
  · exact .throw _

theorem uses_invert (operand : Value) : Keeps (Using kind settings) (invert operand) w := by
  unfold invert
  split
  · refine .get ((uses_newJunction _).bind fun tree _ _ => ?_)
    exact (uses_append tree _).bind fun _ _ _ => uses_of_binders rfl rfl
  · exact .throw _

/-! ## Rendering and calling -/

section Rendering

variable (suits : settings.Calls kind)
include suits

theorem uses_expandTree (j : Junction) : Keeps (Using kind settings) (expandTree j) w := by
  unfold expandTree
  refine .get ?_
  dsimp only
  split
  · refine Keeps.bind ⟨fun using' => ?_⟩ fun _ _ _ => ?_
    · refine using'.setBinder j.binder (suits.expand w.toForest) ?_
      rw [← using'.settings]
      rfl
    · exact Keeps.bind (uses_of_binders rfl rfl) fun _ _ _ => .pure _
  · exact .pure _

theorem uses_compileJunction {sql : NodeId → WorkspaceM String}
    (asked : ∀ id w, Keeps (Using kind settings) (sql id) w) (id : NodeId) (j : Junction) :
    Keeps (Using kind settings) (compileJunction sql id j) w := by
  unfold compileJunction
  split
  · exact .pure _
  · refine (uses_expandTree suits j).bind fun expanded middle _ => ?_
    refine (keeps_renderAll asked _ middle).bind fun parts last _ => ?_
    exact Keeps.bind (uses_of_binders rfl rfl) fun _ _ _ => .pure _

theorem uses_lasts : Lasts (Using kind settings) :=
  fun _ _ asked _ id j _ => uses_compileJunction suits asked id j

theorem uses_addTest (tree : NodeId) (field : Value) (test : String) :
    Keeps (Using kind settings) (addTest tree field test) w :=
  (keeps_textOf (uses_lasts suits) field w).bind fun _ middle _ => uses_add suits tree _ _ middle

theorem uses_addComparison (tree : NodeId) (operator : String) (field value type : Value) :
    Keeps (Using kind settings) (addComparison tree operator field value type) w := by
  unfold addComparison
  refine (keeps_textOf (uses_lasts suits) field w).bind fun text middle _ => .get ?_
  dsimp only
  split
  · exact uses_add suits tree _ _ middle
  · split
    · exact uses_add suits tree _ _ middle
    · exact .throw _

theorem uses_compileDescription (description types connective : Value) :
    Keeps (Using kind settings) (compileDescription description types connective) w := by
  have fresh : Keeps (Using kind settings)
      (newTree description types connective none >>= outcomeOf) w :=
    (uses_newTree suits description types connective none w).bind
      fun tree middle _ => keeps_outcomeOf (uses_lasts suits) tree middle
  refine .look rfl fun forest _ => ?_
  split
  · split
    · exact keeps_outcomeOf (uses_lasts suits) _ w
    · exact fresh
  · exact fresh

theorem uses_expandConditions (conditions : Value) (b : BinderId) :
    Keeps (Using kind settings) (expandConditions conditions b) w := by
  unfold expandConditions
  refine .get ?_
  dsimp only
  refine Keeps.bind ⟨fun using' => ?_⟩ fun _ middle _ => ?_
  · refine using'.setBinder b (suits.expand w.toForest) ?_
    rw [← using'.settings]
    rfl
  · refine Keeps.bind (uses_of_binders rfl rfl) fun _ last _ => ?_
    refine .look rfl fun forest _ => ?_
    split
    · exact .pure _
    · exact .throw _

theorem uses_reserve (id : BinderId) (token : Value) (keeping : Bool) (answer : Reservation → α) :
    Keeps (Using kind settings) (onBinder id fun b =>
      let (reservation, b) := b.reserve w.settings token keeping
      (.ok (answer reservation), b)) w := by
  refine uses_onBinder id fun same => ⟨.reserve w.settings token keeping, ?_, rfl⟩
  exact same ▸ suits.reserve token keeping

theorem uses_placeholder (id : BinderId) (token : Value) (w : Workspace) :
    Keeps (Using kind settings) (placeholder id token) w :=
  .get (uses_reserve suits id token true Reservation.name)

theorem uses_reserveIn (id : BinderId) (token keeping : Value) :
    Keeps (Using kind settings) (reserveIn id token keeping) w := by
  refine .get ((uses_reserve suits id token _ fun reservation => reservation).bind fun _ _ _ => ?_)
  exact Keeps.bind (uses_of_binders rfl rfl) fun _ _ _ => .pure _

end Rendering

theorem uses_bind (id : BinderId) {name value type : Value}
    (own : kind (.bind settings name value type)) :
    Keeps (Using kind settings) (onBinder id fun b => b.bind w.settings name value type) w :=
  uses_onBinder id fun same => ⟨.bind w.settings name value type, same ▸ own, rfl⟩

theorem uses_bindIn (id : BinderId) {name value type : Value}
    (own : kind (.bind settings name value type)) :
    Keeps (Using kind settings) (bindIn id name value type) w :=
  .get ((uses_bind id own).bind fun _ _ _ => .pure _)

theorem uses_bindInTree (tree : NodeId) {name value type : Value}
    (own : kind (.bind settings name value type)) :
    Keeps (Using kind settings) (bindInTree tree name value type) w := by
  unfold bindInTree
  exact .look (same_openJunction tree w) fun j _ => .get (uses_bind j.binder own)

theorem uses_registerIn (id : BinderId) {token value type : Value}
    (own : kind (.register settings token value type)) :
    Keeps (Using kind settings) (registerIn id token value type) w := by
  refine .get (Keeps.bind ?_ fun _ _ _ => .pure _)
  exact uses_onBinder id fun same =>
    ⟨.register w.settings token value type, same ▸ own, rfl⟩

end WorkspaceM

/-! ## Runs -/

/-- What a caller asks of a binder under the settings is of the kind. -/
def Operation.Calls (kind : Use → Prop) (settings : Settings) : Operation → Prop
  | register _ token value type => kind (.register settings token value type)
  | bind _ name value type | bindInTree _ name value type => kind (.bind settings name value type)
  | _ => True

namespace Workspace

variable {kind : Use → Prop} {w : Workspace}

open WorkspaceM in
theorem Using.run {settings : Settings} (suits : settings.Calls kind) {operation : Operation}
    (calls : operation.Calls kind settings) (works : ¬ operation.Adjusts) :
    Keeps (Using kind settings) operation.run w := by
  cases operation with
  | newTree description types connective binder =>
      exact (uses_newTree suits description types connective binder w).map _
  | newComparison field value type operator =>
      exact (uses_newComparison suits field value type operator).map _
  | newUnary symbol argument trailing => exact (uses_newUnary symbol argument trailing).map _
  | newFragment text => exact (uses_newFragment text).map _
  | newAbstract => exact Keeps.map (uses_of_binders rfl rfl) _
  | newBinder identifier count => exact (uses_newBinder identifier count).map _
  | takeIdentifier => exact Keeps.map (uses_of_binders rfl rfl) _
  | add tree description types => exact uses_add suits tree description types w
  | append tree condition => exact uses_append tree condition
  | compare tree comparator field value type =>
      exact uses_addComparison suits tree _ field value type
  | isNull tree field => exact uses_addTest suits tree field _
  | isNotNull tree field => exact uses_addTest suits tree field _
  | negate tree description types => exact uses_add suits tree _ types w
  | setConnective tree connective => exact uses_setConnective tree connective
  | bindInTree tree name value type => exact uses_bindInTree tree calls
  | placeholderOf tree token =>
      refine .look (same_junction tree w) fun j _ => ?_
      exact (uses_placeholder suits j.binder token w).map _
  | placeholder binder token => exact (uses_placeholder suits binder token w).map _
  | reserve binder token keeping => exact (uses_reserveIn suits binder token keeping).map _
  | register binder token value type => exact (uses_registerIn binder calls).map _
  | bind binder name value type => exact (uses_bindIn binder calls).map _
  | expand conditions binder => exact (uses_expandConditions suits conditions binder).map _
  | join connective left right => exact (uses_join connective left right).map _
  | invert operand => exact (uses_invert operand).map _
  | sql id => exact (keeps_sql (uses_lasts suits) id w).map _
  | wrapped id => exact (keeps_wrapped (uses_lasts suits) id w).map _
  | compile id => exact (keeps_compile (uses_lasts suits) id w).map _
  | collectBindings id => exact (keeps_collectBindings (uses_lasts suits) id w).map _
  | collectParameters id => exact (keeps_collectParameters (uses_lasts suits) id w).map _
  | compileDescription description types connective =>
      exact (uses_compileDescription suits description types connective).map _
  | configure options => exact absurd (.inl ⟨options, rfl⟩) works
  | reset => exact absurd (.inr rfl) works

/-- Throughout the run, what is asked of binders under the settings then in force is of the kind. -/
def Calls (kind : Use → Prop) : Workspace → List Operation → Prop
  | w, [] => w.settings.Calls kind
  | w, operation :: rest => w.settings.Calls kind ∧ operation.Calls kind w.settings ∧
      Calls kind (w.perform operation) rest

theorem used_perform (used : ∀ id, (w.binder id).UsedBy kind) (suits : w.settings.Calls kind)
    {operation : Operation} (calls : operation.Calls kind w.settings) (id : BinderId) :
    ((w.perform operation).binder id).UsedBy kind := by
  by_cases adjusts : operation.Adjusts
  · obtain ⟨settings, records, same, -⟩ := forest_of_adjusts (w := w) adjusts
    rw [same]
    exact used id
  · exact ((Using.run suits calls adjusts).after ⟨rfl, used⟩).used id

theorem used_run (used : ∀ id, (w.binder id).UsedBy kind) {operations : List Operation}
    (calls : w.Calls kind operations) (id : BinderId) :
    ((w.after operations).binder id).UsedBy kind := by
  induction operations generalizing w with
  | nil => exact used id
  | cons operation rest ih =>
      exact ih (used_perform used calls.1 calls.2.1) calls.2.2

/-- In every run, each binder came to be what it is by calls of the kind, given that the calls of
the caller are of the kind. -/
theorem used_after (n : Nat) {operations : List Operation}
    (calls : Calls kind { nextIdentifier := n } operations) (id : BinderId) :
    ((Workspace.after { nextIdentifier := n } operations).binder id).UsedBy kind :=
  used_run (fun _ => Binder.usedBy_fresh kind _ _) calls id

end Workspace
end WhereClause
