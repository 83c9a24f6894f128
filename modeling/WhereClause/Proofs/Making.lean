import WhereClause.Proofs.Moves
import WhereClause.Script.Call

/-!
# Building acts by moves

Each operation that makes objects or adds to trees, followed through its steps. A tree that items
are added to has to be open when an item is attached to it, and making the item leaves it open.

* `acts_extend`: adding items to an open tree is done in moves that compile nothing.
-/

namespace WhereClause

/-- What the types declare for a field is allowed. -/
def Policy.Types (p : Policy) (types : Value) : Prop :=
  ∀ field declared, declaredType types field = .ok declared → p.type declared

theorem Policy.types_empty (p : Policy) (mark : Mark) : p.Types (.dict mark []) := by
  intro field declared same
  cases same
  exact p.untyped

namespace WorkspaceM

variable {α β : Type} {p : Policy} {w after : Workspace}

/-- The operation does nothing in the workspace but moves. -/
def Acts (p : Policy) (w : Workspace) (operation : WorkspaceM α) : Prop :=
  w.WellMade → ∃ trace, Moves p w trace (run operation w).2

theorem Acts.of_same {operation : WorkspaceM α} (same : (run operation w).2 = w) :
    Acts p w operation := by
  intro _
  rw [same]
  exact ⟨[], .refl⟩

theorem Acts.of_move {operation : WorkspaceM α} {trace : List Handout}
    (move : Move p w trace (run operation w).2) : Acts p w operation :=
  fun _ => ⟨trace, .single move⟩

theorem Acts.pure (a : α) : Acts p w (Pure.pure a : WorkspaceM α) := .of_same rfl

theorem Acts.throw (fault : Fault) : Acts p w (MonadExcept.throw fault : WorkspaceM α) :=
  .of_same rfl

/-- What comes later starts where the moves so far have led. -/
theorem Acts.bind {operation : WorkspaceM α} {next : α → WorkspaceM β}
    (first : Acts p w operation)
    (later : ∀ a trace after, Moves p w trace after → run operation w = (.ok a, after) →
      Acts p after (next a)) : Acts p w (operation >>= next) := by
  intro made
  obtain ⟨trace, moves⟩ := first made
  rw [run_bind]
  rcases result : run operation w with ⟨done, after⟩
  rw [result] at moves
  cases done with
  | error fault => exact ⟨trace, moves⟩
  | ok a =>
      obtain ⟨more, rest⟩ := later a trace after moves result (made.moves moves)
      exact ⟨trace ++ more, moves.trans rest⟩

/-- An operation that only looks something up. -/
theorem Acts.look {operation : WorkspaceM α} {next : α → WorkspaceM β}
    (same : (run operation w).2 = w)
    (later : ∀ a, run operation w = (.ok a, w) → Acts p w (next a)) :
    Acts p w (operation >>= next) := by
  apply Acts.bind (.of_same same)
  intro a trace after _ done
  obtain rfl : after = w := by rw [← same, done]
  exact later a done

theorem Acts.get {next : Workspace → WorkspaceM β} (later : Acts p w (next w)) :
    Acts p w (MonadState.get >>= next) := by
  apply Acts.look rfl
  intro a done
  cases done
  exact later

theorem Acts.map {operation : WorkspaceM α} (acts : Acts p w operation) (f : α → β) :
    Acts p w (f <$> operation) := by
  rw [map_eq_pure_bind]
  exact acts.bind fun _ _ _ _ _ => .pure _

theorem Acts.mono {q : Policy} (within : p.Within q) {operation : WorkspaceM α}
    (acts : Acts p w operation) : Acts q w operation := by
  intro made
  obtain ⟨trace, moves⟩ := acts made
  exact ⟨trace, moves.mono within⟩

theorem acts_log (events : List Event) : Acts p w (log events) :=
  .of_move (.note _ _)

theorem acts_takeIdentifier (builds : p.builds) : Acts p w takeIdentifier :=
  .of_move (.draw builds)

theorem acts_freshBinder (builds : p.builds) : Acts p w freshBinder :=
  .of_move (.adopt builds 0)

theorem known_of_freshBinder {id : BinderId} (done : run freshBinder w = (.ok id, after)) :
    id.index < after.binders.size := by
  cases done
  simp

theorem acts_addNode (builds : p.builds) {node : Node} (fits : node.Fits p w.binders.size) :
    Acts p w (addNode node) :=
  .of_move (.plant builds fits)

theorem acts_newJunction (builds : p.builds) (connective : String) :
    Acts p w (newJunction connective) := by
  apply (acts_freshBinder builds).bind
  intro b trace after _ done
  exact acts_addNode builds ⟨rfl, known_of_freshBinder done⟩

theorem same_junction (id : NodeId) (w : Workspace) : (run (junction id) w).2 = w := by
  simp only [junction, run_bind, run_get]
  cases w.junction? id <;> rfl

theorem found_of_junction {id : NodeId} {j : Junction}
    (done : run (junction id) w = (.ok j, after)) :
    w.junction? id = some j := by
  simp only [junction, run_bind, run_get] at done
  cases found : w.junction? id with
  | none => simp [found] at done
  | some k =>
      simp only [found, run_pure, Prod.mk.injEq, Except.ok.injEq] at done
      rw [done.1]

theorem same_openJunction (id : NodeId) (w : Workspace) : (run (openJunction id) w).2 = w := by
  rw [openJunction, run_bind]
  have same := same_junction id w
  rcases result : run (junction id) w with ⟨done, after⟩
  rw [result] at same
  obtain rfl : after = w := same
  cases done with
  | error fault => rfl
  | ok j =>
      simp only
      split
      · rfl
      · rfl

theorem open_of_openJunction {id : NodeId} {j : Junction}
    (done : run (openJunction id) w = (.ok j, after)) :
    w.junction? id = some j ∧ j.compiled = none := by
  rw [openJunction, run_bind] at done
  cases found : w.junction? id with
  | none => simp [junction, run_bind, found] at done
  | some k =>
      rw [run_junction found] at done
      simp only at done
      split at done
      · cases done
      · rename_i isOpen
        simp only [run_pure, Prod.mk.injEq, Except.ok.injEq] at done
        obtain ⟨rfl, -⟩ := done
        exact ⟨rfl, by simpa using isOpen⟩

/-- The tree is there and not compiled. -/
def IsOpen (w : Workspace) (tree : NodeId) : Prop :=
  ∃ j, w.junction? tree = some j ∧ j.compiled = none

theorem IsOpen.later {tree : NodeId} (isOpen : IsOpen w tree) (leaves : w.LeavesOpen after) :
    IsOpen after tree := by
  obtain ⟨j, found, none'⟩ := isOpen
  obtain ⟨k, found, none', -⟩ := leaves tree j found none'
  exact ⟨k, found, none'⟩

theorem isOpen_newJunction {connective : String} {tree : NodeId}
    (done : run (newJunction connective) w = (.ok tree, after)) : IsOpen after tree := by
  cases done
  refine ⟨⟨.text connective, [], [], ⟨w.binders.size⟩, none⟩, ?_, rfl⟩
  simp [Forest.junction?, Forest.node]

theorem acts_attach (builds : p.builds) {tree : NodeId} (isOpen : IsOpen w tree)
    (condition : Value) : Acts p w (attach tree condition) := by
  obtain ⟨j, found, none'⟩ := isOpen
  apply Acts.of_move
  rw [run_attach found]
  exact .change builds found none' none' rfl

/-! Placeholders. -/

theorem setBinder_setBinder (forest : Forest) (id : BinderId) (b c : Binder) :
    (forest.setBinder id b).setBinder id c = forest.setBinder id c := by
  simp [Forest.setBinder]

theorem acts_reserve {id : BinderId} (known : id.index < w.binders.size) (token : Value)
    (keeping : Bool) (answer : Reservation → α) :
    Acts p w (onBinder id fun b =>
      (.ok (answer (b.reserve w.settings token keeping).1),
        (b.reserve w.settings token keeping).2)) :=
  .of_move (.reserve known token keeping)

theorem acts_bind (builds : p.builds) {id : BinderId} (known : id.index < w.binders.size)
    (name value type : Value) :
    Acts p w (onBinder id fun b => b.bind w.settings name value type) := by
  apply Acts.of_move
  have same : (run (onBinder id fun b => b.bind w.settings name value type) w).2 =
      { w with toForest := w.setBinder id ((w.binder id).bind w.settings name value type).2 } := by
    simp only [onBinder, run_bind, run_get, run_changeForest]
    cases ((w.binder id).bind w.settings name value type).1 <;> rfl
  rw [same]
  exact .bind builds known name value type

theorem acts_register (builds : p.builds) {id : BinderId} (known : id.index < w.binders.size)
    (token value type : Value) :
    Acts p w (onBinder id fun b => b.register w.settings token value type) := by
  intro _
  let b := ((w.binder id).reserve w.settings token true).2
  let name := ((w.binder id).reserve w.settings token true).1.name
  let middle : Workspace := { w with toForest := w.setBinder id b }
  have kept : middle.binder id = b := by
    simp [middle, Forest.binder_setBinder, known]
  have reserve : Moves p w [⟨id, w.binder id, w.settings, token⟩] middle :=
    .single (.reserve known token true)
  have bind : Move p middle [] { middle with
      toForest := middle.setBinder id
        ((middle.binder id).bind w.settings (.text name) value type).2 } :=
    .bind builds (by simpa [middle, Forest.setBinder] using known) (.text name) value type
  have same : (run (onBinder id fun b => b.register w.settings token value type) w).2 =
      { middle with toForest :=
        middle.setBinder id ((middle.binder id).bind w.settings (.text name) value type).2 } := by
    rw [kept]
    simp only [onBinder, run_bind, run_get, run_changeForest, middle, setBinder_setBinder]
    cases ((w.binder id).register w.settings token value type).1 <;> rfl
  rw [same]
  exact ⟨_, reserve.tail bind⟩

theorem acts_registered (builds : p.builds) {id : BinderId} (known : id.index < w.binders.size)
    (token value type : Value) (next : String → WorkspaceM β)
    (later : ∀ placeholder after, Acts p after (next placeholder)) :
    Acts p w (do
      let settings := (← MonadState.get).settings
      let placeholder ← onBinder id fun b => b.register settings token value type
      next placeholder) :=
  .get ((acts_register builds known token value type).bind fun placeholder _ after _ _ =>
    later placeholder after)

/-! Nodes. -/

theorem acts_newBinder (builds : p.builds) {identifier : Option Value}
    (given : identifier = none ∨ p.given) (count : Option Value) :
    Acts p w (newBinder identifier count) := by
  cases identifier with
  | some v =>
      have given := given.resolve_left nofun
      simp only [newBinder, pure_bind]
      split
      · exact .of_move (.give given _ _)
      · exact .throw _
  | none =>
      intro _
      simp only [newBinder, run_bind, run_map, run_takeIdentifier]
      split
      · rename_i identifier number text _
        cases text
        exact ⟨[], .single (.adopt builds number)⟩
      · exact ⟨[], .single (.draw builds)⟩

theorem acts_newOperand (builds : p.builds) {b : BinderId} (known : b.index < w.binders.size)
    (field : String) (value : Value) (type : Option String) :
    Acts p w (newOperand b field value type) := by
  unfold newOperand
  split
  · exact .pure _
  · exact acts_registered builds known _ _ _ _ fun _ _ => .pure _

/-- A node is compared as it is and never bound. -/
theorem flat_of_newOperand {b : BinderId} {field : String} {value : Value} {type : Option String}
    {operand : Operand} (done : run (newOperand b field value type) w = (.ok operand, after))
    (v : Value) (placeholder : String) (bound : operand = .bound v placeholder) :
    v.node? = none := by
  subst bound
  unfold newOperand at done
  split at done
  · cases done
  · rename_i notNode
    rw [run_bind, run_get] at done
    simp only [run_bind] at done
    split at done
    · simp only [run_pure, Prod.mk.injEq, Except.ok.injEq, Operand.bound.injEq] at done
      obtain ⟨⟨rfl, -⟩, -⟩ := done
      cases value with
      | node id => exact absurd rfl (notNode id)
      | _ => rfl
    · cases done

theorem acts_newComparison (builds : p.builds) (field value type operator : Option Value) :
    Acts p w (newComparison field value type operator) := by
  unfold newComparison
  cases Value.givenText field with
  | error reason => exact (acts_takeIdentifier builds).bind fun _ _ _ _ _ => .throw _
  | ok field =>
      cases (type.getD .null).toType with
      | error reason => exact (acts_takeIdentifier builds).bind fun _ _ _ _ _ => .throw _
      | ok type =>
          cases (operator.getD (.text "=")).toText with
          | error reason => exact (acts_takeIdentifier builds).bind fun _ _ _ _ _ => .throw _
          | ok operator =>
              simp only
              rw [← bind_assoc]
              apply Acts.bind (acts_freshBinder builds)
              intro b _ after _ done
              cases done
              apply (acts_newOperand builds (by simp) field (value.getD .null) type).bind
              intro operand _ _ _ made
              exact acts_addNode builds fun _ _ => flat_of_newOperand made _ _

theorem acts_newUnary (builds : p.builds) (symbol : Option Value) {argument : Option Value}
    (trailing : Option Value)
    (allowed : (argument.getD .null).node? = none → p.argument (argument.getD .null)) :
    Acts p w (newUnary symbol argument trailing) := by
  unfold newUnary
  split
  · exact acts_addNode builds allowed
  · exact .throw _

theorem acts_newFragment (builds : p.builds) (text : Option Value) :
    Acts p w (newFragment text) := by
  unfold newFragment
  split
  · exact acts_addNode builds trivial
  · exact .throw _

/-! Items. -/

theorem acts_membershipType (builds : p.builds) {declared : Value} (allowed : p.type declared) :
    Acts p w (membershipType declared) := by
  apply Acts.get
  simp only
  by_cases given : w.isTruthy declared = true
  · simp only [given, if_true]
    split
    · exact .pure _
    · split
      · exact .pure _
      · exact .throw _
    · split
      · exact .throw _
      · split
        · exact .pure _
        · split
          · rename_i list
            have letters : w.settings.markerLetters =
                (w.settings.multiMarker.toList.map fun c => String.ofList [c]).map .text := by
              simp [Settings.markerLetters]
            have lengthen : Acts p w
                (changeForest (·.extendList declared w.settings.markerLetters)) := by
              apply Acts.of_move
              rw [run_changeForest, letters]
              exact .lengthen builds allowed list _
            exact lengthen.bind fun _ _ _ _ _ => .pure _
          · exact .throw _
  · simp only [given]
    exact .pure _

theorem acts_buildComparison (builds : p.builds) (key : Key) (value type : Value) :
    Acts p w (buildComparison key value type) :=
  (acts_newComparison builds _ _ _ _).bind fun _ _ _ _ _ => .pure _

theorem acts_buildMembership (builds : p.builds) (tree : NodeId) (key : Key) (value type : Value) :
    Acts p w (buildMembership tree key value type) := by
  intro made
  refine Acts.look (same_junction tree w) (fun j done => ?_) made
  have known := made.binder tree j (found_of_junction done)
  exact acts_registered builds known _ _ _ _ fun _ _ => .pure _

theorem acts_buildField (builds : p.builds) (tree : NodeId) {types : Value}
    (allowed : p.Types types) (key : Key) (value : Value) :
    Acts p w (buildField tree types key value) := by
  unfold buildField
  cases declared : declaredType types key.field with
  | error fault => exact Acts.look rfl fun _ done => nomatch done
  | ok type =>
      apply Acts.look rfl
      intro a done
      cases done
      split
      · apply (acts_membershipType builds (allowed _ _ declared)).bind
        intro marked _ _ _ _
        split
        · exact acts_buildComparison builds _ _ _
        · exact acts_buildMembership builds _ _ _ _
      · exact acts_buildComparison builds _ _ _

mutual
theorem acts_build (builds : p.builds) (silent : ¬ p.renders) (tree : NodeId) {types : Value}
    (allowed : p.Types types) (w : Workspace) : (item : Item) → Acts p w (build tree types item)
  | .raw text => by
      unfold build
      exact .pure _
  | .nested node => by
      unfold build
      exact .pure _
  | .field key value => by
      unfold build
      exact (acts_buildField builds tree allowed key value).map _
  | .group connective items => by
      unfold build
      split
      · exact (acts_log _).bind fun _ _ _ _ _ => .pure _
      · apply Acts.bind (acts_newJunction builds _)
        intro inner _ after _ done
        have isOpen := isOpen_newJunction done
        apply (acts_extend builds silent allowed items after isOpen).bind
        exact fun _ _ _ _ _ => .pure _
  | .negation items => by
      unfold build
      split
      · exact (acts_log _).bind fun _ _ _ _ _ => .pure _
      · apply Acts.get
        apply Acts.bind (acts_newJunction builds _)
        intro inner _ after _ done
        have isOpen := isOpen_newJunction done
        apply (acts_extend builds silent allowed items after isOpen).bind
        intro _ _ last _ _
        exact Acts.bind (acts_addNode builds nofun) fun _ _ _ _ _ => .pure _

theorem acts_extend (builds : p.builds) (silent : ¬ p.renders) {tree : NodeId} {types : Value}
    (allowed : p.Types types) :
    (items : List Item) → (w : Workspace) → IsOpen w tree →
      Acts p w (extend tree types items)
  | [], w, _ => by
      unfold extend
      exact .pure _
  | item :: rest, w, isOpen => by
      unfold extend
      apply (acts_build builds silent tree allowed w item).bind
      intro made _ middle moves _
      have stays := isOpen.later (.moves silent moves)
      cases made with
      | none =>
          exact acts_extend builds silent allowed rest middle stays
      | some condition =>
          apply Acts.bind (acts_attach builds stays condition)
          intro _ _ last later _
          exact acts_extend builds silent allowed rest last (stays.later (.moves silent later))
end

/-! Whole operations on trees. -/

theorem discard_bind (operation : WorkspaceM α) (next : Unit → WorkspaceM β) :
    (discard operation >>= next) = operation >>= fun _ => next () :=
  bind_map_left _ operation next

theorem acts_add (builds : p.builds) (tree : NodeId) (description : Value) {types : Value}
    (allowed : p.Types types) : Acts p w (add tree description types) := by
  refine Acts.mono p.quiet_within ?_
  unfold add
  rw [discard_bind]
  apply Acts.look (same_openJunction tree w)
  intro j done
  have isOpen : IsOpen w tree := ⟨j, open_of_openJunction done⟩
  have read : Acts p.quiet w (Item.read description) :=
    (acts_log _).bind fun _ _ _ _ _ => .pure _
  apply read.bind
  intro items _ middle moves _
  apply Acts.get
  have quietly : p.quiet.builds := builds
  apply acts_extend quietly id
  · split
    · exact allowed
    · exact p.quiet.types_empty _
  · exact isOpen.later (.moves id moves)

theorem acts_append (builds : p.builds) (tree : NodeId) (condition : Value) :
    Acts p w (append tree condition) := by
  unfold append
  rw [discard_bind]
  apply Acts.look (same_openJunction tree w)
  intro j done
  exact acts_attach builds ⟨j, open_of_openJunction done⟩ condition

theorem same_connectiveOf (v : Value) (w : Workspace) : (run (connectiveOf v) w).2 = w := by
  unfold connectiveOf
  split <;> rfl

theorem acts_setConnective (builds : p.builds) (tree : NodeId) (connective : Value) :
    Acts p w (setConnective tree connective) := by
  unfold setConnective
  rw [discard_bind]
  apply Acts.look (same_openJunction tree w)
  intro j done
  obtain ⟨found, none'⟩ := open_of_openJunction done
  apply Acts.look (same_connectiveOf connective w)
  intro connective _
  apply Acts.look (same_junction tree w)
  intro k again
  cases found.symm.trans (found_of_junction again)
  exact .of_move (.change builds found none' none' rfl)

theorem acts_planted (builds : p.builds) (description : Value) {types : Value}
    (allowed : p.Types types) {b : BinderId} (known : b.index < w.binders.size)
    (connective : Connective) :
    Acts p w (do
      match connective.toValue.toText with
      | .error reason => MonadExcept.throw (.invalid [⟨"conjunction", reason⟩])
      | .ok connective =>
        let tree ← addNode (.junction { connective := .text connective, binder := b })
        if (← MonadState.get).isTruthy description then add tree description types
        return tree) := by
  split
  · exact .throw _
  · rename_i connective _
    have fits : (Node.junction ⟨.text connective, [], [], b, none⟩).Fits p w.binders.size :=
      ⟨rfl, known⟩
    apply (acts_addNode builds fits).bind
    intro tree _ _ _ _
    apply Acts.get
    simp only
    split
    · exact (acts_add builds tree description allowed).bind fun _ _ _ _ _ => .pure _
    · exact .pure _

theorem acts_newTree (builds : p.builds) (description : Value) {types : Value}
    (allowed : p.Types types) (connective : Value) {binder : Option BinderId}
    (known : ∀ id ∈ binder, id.index < w.binders.size) :
    Acts p w (newTree description types connective binder) := by
  cases binder with
  | some id =>
      have planted := acts_planted builds description allowed (known id rfl)
      unfold newTree
      dsimp only
      split
      · exact .get (Acts.look (same_connectiveOf _ w) fun connective _ => planted connective)
      · exact Acts.look (same_connectiveOf _ w) fun connective _ => planted connective
  | none =>
      have planted (connective : Connective) (b : BinderId) (trace : List Handout)
          (after : Workspace) (_ : Moves p w trace after)
          (done : run freshBinder w = (.ok b, after)) :=
        acts_planted builds description allowed (known_of_freshBinder done) connective
      unfold newTree
      dsimp only
      split
      · exact .get (Acts.look (same_connectiveOf _ w) fun connective _ =>
          (acts_freshBinder builds).bind (planted connective))
      · exact Acts.look (same_connectiveOf _ w) fun connective _ =>
          (acts_freshBinder builds).bind (planted connective)

theorem acts_join (builds : p.builds) (connective : String) (left right : Value) :
    Acts p w (join connective left right) := by
  unfold join
  split
  · apply (acts_newJunction builds connective).bind
    intro tree _ _ _ _
    apply (acts_append builds tree _).bind
    intro _ _ _ _ _
    exact (acts_append builds tree right).bind fun _ _ _ _ _ => .pure _
  · exact .throw _

theorem acts_invert (builds : p.builds) (operand : Value) : Acts p w (invert operand) := by
  unfold invert
  split
  · apply Acts.get
    apply (acts_newJunction builds _).bind
    intro tree _ _ _ _
    apply (acts_append builds tree _).bind
    exact fun _ _ _ _ _ => acts_addNode builds nofun
  · exact .throw _

theorem acts_bindInTree (builds : p.builds) (tree : NodeId) (name value type : Value) :
    Acts p w (bindInTree tree name value type) := by
  intro made
  refine Acts.look (same_openJunction tree w) (fun j done => ?_) made
  have known := made.binder tree j (open_of_openJunction done).1
  exact .get (acts_bind builds known name value type)

theorem acts_placeholder {id : BinderId} (known : id.index < w.binders.size) (token : Value) :
    Acts p w (placeholder id token) :=
  .get (acts_reserve known token true Reservation.name)

theorem acts_reserveIn {id : BinderId} (known : id.index < w.binders.size) (token keeping : Value) :
    Acts p w (reserveIn id token keeping) := by
  apply Acts.get
  apply (acts_reserve known token _ fun reservation => reservation).bind
  intro reservation _ after _ _
  exact Acts.bind (.of_move (.note _ _)) fun _ _ _ _ _ => .pure _

theorem acts_registerIn (builds : p.builds) {id : BinderId} (known : id.index < w.binders.size)
    (token value type : Value) : Acts p w (registerIn id token value type) :=
  acts_registered builds known _ _ _ _ fun _ _ => .pure _

theorem acts_bindIn (builds : p.builds) {id : BinderId} (known : id.index < w.binders.size)
    (name value type : Value) : Acts p w (bindIn id name value type) :=
  .get ((acts_bind builds known name value type).bind fun _ _ _ _ _ => .pure _)

end WorkspaceM
end WhereClause
