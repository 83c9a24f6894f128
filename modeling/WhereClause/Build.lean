import WhereClause.Construct
import WhereClause.Item

/-!
# Building trees

Items become conditions of a tree. A group becomes a tree of its own and a negation a unary
condition over one, unless they hold no item. A field becomes a comparison; tested for membership in
several values, it becomes a text with a placeholder of the tree's binder, which is expanded when
the tree is compiled.
-/

namespace WhereClause

def declaredType (types : Value) (field : String) : Except Fault Value :=
  match types with
  | .dict _ entries =>
    .ok (((entries.find? fun (k, _) => k.text? == some field).map Prod.snd).getD .null)
  | _ => .error .noAttribute

/-- The type with the marker at its end, unless it holds the marker already. -/
def Settings.withMarker (settings : Settings) (type : String) : String :=
  if settings.marks type then type else type ++ settings.multiMarker

def Settings.markedAmong (settings : Settings) (vs : List Value) : Bool :=
  vs.any fun v => v.text? == some settings.multiMarker

def Settings.markerLetters (settings : Settings) : List Value :=
  settings.multiMarker.toList.map fun c => .text (String.ofList [c])

namespace WorkspaceM

/-- The type of the values of a membership test: the declared one, or else the default, and the
marker at its end unless it holds one. Only a text can be a type, but some other values can hold
the marker and are refused only when they are bound. Of these, a list takes the marker as a text
does, letter by letter, and stays changed. -/
def membershipType (declared : Value) : WorkspaceM Value := do
  let workspace ← get
  let settings := workspace.settings
  let type :=
    if workspace.isTruthy declared then declared else .text settings.defaultMultiType
  match type with
  | .text s => return .text (settings.withMarker s)
  | .dict _ entries =>
    if settings.markedAmong (entries.map Prod.fst) then return type else throw .wrongType
  | type =>
    match workspace.sequence? type with
    | none => throw .wrongType
    | some vs =>
      if settings.markedAmong vs then return type
      else if type.isList then
        changeForest (·.extendList type settings.markerLetters)
        return type
      else throw .wrongType

def buildComparison (key : Key) (value type : Value) : WorkspaceM Value := do
  let id ←
    newComparison (some (.text key.field)) (some value) (some type) (some (.text key.operator))
  return .node id

def buildMembership (tree : NodeId) (key : Key) (value type : Value) : WorkspaceM Value := do
  let j ← junction tree
  let settings := (← get).settings
  let placeholder ← onBinder j.binder fun b => b.register settings (.text key.field) value type
  return .text (key.field ++ " " ++ key.operator ++ " (" ++ placeholder ++ ")")

/-- Makes the condition of a field item. A node is compared as it is, also for membership. -/
def buildField (tree : NodeId) (types : Value) (key : Key) (value : Value) : WorkspaceM Value := do
  let declared ← ofExcept (declaredType types key.field)
  if key.isMembership then
    let type ← membershipType declared
    match value with
    | .node _ => buildComparison key value type
    | _ => buildMembership tree key value type
  else
    buildComparison key value declared

mutual
def build (tree : NodeId) (types : Value) : Item → WorkspaceM (Option Value)
  | .raw text => return some (.text text)
  | .nested node => return some (.node node)
  | .field key value => some <$> buildField tree types key value
  | .group connective items => do
    if items.isEmpty then
      log [.emptyGroup connective]
      return none
    else
      let inner ← newJunction (Text.upper connective)
      extend inner types items
      return some (.node inner)
  | .negation items => do
    if items.isEmpty then
      log [.emptyNegation]
      return none
    else
      let inner ← newJunction (Text.upper (← get).settings.defaultConnective)
      extend inner types items
      return some (.node (← addNode (.unary ⟨"NOT", .node inner, false⟩)))

def extend (tree : NodeId) (types : Value) : List Item → WorkspaceM Unit
  | [] => return
  | item :: rest => do
    match ← build tree types item with
    | some condition => attach tree condition
    | none => pure ()
    extend tree types rest
end

def add (tree : NodeId) (description types : Value) : WorkspaceM Unit := do
  discard (openJunction tree)
  let items ← Item.read description
  extend tree (if (← get).isTruthy types then types else .dict .passing []) items

/-- Adds one condition to a tree that is not compiled yet, as it is. -/
def append (tree : NodeId) (condition : Value) : WorkspaceM Unit := do
  discard (openJunction tree)
  attach tree condition

def connectiveOf (v : Value) : WorkspaceM Connective := do
  match Connective.ofValue? v with
  | some connective => return connective
  | none => throw .noAttribute

/-- A tree from a description, on a given binder or on one of its own. No connective means the
default one. The identifier of a new binder is taken before the connective is decoded. -/
def newTree (description types connective : Value) (binder : Option BinderId) :
    WorkspaceM NodeId := do
  let connective ← match connective with
    | .null => connectiveOf (.text (← get).settings.defaultConnective)
    | v => connectiveOf v
  let binder ← match binder with
    | some id => pure id
    | none => freshBinder
  match connective.toValue.toText with
  | .error reason => throw (.invalid [⟨"conjunction", reason⟩])
  | .ok connective =>
    let tree ← addNode (.junction { connective := .text connective, binder })
    if (← get).isTruthy description then add tree description types
    return tree

def setConnective (tree : NodeId) (connective : Value) : WorkspaceM Unit := do
  discard (openJunction tree)
  let connective ← connectiveOf connective
  setJunction tree { ← junction tree with connective }

end WorkspaceM
end WhereClause
