import WhereClause.Forest

/-!
# Parts of a value

What a value is gone through as: a sequence as its elements, a dictionary as its keys, a text as its
characters, bytes as numbers, and a record as its fields, each a pair of name and value.
-/

namespace WhereClause

def Bindings.entries (bindings : Bindings) : List (Value × Value) :=
  bindings.map fun (number, binding) => (.int number, .binding .passing binding)

namespace Node

def fields (id : NodeId) : Node → List (String × Value)
  | junction j =>
    [("conjunction", j.connective.toValue), ("conditions", .conditions id j.stage),
      ("bindings_store", .binder j.binder)]
  | comparison c =>
    [("field", .text c.field), ("value", c.operand.value), ("type", .ofText? c.type),
      ("operator", .text c.operator), ("bindings_store", .binder c.binder)]
  | unary u =>
    [("symbol", .text u.symbol), ("argument", u.argument), ("postfix", .bool u.trailing)]
  | fragment text => [("text", .text text)]
  | abstract => []

end Node

def Binder.fields (b : Binder) : List (String × Value) :=
  [("identifier", .text b.identifier), ("count", .int b.count),
    ("bindings", .dict .passing b.bindings.entries), ("replace_array_params", .bool b.expands)]

namespace Forest

def fields? (forest : Forest) : Value → Option (List (String × Value))
  | .node id => some ((forest.node id).fields id)
  | .binder id => some (forest.binder id).fields
  | .binding _ b =>
    some [("placeholder", .text b.fragment), ("value", b.value), ("type", .ofText? b.type)]
  | .compiled tree =>
    ((forest.junction? tree).bind Junction.compiled).map fun rendered =>
      [("sql", .text rendered.sql), ("bindings", .dict .passing rendered.bindings.entries)]
  | .outcome _ sql parameters types positional =>
    some [("sql", .text sql),
      ("parameters", .dict .passing (parameters.map fun (name, v) => (.text name, v))),
      ("types", .dict .passing (types.map fun (name, type) => (.text name, .ofText? type))),
      ("positional", .list .passing positional)]
  | _ => none

/-- What going through a value meets, in order, if it can be gone through. -/
def parts? (forest : Forest) : Value → Option (List Value)
  | .dict _ entries => some (entries.map Prod.fst)
  | .text s => some (s.toList.map fun c => .text (String.ofList [c]))
  | .bytes b => some (b.map fun n => .int n.toNat)
  | v =>
    match forest.sequence? v with
    | some vs => some vs
    | none =>
      (forest.fields? v).map fun fields =>
        fields.map fun (name, field) => .tuple .passing [.text name, field]

end Forest
end WhereClause
