import WhereClause.View

/-!
# Identity and likeness

Two values are the same object if they carry one mark or are handles of one thing. Values without a
mark or handle, such as numbers and texts, are told apart by what they hold. Two values are alike if
they hold the same, numbers being compared by value.
-/

namespace WhereClause
namespace Value

def mark? : Value → Option Mark
  | list mark _ | tuple mark _ | set mark _ | frozenSet mark _ | dict mark _ | binding mark _
  | outcome mark .. | callable mark _ | method mark .. => some mark
  | _ => none

def sameAtom : Value → Value → Bool
  | null, null => true
  | bool a, bool b => a == b
  | int a, int b => a == b
  | float a, float b => a == b
  | text a, text b => a == b
  | bytes a, bytes b => a == b
  | node a, node b => a == b
  | binder a, binder b => a == b
  | conditions tree stage, conditions other stage' => tree == other && stage == stage'
  | compiled a, compiled b => a == b
  | _, _ => false

/-- Whether two values are the same object. There is only one empty tuple. -/
def same (a b : Value) : Bool :=
  match a, b with
  | tuple _ [], tuple _ [] => true
  | a, b =>
    match a.mark?, b.mark? with
    | some mark, some other => mark == other
    | none, none => a.sameAtom b
    | _, _ => false

/-- Whether there is only one object that holds this: nothing, a truth value, an integer from -5 to
256, and a text or bytes of at most one Latin-1 character. -/
def isUnique : Value → Bool
  | null | bool _ => true
  | int n => -5 ≤ n && n ≤ 256
  | text s => s.length ≤ 1 && s.toList.all (·.toNat < 256)
  | bytes b => b.length ≤ 1
  | _ => false

def whole? : Value → Option Int
  | bool b => some (if b then 1 else 0)
  | int n => some n
  | float x => x.toInt?
  | _ => none

def alikeAtom (a b : Value) : Bool :=
  match a.whole?, b.whole? with
  | some m, some n => m == n
  | none, none => a.same b
  | _, _ => false

def alikeKind : Value → Value → Bool
  | tuple .., tuple .. => true
  | set .., set .. | set .., frozenSet .. | frozenSet .., set ..
  | frozenSet .., frozenSet .. => true
  | binding _ a, binding _ b => a.fragment == b.fragment && a.type == b.type
  | a, b => a.isList && b.isList

end Value

namespace View

mutual
def alike : View → View → Bool
  | atom v, atom w => v.alikeAtom w
  | sequence v vs, sequence w ws => v.alikeKind w && allAlike vs ws
  | dict _ entries, dict _ others => entriesAlike entries others
  | _, _ => false

def allAlike : List View → List View → Bool
  | [], [] => true
  | v :: vs, w :: ws => v.alike w && allAlike vs ws
  | _, _ => false

def entriesAlike : List (View × View) → List (View × View) → Bool
  | [], [] => true
  | (k, v) :: es, (l, w) :: fs => k.alike l && v.alike w && entriesAlike es fs
  | _, _ => false
end

end View
end WhereClause
