import Scriptlet.Machine.Fault
import Scriptlet.Store

/-!
The methods of lists, on the sequence of items. Positions count from zero and must be whole numbers below the length.
-/
namespace Scriptlet.ListMethod

def all : List ListMethod := [.add, .at, .setAt, .removeAt, .count]

def name : ListMethod → String
  | .add => "add"
  | .at => "at"
  | .setAt => "setAt"
  | .removeAt => "removeAt"
  | .count => "count"

def arity : ListMethod → Nat
  | .add => 1
  | .at => 1
  | .setAt => 2
  | .removeAt => 1
  | .count => 0

/-- The position below `size` that a value denotes. -/
def position (shown : String) (size : Nat) (v : Value) : Except Fault Nat :=
  match v with
  | .number x =>
    match x.toInt?, x.toIndex? with
    | some _, some i => if i < size then .ok i else .error (.listRange shown size)
    | some _, none => .error (.listRange shown size)
    | none, _ => .error (.listIndex shown)
  | _ => .error (.listIndex shown)

/-- The result of a method and the items after it; `display` is how faults show a value. -/
def apply (display : Value → String) (m : ListMethod) (items arguments : List Value) :
    Except Fault (Value × List Value) :=
  match m, arguments with
  | .add, [v] => .ok (.null, items ++ [v])
  | .at, [i] => do
    let k ← position (display i) items.length i
    return (items.getD k .null, items)
  | .setAt, [i, v] => do
    let k ← position (display i) items.length i
    return (v, items.set k v)
  | .removeAt, [i] => do
    let k ← position (display i) items.length i
    return (items.getD k .null, items.eraseIdx k)
  | .count, [] => .ok (.number (.ofNat items.length), items)
  | m, _ => .error (.arity m.arity arguments.length)

end Scriptlet.ListMethod
