import Scriptlet.Machine.Fault
import Scriptlet.Store

/-!
The methods of maps, on the table of entries. Null, booleans, numbers and text are keys; both zeros are one key.
-/
namespace Scriptlet.MapMethod

def all : List MapMethod := [.add, .at, .setAt, .contains, .remove, .count]

def name : MapMethod → String
  | .add => "add"
  | .at => "at"
  | .setAt => "setAt"
  | .contains => "contains"
  | .remove => "remove"
  | .count => "count"

def arity : MapMethod → Nat
  | .add => 2
  | .at => 1
  | .setAt => 2
  | .contains => 1
  | .remove => 1
  | .count => 0

def key (v : Value) : Except Fault Value.Key :=
  match v.key? with
  | some k => .ok k
  | none => .error (.keyType v.typeName)

/-- The result of a method and the entries after it; `display` is how faults show a value. -/
def apply (display : Value → String) (m : MapMethod) (entries : Table Value.Key Value)
    (arguments : List Value) : Except Fault (Value × Table Value.Key Value) :=
  match m, arguments with
  | .add, [v, w] => do
    let k ← key v
    if entries.contains k then .error (.keyExists (display v))
    else return (.null, entries.insert k w)
  | .at, [v] => do
    match entries.get? (← key v) with
    | some w => return (w, entries)
    | none => .error (.keyMissing (display v))
  | .setAt, [v, w] => do
    return (w, entries.insert (← key v) w)
  | .contains, [v] => do
    return (.boolean (entries.contains (← key v)), entries)
  | .remove, [v] => do
    let k ← key v
    return ((entries.get? k).getD .null, entries.erase k)
  | .count, [] => .ok (.number (.ofNat entries.size), entries)
  | m, _ => .error (.arity m.arity arguments.length)

end Scriptlet.MapMethod
