import Scriptlet.Library.Prepare

/-!
Dotted addresses: names separated by points, the first of them global, each other one a member of what stands before
it. Reading a method binds it anew, so the store can grow on the way.
-/
namespace Scriptlet.Address

/-- What stands between the points of an address. -/
def segments (address : String) : List String := (address.toList.splitOn '.').map String.ofList

/-- The names before the last, and the last; an empty name makes an address malformed. -/
def split (address : String) : Except Fault (List String × String) :=
  let names := segments address
  if names.any String.isEmpty then .error (.malformedAddress address)
  else .ok (names.dropLast, names.getLastD "")

/-- A member of a container, or a global name where there is no container. -/
def member? (store : Store) (container : Option Value) (name : String) : Option (Value × Store) :=
  match container with
  | none => (store.frames.fetch Store.globals name).map (·, store)
  | some v => (store.member? v name).map store.realize

/-- Follows names from a container that `seen` has led to. -/
def follow (store : Store) (container : Option Value) (seen : List String) :
    List String → Except Fault (Option Value × Store)
  | [] => .ok (container, store)
  | name :: rest =>
    let seen := seen ++ [name]
    match member? store container name with
    | some (v, store) => follow store (some v) seen rest
    | none => .error (.undefinedAddress (".".intercalate seen))

/-- The container that an address leads to, and the name in it. -/
def walk (store : Store) (address : String) : Except Fault (Option Value × String × Store) := do
  let (names, last) ← split address
  let (container, store) ← follow store none [] names
  return (container, last, store)

def read (store : Store) (address : String) : Except Fault (Value × Store) := do
  let (container, last, store) ← walk store address
  match member? store container last with
  | some found => return found
  | none => .error (.undefinedAddress address)

/-- Rebinds a global that exists, or sets a field of an instance. -/
def write (store : Store) (address : String) (value : Value) : Except Fault Store := do
  let (container, last, store) ← walk store address
  match container with
  | none =>
    match store.frames.assign Store.globals last value with
    | some frames => return { store with frames }
    | none => .error (.undefinedAddress address)
  | some (.instance r) => return store.setField r last value
  | some v => .error (.fieldAddress address v.typeName)

end Scriptlet.Address
