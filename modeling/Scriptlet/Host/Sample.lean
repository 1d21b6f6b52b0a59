import Scriptlet.Library.Prepare

/-!
A sample library of a host: functions that greet, fail, name types, call back, print and define globals, a class
`Counter` whose instances count in private, and a class `Pair`.
-/
namespace Scriptlet.Host.Sample

def greet (store : Store) (x : Value) : Value := .text ("hello " ++ store.display x)

def call (tag : String) (cell : Option (Ref .cell)) (arguments : List Value) (store : Store) : Answer :=
  match tag, cell, arguments with
  | "greet", _, [x] => ⟨store, [], .value (greet store x)⟩
  | "fail", _, [] => ⟨store, [], .failure "boom"⟩
  | "typeOf", _, [x] => ⟨store, [], .value (.text x.typeName)⟩
  | "apply", _, [f, x] => ⟨store, [], .call f [x]⟩
  | "emit", _, [x] => ⟨store, ["emit:" ++ store.display x], .value .null⟩
  | "setGlobal", _, [k, v] => ⟨store.defineGlobal (store.display k) v, [], .value v⟩
  | "zero", _, [] => ⟨store, [], .value (.number .zero)⟩
  | "next", some r, [] =>
    match store.cells.get? r with
    | some (.number x) =>
      let x := x.add .one
      ⟨{ store with cells := store.cells.set r (.number x) }, [], .value (.number x)⟩
    | _ => ⟨store, [], .failure "no count"⟩
  | _, _, _ => Host.empty.call tag cell arguments store

def prepare (tag : String) (object : Ref .object) (arguments : List Value) (store : Store) :
    Store × Option String :=
  match tag, arguments with
  | "Counter", [.number x] =>
    let cell := store.cells.next
    let store := { store with cells := store.cells.alloc (.number x) }
    (store.addMethod object "next" 0 (.host "next" (some cell)), none)
  | "Counter", _ => (store, some "start must be a number")
  | "Pair", [a, b] => ((store.setField object "a" a).setField object "b" b, none)
  | _, _ => Host.empty.prepare tag object arguments store

/-- Makes the library's names global. -/
def install (store : Store) : Store :=
  let functions := [("greet", 1), ("fail", 0), ("typeOf", 1), ("apply", 2), ("emit", 1), ("setGlobal", 2)]
  let store := functions.foldl (fun s (name, arity) => s.defineNative name arity (.host name none)) store
  let (zero, store) := store.addNative "zero" 0 (.host "zero" none)
  let store := store.defineNativeClass "Counter" 1 (Table.empty.insert "zero" zero) (.host "Counter")
  store.defineNativeClass "Pair" 2 .empty (.host "Pair")

end Sample

def sample : Host := ⟨Sample.call, Sample.prepare⟩

end Scriptlet.Host
