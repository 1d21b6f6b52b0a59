import Scriptlet.Store

/-!
What an embedding program offers to scripts. Its functions and classes are known by tags; they may change the store,
print, and answer with a value, a failure, or the wish to call a function of the script.
-/
namespace Scriptlet

inductive Reply where
  | value (value : Value)
  | failure (message : String)
  | call (callee : Value) (arguments : List Value)

structure Answer where
  store : Store
  printed : List String
  reply : Reply

structure Host where
  /-- Runs a function, which may have a private cell. -/
  call : String → Option (Ref .cell) → List Value → Store → Answer
  /-- Prepares a new instance of a class; a message tells why it could not. -/
  prepare : String → Ref .object → List Value → Store → Store × Option String

/-- A host that offers nothing. -/
def Host.empty : Host where
  call _ _ _ store := ⟨store, [], .failure "No such function"⟩
  prepare _ _ _ store := (store, some "No such class")

end Scriptlet
