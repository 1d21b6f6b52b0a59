import Scriptlet.Scope.Distance

/-!
Scopes and what the analysis of names keeps: the open scopes with the life of each local variable, what routine and
what kind of class body it is in, the warnings, and the distances found so far.
-/
namespace Scriptlet

namespace Scope

inductive Fault where
  | ownBase
  | topLevelReturn
  | constructorValue
  | thisOutsideClass
  | thisInStatic
  | duplicate
  | ownInitializer
deriving DecidableEq, Repr

def Fault.message : Fault → String
  | .ownBase => "A class can't inherit from itself."
  | .topLevelReturn => "Can't return from top-level code."
  | .constructorValue => "Can't return a value from a constructor."
  | .thisOutsideClass => "Can't use 'this' outside of a class."
  | .thisInStatic => "Can't use 'this' inside a static method."
  | .duplicate => "Variable with this name is already declared in this scope."
  | .ownInitializer => "Can't read local variable in its own initializer."

structure Error where
  place : Place
  fault : Fault
deriving DecidableEq, Repr

inductive Advice where
  | unused
  | unreachable
deriving DecidableEq, Repr

def Advice.message : Advice → String
  | .unused => "Local variable is never used."
  | .unreachable => "Unreachable code detected"

structure Warning where
  place : Place
  advice : Advice
deriving DecidableEq, Repr

/-- The life of a local variable; it only moves forward. -/
inductive Stage where
  | declared
  | defined
  | read
deriving DecidableEq, Repr

/-- A local variable; the implicit `this` has no place. -/
structure Entry where
  name : String
  place : Option Place
  stage : Stage
deriving DecidableEq, Repr

end Scope

/-- The local variables of one scope, in order of declaration. -/
abbrev Scope := List Scope.Entry

namespace Scope

def find? (scope : Scope) (name : String) : Option Entry := List.find? (fun e => e.name = name) scope

def has (scope : Scope) (name : String) : Bool := scope.any fun e => e.name = name

/-- Moves the variable of that name to another stage of its life. -/
def move (scope : Scope) (name : String) (change : Stage → Stage) : Scope :=
  scope.map fun e => if e.name = name then { e with stage := change e.stage } else e

def Stage.define : Stage → Stage
  | .declared => .defined
  | s => s

/-- Warnings for the variables that nothing has read. -/
def unused (scope : Scope) : List Warning :=
  scope.filterMap fun e => if e.stage = .read then none else e.place.map (⟨·, .unused⟩)

/-- The class body around a node, which decides what `this` may mean. -/
inductive Receiver where
  | none
  | object
  | static
deriving DecidableEq, Repr

structure Context where
  scopes : List Scope
  routine : Option RoutineKind
  receiver : Receiver
  warnings : List Warning
  distances : Distances

/-- Marks the nearest variable of that name as read and tells how many scopes out it is. -/
def lookup (name : String) : List Scope → Option (Nat × List Scope)
  | [] => none
  | scope :: outer =>
    if scope.has name then some (0, scope.move name (fun _ => .read) :: outer)
    else (lookup name outer).map fun (distance, outer) => (distance + 1, scope :: outer)

end Scope

end Scriptlet
