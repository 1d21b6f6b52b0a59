import Scriptlet.Ast.Basic
import Scriptlet.Frame

/-!
The store: all frames, functions, classes, instances and native storage that a session has created. Operations that
create something return the store with the new object in it.
-/
namespace Scriptlet

/-- A routine together with the frame that it was declared in. -/
structure Closure where
  routine : Routine
  frame : Ref .frame
  kind : RoutineKind

inductive ListMethod where
  | add | at | setAt | removeAt | count
deriving DecidableEq, Repr

inductive MapMethod where
  | add | at | setAt | contains | remove | count
deriving DecidableEq, Repr

/-- What a native function does. The methods of a list or map know their storage; a function of the host has a tag and
may have a private cell. -/
inductive Behaviour where
  | clock
  | input
  | list (method : ListMethod) (items : Ref .list)
  | map (method : MapMethod) (entries : Ref .map)
  | host (tag : String) (cell : Option (Ref .cell))
deriving DecidableEq, Repr

structure Native where
  name : String
  arity : Nat
  behaviour : Behaviour
deriving DecidableEq, Repr

inductive Callable where
  | closure (closure : Closure)
  | native (native : Native)

/-- How a native class prepares a new instance. -/
inductive Initializer where
  | list
  | map
  | host (tag : String)
deriving DecidableEq, Repr

structure NativeClass where
  arity : Nat
  initializer : Initializer
deriving DecidableEq, Repr

structure ClassObject where
  name : String
  methods : Table String Closure
  statics : Table String Value
  native : Option NativeClass

structure Instance where
  classRef : Ref .classObject
  fields : Table String Value

/-- What a name can mean on an object: a value that is there, or a method to be bound to the receiver. -/
inductive Property where
  | value (value : Value)
  | method (closure : Closure) (receiver : Ref .object)

structure Store where
  frames : Frames
  functions : Heap .function Callable
  classes : Heap .classObject ClassObject
  instances : Heap .object Instance
  lists : Heap .list (List Value)
  maps : Heap .map (Table Value.Key Value)
  cells : Heap .cell Value

def Closure.arity (c : Closure) : Nat := c.routine.params.length

def Closure.display (c : Closure) : String :=
  if c.kind = .lambda then "<lambda fn>" else "<fn " ++ c.routine.name.text ++ ">"

def Native.display (n : Native) : String := "<fn " ++ n.name ++ ">"

namespace Callable

def name : Callable → String
  | .closure c => c.routine.name.text
  | .native n => n.name

def arity : Callable → Nat
  | .closure c => c.arity
  | .native n => n.arity

def display : Callable → String
  | .closure c => c.display
  | .native n => n.display

end Callable

def ClassObject.constructor? (c : ClassObject) : Option Closure := c.methods.get? constructorName

/-- The arity of the constructor decides; without one that of the native part. -/
def ClassObject.arity (c : ClassObject) : Nat :=
  match c.constructor?, c.native with
  | some f, _ => f.arity
  | none, some n => n.arity
  | none, none => 0

/-- Something to call: a function or a class. -/
inductive Callee where
  | function (callable : Callable)
  | class (ref : Ref .classObject) (object : ClassObject)

namespace Callee

def name : Callee → String
  | .function f => f.name
  | .class _ c => c.name

def arity : Callee → Nat
  | .function f => f.arity
  | .class _ c => c.arity

def display : Callee → String
  | .function f => f.display
  | .class _ c => c.name

end Callee

namespace Store

/-- A store with the outermost frame only. -/
def initial : Store where
  frames := Heap.empty.alloc Frames.outermost
  functions := .empty
  classes := .empty
  instances := .empty
  lists := .empty
  maps := .empty
  cells := .empty

/-- The outermost frame, which holds the global names. -/
def globals : Ref .frame := ⟨0⟩

def callee? (s : Store) : Value → Option Callee
  | .function r => (s.functions.get? r).map .function
  | .class r => (s.classes.get? r).map (.class r)
  | _ => none

def className (s : Store) (r : Ref .classObject) : String := ((s.classes.get? r).map (·.name)).getD ""

def display (s : Store) : Value → String
  | .null => "null"
  | .boolean true => "true"
  | .boolean false => "false"
  | .number x => x.display
  | .text t => t
  | .function r => ((s.functions.get? r).map (·.display)).getD ""
  | .class r => s.className r
  | .instance r => ((s.instances.get? r).map fun i => s.className i.classRef).getD "" ++ " instance"

def define (s : Store) (frame : Ref .frame) (name : String) (value : Value) : Store :=
  { s with frames := s.frames.define frame name value }

def addFunction (s : Store) (f : Callable) : Value × Store :=
  (.function s.functions.next, { s with functions := s.functions.alloc f })

def addNative (s : Store) (name : String) (arity : Nat) (behaviour : Behaviour) : Value × Store :=
  s.addFunction (.native ⟨name, arity, behaviour⟩)

def addClass (s : Store) (c : ClassObject) : Value × Store :=
  (.class s.classes.next, { s with classes := s.classes.alloc c })

/-- Adds an instance without fields. -/
def addInstance (s : Store) (r : Ref .classObject) : Ref .object × Store :=
  (s.instances.next, { s with instances := s.instances.alloc ⟨r, .empty⟩ })

/-- A frame inside `parent` with the given bindings; with two of one name the last one counts. -/
def addFrame (s : Store) (parent : Ref .frame) (bindings : List (String × Value)) : Ref .frame × Store :=
  let table := bindings.foldl (fun t (name, value) => t.insert name value) Table.empty
  (s.frames.next, { s with frames := s.frames.alloc ⟨table, some parent⟩ })

/-- Puts a receiver around a method: a frame that binds `this`. -/
def bind (s : Store) (method : Closure) (receiver : Ref .object) : Closure × Store :=
  let (frame, s) := s.addFrame method.frame [("this", .instance receiver)]
  ({ method with frame }, s)

def setField (s : Store) (r : Ref .object) (name : String) (value : Value) : Store :=
  { s with instances := s.instances.modify r fun i => { i with fields := i.fields.insert name value } }

def static? (s : Store) (r : Ref .classObject) (name : String) : Option Value :=
  (s.classes.get? r).bind (·.statics.get? name)

def method? (s : Store) (r : Ref .classObject) (name : String) : Option Closure :=
  (s.classes.get? r).bind (·.methods.get? name)

/-- A property of an instance: its field, else a static of its class, else a method. -/
def property? (s : Store) (r : Ref .object) (name : String) : Option Property :=
  match s.instances.get? r with
  | none => none
  | some i =>
    match i.fields.get? name, s.static? i.classRef name with
    | some v, _ => some (.value v)
    | none, some v => some (.value v)
    | none, none => (s.method? i.classRef name).map (.method · r)

/-- A member of any value: only instances and classes have some. -/
def member? (s : Store) (v : Value) (name : String) : Option Property :=
  match v with
  | .instance r => s.property? r name
  | .class r => (s.static? r name).map .value
  | _ => none

/-- The value of a property; every access to a method binds it anew. -/
def realize (s : Store) : Property → Value × Store
  | .value v => (v, s)
  | .method m receiver =>
    let (bound, s) := s.bind m receiver
    s.addFunction (.closure bound)

end Store

end Scriptlet
