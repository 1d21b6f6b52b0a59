import Scriptlet.Machine.Fault
import Scriptlet.Scope.Distance
import Scriptlet.Store

/-!
States of the abstract machine that runs programs. A state has what is done now, what is pending once that is
finished, the current frame, and the world that outlives a run. Control leaves a construct in three ways: an
expression yields a value, a statement yields a flow, and either can raise a failure, which unwinds pending work.
-/
namespace Scriptlet

/-- How control leaves a statement. -/
inductive Flow where
  | normal
  | break
  | continue
  | return (value : Value)
deriving DecidableEq, Repr

/-- Lines printed so far and lines still to be read. An unreadable line is `none`; a reader that is not closed may
get more. -/
structure Console where
  output : Array String
  input : List (Option String)
  closed : Bool
  clock : Number

def Console.print (c : Console) (line : String) : Console := { c with output := c.output.push line }

/-- The next line: `none` while it has yet to come, and no text for an unreadable line or after the last. -/
def Console.read? (c : Console) : Option (Option String × Console) :=
  match c.input with
  | line :: rest => some (line, { c with input := rest })
  | [] => if c.closed then some (none, c) else none

structure World where
  store : Store
  console : Console
  distances : Distances

namespace Machine

/-- Who makes a call: the program, at a line, or the host. -/
inductive Site where
  | script (line : Nat)
  | host
deriving DecidableEq, Repr

inductive Control where
  | evaluate (e : Expr)
  | execute (s : Stmt)
  /-- The rest of a block. -/
  | sequence (body : List Stmt)
  /-- The rest of the top level, where no flow ends the program. -/
  | program (body : List Stmt)
  /-- A call whose callee and argument count are not checked yet. -/
  | invoke (callee : Value) (arguments : List Value) (site : Site)
  /-- A call with as many arguments as the callee takes. -/
  | enter (callee : Callee) (arguments : List Value)
  | value (value : Value)
  | flow (flow : Flow)
  | raise (failure : Failure)

/-- Work that waits for a value, for a flow, or for the end of a call. -/
inductive Pending where
  | unary (op : Token)
  | binaryRight (op : Token) (right : Expr)
  | binary (left : Value) (op : Token)
  | logical (op : Token) (right : Expr)
  | ternary (yes no : Expr)
  | assign (id : NodeId) (name : Name)
  | callee (arguments : List Expr) (line : Nat)
  | arguments (callee : Value) (done : List Value) (rest : List Expr) (line : Nat)
  | get (name : Name)
  | setObject (name : Name) (value : Expr)
  | setField (object : Ref .object) (name : Name)
  | updateObject (name : Name) (op : Token) (value : Expr)
  | updateField (object : Ref .object) (name : Name) (current : Value) (op : Token)
  | indexObject (position : Expr) (line : Nat)
  | index (object : Value) (line : Nat)
  | expression
  | print
  | var (name : Name)
  | conditional (yes : Stmt) (no : Option Stmt)
  | loopCondition (condition : Expr) (body : Stmt)
  | return
  | base (declaration : ClassDeclaration)
  | sequence (rest : List Stmt)
  | program (rest : List Stmt)
  | loopBody (condition : Expr) (body : Stmt)
  /-- Leaves a block: the frame outside of it becomes current again. -/
  | leave (outside : Ref .frame)
  /-- Ends the body of a closure: the frame of the caller becomes current again. -/
  | body (closure : Closure) (outside : Ref .frame)
  /-- The constructor has run; the instance is the result. -/
  | constructed (object : Ref .object)
  /-- A call of the program, at whose line native faults are reported. -/
  | site (line : Nat)
  /-- A call that a native makes; its failures are the native's. -/
  | nativeCall

structure State extends World where
  control : Control
  frame : Ref .frame
  pending : List Pending

namespace State

def push (s : State) (p : Pending) (control : Control) : State :=
  { s with control, pending := p :: s.pending }

def go (s : State) (control : Control) : State := { s with control }

def give (s : State) (value : Value) : State := s.go (.value value)

def raise (s : State) (line : Nat) (fault : Fault) : State := s.go (.raise (.runtime line fault))

/-- Binds a name in a frame. -/
def write (s : State) (frame : Ref .frame) (name : String) (value : Value) : State :=
  { s with store := s.store.define frame name value }

def define (s : State) (name : String) (value : Value) : State := s.write s.frame name value

end State

end Machine

end Scriptlet
