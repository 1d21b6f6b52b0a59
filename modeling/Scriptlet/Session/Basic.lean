import Scriptlet.Ast.Parser
import Scriptlet.Diagnostic
import Scriptlet.Machine.Run
import Scriptlet.Scope.Analysis
import Scriptlet.Session.Address
import Scriptlet.Text.Quoted

/-!
A session holds a world, numbers its nodes, and reports errors. Program text is checked in stages, each of which
reports and stops at errors of its own kind; then the machine runs it. After an error nothing is run until the
session is reset. A host reaches into the session by dotted addresses.
-/
namespace Scriptlet

structure Session where
  world : World
  reporter : Reporter
  nextId : NodeId

namespace Session

open Machine

def withConsole (console : Console) : Session where
  world := ⟨Store.bare.withLibrary, console, .empty⟩
  reporter := .empty
  nextId := 0

def store (s : Session) : Store := s.world.store

def withStore (s : Session) (store : Store) : Session := { s with world := { s.world with store } }

/-- Reports errors and fails with the first of them. -/
def fail {α : Type} (s : Session) (e : Error) (es : List Error) : Session × Except Error α :=
  ({ s with reporter := s.reporter.errors (e :: es) }, .error e)

def scan (s : Session) (source : String) : Session × Except Error (List Token) :=
  let items := Token.scan source
  match (Item.faults items).map fun (line, fault) => Error.ofLex line fault with
  | e :: es => s.fail e es
  | [] => (s, .ok (Item.tokens items))

def parsed {α : Type} (s : Session) (outcome : Parser.Outcome α) : Session × Except Error α :=
  let s := { s with nextId := outcome.nextId }
  match outcome.result with
  | .ok tree => (s, .ok tree)
  | .error [] => (s, .error .pending)
  | .error (e :: es) => s.fail (.ofParse e) (es.map .ofParse)

def resolved (s : Session) (report : Scope.Report) : Session × Except Error Unit :=
  let s := { s with
    world := { s.world with distances := report.distances }
    reporter := s.reporter.warnings (report.warnings.map .ofScope) }
  match report.result with
  | .ok () => (s, .ok ())
  | .error e => s.fail (.ofResolve e) []

/-- What kind of text a host hands over. -/
inductive Form where
  | program
  | expression
deriving DecidableEq, Repr

/-- Parses and analyses tokens into something that the machine can run. -/
def load (s : Session) (form : Form) (tokens : List Token) : Session × Except Error Control :=
  match form with
  | .program =>
    match s.parsed (Parser.parse tokens s.nextId) with
    | (s, .error e) => (s, .error e)
    | (s, .ok program) =>
      let (s, result) := s.resolved (Scope.resolve program s.world.distances)
      (s, result.map fun _ => .program program)
  | .expression =>
    match s.parsed (Parser.parseExpression tokens s.nextId) with
    | (s, .error e) => (s, .error e)
    | (s, .ok e) =>
      let (s, result) := s.resolved (Scope.resolveExpression e s.world.distances)
      (s, result.map fun _ => .evaluate e)

/-- All checks of a text; only a session without open errors takes one. -/
def check (s : Session) (form : Form) (source : String) : Session × Except Error Control :=
  if s.reporter.blocked then (s, .error .pending)
  else match s.scan source with
    | (s, .error e) => (s, .error e)
    | (s, .ok tokens) => s.load form tokens

/-- The machine at the start of some work in this session. -/
def start (s : Session) (control : Control) : State := .start s.world control

/-- What a halted machine leaves behind; `none` if it has not halted. -/
def finish (s : Session) (state : State) : Option (Session × Except Error Value) :=
  let s := { s with world := state.toWorld }
  match state.outcome? with
  | some (.value v) => some (s, .ok v)
  | some (.flow _) => some (s, .ok .null)
  | some (.failure e) => some (s.fail (.ofFailure e) [])
  | none => none

/-- Runs work to its end, within a limit of steps; `none` if it takes more. -/
def perform (host : Host) (limit : Nat) (s : Session) (control : Control) :
    Option (Session × Except Error Value) :=
  s.finish (Machine.run host limit (s.start control))

/-- Checks and runs a text: an expression yields its value, a program `null`. -/
def submit (host : Host) (limit : Nat) (s : Session) (form : Form) (source : String) :
    Option (Session × Except Error Value) :=
  match s.check form source with
  | (s, .error e) => some (s, .error e)
  | (s, .ok control) => s.perform host limit control

def reset (s : Session) : Session := { s with reporter := s.reporter.reset }

def hostError {α : Type} (fault : Fault) : Except Error α := .error (.ofFailure (.native fault))

/-- Reads an address; nothing is reported if it leads nowhere. -/
def get (s : Session) (address : String) : Session × Except Error Value :=
  match Address.read s.store address with
  | .ok (v, store) => (s.withStore store, .ok v)
  | .error fault => (s, hostError fault)

def set (s : Session) (address : String) (value : Value) : Session × Except Error Unit :=
  match Address.write s.store address value with
  | .ok store => (s.withStore store, .ok ())
  | .error fault => (s, hostError fault)

/-- A value as one who looks into the session sees it: text is quoted, anything else displayed. -/
def inspect (s : Session) : Value → String
  | .text t => Text.quote t
  | v => s.store.display v

def define (s : Session) (name : String) (value : Value) : Session :=
  s.withStore (s.store.defineGlobal name value)

def call (host : Host) (limit : Nat) (s : Session) (callee : Value) (arguments : List Value) :
    Option (Session × Except Error Value) :=
  s.perform host limit (.invoke callee arguments .host)

/-- Calls a class; anything else is refused without a report. -/
def create (host : Host) (limit : Nat) (s : Session) (value : Value) (arguments : List Value) :
    Option (Session × Except Error Value) :=
  match value with
  | .class _ => s.call host limit value arguments
  | _ => some (s, hostError (.notClass (s.store.display value)))

end Session

end Scriptlet
