import Scriptlet.Scope.Basic

/-!
The analysis of names. It walks a program once, opens a scope for every block, routine and class body, records the
distance of every use of a local variable, and stops at the first fault. Scopes and surroundings are restored also
when it stops, so the variables of abandoned scopes are still checked for use.
-/
namespace Scriptlet.Scope

def Analysis (α : Type) := Context → Except Error α × Context

namespace Analysis

@[always_inline, inline]
def done {α : Type} (value : α) : Analysis α := fun c => (.ok value, c)

@[always_inline, inline]
def andThen {α β : Type} (a : Analysis α) (f : α → Analysis β) : Analysis β := fun c =>
  match a c with
  | (.ok value, c) => f value c
  | (.error e, c) => (.error e, c)

instance : Monad Analysis where
  pure := done
  bind := andThen

def fail {α : Type} (place : Place) (fault : Fault) : Analysis α := fun c => (.error ⟨place, fault⟩, c)

def context : Analysis Context := fun c => (.ok c, c)

/-- Runs with a new innermost scope and closes it in any case, warning of what was never read in it. -/
def withScope (scope : Scope) (a : Analysis Unit) : Analysis Unit := fun c =>
  let (result, c') := a { c with scopes := scope :: c.scopes }
  (result, { c' with
    scopes := c'.scopes.tail
    warnings := c'.warnings ++ (c'.scopes.headD []).unused })

def withRoutine (kind : RoutineKind) (a : Analysis Unit) : Analysis Unit := fun c =>
  let (result, c') := a { c with routine := some kind }
  (result, { c' with routine := c.routine })

def withReceiver (receiver : Receiver) (a : Analysis Unit) : Analysis Unit := fun c =>
  let (result, c') := a { c with receiver }
  (result, { c' with receiver := c.receiver })

def warn (warning : Warning) : Analysis Unit := fun c =>
  (.ok (), { c with warnings := c.warnings ++ [warning] })

/-- Enters a name into the innermost scope; globals are not tracked. -/
def declare (name : Name) : Analysis Unit := fun c =>
  match c.scopes with
  | [] => (.ok (), c)
  | scope :: outer =>
    if scope.has name.text then (.error ⟨name.place, .duplicate⟩, c)
    else (.ok (), { c with scopes := (scope ++ [⟨name.text, some name.place, .declared⟩]) :: outer })

def define (name : Name) : Analysis Unit := fun c =>
  match c.scopes with
  | [] => (.ok (), c)
  | scope :: outer => (.ok (), { c with scopes := scope.move name.text Stage.define :: outer })

/-- A variable may not be read while the innermost scope is still computing its initial value. -/
def checkInitialized (name : Name) : Analysis Unit := fun c =>
  match c.scopes.head?.bind (·.find? name.text) with
  | some ⟨_, _, .declared⟩ => (.error ⟨name.place, .ownInitializer⟩, c)
  | _ => (.ok (), c)

/-- Records where the variable of a node lives, unless no open scope has it. -/
def bindNode (id : NodeId) (name : String) : Analysis Unit := fun c =>
  match lookup name c.scopes with
  | none => (.ok (), c)
  | some (distance, scopes) => (.ok (), { c with scopes, distances := c.distances.insert id distance })

def parameters : List Name → Analysis Unit
  | [] => done ()
  | p :: ps => do
    declare p
    define p
    parameters ps

/-- The first `return` that is not the last statement. -/
def earlyReturn? : List Stmt → Option Place
  | .return line _ :: _ :: _ => some ⟨line, some "return"⟩
  | _ :: rest => earlyReturn? rest
  | [] => none

def warnUnreachable (body : List Stmt) : Analysis Unit :=
  match earlyReturn? body with
  | some place => warn ⟨place, .unreachable⟩
  | none => done ()

/-- The scope that holds the receiver of a method. -/
def receiverScope : Scope := [⟨"this", none, .read⟩]

def checkBase (name : Name) : Option Expr → Analysis Unit
  | some (.variable _ base) => if base.text = name.text then fail base.place .ownBase else done ()
  | _ => done ()

mutual

def expr : Expr → Analysis Unit
  | .literal _ => done ()
  | .unary _ right => expr right
  | .binary left _ right => do expr left; expr right
  | .logical left _ right => do expr left; expr right
  | .ternary condition yes no => do expr condition; expr yes; expr no
  | .group inner => expr inner
  | .variable id name => do checkInitialized name; bindNode id name.text
  | .assign id name value => do expr value; bindNode id name.text
  | .suffix id name _ => do checkInitialized name; bindNode id name.text
  | .call callee arguments _ => do expr callee; exprs arguments
  | .get object _ => expr object
  | .set object _ value => do expr value; expr object
  | .update object _ _ value => do expr object; expr value
  | .index object position _ => do expr object; expr position
  | .this id line => do
    match (← context).receiver with
    | .none => fail ⟨line, some "this"⟩ .thisOutsideClass
    | .static => fail ⟨line, some "this"⟩ .thisInStatic
    | .object => bindNode id "this"
  | .lambda f => routine .lambda f

def exprs : List Expr → Analysis Unit
  | [] => done ()
  | e :: es => do expr e; exprs es

def optional : Option Expr → Analysis Unit
  | none => done ()
  | some e => expr e

/-- Parameters and the statements of the body share one scope. -/
def routine (kind : RoutineKind) : Routine → Analysis Unit
  | ⟨_, params, body⟩ =>
    withRoutine kind (withScope [] do
      parameters params
      stmts body
      warnUnreachable body)

def statics : List Routine → Analysis Unit
  | [] => done ()
  | f :: fs => do routine .static f; statics fs

def methods : List Routine → Analysis Unit
  | [] => done ()
  | f :: fs => do routine (.ofMethod f.name.text) f; methods fs

def classDeclaration : ClassDeclaration → Analysis Unit
  | ⟨name, base, ms, ss⟩ => do
    declare name
    define name
    checkBase name base
    optional base
    withReceiver .static (statics ss)
    withReceiver .object (withScope receiverScope (methods ms))

def stmt : Stmt → Analysis Unit
  | .expression value => expr value
  | .print value => expr value
  | .var name initial => do declare name; optional initial; define name
  | .block body => withScope [] (stmts body)
  | .conditional condition yes no => do expr condition; stmt yes; otherwise no
  | .loop condition body => do expr condition; stmt body
  | .break _ => done ()
  | .continue _ => done ()
  | .function f => do declare f.name; define f.name; routine .function f
  | .return line value => do
    match (← context).routine, value with
    | none, _ => fail ⟨line, some "return"⟩ .topLevelReturn
    | some .constructor, some _ => fail ⟨line, some "return"⟩ .constructorValue
    | _, _ => optional value
  | .class c => classDeclaration c

def otherwise : Option Stmt → Analysis Unit
  | none => done ()
  | some s => stmt s

def stmts : List Stmt → Analysis Unit
  | [] => done ()
  | s :: ss => do stmt s; stmts ss

end

end Analysis

/-- What the analysis finds: the fault at which it stopped, warnings in order of lines, and the distances. -/
structure Report where
  result : Except Error Unit
  warnings : List Warning
  distances : Distances

def Report.of (analysis : Analysis Unit) (distances : Distances) : Report :=
  let (result, c) := analysis ⟨[], none, .none, [], distances⟩
  ⟨result, c.warnings.mergeSort fun a b => a.place.line ≤ b.place.line, c.distances⟩

/-- Analyses a program; the distances found are added to those given. -/
def resolve (program : List Stmt) (distances : Distances) : Report := .of (Analysis.stmts program) distances

/-- Analyses an expression that stands outside of any scope. -/
def resolveExpression (e : Expr) (distances : Distances) : Report := .of (Analysis.expr e) distances

end Scriptlet.Scope
