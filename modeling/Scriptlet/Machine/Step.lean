import Scriptlet.Library.Prepare
import Scriptlet.Machine.Basic
import Scriptlet.Machine.Operator

/-!
One step of the machine. What is done now either takes itself apart, leaving work pending, or finishes and hands its
value, flow or failure to the pending work on top.
-/
namespace Scriptlet.Machine

namespace State

/-- Goes on with a result, or raises its fault at a line. -/
def answer (s : State) (line : Nat) : Except Fault Value → State
  | .ok v => s.give v
  | .error fault => s.raise line fault

def realize (s : State) (p : Property) : Value × State :=
  let (v, store) := s.store.realize p
  (v, { s with store })

/-- A node with a distance reads the frame there, any other the outermost frame. -/
def lookup (s : State) (id : NodeId) (name : String) : Option Value :=
  match s.distances.get? id with
  | some distance => s.store.frames.getAt s.frame distance name
  | none => s.store.frames.fetch Store.globals name

/-- The frame that an assignment changes; a node without a distance assigns to a global that exists. -/
def target? (s : State) (id : NodeId) (name : String) : Option (Ref .frame) :=
  match s.distances.get? id with
  | some distance => s.store.frames.ancestor s.frame distance
  | none => s.store.frames.owner? Store.globals name

def closure (s : State) (routine : Routine) (kind : RoutineKind) : Closure := ⟨routine, s.frame, kind⟩

/-- A new function value for a routine declared in the current frame. -/
def addClosure (s : State) (routine : Routine) (kind : RoutineKind) : Value × State :=
  let (f, store) := s.store.addFunction (.closure (s.closure routine kind))
  (f, { s with store })

end State

/-- Evaluates the remaining arguments of a call, then makes it. -/
def evaluateArguments (s : State) (callee : Value) (done : List Value) (rest : List Expr) (line : Nat) : State :=
  match rest with
  | [] => s.go (.invoke callee done (.script line))
  | e :: rest => s.push (.arguments callee done rest line) (.evaluate e)

def evaluate (s : State) : Expr → State
  | .literal value => s.give (literal value)
  | .group inner => s.go (.evaluate inner)
  | .unary op right => s.push (.unary op) (.evaluate right)
  | .binary left op right => s.push (.binaryRight op right) (.evaluate left)
  | .logical left op right => s.push (.logical op right) (.evaluate left)
  | .ternary condition yes no => s.push (.ternary yes no) (.evaluate condition)
  | .variable id name =>
    match s.lookup id name.text with
    | some v => s.give v
    | none => s.raise name.line (.undefinedVariable name.text)
  | .this id line =>
    match s.lookup id "this" with
    | some v => s.give v
    | none => s.raise line (.undefinedVariable "this")
  | .assign id name value => s.push (.assign id name) (.evaluate value)
  | .suffix id name op =>
    match s.lookup id name.text with
    | none => s.raise name.line (.undefinedVariable name.text)
    | some (.number x) =>
      match s.target? id name.text with
      | some frame => (s.write frame name.text (.number (stepped op x))).give (.number x)
      | none => s.raise name.line (.undefinedVariable name.text)
    | some _ => s.raise op.line .operandNumber
  | .call callee arguments line => s.push (.callee arguments line) (.evaluate callee)
  | .get object name => s.push (.get name) (.evaluate object)
  | .set object name value => s.push (.setObject name value) (.evaluate object)
  | .update object name op value => s.push (.updateObject name op value) (.evaluate object)
  | .index object position line => s.push (.indexObject position line) (.evaluate object)
  | .lambda routine =>
    let (f, s) := s.addClosure routine .lambda
    s.give f

/-- Adds the static methods of a class; of two with one name the last one counts. -/
def addStatics (s : State) (routines : List Routine) : Table String Value × State :=
  routines.foldl (fun (table, s) routine =>
    let (f, s) := s.addClosure routine .static
    (table.insert routine.name.text f, s)) (.empty, s)

/-- Nothing is inherited: a class has its own methods and statics only. -/
def declareClass (s : State) (d : ClassDeclaration) : State :=
  let methods := d.methods.foldl
    (fun table m => table.insert m.name.text (s.closure m (.ofMethod m.name.text))) Table.empty
  let (statics, s) := addStatics s d.statics
  let (c, store) := s.store.addClass ⟨d.name.text, methods, statics, none⟩
  ({ s with store }.define d.name.text c).go (.flow .normal)

def execute (s : State) : Stmt → State
  | .expression value => s.push .expression (.evaluate value)
  | .print value => s.push .print (.evaluate value)
  | .var name none => (s.define name.text .null).go (.flow .normal)
  | .var name (some value) => s.push (.var name) (.evaluate value)
  | .block body =>
    let (frame, store) := s.store.addFrame s.frame []
    { s with store, frame }.push (.leave s.frame) (.sequence body)
  | .conditional condition yes no => s.push (.conditional yes no) (.evaluate condition)
  | .loop condition body => s.push (.loopCondition condition body) (.evaluate condition)
  | .break _ => s.go (.flow .break)
  | .continue _ => s.go (.flow .continue)
  | .function routine =>
    let (f, s) := s.addClosure routine .function
    (s.define routine.name.text f).go (.flow .normal)
  | .return _ none => s.go (.flow (.return .null))
  | .return _ (some value) => s.push .return (.evaluate value)
  | .class d =>
    let s := s.define d.name.text .null
    match d.base with
    | some base => s.push (.base d) (.evaluate base)
    | none => declareClass s d

/-- Checks a callee and the number of arguments; faults belong to who calls. -/
def invoke (s : State) (callee : Value) (arguments : List Value) (site : Site) : State :=
  match s.store.callee? callee, site with
  | none, .script line => s.raise line .notCallable
  | none, .host => s.go (.raise (.native (.valueNotCallable (s.store.display callee))))
  | some c, .script line =>
    if arguments.length = c.arity then s.push (.site line) (.enter c arguments)
    else s.raise line (.arity c.arity arguments.length)
  | some c, .host =>
    if arguments.length = c.arity then s.go (.enter c arguments)
    else s.go (.raise (.native (.arity c.arity arguments.length)))

def enterNative (host : Host) (s : State) (native : Native) (arguments : List Value) : State :=
  match native.behaviour with
  | .clock => s.give (.number s.console.clock)
  | .input =>
    match s.console.read? with
    | some (line?, console) => { s with console }.give (line?.elim .null .text)
    | none => s
  | .list method items =>
    match method.apply s.store.display ((s.store.lists.get? items).getD []) arguments with
    | .ok (v, xs) => { s with store := { s.store with lists := s.store.lists.set items xs } }.give v
    | .error fault => s.go (.raise (.native fault))
  | .map method entries =>
    match method.apply s.store.display ((s.store.maps.get? entries).getD .empty) arguments with
    | .ok (v, t) => { s with store := { s.store with maps := s.store.maps.set entries t } }.give v
    | .error fault => s.go (.raise (.native fault))
  | .host tag cell =>
    let answer := host.call tag cell arguments s.store
    let s := { s with store := answer.store, console := answer.printed.foldl Console.print s.console }
    match answer.reply with
    | .value v => s.give v
    | .failure message => s.go (.raise (.native (.custom message)))
    | .call callee arguments => s.push .nativeCall (.invoke callee arguments .host)

/-- Runs the body of a closure in a new frame inside the one that it was declared in. -/
def enterClosure (s : State) (c : Closure) (arguments : List Value) : State :=
  let (frame, store) := s.store.addFrame c.frame ((c.routine.params.map Name.text).zip arguments)
  { s with store, frame }.push (.body c s.frame) (.sequence c.routine.body)

/-- Creates an instance, lets the native part prepare it, and runs the constructor if there is one. -/
def enterClass (host : Host) (s : State) (r : Ref .classObject) (c : ClassObject) (arguments : List Value) : State :=
  let (object, store) := s.store.addInstance r
  let (store, fault?) := match c.native with
    | some native => store.prepare host object arguments native.initializer
    | none => (store, none)
  match fault?, c.constructor? with
  | some fault, _ => { s with store }.go (.raise (.native fault))
  | none, none => { s with store }.give (.instance object)
  | none, some f =>
    let (bound, store) := store.bind f object
    { s with store }.push (.constructed object) (.enter (.function (.closure bound)) arguments)

def enter (host : Host) (s : State) (callee : Callee) (arguments : List Value) : State :=
  match callee with
  | .function (.closure c) => enterClosure s c arguments
  | .function (.native n) => enterNative host s n arguments
  | .class r c => enterClass host s r c arguments

/-- Text is indexed by position, instances by their `at`. -/
def subscript (s : State) (object position : Value) (line : Nat) : State :=
  match object with
  | .text t => s.answer line (textAt t position)
  | .instance r =>
    match s.store.property? r "at" with
    | some p =>
      let (f, s) := s.realize p
      s.go (.invoke f [position] (.script line))
    | none => s.raise line .instanceIndexing
  | _ => s.raise line .indexing

/-- Hands a value to pending work, which has been taken off the state. -/
def resume (s : State) (v : Value) : Pending → State
  | .unary op => s.answer op.line (unary op v)
  | .binaryRight op right => s.push (.binary v op) (.evaluate right)
  | .binary left op => s.answer op.line (binary s.store op left v)
  | .logical op right => if shortCircuits op v then s.give v else s.go (.evaluate right)
  | .ternary yes no => s.go (.evaluate (if v.truthy then yes else no))
  | .assign id name =>
    match s.target? id name.text with
    | some frame => (s.write frame name.text v).give v
    | none => s.raise name.line (.undefinedVariable name.text)
  | .callee arguments line => evaluateArguments s v [] arguments line
  | .arguments callee done rest line => evaluateArguments s callee (done ++ [v]) rest line
  | .get name =>
    match v with
    | .instance _ | .class _ =>
      match s.store.member? v name.text with
      | some p =>
        let (v, s) := s.realize p
        s.give v
      | none => s.raise name.line (.undefinedProperty name.text)
    | _ => s.raise name.line .noProperties
  | .setObject name value =>
    match v with
    | .instance r => s.push (.setField r name) (.evaluate value)
    | _ => s.raise name.line .noFields
  | .setField r name => { s with store := s.store.setField r name.text v }.give v
  | .updateObject name op value =>
    match v with
    | .instance r =>
      match s.store.property? r name.text with
      | some p =>
        let (current, s) := s.realize p
        s.push (.updateField r name current op) (.evaluate value)
      | none => s.raise name.line (.undefinedProperty name.text)
    | _ => s.raise name.line .noFields
  | .updateField r name current op =>
    match binary s.store op current v with
    | .ok updated => { s with store := s.store.setField r name.text updated }.give updated
    | .error fault => s.raise op.line fault
  | .indexObject position line => s.push (.index v line) (.evaluate position)
  | .index object line => subscript s object v line
  | .expression => s.go (.flow .normal)
  | .print => { s with console := s.console.print (s.store.display v) }.go (.flow .normal)
  | .var name => (s.define name.text v).go (.flow .normal)
  | .conditional yes no =>
    if v.truthy then s.go (.execute yes)
    else match no with
      | some no => s.go (.execute no)
      | none => s.go (.flow .normal)
  | .loopCondition condition body =>
    if v.truthy then s.push (.loopBody condition body) (.execute body) else s.go (.flow .normal)
  | .return => s.go (.flow (.return v))
  | .base d =>
    match v with
    | .class _ => declareClass s d
    | _ => s.raise d.name.line .baseClass
  | .constructed object => s.give (.instance object)
  | .site _ => s.give v
  | .nativeCall => s.give v
  | p => s.push p (.value v)

/-- What a call of a closure yields: a constructor its receiver, any other what it returns. -/
def bodyResult (store : Store) (c : Closure) (f : Flow) : Value :=
  if c.kind = .constructor then (store.frames.fetch c.frame "this").getD .null
  else match f with
    | .return v => v
    | _ => .null

/-- Hands a flow to pending work, which has been taken off the state. -/
def proceed (s : State) (f : Flow) : Pending → State
  | .sequence rest =>
    match f with
    | .normal => s.go (.sequence rest)
    | f => s.go (.flow f)
  | .program rest => s.go (.program rest)
  | .loopBody condition body =>
    match f with
    | .break => s.go (.flow .normal)
    | .return v => s.go (.flow (.return v))
    | _ => s.push (.loopCondition condition body) (.evaluate condition)
  | .leave outside => { s with frame := outside }.go (.flow f)
  | .body c outside => { s with frame := outside }.give (bodyResult s.store c f)
  | p => s.push p (.flow f)

/-- Passes a failure through pending work, which has been taken off the state. -/
def unwind (s : State) (e : Failure) : Pending → State
  | .leave outside => { s with frame := outside }.go (.raise e)
  | .body _ outside => { s with frame := outside }.go (.raise e)
  | .site line => s.go (.raise (e.at line))
  | .nativeCall => s.go (.raise (.native (.custom e.display)))
  | _ => s.go (.raise e)

def step (host : Host) (s : State) : State :=
  match s.control with
  | .evaluate e => evaluate s e
  | .execute stmt => execute s stmt
  | .sequence [] => s.go (.flow .normal)
  | .sequence (stmt :: rest) => s.push (.sequence rest) (.execute stmt)
  | .program [] => s.go (.flow .normal)
  | .program (stmt :: rest) => s.push (.program rest) (.execute stmt)
  | .invoke callee arguments site => invoke s callee arguments site
  | .enter callee arguments => enter host s callee arguments
  | .value v =>
    match s.pending with
    | [] => s
    | p :: rest => resume { s with pending := rest } v p
  | .flow f =>
    match s.pending with
    | [] => s
    | p :: rest => proceed { s with pending := rest } f p
  | .raise e =>
    match s.pending with
    | [] => s
    | p :: rest => unwind { s with pending := rest } e p

end Scriptlet.Machine
