import Scriptlet.Proofs.AlignedRuns
import Scriptlet.Proofs.RunLaws
import Scriptlet.Proofs.Unlined

/-!
Runs without lines. The machine puts lines into failures and nowhere else, and once a failure is raised nothing looks
into it; so states that differ in lines only take steps to states that differ in lines only.
-/
namespace Scriptlet.Machine

variable {host : Host}

def Site.unlined : Site → Site
  | .script _ => .script 0
  | .host => .host

/-- Failures are worded with lines, so nothing of a failure is kept but that it is one. -/
def Control.unlined : Control → Control
  | .evaluate e => .evaluate (Relabeling.unlined.expr e)
  | .execute x => .execute (Relabeling.unlined.stmt x)
  | .sequence body => .sequence (Relabeling.unlined.stmts body)
  | .program body => .program (Relabeling.unlined.stmts body)
  | .invoke callee arguments site => .invoke callee arguments site.unlined
  | .enter callee arguments => .enter callee.unlined arguments
  | .value v => .value v
  | .flow f => .flow f
  | .raise _ => .raise (.native (.custom ""))

def Pending.unlined : Pending → Pending
  | .unary op => .unary (Relabeling.unlined.token op)
  | .binaryRight op right => .binaryRight (Relabeling.unlined.token op) (Relabeling.unlined.expr right)
  | .binary left op => .binary left (Relabeling.unlined.token op)
  | .logical op right => .logical (Relabeling.unlined.token op) (Relabeling.unlined.expr right)
  | .ternary yes no => .ternary (Relabeling.unlined.expr yes) (Relabeling.unlined.expr no)
  | .assign id name => .assign id (Relabeling.unlined.name name)
  | .callee es _ => .callee (Relabeling.unlined.exprs es) 0
  | .arguments f done es _ => .arguments f done (Relabeling.unlined.exprs es) 0
  | .get name => .get (Relabeling.unlined.name name)
  | .setObject name value => .setObject (Relabeling.unlined.name name) (Relabeling.unlined.expr value)
  | .setField object name => .setField object (Relabeling.unlined.name name)
  | .updateObject name op value =>
    .updateObject (Relabeling.unlined.name name) (Relabeling.unlined.token op) (Relabeling.unlined.expr value)
  | .updateField object name current op =>
    .updateField object (Relabeling.unlined.name name) current (Relabeling.unlined.token op)
  | .indexObject position _ => .indexObject (Relabeling.unlined.expr position) 0
  | .index object _ => .index object 0
  | .expression => .expression
  | .print => .print
  | .var name => .var (Relabeling.unlined.name name)
  | .conditional yes no => .conditional (Relabeling.unlined.stmt yes) (Relabeling.unlined.branch no)
  | .loopCondition e repeated => .loopCondition (Relabeling.unlined.expr e) (Relabeling.unlined.stmt repeated)
  | .return => .return
  | .base d => .base (Relabeling.unlined.declaration d)
  | .sequence rest => .sequence (Relabeling.unlined.stmts rest)
  | .program rest => .program (Relabeling.unlined.stmts rest)
  | .loopBody e repeated => .loopBody (Relabeling.unlined.expr e) (Relabeling.unlined.stmt repeated)
  | .leave outside => .leave outside
  | .body closure outside => .body closure.unlined outside
  | .constructed object => .constructed object
  | .site _ => .site 0
  | .nativeCall => .nativeCall

def State.unlined (s : State) : State :=
  { s with store := s.store.unlined, control := s.control.unlined, pending := s.pending.map Pending.unlined }

section Twice

theorem name_twice (n : Name) : Relabeling.unlined.name (Relabeling.unlined.name n) = Relabeling.unlined.name n := rfl

theorem token_twice (t : Token) : Relabeling.unlined.token (Relabeling.unlined.token t) = Relabeling.unlined.token t := rfl

theorem expr_twice (e : Expr) : Relabeling.unlined.expr (Relabeling.unlined.expr e) = Relabeling.unlined.expr e :=
  (Relabeling.expr_andThen _ _ e).symm

theorem exprs_twice (es : List Expr) :
    Relabeling.unlined.exprs (Relabeling.unlined.exprs es) = Relabeling.unlined.exprs es :=
  (Relabeling.exprs_andThen _ _ es).symm

theorem stmt_twice (x : Stmt) : Relabeling.unlined.stmt (Relabeling.unlined.stmt x) = Relabeling.unlined.stmt x :=
  (Relabeling.stmt_andThen _ _ x).symm

theorem branch_twice (x? : Option Stmt) :
    Relabeling.unlined.branch (Relabeling.unlined.branch x?) = Relabeling.unlined.branch x? :=
  (Relabeling.branch_andThen _ _ x?).symm

theorem stmts_twice (xs : List Stmt) :
    Relabeling.unlined.stmts (Relabeling.unlined.stmts xs) = Relabeling.unlined.stmts xs :=
  (Relabeling.stmts_andThen _ _ xs).symm

theorem declaration_twice (c : ClassDeclaration) :
    Relabeling.unlined.declaration (Relabeling.unlined.declaration c) = Relabeling.unlined.declaration c :=
  (Relabeling.declaration_andThen _ _ c).symm

@[simp]
theorem Control.unlined_unlined (c : Control) : c.unlined.unlined = c.unlined := by
  cases c with
  | evaluate e => exact congrArg Control.evaluate (expr_twice e)
  | execute x => exact congrArg Control.execute (stmt_twice x)
  | sequence body => exact congrArg Control.sequence (stmts_twice body)
  | program body => exact congrArg Control.program (stmts_twice body)
  | invoke callee arguments site => cases site <;> rfl
  | enter callee arguments => exact congrArg (Control.enter · arguments) callee.unlined_unlined
  | _ => rfl

@[simp]
theorem Pending.unlined_unlined (p : Pending) : p.unlined.unlined = p.unlined := by
  cases p <;> simp only [Pending.unlined, name_twice, token_twice, expr_twice, exprs_twice, stmt_twice, branch_twice,
    stmts_twice, declaration_twice, Closure.unlined_unlined]

theorem Pending.map_unlined (ps : List Pending) :
    (ps.map Pending.unlined).map Pending.unlined = ps.map Pending.unlined := by
  rw [List.map_map]
  exact List.map_congr_left fun p _ => p.unlined_unlined

@[simp]
theorem State.unlined_unlined (s : State) : s.unlined.unlined = s.unlined := by
  simp only [State.unlined, Store.unlined_unlined, Control.unlined_unlined, Pending.map_unlined]

end Twice

section State

variable (s : State)

theorem unlined_go (c : Control) : (s.go c).unlined = (s.unlined.go c.unlined).unlined := by
  simp only [State.go, State.unlined, Store.unlined_unlined, Control.unlined_unlined, Pending.map_unlined]

theorem unlined_push (p : Pending) (c : Control) : (s.push p c).unlined = (s.unlined.push p.unlined c.unlined).unlined := by
  simp only [State.push, State.unlined, List.map_cons, Store.unlined_unlined, Control.unlined_unlined,
    Pending.unlined_unlined, Pending.map_unlined]

/-- What is done next may be the same up to lines, in states that are. -/
theorem go_congr {s s' : State} (h : s.unlined = s'.unlined) {c c' : Control} (hc : c.unlined = c'.unlined) :
    (s.go c).unlined = (s'.go c').unlined := by
  change { s.unlined with control := c.unlined } = { s'.unlined with control := c'.unlined }
  rw [h, hc]

theorem push_congr {s s' : State} (h : s.unlined = s'.unlined) {p p' : Pending} (hp : p.unlined = p'.unlined)
    {c c' : Control} (hc : c.unlined = c'.unlined) : (s.push p c).unlined = (s'.push p' c').unlined := by
  change { s.unlined with control := c.unlined, pending := p.unlined :: s.unlined.pending } =
    { s'.unlined with control := c'.unlined, pending := p'.unlined :: s'.unlined.pending }
  rw [h, hp, hc]

/-- Stores that are the same up to lines may be put into a state. -/
theorem store_congr (s : State) {store store' : Store} (h : store.unlined = store'.unlined) :
    State.unlined { s with store } = State.unlined { s.unlined with store := store' } := by
  change { s.unlined with store := store.unlined } = { s.unlined.unlined with store := store'.unlined }
  rw [h, State.unlined_unlined]

theorem unlined_answer (line line' : Nat) (r : Except Fault Value) :
    (s.answer line r).unlined = (s.unlined.answer line' r).unlined := by
  cases r with
  | ok v => exact unlined_go s (.value v)
  | error fault => exact unlined_go s (.raise (.runtime line fault))

end State

theorem unlined_addClosure (s : State) (r : Routine) (kind : RoutineKind) :
    s.unlined.addClosure (Relabeling.unlined.routine r) kind = ((s.addClosure r kind).1, (s.addClosure r kind).2.unlined) := by
  have added := s.store.addFunction_unlined (.closure (s.closure r kind))
  exact congrArg (fun new : Value × Store => (new.1, { s.unlined with store := new.2 })) added

theorem lookup_unlined (s : State) (id : NodeId) (name : String) :
    s.unlined.lookup (Relabeling.unlined.number id) name = s.lookup id name := rfl

theorem target?_unlined (s : State) (id : NodeId) (name : String) :
    s.unlined.target? (Relabeling.unlined.number id) name = s.target? id name := rfl

theorem evaluate_unlined (s : State) (e : Expr) :
    (evaluate s e).unlined = (evaluate s.unlined (Relabeling.unlined.expr e)).unlined := by
  cases e with
  | literal value => exact unlined_go s (.value (literal value))
  | group inner => exact unlined_go s (.evaluate inner)
  | unary op right => exact unlined_push s (.unary op) (.evaluate right)
  | binary left op right => exact unlined_push s (.binaryRight op right) (.evaluate left)
  | logical left op right => exact unlined_push s (.logical op right) (.evaluate left)
  | ternary condition yes no => exact unlined_push s (.ternary yes no) (.evaluate condition)
  | «variable» id name =>
    simp only [evaluate, Relabeling.expr, Relabeling.text_name, lookup_unlined]
    cases s.lookup id name.text with
    | some v => exact unlined_go s (.value v)
    | none => exact unlined_go s (.raise _)
  | this id line =>
    simp only [evaluate, Relabeling.expr, lookup_unlined]
    cases s.lookup id "this" with
    | some v => exact unlined_go s (.value v)
    | none => exact unlined_go s (.raise _)
  | assign id name value => exact unlined_push s (.assign id name) (.evaluate value)
  | suffix id name op =>
    simp only [evaluate, Relabeling.expr, Relabeling.text_name, lookup_unlined, target?_unlined]
    cases s.lookup id name.text with
    | none => exact unlined_go s (.raise _)
    | some v =>
      cases v with
      | number x =>
        cases s.target? id name.text with
        | some frame => exact unlined_go (s.write frame name.text (.number (stepped op x))) (.value (.number x))
        | none => exact unlined_go s (.raise _)
      | _ => exact unlined_go s (.raise _)
  | call callee arguments line => exact unlined_push s (.callee arguments line) (.evaluate callee)
  | get object name => exact unlined_push s (.get name) (.evaluate object)
  | set object name value => exact unlined_push s (.setObject name value) (.evaluate object)
  | update object name op value => exact unlined_push s (.updateObject name op value) (.evaluate object)
  | index object position line => exact unlined_push s (.indexObject position line) (.evaluate object)
  | lambda r =>
    simp only [evaluate, Relabeling.expr, unlined_addClosure]
    exact unlined_go (s.addClosure r .lambda).2 (.value (s.addClosure r .lambda).1)

theorem addStatics_unlined (s : State) (rs : List Routine) :
    addStatics s.unlined (Relabeling.unlined.routines rs) = ((addStatics s rs).1, (addStatics s rs).2.unlined) := by
  unfold addStatics
  generalize Table.empty = table
  induction rs generalizing s table with
  | nil => rfl
  | cons r rs ih =>
    simp only [Relabeling.routines, List.foldl_cons, unlined_addClosure, Relabeling.name_routine, Relabeling.text_name]
    exact ih (s.addClosure r .static).2 _

/-- A table with the methods of a declaration added to it. -/
def methodTable (s : State) (table : Table String Closure) (rs : List Routine) : Table String Closure :=
  rs.foldl (fun table m => table.insert m.name.text (s.closure m (.ofMethod m.name.text))) table

theorem methodTable_unlined (s : State) (table : Table String Closure) (rs : List Routine) :
    methodTable s.unlined (table.mapValues Closure.unlined) (Relabeling.unlined.routines rs) =
      (methodTable s table rs).mapValues Closure.unlined := by
  unfold methodTable
  induction rs generalizing table with
  | nil => rfl
  | cons r rs ih =>
    simp only [Relabeling.routines, List.foldl_cons]
    rw [← ih, Table.mapValues_insert]
    simp only [Relabeling.name_routine, Relabeling.text_name]
    rfl

theorem declareClass_eq (s : State) (d : ClassDeclaration) :
    declareClass s d =
      let statics := addStatics s d.statics
      let added := statics.2.store.addClass ⟨d.name.text, methodTable s .empty d.methods, statics.1, none⟩
      ({ statics.2 with store := added.2 }.define d.name.text added.1).go (.flow .normal) := rfl

theorem declareClass_unlined (s : State) (d : ClassDeclaration) :
    (declareClass s d).unlined = (declareClass s.unlined (Relabeling.unlined.declaration d)).unlined := by
  obtain ⟨name, base, ms, ss⟩ := d
  have added : (addStatics s ss).2.unlined.store.addClass
      ⟨name.text, (methodTable s .empty ms).mapValues Closure.unlined, (addStatics s ss).1, none⟩ = _ :=
    (addStatics s ss).2.store.addClass_unlined ⟨name.text, methodTable s .empty ms, (addStatics s ss).1, none⟩
  have methods : methodTable s.unlined .empty (Relabeling.unlined.routines ms) = _ := methodTable_unlined s .empty ms
  simp only [declareClass_eq, Relabeling.declaration, methods, addStatics_unlined, Relabeling.text_name, added]
  exact unlined_go (State.define { (addStatics s ss).2 with store := _ } name.text _) (.flow .normal)

theorem execute_unlined (s : State) (x : Stmt) :
    (execute s x).unlined = (execute s.unlined (Relabeling.unlined.stmt x)).unlined := by
  cases x with
  | expression value => exact unlined_push s .expression (.evaluate value)
  | print value => exact unlined_push s .print (.evaluate value)
  | var name e? =>
    cases e? with
    | none => exact unlined_go (s.define name.text .null) (.flow .normal)
    | some value => exact unlined_push s (.var name) (.evaluate value)
  | block body =>
    exact unlined_push { s with store := (s.store.addFrame s.frame []).2, frame := (s.store.addFrame s.frame []).1 }
      (.leave s.frame) (.sequence body)
  | conditional condition yes no => exact unlined_push s (.conditional yes no) (.evaluate condition)
  | loop condition body => exact unlined_push s (.loopCondition condition body) (.evaluate condition)
  | «break» line => exact unlined_go s (.flow .break)
  | «continue» line => exact unlined_go s (.flow .continue)
  | function r =>
    simp only [execute, Relabeling.stmt, unlined_addClosure, Relabeling.name_routine, Relabeling.text_name]
    exact unlined_go ((s.addClosure r .function).2.define r.name.text (s.addClosure r .function).1) (.flow .normal)
  | «return» line e? =>
    cases e? with
    | none => exact unlined_go s (.flow (.return .null))
    | some value => exact unlined_push s .return (.evaluate value)
  | «class» d =>
    obtain ⟨name, base, ms, ss⟩ := d
    cases base with
    | none => exact declareClass_unlined (s.define name.text .null) ⟨name, none, ms, ss⟩
    | some base => exact unlined_push (s.define name.text .null) (.base ⟨name, some base, ms, ss⟩) (.evaluate base)

theorem invoke_unlined (s : State) (callee : Value) (arguments : List Value) (site : Site) :
    (invoke s callee arguments site).unlined = (invoke s.unlined callee arguments site.unlined).unlined := by
  have callee? : s.unlined.store.callee? callee = (s.store.callee? callee).map Callee.unlined :=
    s.store.callee?_unlined callee
  unfold invoke
  rw [callee?]
  cases s.store.callee? callee with
  | none => cases site <;> exact unlined_go s (.raise _)
  | some c =>
    cases site with
    | script line =>
      simp only [Option.map_some, Site.unlined, Callee.arity_unlined]
      split
      · exact unlined_push s (.site line) (.enter c arguments)
      · exact unlined_go s (.raise _)
    | host =>
      simp only [Option.map_some, Site.unlined, Callee.arity_unlined]
      split
      · exact unlined_go s (.enter c arguments)
      · exact unlined_go s (.raise _)

theorem enterNative_unlined (blind : host.Blind) (s : State) (n : Native) (arguments : List Value) :
    (enterNative host s n arguments).unlined = (enterNative host s.unlined n arguments).unlined := by
  have console : s.unlined.console = s.console := rfl
  have display : s.unlined.store.display = s.store.display := funext s.store.display_unlined
  have lists : s.unlined.store.lists = s.store.lists := rfl
  have maps : s.unlined.store.maps = s.store.maps := rfl
  unfold enterNative
  cases n.behaviour with
  | clock => exact unlined_go s (.value _)
  | input =>
    simp only [console]
    cases s.console.read? with
    | none => exact s.unlined_unlined.symm
    | some read => exact unlined_go { s with console := read.2 } (.value (read.1.elim .null .text))
  | list method items =>
    simp only [display, lists]
    cases method.apply s.store.display ((s.store.lists.get? items).getD []) arguments with
    | ok result =>
      exact unlined_go { s with store := { s.store with lists := s.store.lists.set items result.2 } } (.value result.1)
    | error fault => exact unlined_go s (.raise _)
  | map method entries =>
    simp only [display, maps]
    cases method.apply s.store.display ((s.store.maps.get? entries).getD .empty) arguments with
    | ok result =>
      exact unlined_go { s with store := { s.store with maps := s.store.maps.set entries result.2 } } (.value result.1)
    | error fault => exact unlined_go s (.raise _)
  | host tag cell =>
    have answered := blind.call tag cell arguments s.store s.unlined.store s.store.unlined_unlined.symm
    dsimp only
    generalize host.call tag cell arguments s.store = a at answered ⊢
    generalize host.call tag cell arguments s.unlined.store = a' at answered ⊢
    obtain ⟨store, printed, reply⟩ := a
    obtain ⟨store', printed', reply'⟩ := a'
    simp only [Answer.unlined, Answer.mk.injEq] at answered
    obtain ⟨stores, rfl, rfl⟩ := answered
    have after := store_congr { s with console := printed.foldl Console.print s.console } stores
    cases reply with
    | value v => exact go_congr after rfl
    | failure message => exact go_congr after rfl
    | call callee arguments => exact push_congr after rfl rfl

theorem enterClosure_unlined (s : State) (c : Closure) (arguments : List Value) :
    (enterClosure s c arguments).unlined = (enterClosure s.unlined c.unlined arguments).unlined := by
  obtain ⟨⟨name, params, body⟩, frame, kind⟩ := c
  have names : (params.map Relabeling.unlined.name).map Name.text = params.map Name.text := by
    rw [List.map_map]
    rfl
  simp only [enterClosure, Closure.unlined, Relabeling.routine, names]
  exact unlined_push { s with
    store := (s.store.addFrame frame ((params.map Name.text).zip arguments)).2
    frame := (s.store.addFrame frame ((params.map Name.text).zip arguments)).1 } (.body _ s.frame) (.sequence body)

theorem prepared_unlined (blind : host.Blind) (store : Store) (r : Ref .classObject) (c : ClassObject)
    (arguments : List Value) :
    (prepared host store r c arguments).1.unlined = (prepared host store.unlined r c.unlined arguments).1.unlined ∧
      (prepared host store r c arguments).2 = (prepared host store.unlined r c.unlined arguments).2 := by
  have native : c.unlined.native = c.native := rfl
  unfold prepared
  rw [native]
  rcases c.native with _ | ⟨arity, initializer⟩
  · exact ⟨(Store.unlined_unlined _).symm, rfl⟩
  · have added : store.unlined.addInstance r = ((store.addInstance r).1, (store.addInstance r).2.unlined) := rfl
    rw [added]
    cases initializer with
    | list =>
      simp only [Store.prepare, Store.prepareList_unlined, Store.unlined_unlined, and_self]
    | map =>
      simp only [Store.prepare, Store.prepareMap_unlined, Store.unlined_unlined, and_self]
    | host tag =>
      obtain ⟨stores, messages⟩ := blind.prepare tag (store.addInstance r).1 arguments (store.addInstance r).2
        (store.addInstance r).2.unlined (Store.unlined_unlined _).symm
      exact ⟨stores, congrArg (Option.map Fault.custom) messages⟩

theorem bind_congr {store store' : Store} (h : store.unlined = store'.unlined) (f : Closure) (object : Ref .object) :
    (store.bind f object).1.unlined = (store'.bind f.unlined object).1.unlined ∧
      (store.bind f object).2.unlined = (store'.bind f.unlined object).2.unlined := by
  have first := store.bind_unlined f object
  have second := store'.bind_unlined f.unlined object
  rw [Closure.unlined_unlined, ← h, first] at second
  exact Prod.mk.inj second

theorem enterClass_unlined (blind : host.Blind) (s : State) (r : Ref .classObject) (c : ClassObject)
    (arguments : List Value) :
    (enterClass host s r c arguments).unlined = (enterClass host s.unlined r c.unlined arguments).unlined := by
  have within : s.store.unlined = s.unlined.store := rfl
  have prepared := prepared_unlined blind s.store r c arguments
  rw [within] at prepared
  rw [enterClass_eq, enterClass_eq]
  generalize Machine.prepared host s.store r c arguments = new at prepared ⊢
  generalize Machine.prepared host s.unlined.store r c.unlined arguments = new' at prepared ⊢
  obtain ⟨stores, faults⟩ := prepared
  obtain ⟨store, fault?⟩ := new
  obtain ⟨store', fault?'⟩ := new'
  dsimp only at stores faults ⊢
  subst faults
  rw [ClassObject.constructor?_unlined]
  cases fault? with
  | some fault => exact go_congr (store_congr s stores) rfl
  | none =>
    cases c.constructor? with
    | none => exact go_congr (store_congr s stores) rfl
    | some f =>
      obtain ⟨bound, after⟩ := bind_congr stores f s.store.instances.next
      exact push_congr (store_congr s after) rfl (congrArg (Control.enter · arguments)
        (congrArg (fun c => Callee.function (.closure c)) bound))

theorem enter_unlined (blind : host.Blind) (s : State) (callee : Callee) (arguments : List Value) :
    (enter host s callee arguments).unlined = (enter host s.unlined callee.unlined arguments).unlined := by
  rcases callee with (c | n) | ⟨r, c⟩
  · exact enterClosure_unlined s c arguments
  · exact enterNative_unlined blind s n arguments
  · exact enterClass_unlined blind s r c arguments

theorem realize_unlined (s : State) (p : Property) :
    s.unlined.realize p.unlined = ((s.realize p).1, (s.realize p).2.unlined) :=
  congrArg (fun new : Value × Store => (new.1, { s.unlined with store := new.2 })) (s.store.realize_unlined p)

theorem subscript_unlined (s : State) (object position : Value) (line line' : Nat) :
    (subscript s object position line).unlined = (subscript s.unlined object position line').unlined := by
  cases object with
  | text t => exact unlined_answer s line line' (textAt t position)
  | «instance» r =>
    have property? : s.unlined.store.property? r "at" = _ := s.store.property?_unlined r "at"
    simp only [subscript, property?]
    cases s.store.property? r "at" with
    | none => exact unlined_go s (.raise _)
    | some p =>
      simp only [Option.map_some, realize_unlined]
      exact unlined_go (s.realize p).2 (.invoke (s.realize p).1 [position] (.script line))
  | _ => exact unlined_go s (.raise _)

theorem evaluateArguments_unlined (s : State) (callee : Value) (done : List Value) (rest : List Expr) (line line' : Nat) :
    (evaluateArguments s callee done rest line).unlined =
      (evaluateArguments s.unlined callee done (Relabeling.unlined.exprs rest) line').unlined := by
  cases rest with
  | nil => exact unlined_go s (.invoke callee done (.script line))
  | cons e rest => exact unlined_push s (.arguments callee done rest line) (.evaluate e)

/-- Operators ask a store only how values are displayed. -/
theorem binary_of_display {store store' : Store} (h : store'.display = store.display) (op : Token) (v w : Value) :
    binary store' op v w = binary store op v w := by
  unfold binary add
  rw [h]

theorem binary_unlined (store : Store) (op : Token) (v w : Value) :
    binary store.unlined (Relabeling.unlined.token op) v w = binary store op v w :=
  binary_of_display (funext store.display_unlined) op v w

theorem resume_unlined (s : State) (v : Value) (p : Pending) :
    (resume s v p).unlined = (resume s.unlined v p.unlined).unlined := by
  cases p with
  | unary op => exact unlined_answer s op.line 0 (unary op v)
  | binaryRight op right => exact unlined_push s (.binary v op) (.evaluate right)
  | binary left op =>
    have result : binary s.unlined.store (Relabeling.unlined.token op) left v = binary s.store op left v :=
      binary_unlined s.store op left v
    simp only [resume, Pending.unlined, result]
    exact unlined_answer s op.line 0 (binary s.store op left v)
  | logical op right =>
    have same : shortCircuits (Relabeling.unlined.token op) v = shortCircuits op v := rfl
    simp only [resume, Pending.unlined, same]
    split
    · exact unlined_go s (.value v)
    · exact unlined_go s (.evaluate right)
  | ternary yes no =>
    simp only [resume, Pending.unlined]
    split
    · exact unlined_go s (.evaluate yes)
    · exact unlined_go s (.evaluate no)
  | assign id name =>
    have target? : s.unlined.target? id name.text = s.target? id name.text := rfl
    simp only [resume, Pending.unlined, Relabeling.text_name, target?]
    cases s.target? id name.text with
    | some frame => exact unlined_go (s.write frame name.text v) (.value v)
    | none => exact unlined_go s (.raise _)
  | callee es line => exact evaluateArguments_unlined s v [] es line 0
  | arguments f done es line => exact evaluateArguments_unlined s f (done ++ [v]) es line 0
  | get name =>
    have member? : s.unlined.store.member? v name.text = _ := s.store.member?_unlined v name.text
    simp only [resume, Pending.unlined, Relabeling.text_name, member?]
    split
    · cases s.store.member? _ name.text with
      | none => exact unlined_go s (.raise _)
      | some p =>
        simp only [Option.map_some, realize_unlined]
        exact unlined_go (s.realize p).2 (.value (s.realize p).1)
    · cases s.store.member? _ name.text with
      | none => exact unlined_go s (.raise _)
      | some p =>
        simp only [Option.map_some, realize_unlined]
        exact unlined_go (s.realize p).2 (.value (s.realize p).1)
    · exact unlined_go s (.raise _)
  | setObject name value =>
    cases v with
    | «instance» r => exact unlined_push s (.setField r name) (.evaluate value)
    | _ => exact unlined_go s (.raise _)
  | setField r name => exact unlined_go { s with store := s.store.setField r name.text v } (.value v)
  | updateObject name op value =>
    cases v with
    | «instance» r =>
      have property? : s.unlined.store.property? r name.text = _ := s.store.property?_unlined r name.text
      simp only [resume, Pending.unlined, Relabeling.text_name, property?]
      cases s.store.property? r name.text with
      | none => exact unlined_go s (.raise _)
      | some p =>
        simp only [Option.map_some, realize_unlined]
        exact unlined_push (s.realize p).2 (.updateField r name (s.realize p).1 op) (.evaluate value)
    | _ => exact unlined_go s (.raise _)
  | updateField r name current op =>
    have result : binary s.unlined.store (Relabeling.unlined.token op) current v = binary s.store op current v :=
      binary_unlined s.store op current v
    simp only [resume, Pending.unlined, result]
    cases binary s.store op current v with
    | ok updated => exact unlined_go { s with store := s.store.setField r name.text updated } (.value updated)
    | error fault => exact unlined_go s (.raise _)
  | indexObject position line => exact unlined_push s (.index v line) (.evaluate position)
  | index object line => exact subscript_unlined s object v line 0
  | expression => exact unlined_go s (.flow .normal)
  | print =>
    have display : s.unlined.store.display v = s.store.display v := s.store.display_unlined v
    simp only [resume, Pending.unlined, display]
    exact unlined_go { s with console := s.console.print (s.store.display v) } (.flow .normal)
  | var name => exact unlined_go (s.define name.text v) (.flow .normal)
  | conditional yes no =>
    simp only [resume, Pending.unlined]
    split
    · exact unlined_go s (.execute yes)
    · cases no with
      | none => exact unlined_go s (.flow .normal)
      | some no => exact unlined_go s (.execute no)
  | loopCondition e repeated =>
    simp only [resume, Pending.unlined]
    split
    · exact unlined_push s (.loopBody e repeated) (.execute repeated)
    · exact unlined_go s (.flow .normal)
  | «return» => exact unlined_go s (.flow (.return v))
  | base d =>
    cases v with
    | «class» r => exact declareClass_unlined s d
    | _ => exact unlined_go s (.raise _)
  | constructed object => exact unlined_go s (.value (.instance object))
  | site line => exact unlined_go s (.value v)
  | nativeCall => exact unlined_go s (.value v)
  | sequence rest => exact unlined_push s (.sequence rest) (.value v)
  | program rest => exact unlined_push s (.program rest) (.value v)
  | loopBody e repeated => exact unlined_push s (.loopBody e repeated) (.value v)
  | leave outside => exact unlined_push s (.leave outside) (.value v)
  | body c outside => exact unlined_push s (.body c outside) (.value v)

theorem proceed_unlined (s : State) (f : Flow) (p : Pending) :
    (proceed s f p).unlined = (proceed s.unlined f p.unlined).unlined := by
  cases p with
  | sequence rest =>
    cases f with
    | normal => exact unlined_go s (.sequence rest)
    | _ => exact unlined_go s (.flow _)
  | program rest => exact unlined_go s (.program rest)
  | loopBody e repeated =>
    cases f with
    | «break» => exact unlined_go s (.flow .normal)
    | «return» v => exact unlined_go s (.flow (.return v))
    | _ => exact unlined_push s (.loopCondition e repeated) (.evaluate e)
  | leave outside => exact unlined_go { s with frame := outside } (.flow f)
  | body c outside => exact unlined_go { s with frame := outside } (.value (bodyResult s.store c f))
  | _ => exact unlined_push s _ (.flow f)

theorem unwind_unlined (s : State) (e e' : Failure) (p : Pending) :
    (unwind s e p).unlined = (unwind s.unlined e' p.unlined).unlined := by
  cases p with
  | leave outside | body c outside => exact unlined_go { s with frame := outside } (.raise e)
  | _ => exact unlined_go s (.raise _)

theorem step_unlined (blind : host.Blind) (s : State) : (step host s).unlined = (step host s.unlined).unlined := by
  obtain ⟨⟨store, console, distances⟩, control, frame, pending⟩ := s
  cases control with
  | evaluate e => exact evaluate_unlined _ e
  | execute x => exact execute_unlined _ x
  | sequence body =>
    cases body with
    | nil => exact unlined_go _ (.flow .normal)
    | cons x rest => exact unlined_push _ (.sequence rest) (.execute x)
  | program body =>
    cases body with
    | nil => exact unlined_go _ (.flow .normal)
    | cons x rest => exact unlined_push _ (.program rest) (.execute x)
  | invoke callee arguments site => exact invoke_unlined _ callee arguments site
  | enter callee arguments => exact enter_unlined blind _ callee arguments
  | value v =>
    cases pending with
    | nil => exact (State.unlined_unlined _).symm
    | cons p rest => exact resume_unlined ⟨⟨store, console, distances⟩, .value v, frame, rest⟩ v p
  | flow f =>
    cases pending with
    | nil => exact (State.unlined_unlined _).symm
    | cons p rest => exact proceed_unlined ⟨⟨store, console, distances⟩, .flow f, frame, rest⟩ f p
  | raise e =>
    cases pending with
    | nil => exact (State.unlined_unlined _).symm
    | cons p rest => exact unwind_unlined ⟨⟨store, console, distances⟩, .raise e, frame, rest⟩ e _ p

/-- Runs from states that differ in lines only differ in lines only. -/
theorem run_unlined (blind : host.Blind) {s s' : State} (h : s.unlined = s'.unlined) (n : Nat) :
    (run host n s).unlined = (run host n s').unlined := by
  induction n with
  | zero => exact h
  | succ n ih => rw [run_step, run_step, step_unlined blind, ih, ← step_unlined blind]

/-- Whether there is an outcome, and whether it is a failure, shows without lines. -/
theorem outcome?_unlined (s : State) :
    s.unlined.outcome? = s.outcome?.map fun
      | .failure _ => .failure (.native (.custom ""))
      | o => o := by
  obtain ⟨world, control, frame, pending⟩ := s
  cases pending with
  | nil => cases control <;> rfl
  | cons p rest => rfl

end Scriptlet.Machine
