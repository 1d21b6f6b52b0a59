import Mathlib
import Scriptlet.Proofs.Containment
import Scriptlet.Proofs.AlignedLife
import Scriptlet.Proofs.StoredCode

/-!
Flows while programs run. Work that the machine has taken up yields a value or a flow, and each pending piece of work
turns what it waits for into what the next one waits for; a flow asks for no more than the room around it. Every step
keeps to that, so no `break` or `continue` leaves its loop, and a `return` ends the body of a routine or, in a program
that was not analysed, a statement of the top level.
-/
namespace Scriptlet

open Scriptlet.Part (Contained)

/-- The flow finds what it transfers control to. -/
def Flow.Within (room : Room) : Flow → Prop
  | .normal => True
  | .break | .continue => room.loop = true
  | .return _ => room.routine = true

def Routine.Contained (r : Routine) : Prop := (Part.stmts r.body).Contained .body

abbrev Store.Contained (s : Store) : Prop := s.AllCode Routine.Contained

abbrev Callee.Contained (callee : Callee) : Prop := callee.AllCode Routine.Contained

abbrev Property.Contained (p : Property) : Prop := p.AllCode Routine.Contained

namespace Part

/-- Within an expression only its lambdas transfer control, so the room does not matter. -/
theorem Contained.anywhere {room room' : Room} {e : Expr} (h : (Part.expr e).Contained room) :
    (Part.expr e).Contained room' := by
  generalize hp : Part.expr e = p at h
  induction h generalizing e room' with
  | @intro room p _ children ih =>
    subst hp
    refine .intro trivial fun q hq => ?_
    rcases Scope.exprChildren_cases hq with ⟨e', rfl⟩ | ⟨kind, r, rfl⟩
    · exact ih _ hq rfl
    · exact (children _ hq).routine

end Part

namespace Machine

inductive Yield where
  | value
  | flow (room : Room)

/-- What is done now yields, where `top` is the room around the statements of the top level. -/
inductive Control.Yields (top : Room) : Control → Yield → Prop
  | evaluate {e : Expr} : (Part.expr e).Contained .outside → Yields top (.evaluate e) .value
  | execute {s : Stmt} {room : Room} : (Part.stmt s).Contained room → Yields top (.execute s) (.flow room)
  | sequence {ss : List Stmt} {room : Room} : (Part.stmts ss).Contained room → Yields top (.sequence ss) (.flow room)
  | program {ss : List Stmt} : (Part.stmts ss).Contained top → Yields top (.program ss) (.flow .outside)
  | invoke {callee : Value} {arguments : List Value} {site : Site} : Yields top (.invoke callee arguments site) .value
  | enter {callee : Callee} {arguments : List Value} : callee.Contained → Yields top (.enter callee arguments) .value
  | value {v : Value} : Yields top (.value v) .value
  | flow {f : Flow} {room : Room} : f.Within room → Yields top (.flow f) (.flow room)
  | raise {e : Failure} {y : Yield} : Yields top (.raise e) y

/-- Pending work turns what it waits for into what it yields. -/
inductive Pending.Turns (top : Room) : Pending → Yield → Yield → Prop
  | unary {op : Token} : Turns top (.unary op) .value .value
  | binaryRight {op : Token} {e : Expr} : (Part.expr e).Contained .outside → Turns top (.binaryRight op e) .value .value
  | binary {v : Value} {op : Token} : Turns top (.binary v op) .value .value
  | logical {op : Token} {e : Expr} : (Part.expr e).Contained .outside → Turns top (.logical op e) .value .value
  | ternary {yes no : Expr} : (Part.expr yes).Contained .outside → (Part.expr no).Contained .outside →
      Turns top (.ternary yes no) .value .value
  | assign {id : NodeId} {name : Name} : Turns top (.assign id name) .value .value
  | callee {es : List Expr} {line : Nat} : (∀ e ∈ es, (Part.expr e).Contained .outside) →
      Turns top (.callee es line) .value .value
  | arguments {f : Value} {done : List Value} {es : List Expr} {line : Nat} :
      (∀ e ∈ es, (Part.expr e).Contained .outside) → Turns top (.arguments f done es line) .value .value
  | get {name : Name} : Turns top (.get name) .value .value
  | setObject {name : Name} {e : Expr} : (Part.expr e).Contained .outside → Turns top (.setObject name e) .value .value
  | setField {r : Ref .object} {name : Name} : Turns top (.setField r name) .value .value
  | updateObject {name : Name} {op : Token} {e : Expr} : (Part.expr e).Contained .outside →
      Turns top (.updateObject name op e) .value .value
  | updateField {r : Ref .object} {name : Name} {v : Value} {op : Token} :
      Turns top (.updateField r name v op) .value .value
  | indexObject {e : Expr} {line : Nat} : (Part.expr e).Contained .outside → Turns top (.indexObject e line) .value .value
  | index {v : Value} {line : Nat} : Turns top (.index v line) .value .value
  | expression {room : Room} : Turns top .expression .value (.flow room)
  | print {room : Room} : Turns top .print .value (.flow room)
  | var {name : Name} {room : Room} : Turns top (.var name) .value (.flow room)
  | conditional {yes : Stmt} {no : Option Stmt} {room : Room} : (Part.stmt yes).Contained room →
      (∀ s ∈ no, (Part.stmt s).Contained room) → Turns top (.conditional yes no) .value (.flow room)
  | loopCondition {e : Expr} {body : Stmt} {room : Room} : (Part.stmt (.loop e body)).Contained room →
      Turns top (.loopCondition e body) .value (.flow room)
  | return {room : Room} : room.routine = true → Turns top .return .value (.flow room)
  | base {d : ClassDeclaration} {room : Room} : (Part.stmt (.class d)).Contained room →
      Turns top (.base d) .value (.flow room)
  | sequence {ss : List Stmt} {room : Room} : (Part.stmts ss).Contained room →
      Turns top (.sequence ss) (.flow room) (.flow room)
  | program {ss : List Stmt} : (Part.stmts ss).Contained top → Turns top (.program ss) (.flow top) (.flow .outside)
  | loopBody {e : Expr} {body : Stmt} {room : Room} : (Part.stmt (.loop e body)).Contained room →
      Turns top (.loopBody e body) (.flow room.inLoop) (.flow room)
  | leave {outside : Ref .frame} {room : Room} : Turns top (.leave outside) (.flow room) (.flow room)
  | body {c : Closure} {outside : Ref .frame} : Turns top (.body c outside) (.flow .body) .value
  | constructed {r : Ref .object} : Turns top (.constructed r) .value .value
  | site {line : Nat} : Turns top (.site line) .value .value
  | nativeCall : Turns top .nativeCall .value .value

inductive Awaits (top : Room) : Yield → List Pending → Prop
  | nil {y : Yield} : Awaits top y []
  | cons {p : Pending} {y z : Yield} {ps : List Pending} : p.Turns top y z → Awaits top z ps → Awaits top y (p :: ps)

/-- A state whose pending work waits for that, with code in the store that keeps its flows to itself. -/
structure Expects (top : Room) (y : Yield) (s : State) : Prop where
  store : s.store.Contained
  pending : Awaits top y s.pending

/-- A state in which all flows stay inside. -/
def State.Contained (top : Room) (s : State) : Prop := ∃ y, s.control.Yields top y ∧ Expects top y s

variable {host : Host} {top : Room} {y : Yield} {s : State}

namespace Expects

theorem go (h : Expects top y s) {control : Control} (hc : control.Yields top y) : (s.go control).Contained top :=
  ⟨y, hc, h.store, h.pending⟩

theorem give (h : Expects top .value s) (v : Value) : (s.give v).Contained top := h.go .value

theorem raise (h : Expects top y s) (line : Nat) (fault : Fault) : (s.raise line fault).Contained top := h.go .raise

theorem answer (h : Expects top .value s) (line : Nat) (result : Except Fault Value) :
    (s.answer line result).Contained top := by
  cases result with
  | ok v => exact h.give v
  | error fault => exact h.raise line fault

theorem push (h : Expects top y s) {p : Pending} {z : Yield} {control : Control} (hp : p.Turns top z y)
    (hc : control.Yields top z) : (s.push p control).Contained top :=
  ⟨z, hc, h.store, .cons hp h.pending⟩

theorem withStore (h : Expects top y s) {store : Store} (hs : store.Contained) : Expects top y { s with store } :=
  ⟨hs, h.pending⟩

theorem withConsole (h : Expects top y s) (console : Console) : Expects top y { s with console } := ⟨h.store, h.pending⟩

theorem write (h : Expects top y s) (f : Ref .frame) (name : String) (v : Value) : Expects top y (s.write f name v) :=
  h.withStore (h.store.of_eq rfl rfl)

/-- In a new frame. -/
theorem inside (h : Expects top y s) (parent : Ref .frame) (bindings : List (String × Value)) :
    Expects top y { s with
      store := (s.store.addFrame parent bindings).2, frame := (s.store.addFrame parent bindings).1 } :=
  ⟨h.store.of_eq rfl rfl, h.pending⟩

theorem addClosure (h : Expects top y s) {r : Routine} {kind kind' : RoutineKind} {room : Room}
    (hr : (Part.routine kind' r).Contained room) : Expects top y (s.addClosure r kind).2 :=
  h.withStore (h.store.addClosure hr.body)

theorem realize (h : Expects top y s) {p : Property} (hp : p.Contained) : Expects top y (s.realize p).2 :=
  h.withStore (h.store.realize hp)

/-- Pending work is taken up. -/
theorem pop {world : World} {control : Control} {frame : Ref .frame} {p : Pending} {ps : List Pending}
    (h : Expects top y ⟨world, control, frame, p :: ps⟩) :
    ∃ z, p.Turns top y z ∧ Expects top z ⟨world, control, frame, ps⟩ := by
  cases h.pending with
  | @cons _ _ z _ turns awaits => exact ⟨z, turns, h.store, awaits⟩

end Expects

theorem evaluateArguments_contained (h : Expects top .value s) (callee : Value) (done : List Value) {es : List Expr}
    (hes : ∀ e ∈ es, (Part.expr e).Contained .outside) (line : Nat) :
    (evaluateArguments s callee done es line).Contained top := by
  cases es with
  | nil => exact h.go .invoke
  | cons e es =>
    rw [List.forall_mem_cons] at hes
    exact h.push (.arguments hes.2) (.evaluate hes.1)

theorem evaluate_contained (h : Expects top .value s) {e : Expr} (he : (Part.expr e).Contained .outside) :
    (evaluate s e).Contained top := by
  have child {q : Part} (hq : q ∈ Part.exprChildren e) : q.Contained .outside := he.child hq
  cases e with
  | literal value => exact h.give _
  | group e => exact h.go (.evaluate (child (.head _)))
  | unary op e => exact h.push .unary (.evaluate (child (.head _)))
  | binary l op r =>
    exact h.push (.binaryRight (child (.tail _ (.head _)))) (.evaluate (child (.head _)))
  | logical l op r =>
    exact h.push (.logical (child (.tail _ (.head _)))) (.evaluate (child (.head _)))
  | ternary c yes no =>
    exact h.push (.ternary (child (.tail _ (.head _))) (child (.tail _ (.tail _ (.head _)))))
      (.evaluate (child (.head _)))
  | «variable» id name | this id line =>
    simp only [evaluate]
    split
    · exact h.give _
    · exact h.raise _ _
  | assign id name e => exact h.push .assign (.evaluate (child (.head _)))
  | suffix id name op =>
    simp only [evaluate]
    split
    · exact h.raise _ _
    · split
      · exact (h.write _ _ _).give _
      · exact h.raise _ _
    · exact h.raise _ _
  | call f es line =>
    exact h.push (.callee fun e he => child (.tail _ (List.mem_map_of_mem he))) (.evaluate (child (.head _)))
  | get e name => exact h.push .get (.evaluate (child (.head _)))
  | set l name r =>
    exact h.push (.setObject (child (.head _))) (.evaluate (child (.tail _ (.head _))))
  | update l name op r =>
    exact h.push (.updateObject (child (.tail _ (.head _)))) (.evaluate (child (.head _)))
  | index l r line =>
    exact h.push (.indexObject (child (.tail _ (.head _)))) (.evaluate (child (.head _)))
  | lambda r => exact (h.addClosure (child (.head _))).give _

theorem addStatics_expects (h : Expects top y s) (rs : List Routine)
    (hrs : ∀ r ∈ rs, (Part.routine .static r).Contained .outside) : Expects top y (addStatics s rs).2 := by
  unfold addStatics
  generalize Table.empty = table
  induction rs generalizing s table with
  | nil => exact h
  | cons r rs ih =>
    rw [List.forall_mem_cons] at hrs
    exact ih (h.addClosure hrs.1) hrs.2 _

theorem declareClass_contained {room : Room} (h : Expects top (.flow room) s) {d : ClassDeclaration}
    (hd : (Part.stmt (.class d)).Contained room) : (declareClass s d).Contained top := by
  have routines {q : Part} (hq : q ∈ Part.statics d.statics ++ Part.methods d.methods) : q.Contained room :=
    hd.child (by simpa [Part.children, Part.stmtChildren] using .inr (List.mem_append.1 hq))
  have statics := addStatics_expects h d.statics fun r hr =>
    (routines (List.mem_append_left _ (List.mem_map_of_mem hr))).routine
  have methods : ∀ name m, (methodTable s .empty d.methods).get? name = some m → m.routine.Contained :=
    methodTable_allCode s .empty d.methods (fun _ _ hm => by cases hm) fun r hr =>
      (routines (List.mem_append_right _ (List.mem_map_of_mem hr))).body
  rw [declareClass_eq]
  exact ((statics.withStore (statics.store.addClass methods)).write _ _ _).go (.flow trivial)

theorem execute_contained {room : Room} (h : Expects top (.flow room) s) {x : Stmt} (hx : (Part.stmt x).Contained room) :
    (execute s x).Contained top := by
  have expr {e : Expr} (he : .expr e ∈ Part.stmtChildren x) : (Part.expr e).Contained .outside := (hx.child he).anywhere
  cases x with
  | expression e => exact h.push .expression (.evaluate (expr (.head _)))
  | print e => exact h.push .print (.evaluate (expr (.head _)))
  | var name e? =>
    cases e? with
    | none => exact (h.write _ _ _).go (.flow trivial)
    | some e => exact h.push .var (.evaluate (expr (.head _)))
  | block ss =>
    exact (h.inside s.frame []).push .leave (.sequence (hx.child (.head _)))
  | conditional e yes no =>
    refine h.push (.conditional (hx.child (.tail _ (.head _))) fun n hn => ?_) (.evaluate (expr (.head _)))
    exact hx.child (.tail _ (.tail _ (List.mem_map_of_mem (Option.mem_toList.2 hn))))
  | loop e body => exact h.push (.loopCondition hx) (.evaluate (expr (.head _)))
  | «break» line => exact h.go (.flow hx.obeys)
  | «continue» line => exact h.go (.flow hx.obeys)
  | function r => exact ((h.addClosure (hx.child (.head _))).write _ _ _).go (.flow trivial)
  | «return» line e? =>
    cases e? with
    | none => exact h.go (.flow hx.obeys)
    | some e => exact h.push (.return hx.obeys) (.evaluate (expr (.head _)))
  | «class» d =>
    obtain ⟨name, base, ms, ss⟩ := d
    cases base with
    | none => exact declareClass_contained (h.write s.frame name.text .null) hx
    | some e => exact (h.write s.frame name.text .null).push (.base hx) (.evaluate (expr (.head _)))

theorem invoke_contained (h : Expects top .value s) (callee : Value) (arguments : List Value) (site : Site) :
    (invoke s callee arguments site).Contained top := by
  unfold invoke
  split
  · exact h.raise _ _
  · exact h.go .raise
  · next hc =>
    split
    · exact h.push .site (.enter (h.store.callee hc))
    · exact h.raise _ _
  · next hc =>
    split
    · exact h.go (.enter (h.store.callee hc))
    · exact h.go .raise

theorem enterNative_contained (lawful : host.Lawful) (h : Expects top .value s) (native : Native)
    (arguments : List Value) (hs : s.Contained top) : (enterNative host s native arguments).Contained top := by
  unfold enterNative
  split
  · exact h.give _
  · split
    · exact (h.withConsole _).give _
    · exact hs
  · next items _ =>
    split
    · next xs _ =>
      have after : Store.Contained { s.store with lists := s.store.lists.set items xs } := h.store.of_eq rfl rfl
      exact (h.withStore after).give _
    · exact h.go .raise
  · next entries _ =>
    split
    · next t _ =>
      have after : Store.Contained { s.store with maps := s.store.maps.set entries t } := h.store.of_eq rfl rfl
      exact (h.withStore after).give _
    · exact h.go .raise
  · next tag cell _ =>
    have after := (h.withStore (h.store.kept (lawful.call tag cell arguments s.store))).withConsole
      ((host.call tag cell arguments s.store).printed.foldl Console.print s.console)
    dsimp only
    split
    · exact after.give _
    · exact after.go .raise
    · exact after.push .nativeCall .invoke

theorem enterClass_contained (lawful : host.Lawful) (h : Expects top .value s) (r : Ref .classObject) {k : ClassObject}
    (hk : ∀ name m, k.methods.get? name = some m → m.routine.Contained) (arguments : List Value) :
    (enterClass host s r k arguments).Contained top := by
  have kept := kept_prepared lawful s.store r k arguments
  rw [enterClass_eq]
  generalize prepared host s.store r k arguments = new at kept ⊢
  obtain ⟨store, fault?⟩ := new
  have after := h.withStore (h.store.kept kept)
  dsimp only
  split
  · exact after.go .raise
  · exact after.give _
  · next f hf =>
    have bound : (store.bind f s.store.instances.next).2.Contained := after.store.of_eq rfl rfl
    have contained : f.routine.Contained := hk constructorName f hf
    exact (h.withStore bound).push .constructed (.enter contained)

theorem enter_contained (lawful : host.Lawful) (h : Expects top .value s) {callee : Callee} (hc : callee.Contained)
    (arguments : List Value) (hs : s.Contained top) : (enter host s callee arguments).Contained top := by
  rcases callee with (c | n) | ⟨r, k⟩
  · exact (h.inside c.frame ((c.routine.params.map Name.text).zip arguments)).push .body (.sequence hc)
  · exact enterNative_contained lawful h n arguments hs
  · exact enterClass_contained lawful h r hc arguments

theorem subscript_contained (h : Expects top .value s) (object position : Value) (line : Nat) :
    (subscript s object position line).Contained top := by
  unfold subscript
  split
  · exact h.answer _ _
  · split
    · next hp => exact (h.realize (h.store.property hp)).go .invoke
    · exact h.raise _ _
  · exact h.raise _ _

theorem resume_contained {z : Yield} {p : Pending} (hp : p.Turns top .value z) (h : Expects top z s) (v : Value) :
    (resume s v p).Contained top := by
  cases hp with
  | unary => exact h.answer _ _
  | binaryRight he => exact h.push .binary (.evaluate he)
  | binary => exact h.answer _ _
  | logical he =>
    simp only [resume]
    split
    · exact h.give _
    · exact h.go (.evaluate he)
  | ternary hy hn =>
    simp only [resume]
    split
    · exact h.go (.evaluate hy)
    · exact h.go (.evaluate hn)
  | assign =>
    simp only [resume]
    split
    · exact (h.write _ _ _).give _
    · exact h.raise _ _
  | callee hes => exact evaluateArguments_contained h v [] hes _
  | arguments hes => exact evaluateArguments_contained h _ _ hes _
  | get =>
    have member {w : Value} {name : Name} {p : Property} (hm : s.store.member? w name.text = some p) :
        ((s.realize p).2.give (s.realize p).1).Contained top := (h.realize (h.store.member hm)).give _
    simp only [resume]
    split
    · split
      · next hm => exact member hm
      · exact h.raise _ _
    · split
      · next hm => exact member hm
      · exact h.raise _ _
    · exact h.raise _ _
  | setObject he =>
    cases v with
    | «instance» r => exact h.push .setField (.evaluate he)
    | _ => exact h.raise _ _
  | @setField r name => exact (h.withStore (h.store.kept (.setField _ r name.text v))).give _
  | updateObject he =>
    cases v with
    | «instance» r =>
      simp only [resume]
      split
      · next hp => exact (h.realize (h.store.property hp)).push .updateField (.evaluate he)
      · exact h.raise _ _
    | _ => exact h.raise _ _
  | @updateField r name current op =>
    simp only [resume]
    split
    · exact (h.withStore (h.store.kept (.setField _ r name.text _))).give _
    · exact h.raise _ _
  | indexObject he => exact h.push .index (.evaluate he)
  | index => exact subscript_contained h _ _ _
  | expression => exact h.go (.flow trivial)
  | print => exact (h.withConsole _).go (.flow trivial)
  | var => exact (h.write _ _ _).go (.flow trivial)
  | @conditional yes no room hy hn =>
    simp only [resume]
    split
    · exact h.go (.execute hy)
    · cases no with
      | none => exact h.go (.flow trivial)
      | some no => exact h.go (.execute (hn no rfl))
  | loopCondition hl =>
    simp only [resume]
    split
    · exact h.push (.loopBody hl) (.execute (hl.child (.tail _ (.head _))))
    · exact h.go (.flow trivial)
  | «return» hr => exact h.go (.flow hr)
  | base hd =>
    cases v with
    | «class» r => exact declareClass_contained h hd
    | _ => exact h.raise _ _
  | constructed => exact h.give _
  | site => exact h.give _
  | nativeCall => exact h.give _

theorem proceed_contained {z : Yield} {room : Room} {p : Pending} (hp : p.Turns top (.flow room) z) (h : Expects top z s)
    {f : Flow} (hf : f.Within room) : (proceed s f p).Contained top := by
  cases hp with
  | sequence hs =>
    cases f with
    | normal => exact h.go (.sequence hs)
    | _ => exact h.go (.flow hf)
  | program hs => exact h.go (.program hs)
  | loopBody hl =>
    cases f with
    | «break» => exact h.go (.flow trivial)
    | «return» v => exact h.go (.flow hf)
    | _ => exact h.push (.loopCondition hl) (.evaluate (hl.child (.head _)).anywhere)
  | leave => exact ⟨_, .flow hf, h.store, h.pending⟩
  | body => exact ⟨_, .value, h.store, h.pending⟩

theorem unwind_contained {z : Yield} (h : Expects top z s) (e : Failure) (p : Pending) : (unwind s e p).Contained top := by
  cases p <;> exact ⟨z, .raise, h.store, h.pending⟩

/-- Every step keeps flows inside. -/
theorem step_contained (lawful : host.Lawful) (h : s.Contained top) : (step host s).Contained top := by
  obtain ⟨world, control, frame, pending⟩ := s
  have whole := h
  obtain ⟨y, yields, expects⟩ := h
  cases yields with
  | evaluate he => exact evaluate_contained expects he
  | execute hs => exact execute_contained expects hs
  | @sequence ss room hs =>
    cases ss with
    | nil => exact expects.go (.flow trivial)
    | cons s ss =>
      have rest := hs.child (.tail _ (.head _))
      exact expects.push (.sequence rest) (.execute (hs.child (.head _)))
  | @program ss hs =>
    cases ss with
    | nil => exact expects.go (.flow trivial)
    | cons s ss =>
      have rest := hs.child (.tail _ (.head _))
      exact expects.push (.program rest) (.execute (hs.child (.head _)))
  | invoke => exact invoke_contained expects _ _ _
  | enter hc => exact enter_contained lawful expects hc _ whole
  | @value v =>
    cases pending with
    | nil => exact whole
    | cons p ps =>
      obtain ⟨z, turns, rest⟩ := expects.pop
      exact resume_contained turns rest v
  | flow hf =>
    cases pending with
    | nil => exact whole
    | cons p ps =>
      obtain ⟨z, turns, rest⟩ := expects.pop
      exact proceed_contained turns rest hf
  | @raise e =>
    cases pending with
    | nil => exact whole
    | cons p ps =>
      obtain ⟨z, turns, rest⟩ := expects.pop
      exact unwind_contained rest e p

/-- What runs to its end within a run: a statement of the top level, or the body of a routine. -/
inductive Construct where
  | statement
  | body
deriving DecidableEq, Repr

def Control.outcome? : Control → Option Outcome
  | .value v => some (.value v)
  | .flow f => some (.flow f)
  | .raise e => some (.failure e)
  | _ => none

/-- The construct that ends in this state, and how. -/
def State.ends? (s : State) : Option (Construct × Outcome) :=
  match s.pending with
  | .program _ :: _ => s.control.outcome?.map (.statement, ·)
  | .body _ _ :: _ => s.control.outcome?.map (.body, ·)
  | _ => none

/-- The ways to end: failure, the normal flow, and for a body also a return, as for a statement that was not analysed. -/
def Construct.Allows (analysed : Bool) : Construct → Outcome → Prop
  | _, .failure _ => True
  | _, .flow .normal => True
  | .body, .flow (.return _) => True
  | .statement, .flow (.return _) => analysed = false
  | _, _ => False

/-- What a machine is started with: a program or an expression that the parser has accepted, or a call of the host. -/
inductive Starts : Control → Prop
  | program {tokens : List Token} {base next : NodeId} {program : List Stmt} :
      Parser.parse tokens base = ⟨.ok program, next⟩ → Starts (.program program)
  | expression {tokens : List Token} {base next : NodeId} {e : Expr} :
      Parser.parseExpression tokens base = ⟨.ok e, next⟩ → Starts (.evaluate e)
  | call (callee : Value) (arguments : List Value) : Starts (.invoke callee arguments .host)

/-- The states of a run, for which more input may arrive at any time. -/
inductive Course (host : Host) (world : World) (control : Control) : State → Prop
  | start : Course host world control (.start world control)
  | step {m : State} : Course host world control m → Course host world control (step host m)
  | feed {m : State} (console : Console) : Course host world control m → Course host world control { m with console }

end Machine

open Machine (Starts Course)

/-- The worlds that come about when parsed texts and calls are run one after the other, each of them as far as it gets,
with any distances; in between the host does what it may to the store and reads members. -/
inductive World.Grown (host : Host) : World → Prop
  | fresh (console : Console) : Grown host ⟨Store.bare.withLibrary, console, .empty⟩
  | run {world : World} {control : Machine.Control} {m : Machine.State} : Grown host world → Starts control →
      Course host world control m → Grown host m.toWorld
  | alter {world : World} {store : Store} : Grown host world → world.store.Kept store → Grown host { world with store }
  | read {world : World} {v : Value} {name : String} {p : Property} : Grown host world →
      world.store.member? v name = some p → Grown host { world with store := (world.store.realize p).2 }
  | analyse {world : World} (distances : Distances) : Grown host world → Grown host { world with distances }

namespace Machine

theorem Starts.yields {control : Control} (h : Starts control) : ∃ y, control.Yields .body y := by
  cases h with
  | program parsed => exact ⟨_, .program (Grammar.contained_parse parsed)⟩
  | expression parsed => exact ⟨_, .evaluate (Grammar.contained_parseExpression parsed).anywhere⟩
  | call callee arguments => exact ⟨_, .invoke⟩

/-- A program that has been analysed needs no room around it. -/
theorem Starts.yields_outside {control : Control} (h : Starts control)
    (analysed : ∀ program, control = .program program → ∃ d, (Scope.resolve program d).result = .ok ()) :
    ∃ y, control.Yields .outside y := by
  cases h with
  | program parsed =>
    obtain ⟨d, resolved⟩ := analysed _ rfl
    exact ⟨_, .program (Scope.contained_of_resolve (Grammar.contained_parse parsed) resolved)⟩
  | expression parsed => exact ⟨_, .evaluate (Grammar.contained_parseExpression parsed).anywhere⟩
  | call callee arguments => exact ⟨_, .invoke⟩

theorem course_run (host : Host) (world : World) (control : Control) (n : Nat) :
    Course host world control (run host n (.start world control)) := by
  induction n with
  | zero => exact .start
  | succ n ih =>
    rw [run_step]
    exact ih.step

theorem Course.contained (lawful : host.Lawful) {world : World} {control : Control} (store : world.store.Contained)
    (yields : control.Yields top y) (h : Course host world control s) : s.Contained top := by
  induction h with
  | start => exact ⟨y, yields, store, .nil⟩
  | step _ ih => exact step_contained lawful ih
  | feed console _ ih =>
    obtain ⟨y, yields, expects⟩ := ih
    exact ⟨y, yields, expects.withConsole console⟩

end Machine

theorem World.Grown.contained {host : Host} (lawful : host.Lawful) {world : World} (h : world.Grown host) :
    world.store.Contained := by
  induction h with
  | fresh console => exact Store.AllCode.initial.kept (Store.Kept.bare.trans (.withLibrary _))
  | run _ starts course ih =>
    obtain ⟨y, yields⟩ := starts.yields
    obtain ⟨_, -, expects⟩ := course.contained lawful ih yields
    exact expects.store
  | alter _ kept ih => exact ih.kept kept
  | read _ hp ih => exact ih.realize (ih.member hp)
  | analyse distances _ ih => exact ih

/-- What a check lets through has been parsed, and a program analysed. -/
theorem Session.check_starts {s s' : Session} {form : Session.Form} {source : String} {control : Machine.Control}
    (h : s.check form source = (s', .ok control)) : Starts control ∧
      ∀ program, control = .program program → ∃ d, (Scope.resolve program d).result = .ok () := by
  obtain ⟨program, rfl, parsed, resolved⟩ | ⟨e, rfl, parsed⟩ := check_control h
  · refine ⟨.program (outcome_eq parsed), ?_⟩
    rintro _ ⟨⟩
    exact ⟨_, resolved⟩
  · refine ⟨.expression (outcome_eq parsed), ?_⟩
    rintro _ ⟨⟩

/-- Whatever a session does, its world grows in this way, and it runs programs that have passed their analysis only. -/
theorem Life.grown {host : Host} {t : Trace} {phase : Phase} (life : Life host t phase) :
    match phase with
    | .idle s => s.world.Grown host
    | .running _ m => ∃ world control, world.Grown host ∧ Starts control ∧ Course host world control m ∧
        ∀ program, control = .program program → ∃ d, (Scope.resolve program d).result = .ok () := by
  induction life with
  | fresh console => exact .fresh console
  | alter _ kept ih => exact ih.alter kept
  | read _ hm ih => exact ih.read hm
  | reset _ ih => exact ih
  | @refuse t s s' form source e _ check ih =>
    change s'.world.Grown host
    rw [Session.check_world check]
    exact ih.analyse _
  | @accept t s s' form source control _ check ih =>
    obtain ⟨starts, analysed⟩ := Session.check_starts check
    have grown : s'.world.Grown host := by
      rw [Session.check_world check]
      exact ih.analyse _
    exact ⟨s'.world, control, grown, starts, .start, analysed⟩
  | call callee arguments _ ih =>
    exact ⟨_, _, ih, .call callee arguments, .start, nofun⟩
  | step _ ih =>
    obtain ⟨world, control, grown, starts, course, analysed⟩ := ih
    exact ⟨world, control, grown, starts, course.step, analysed⟩
  | feed console _ ih =>
    obtain ⟨world, control, grown, starts, course, analysed⟩ := ih
    exact ⟨world, control, grown, starts, course.feed console, analysed⟩
  | finish _ hf ih =>
    obtain ⟨world, control, grown, starts, course, -⟩ := ih
    have same := (Session.world_finish hf).1
    simp only [same]
    exact grown.run starts course

namespace Machine

variable {host : Host} {top : Room} {s : State}

/-- Where no loop is around the top level, a construct ends as it may. -/
theorem State.Contained.allows (h : s.Contained top) (outside : top.loop = false) {construct : Construct}
    {outcome : Outcome} (ends : s.ends? = some (construct, outcome)) : construct.Allows (!top.routine) outcome := by
  obtain ⟨world, control, frame, pending⟩ := s
  obtain ⟨y, yields, expects⟩ := h
  cases pending with
  | nil => cases ends
  | cons p ps =>
    obtain ⟨z, turns, -⟩ := expects.pop
    cases turns with
    | program =>
      cases yields with
      | @flow f _ hf =>
        cases ends
        cases f with
        | normal => trivial
        | «return» v =>
          have returns : top.routine = true := hf
          change (!top.routine) = false
          rw [returns]
          rfl
        | «break» | «continue» => exact absurd (outside.symm.trans hf) Bool.false_ne_true
      | raise =>
        cases ends
        trivial
      | _ => cases ends
    | body =>
      cases yields with
      | @flow f _ hf =>
        cases ends
        cases f with
        | normal => trivial
        | «return» v => trivial
        | «break» => cases hf
        | «continue» => cases hf
      | raise =>
        cases ends
        trivial
      | _ => cases ends
    | _ => cases ends

section Example

/-- A loop is left within a routine, which then returns. -/
def leavingText : String := "fun f() \x7b while (true) \x7b break; \x7d return 'x'; \x7d f();"

def leavingProgram : List Stmt :=
  [.function ⟨⟨"f", 1⟩, [], [.loop (.literal (.boolean true)) (.block [.break 1]), .return 1 (some (.literal (.text "x")))]⟩,
    .expression (.call (.variable 0 ⟨"f", 1⟩) [] 1)]

end Example

/-- In every run of parsed texts, a statement of the top level and the body of a routine end with a failure, normally or
with a return, and a statement of a program that passes the analysis does not return. In a session, where every program
has passed it, no statement ever does. -/
theorem flows_stay_inside (lawful : host.Lawful) :
    (∀ {world : World} {control : Control} {m : State} {construct : Construct} {outcome : Outcome},
      world.Grown host → Starts control → Course host world control m → m.ends? = some (construct, outcome) →
      construct.Allows false outcome ∧
        ∀ program d, control = .program program → (Scope.resolve program d).result = .ok () →
          construct.Allows true outcome) ∧
    ∀ {t : Trace} {session : Session} {m : State} {construct : Construct} {outcome : Outcome},
      Life host t (.running session m) → m.ends? = some (construct, outcome) → construct.Allows true outcome := by
  refine ⟨fun {world control m construct outcome} grown starts course ends => ⟨?_, fun program d hc resolved => ?_⟩,
    fun {t session m construct outcome} life ends => ?_⟩
  · obtain ⟨y, yields⟩ := starts.yields
    exact (course.contained lawful (grown.contained lawful) yields).allows rfl ends
  · obtain ⟨y, yields⟩ := starts.yields_outside fun program' hc' => by
      cases hc.symm.trans hc'
      exact ⟨d, resolved⟩
    exact (course.contained lawful (grown.contained lawful) yields).allows rfl ends
  · obtain ⟨world, control, grown, starts, course, analysed⟩ := life.grown
    obtain ⟨y, yields⟩ := starts.yields_outside analysed
    exact (course.contained lawful (grown.contained lawful) yields).allows rfl ends

/-- The body of the routine ends with its return, although the loop in it ended with a break. -/
theorem flows_stay_inside_leavingText :
    ∃ m, Course Host.empty ⟨Store.bare.withLibrary, ⟨#[], [], true, .zero⟩, .empty⟩ (.program leavingProgram) m ∧
      m.ends? = some (.body, .flow (.return (.text "x"))) ∧ Construct.body.Allows true (.flow (.return (.text "x"))) := by
  have parsed : Parser.parse (Session.tokensOf leavingText) 0 = ⟨.ok leavingProgram, 1⟩ := by cbv
  have resolved : (Scope.resolve leavingProgram .empty).result = .ok () := by cbv
  have course := course_run Host.empty ⟨Store.bare.withLibrary, ⟨#[], [], true, .zero⟩, .empty⟩ (.program leavingProgram) 26
  have ends : (run Host.empty 26 (.start ⟨Store.bare.withLibrary, ⟨#[], [], true, .zero⟩, .empty⟩
      (.program leavingProgram))).ends? = some (.body, .flow (.return (.text "x"))) := by cbv
  obtain ⟨-, analysed⟩ := (flows_stay_inside Host.empty_lawful).1 (.fresh _) (.program parsed) course ends
  exact ⟨_, course, ends, analysed leavingProgram .empty rfl resolved⟩

end Machine

end Scriptlet
