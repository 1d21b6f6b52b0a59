import Scriptlet.Proofs.Layout

/-!
States of the machine whose frames are those of the text: what is done now and all that is pending runs in frames that
fit. Every step leads from such a state to such a state, whatever it makes happen.
-/
namespace Scriptlet.Machine

open Scope (Region)
open Scriptlet.Part (exprChildren stmtChildren)

/-- What is still to run, in the frame that is current now. -/
def Pending.code : Pending → List Part
  | .binaryRight _ e | .logical _ e | .setObject _ e | .updateObject _ _ e | .indexObject e _ => [.expr e]
  | .ternary yes no => [.expr yes, .expr no]
  | .callee es _ | .arguments _ _ es _ => es.map .expr
  | .conditional yes no => .stmt yes :: no.toList.map .stmt
  | .loopCondition e repeated | .loopBody e repeated => [.stmt (.loop e repeated)]
  | .sequence rest | .program rest => [.stmts rest]
  | _ => []

/-- What half of an expression or declaration waits for its other half. -/
def Pending.Fits (t : Trace) (fs : Frames) (f : Ref .frame) : Pending → Prop
  | .assign id name => ∃ value, Runs t fs [] f (.expr (.assign id name value))
  | .base d => Declaring t fs f d
  | _ => True

/-- The frame that becomes current again. -/
def Pending.outside? : Pending → Option (Ref .frame)
  | .leave outside | .body _ outside => some outside
  | _ => none

/-- All pending work fits; hidden names are those of the current frame that what is done now declares. -/
def Await (t : Trace) (fs : Frames) (f : Ref .frame) (hidden : List String) : List Pending → Prop
  | [] => True
  | p :: ps => (∀ part ∈ p.code, Runs t fs hidden f part) ∧ p.Fits t fs f ∧
      match p.outside? with
      | some g => g.index < fs.size ∧ Await t fs g [] ps
      | none => Await t fs f hidden ps

def Control.hides : Control → List String
  | .execute s => Scope.declaredNames (.stmt s)
  | _ => []

def Control.Fits (t : Trace) (fs : Frames) (f : Ref .frame) : Control → Prop
  | .evaluate e => Runs t fs [] f (.expr e)
  | .execute s => Runs t fs [] f (.stmt s)
  | .sequence body | .program body => Runs t fs [] f (.stmts body)
  | .enter (.function (.closure c)) arguments => Closed t fs c.frame c.routine ∧ arguments.length = c.arity
  | .enter (.class _ c) arguments =>
    (∀ name m, c.methods.get? name = some m → Unbound t fs m.frame m.routine) ∧ arguments.length = c.arity
  | _ => True

structure Aligned (t : Trace) (s : State) : Prop where
  layout : Layout t s.store
  frame : s.frame.index < s.store.frames.size
  pending : Await t s.store.frames s.frame s.control.hides s.pending
  control : s.control.Fits t s.store.frames s.frame

/-- All but what is done now. -/
structure Ready (t : Trace) (s : State) : Prop where
  layout : Layout t s.store
  frame : s.frame.index < s.store.frames.size
  pending : Await t s.store.frames s.frame [] s.pending

section Await

variable {t t' : Trace} {fs fs' : Frames} {f : Ref .frame} {hidden : List String} {ps : List Pending}

theorem Pending.Fits.later {p : Pending} (h : p.Fits t fs f) (l : Later t fs t' fs') : p.Fits t' fs' f := by
  cases p with
  | assign id name =>
    obtain ⟨value, runs⟩ := h
    exact ⟨value, runs.later l⟩
  | base d => exact Declaring.later h l
  | _ => trivial

theorem Await.later (h : Await t fs f hidden ps) (l : Later t fs t' fs') : Await t' fs' f hidden ps := by
  induction ps generalizing f hidden with
  | nil => trivial
  | cons p ps ih =>
    obtain ⟨code, fits, rest⟩ := h
    refine ⟨fun part hp => (code part hp).later l, fits.later l, ?_⟩
    cases ho : p.outside? with
    | none =>
      rw [ho] at rest
      exact ih rest
    | some g =>
      rw [ho] at rest
      exact ⟨Nat.lt_of_lt_of_le rest.1 l.size, ih rest.2⟩

theorem Await.hide (h : Await t fs f [] ps) (hidden : List String) : Await t fs f hidden ps := by
  induction ps with
  | nil => trivial
  | cons p ps ih =>
    obtain ⟨code, fits, rest⟩ := h
    refine ⟨fun part hp => (code part hp).hide hidden, fits, ?_⟩
    cases ho : p.outside? with
    | none =>
      rw [ho] at rest
      exact ih rest
    | some g =>
      rw [ho] at rest
      exact rest

theorem Await.reveal (h : Await t fs f hidden ps) (there : f ≠ Store.globals → ∀ x ∈ hidden, Touched t fs f x) :
    Await t fs f [] ps := by
  induction ps with
  | nil => trivial
  | cons p ps ih =>
    obtain ⟨code, fits, rest⟩ := h
    refine ⟨fun part hp => (code part hp).reveal there, fits, ?_⟩
    cases ho : p.outside? with
    | none =>
      rw [ho] at rest
      exact ih rest
    | some g =>
      rw [ho] at rest
      exact rest

end Await

variable {t t' : Trace} {s : State}

theorem Aligned.ready (h : Aligned t s) (hides : s.control.hides = []) : Ready t s :=
  ⟨h.layout, h.frame, by simpa only [hides] using h.pending⟩

namespace Ready

variable (h : Ready t s)
include h

theorem grow {store : Store} (g : Grows t s.store t' store) : Ready t' { s with store } :=
  ⟨g.layout, Nat.lt_of_lt_of_le h.frame g.later.size, h.pending.later g.later⟩

theorem go {c : Control} (hides : c.hides = []) (fits : c.Fits t s.store.frames s.frame) : Aligned t (s.go c) :=
  ⟨h.layout, h.frame, by simpa only [State.go, hides] using h.pending, fits⟩

theorem give (v : Value) : Aligned t (s.give v) := h.go rfl trivial

theorem flow (f : Flow) : Aligned t (s.go (.flow f)) := h.go rfl trivial

theorem fail (e : Failure) : Aligned t (s.go (.raise e)) := h.go rfl trivial

theorem answer (line : Nat) (r : Except Fault Value) : Aligned t (s.answer line r) := by
  cases r with
  | ok v => exact h.give v
  | error e => exact h.fail _

/-- Work is left for later, in the same frame. -/
theorem push {p : Pending} {c : Control} (hides : c.hides = [])
    (code : ∀ part ∈ p.code, Runs t s.store.frames [] s.frame part) (fits : p.Fits t s.store.frames s.frame)
    (inside : p.outside? = none) (control : c.Fits t s.store.frames s.frame) : Aligned t (s.push p c) := by
  refine ⟨h.layout, h.frame, ?_, control⟩
  simp only [State.push, hides]
  refine ⟨code, fits, ?_⟩
  rw [inside]
  exact h.pending

/-- While a statement runs, what it declares may be missing. -/
theorem execute {x : Stmt} (runs : Runs t s.store.frames [] s.frame (.stmt x)) : Aligned t (s.go (.execute x)) :=
  ⟨h.layout, h.frame, h.pending.hide _, runs⟩

theorem pushExecute {p : Pending} {x : Stmt}
    (code : ∀ part ∈ p.code, Runs t s.store.frames (Scope.declaredNames (.stmt x)) s.frame part)
    (fits : p.Fits t s.store.frames s.frame) (inside : p.outside? = none)
    (runs : Runs t s.store.frames [] s.frame (.stmt x)) : Aligned t (s.push p (.execute x)) := by
  refine ⟨h.layout, h.frame, ⟨code, fits, ?_⟩, runs⟩
  rw [inside]
  exact h.pending.hide _

/-- A call of a value checks the callee, which then fits. -/
theorem call (callee : Value) (arguments : List Value) (site : Site) :
    Aligned t (s.go (.invoke callee arguments site)) := h.go rfl trivial

theorem arguments (callee : Value) (done : List Value) {rest : List Expr} (line : Nat)
    (code : ∀ e ∈ rest, Runs t s.store.frames [] s.frame (.expr e)) :
    Aligned t (evaluateArguments s callee done rest line) := by
  cases rest with
  | nil => exact h.call callee done (.script line)
  | cons e rest =>
    obtain ⟨first, others⟩ := List.forall_mem_cons.1 code
    exact h.push rfl (by simpa [Pending.code] using others) trivial rfl first

theorem addClosure {r : Routine} (kind : RoutineKind) (closed : Closed t s.store.frames s.frame r) :
    Ready t (s.addClosure r kind).2 :=
  h.grow (h.layout.addClosure closed)

theorem realize {p : Property} (unbound : ∀ m r, p = .method m r → Unbound t s.store.frames m.frame m.routine) :
    Ready (opening s.store p.region? ++ t) (s.realize p).2 :=
  h.grow (h.layout.realize unbound)

theorem write (f : Ref .frame) (name : String) (v : Value) : Ready t (s.write f name v) :=
  h.grow (h.layout.define f name v)

end Ready

theorem evaluate_aligned {e : Expr} (ready : Ready t s) (runs : Runs t s.store.frames [] s.frame (.expr e)) :
    Aligned t (evaluate s e) := by
  have below {p : Part} (hp : p ∈ exprChildren e) : Runs t s.store.frames [] s.frame p := runs.ofExpr ready.layout.sane hp
  cases e with
  | literal value => exact ready.give _
  | group inner => exact ready.go rfl (below (.head _))
  | unary op right | get object name => exact ready.push rfl (by simp [Pending.code]) trivial rfl (below (.head _))
  | binary left op right | logical left op right =>
    refine ready.push rfl ?_ trivial rfl (below (.head _))
    simpa [Pending.code] using below (p := .expr right) (by simp [exprChildren])
  | ternary condition yes no =>
    refine ready.push rfl ?_ trivial rfl (below (.head _))
    have y := below (p := .expr yes) (by simp [exprChildren])
    have n := below (p := .expr no) (by simp [exprChildren])
    simp [Pending.code, y, n]
  | «variable» id name | this id line =>
    simp only [evaluate]
    split
    · exact ready.give _
    · exact ready.fail _
  | assign id name value =>
    exact ready.push rfl (by simp [Pending.code]) ⟨value, runs⟩ rfl (below (.head _))
  | suffix id name op =>
    simp only [evaluate]
    split
    · exact ready.fail _
    · split
      · exact (ready.write _ _ _).give _
      · exact ready.fail _
    · exact ready.fail _
  | call callee arguments line =>
    refine ready.push rfl (fun p hp => below ?_) trivial rfl (below (.head _))
    exact .tail _ hp
  | set object name value =>
    refine ready.push rfl ?_ trivial rfl (below (by simp [exprChildren]))
    simpa [Pending.code] using below (p := .expr value) (by simp [exprChildren])
  | update object name op value =>
    refine ready.push rfl ?_ trivial rfl (below (.head _))
    simpa [Pending.code] using below (p := .expr value) (by simp [exprChildren])
  | index object position line =>
    refine ready.push rfl ?_ trivial rfl (below (.head _))
    simpa [Pending.code] using below (p := .expr position) (by simp [exprChildren])
  | lambda r => exact (ready.addClosure .lambda ⟨_, below (.head _)⟩).give _

/-- The statics of a class are closures in the frame of the class. -/
theorem addStatics_ready {routines : List Routine} (h : Ready t s)
    (closed : ∀ r ∈ routines, Closed t s.store.frames s.frame r) :
    Ready t (addStatics s routines).2 ∧ (addStatics s routines).2.store.frames = s.store.frames ∧
      (addStatics s routines).2.frame = s.frame := by
  unfold addStatics
  generalize Table.empty = table
  induction routines generalizing s table with
  | nil => exact ⟨h, rfl, rfl⟩
  | cons r rs ih =>
    obtain ⟨first, others⟩ := List.forall_mem_cons.1 closed
    exact ih (h.addClosure .static first) others _

theorem mem_of_get?_foldl {α β : Type} {key : α → String} {value : α → β} {as : List α} {table : Table String β}
    {name : String} {b : β}
    (h : (as.foldl (fun t a => t.insert (key a) (value a)) table).get? name = some b) :
    (∃ a ∈ as, b = value a) ∨ table.get? name = some b := by
  induction as generalizing table with
  | nil => exact .inr h
  | cons a as ih =>
    rcases ih h with ⟨a', ha', rfl⟩ | h
    · exact .inl ⟨a', .tail _ ha', rfl⟩
    · rw [Table.get?_insert] at h
      split at h
      · cases h
        exact .inl ⟨a, .head _, rfl⟩
      · exact .inr h

theorem declareClass_aligned {d : ClassDeclaration} (ready : Ready t s)
    (declaring : Declaring t s.store.frames s.frame d) : Aligned t (declareClass s d) := by
  have sane := ready.layout.sane
  obtain ⟨ready', frames, frame⟩ := addStatics_ready ready fun r hr => declaring.static sane hr
  have unbound {name : String} {m : Closure}
      (hm : (d.methods.foldl (fun table m => table.insert m.name.text (s.closure m (.ofMethod m.name.text)))
        Table.empty).get? name = some m) : Unbound t s.store.frames m.frame m.routine := by
    rcases mem_of_get?_foldl hm with ⟨r, hr, rfl⟩ | hm
    · exact declaring.method sane hr
    · cases hm
  have added := ready'.grow (ready'.layout.addClass (c := ⟨d.name.text, _, (addStatics s d.statics).1, none⟩)
    fun name m hm => by
      rw [frames]
      exact unbound hm)
  exact (added.write _ d.name.text _).flow .normal

/-- What a statement declares in its frame is no longer hidden once it is there. -/
theorem Aligned.reveal {x : Stmt} (h : Aligned t s) (hc : s.control = .execute x) {store : Store}
    (g : Grows t s.store t' store)
    (there : s.frame ≠ Store.globals → ∀ y ∈ Scope.declaredNames (.stmt x), Touched t' store.frames s.frame y) :
    Ready t' { s with store } := by
  have pending := h.pending
  rw [hc] at pending
  exact ⟨g.layout, Nat.lt_of_lt_of_le h.frame g.later.size, (pending.later g.later).reveal there⟩

/-- A declaration that binds its name at once. -/
theorem Aligned.bind {x : Stmt} (h : Aligned t s) (hc : s.control = .execute x) {name : String}
    (declares : Scope.declaredNames (.stmt x) = [name]) {store : Store} (g : Grows t s.store t store) (v : Value) :
    Ready t { s with store := store.define s.frame name v } := by
  have lt : s.frame.index < store.frames.size := Nat.lt_of_lt_of_le h.frame g.later.size
  refine h.reveal hc (g.trans (g.layout.define s.frame name v)) fun _ y hy => ?_
  rw [declares] at hy
  obtain rfl := List.mem_singleton.1 hy
  exact .inl (Frames.bound_define lt y v)

variable {host : Host}

/-- Where nothing is opened and no initial value begins or ends, nothing happens. -/
theorem events_nil (opens : s.opens? host = none) (initializer : s.initializer? = none) : s.events host = [] := by
  simp only [State.events, opens, initializer, opening, Option.map_none, Option.toList_none, List.append_nil]

/-- The frame of a block is opened inside the current one. -/
theorem block_aligned {ss : List Stmt} (ready : Ready t s) (runs : Runs t s.store.frames [] s.frame (.stmt (.block ss))) :
    Aligned (.opened s.store.frames.next (.block ss) :: t) (execute s (.block ss)) := by
  obtain ⟨grows, opened, -⟩ := ready.layout.addFrame s.frame [] (.block ss)
  have runs := (runs.later grows.later).block opened
  refine ⟨grows.layout, (grows.layout.opened _ _ opened.opened).2, ⟨by simp [Pending.code], trivial, ?_, ?_⟩, runs⟩
  · exact Nat.lt_of_lt_of_le ready.frame grows.later.size
  · exact ready.pending.later grows.later

theorem execute_aligned {x : Stmt} (h : Aligned t s) (hc : s.control = .execute x) :
    Aligned (s.events host ++ t) (execute s x) := by
  have runs : Runs t s.store.frames [] s.frame (.stmt x) := by
    have control := h.control
    rwa [hc] at control
  have sane := h.layout.sane
  have quiet (opens : s.opens? host = none) (initializer : s.initializer? = none) (ha : Aligned t (execute s x)) :
      Aligned (s.events host ++ t) (execute s x) := by
    rwa [events_nil opens initializer]
  have ready (hd : Scope.declaredNames (.stmt x) = []) : Ready t s := h.ready (by rw [hc]; exact hd)
  have below {p : Part} (hx : Scope.Plain x) (hp : p ∈ stmtChildren x) : Runs t s.store.frames [] s.frame p :=
    runs.ofPlain sane hx hp
  cases x with
  | expression e | print e =>
    refine quiet (by simp [State.opens?, hc]) (by simp [State.initializer?, hc]) ?_
    exact (ready rfl).push rfl (by simp [Pending.code]) trivial rfl (below trivial (.head _))
  | var name e? =>
    cases e? with
    | none =>
      refine quiet (by simp [State.opens?, hc]) (by simp [State.initializer?, hc]) ?_
      exact (h.bind hc rfl ⟨.refl _ _, h.layout⟩ .null).flow .normal
    | some e =>
      have events : s.events host = [.begun s.frame name.text] := by
        simp [State.events, State.opens?, State.initializer?, hc, opening]
      rw [events]
      obtain ⟨notThis, initialized⟩ := runs.initialized sane
      have grows := h.layout.begin notThis initialized
      have touched : Touched (.begun s.frame name.text :: t) s.store.frames s.frame name.text := .inr (.head _)
      have ready : Ready (.begun s.frame name.text :: t) s := h.reveal hc grows fun _ y hy => by
        obtain rfl := List.mem_singleton.1 hy
        exact touched
      refine ready.push rfl (by simp [Pending.code]) trivial rfl ?_
      exact (runs.later grows.later).initial grows.layout.sane fun _ => touched
  | block ss =>
    have events : s.events host = [.opened s.store.frames.next (.block ss)] := by
      simp [State.events, State.opens?, State.initializer?, hc, opening]
    rw [events]
    exact block_aligned (ready rfl) runs
  | conditional e yes no =>
    refine quiet (by simp [State.opens?, hc]) (by simp [State.initializer?, hc]) ?_
    refine (ready rfl).push rfl (fun p hp => below trivial ?_) trivial rfl (below trivial (.head _))
    exact .tail _ hp
  | loop e body =>
    refine quiet (by simp [State.opens?, hc]) (by simp [State.initializer?, hc]) ?_
    exact (ready rfl).push rfl (by simpa [Pending.code] using runs) trivial rfl (below trivial (.head _))
  | «break» line =>
    exact quiet (by simp [State.opens?, hc]) (by simp [State.initializer?, hc]) ((ready rfl).flow .break)
  | «continue» line =>
    exact quiet (by simp [State.opens?, hc]) (by simp [State.initializer?, hc]) ((ready rfl).flow .continue)
  | function r =>
    refine quiet (by simp [State.opens?, hc]) (by simp [State.initializer?, hc]) ?_
    have ready := h.bind hc rfl ⟨.refl _ _, h.layout⟩ (.function s.store.functions.next)
    have grows := h.layout.define s.frame r.name.text (.function s.store.functions.next)
    -- the closure is added before its name is bound; in the end both are there
    have closed := (runs.later grows.later).function sane fun _ => .inl (Frames.bound_define h.frame r.name.text _)
    exact (ready.addClosure .function closed).flow .normal
  | «return» line e? =>
    cases e? with
    | none => exact quiet (by simp [State.opens?, hc]) (by simp [State.initializer?, hc]) ((ready rfl).flow _)
    | some e =>
      refine quiet (by simp [State.opens?, hc]) (by simp [State.initializer?, hc]) ?_
      exact (ready rfl).push rfl (by simp [Pending.code]) trivial rfl (below trivial (.head _))
  | «class» d =>
    refine quiet (by simp [State.opens?, hc]) (by simp [State.initializer?, hc]) ?_
    have ready := h.bind hc rfl ⟨.refl _ _, h.layout⟩ .null
    have grows := h.layout.define s.frame d.name.text .null
    have declaring := (runs.later grows.later).declaring fun _ => .inl (Frames.bound_define h.frame d.name.text _)
    cases hb : d.base with
    | none =>
      simp only [execute, hb]
      exact declareClass_aligned ready declaring
    | some base =>
      simp only [execute, hb]
      exact ready.push (p := .base d) rfl (by simp [Pending.code]) declaring rfl (declaring.base sane hb)

end Scriptlet.Machine
