import Scriptlet.Proofs.Bonds

/-!
Every step keeps the frames of the bonds as they are and adds no others than the step's own bond. What is pending keeps
what it will need for that: closures whose bodies run belong to bonds or have none, names that are going to be bound are
never `this`, and no frame that becomes current holds a receiver.
-/
namespace Scriptlet.Machine

open Scope (Region)

def Pending.Proper (log : Log) (t : Trace) : Pending → Prop
  | .assign _ name | .var name => name.text ≠ "this"
  | .base d => d.name.text ≠ "this"
  | .leave outside => Plainly t outside
  | .body c outside => c.Attached log t ∧ Plainly t outside
  | _ => True

def Callee.Proper (log : Log) (t : Trace) : Callee → Prop
  | .function (.closure c) => c.Attached log t
  | .function (.native _) => True
  | .class _ c => c.Proper

def Control.Proper (log : Log) (t : Trace) : Control → Prop
  | .enter callee _ => Callee.Proper log t callee
  | _ => True

/-- All but what is done now. -/
structure Bound (log : Log) (t : Trace) (s : State) : Prop where
  store : s.store.Bonded log t
  frame : Plainly t s.frame
  pending : ∀ p ∈ s.pending, p.Proper log t

structure Bonded (log : Log) (t : Trace) (s : State) : Prop extends Bound log t s where
  control : s.control.Proper log t

section Later

variable {log log' : Log} {t t' : Trace}

theorem Pending.Proper.later {p : Pending} (h : p.Proper log t) (bonds : ∀ b ∈ log, b ∈ log')
    (trace : ∀ e ∈ t, e ∈ t') : p.Proper log' t' := by
  cases p with
  | leave outside => exact Plainly.later h trace
  | body c outside => exact ⟨h.1.later bonds trace, h.2.later trace⟩
  | assign | var | base => exact h
  | _ => trivial

theorem Control.Proper.later {c : Control} (h : c.Proper log t) (bonds : ∀ b ∈ log, b ∈ log')
    (trace : ∀ e ∈ t, e ∈ t') : c.Proper log' t' := by
  cases c with
  | enter callee arguments =>
    rcases callee with (c | n) | ⟨r, c⟩
    · exact Closure.Attached.later h bonds trace
    · trivial
    · exact h
  | _ => trivial

end Later

namespace Bound

variable {log log' : Log} {t t' : Trace} {s : State} (h : Bound log t s)
include h

theorem go {c : Control} (proper : c.Proper log t) : Bonded log t (s.go c) :=
  ⟨⟨h.store, h.frame, h.pending⟩, proper⟩

theorem give (v : Value) : Bonded log t (s.give v) := h.go trivial

theorem flow (f : Flow) : Bonded log t (s.go (.flow f)) := h.go trivial

theorem fail (e : Failure) : Bonded log t (s.go (.raise e)) := h.go trivial

theorem answer (line : Nat) (r : Except Fault Value) : Bonded log t (s.answer line r) := by
  cases r with
  | ok v => exact h.give v
  | error e => exact h.fail _

theorem push {p : Pending} {c : Control} (hp : p.Proper log t) (hc : c.Proper log t) : Bonded log t (s.push p c) :=
  ⟨⟨h.store, h.frame, List.forall_mem_cons.2 ⟨hp, h.pending⟩⟩, hc⟩

theorem pop {p : Pending} {rest : List Pending} (hp : s.pending = p :: rest) :
    p.Proper log t ∧ Bound log t { s with pending := rest } := by
  have pending := h.pending
  rw [hp] at pending
  obtain ⟨first, others⟩ := List.forall_mem_cons.1 pending
  exact ⟨first, h.store, h.frame, others⟩

/-- Another frame becomes current. -/
theorem enter {frame : Ref .frame} (plain : Plainly t frame) : Bound log t { s with frame } :=
  ⟨h.store, plain, h.pending⟩

theorem withConsole (console : Console) : Bound log t { s with console } :=
  ⟨h.store, h.frame, h.pending⟩

theorem withStore {store : Store} (bonded : store.Bonded log t) : Bound log t { s with store } :=
  ⟨bonded, h.frame, h.pending⟩

theorem kept (layout : Layout t s.store) {store : Store} (k : s.store.Kept store) : Bound log t { s with store } :=
  h.withStore (h.store.kept layout k)

/-- The store has changed, and more has happened. -/
theorem grow {store : Store} (bonded : store.Bonded log' t') (bonds : ∀ b ∈ log, b ∈ log')
    (trace : ∀ e ∈ t, e ∈ t') : Bound log' t' { s with store } :=
  ⟨bonded, h.frame.later trace, fun p hp => (h.pending p hp).later bonds trace⟩

/-- A frame is opened that is not for a receiver, and becomes current. -/
theorem opened (layout : Layout t s.store) (parent : Ref .frame) (bindings : List (String × Value))
    {region : Region} (plain : region.method? = none) :
    Bound log (.opened s.store.frames.next region :: t)
      { s with store := (s.store.addFrame parent bindings).2, frame := s.store.frames.next } := by
  have grown := h.grow (h.store.addFrame layout parent bindings plain) (fun _ hb => hb)
    fun _ he => .tail _ he
  exact grown.enter (.inr ⟨region, .head _, plain⟩)

theorem write (f : Ref .frame) {name : String} (notThis : name ≠ "this") (v : Value) :
    Bound log t (s.write f name v) :=
  h.withStore (h.store.define f notThis v)

/-- What is declared in the current frame belongs to no bond. -/
theorem addClosure (r : Routine) (kind : RoutineKind) : Bound log t (s.addClosure r kind).2 :=
  h.withStore (h.store.addClosure (.inr h.frame))

theorem addStatics (rs : List Routine) :
    Bound log t (addStatics s rs).2 ∧ (Machine.addStatics s rs).2.frame = s.frame := by
  unfold Machine.addStatics
  generalize Table.empty = table
  induction rs generalizing s table with
  | nil => exact ⟨h, rfl⟩
  | cons r rs ih => exact ih (h.addClosure r .static) _

theorem arguments (callee : Value) (done : List Value) (rest : List Expr) (line : Nat) :
    Bonded log t (evaluateArguments s callee done rest line) := by
  cases rest with
  | nil => exact h.go trivial
  | cons e rest => exact h.push trivial trivial

end Bound

section Steps

variable {host : Host} {log : Log} {t : Trace} {s : State}

theorem Bonded.note (h : Bonded log t s) {e : Event} (text : ∀ root, e ≠ .accepted root)
    (other : ∀ f region, e ≠ .opened f region) : Bonded log (e :: t) s := by
  have trace : ∀ e' ∈ t, e' ∈ e :: t := fun _ he => .tail _ he
  exact ⟨h.grow (h.store.note text fun f m => other f _) (fun _ hb => hb) trace, h.control.later (fun _ hb => hb) trace⟩

theorem evaluate_bonded {e : Expr} (h : Bound log t s) (tidy : (Part.expr e).Tidy) : Bonded log t (evaluate s e) := by
  cases e with
  | literal value => exact h.give _
  | group inner => exact h.go trivial
  | «variable» id name | this id line =>
    simp only [evaluate]
    split
    · exact h.give _
    · exact h.fail _
  | assign id name value => exact h.push tidy trivial
  | suffix id name op =>
    simp only [evaluate]
    split
    · exact h.fail _
    · split
      · exact (h.write _ tidy _).give _
      · exact h.fail _
    · exact h.fail _
  | lambda r => exact (h.addClosure r .lambda).give _
  | _ => exact h.push trivial trivial

theorem declareClass_bonded {d : ClassDeclaration} (h : Bound log t s) (notThis : d.name.text ≠ "this") :
    Bonded log t (declareClass s d) := by
  obtain ⟨bound, frame⟩ := h.addStatics d.statics
  refine ((bound.withStore (bound.store.addClass ?_)).write _ notThis _).flow .normal
  intro name m hm
  rcases mem_of_get?_foldl hm with ⟨r, -, rfl⟩ | hm
  · rfl
  · cases hm

/-- Only a block opens a frame. -/
theorem execute_bonded {x : Stmt} (h : Bound log t s) (tidy : (Part.stmt x).Tidy) (hx : ∀ ss, x ≠ .block ss) :
    Bonded log t (execute s x) := by
  cases x with
  | block ss => exact absurd rfl (hx ss)
  | var name e? =>
    cases e? with
    | none => exact (h.write s.frame (tidy name rfl) .null).flow .normal
    | some e => exact h.push (tidy name rfl) trivial
  | function r => exact ((h.addClosure r .function).write s.frame (tidy r.name rfl) _).flow .normal
  | «break» line => exact h.flow _
  | «continue» line => exact h.flow _
  | «return» line e? =>
    cases e? with
    | none => exact h.flow _
    | some e => exact h.push trivial trivial
  | «class» d =>
    have notThis : d.name.text ≠ "this" := tidy d.name rfl
    have named := h.write s.frame notThis .null
    simp only [execute]
    split
    · exact named.push notThis trivial
    · exact declareClass_bonded named notThis
  | _ => exact h.push trivial trivial

theorem callee_proper {store : Store} (h : store.Bonded log t) {v : Value} {c : Callee}
    (hc : store.callee? v = some c) : Callee.Proper log t c := by
  cases v with
  | function r =>
    obtain ⟨callable, hr, rfl⟩ := Option.map_eq_some_iff.1 hc
    cases callable with
    | closure c => exact h.closure r c hr
    | native n => trivial
  | «class» r =>
    obtain ⟨c, hr, rfl⟩ := Option.map_eq_some_iff.1 hc
    exact h.method r c hr
  | _ => cases hc

theorem invoke_bonded (h : Bound log t s) (callee : Value) (arguments : List Value) (site : Site) :
    Bonded log t (invoke s callee arguments site) := by
  unfold invoke
  split
  · exact h.fail _
  · exact h.fail _
  · next c line hc =>
    split
    · exact h.push trivial (callee_proper h.store hc)
    · exact h.fail _
  · next c hc =>
    split
    · exact h.go (callee_proper h.store hc)
    · exact h.fail _

theorem enterNative_bonded (lawful : host.Lawful) (layout : Layout t s.store) {n : Native} {arguments : List Value}
    (h : Bonded log t s) : Bonded log t (enterNative host s n arguments) := by
  unfold enterNative
  split
  · exact h.give _
  · split
    · exact (h.withConsole _).give _
    · exact h
  · split
    · refine Bound.give ?_ _
      exact h.kept layout (.of_eq rfl rfl rfl)
    · exact h.fail _
  · split
    · refine Bound.give ?_ _
      exact h.kept layout (.of_eq rfl rfl rfl)
    · exact h.fail _
  · next tag cell _ =>
    have called := (h.kept layout (lawful.call tag cell arguments s.store)).withConsole
      ((host.call tag cell arguments s.store).printed.foldl Console.print s.console)
    dsimp only
    split
    · exact called.give _
    · exact called.fail _
    · exact called.push trivial trivial

theorem enterClosure_bonded (layout : Layout t s.store) {c : Closure} {arguments : List Value} (h : Bound log t s)
    (attached : c.Attached log t) :
    Bonded log (.opened s.store.frames.next (.call c.routine) :: t) (enterClosure s c arguments) := by
  have trace (e : Event) (he : e ∈ t) : e ∈ .opened s.store.frames.next (.call c.routine) :: t :=
    .tail _ he
  have opened := h.opened layout c.frame ((c.routine.params.map Name.text).zip arguments)
    (rfl : (Region.call c.routine).method? = none)
  exact opened.push ⟨attached.later (fun _ hb => hb) trace, h.frame.later trace⟩ trivial

theorem block_bonded (layout : Layout t s.store) (ss : List Stmt) (h : Bound log t s) :
    Bonded log (.opened s.store.frames.next (.block ss) :: t) (execute s (.block ss)) := by
  have opened := h.opened layout s.frame [] (rfl : (Region.block ss).method? = none)
  exact opened.push (h.frame.later fun _ he => .tail _ he) trivial

/-- What a class opens when it is entered: the scope of the receiver, for its constructor. -/
def Control.receiver? : Control → Option Region
  | .enter (.function (.closure bound)) _ => some (.receiver bound.routine)
  | _ => none

/-- A constructor is entered with a frame for the new instance. -/
theorem enterClass_bonded (lawful : host.Lawful) (layout : Layout t s.store) {r : Ref .classObject} {c : ClassObject}
    {arguments : List Value} (h : Bound log t s) (hc : s.control = .enter (.class r c) arguments) (proper : c.Proper) :
    Bonded (s.bonds host ++ log) (opening s.store (s.opens? host) ++ t) (enterClass host s r c arguments) := by
  have kept := kept_prepared lawful s.store r c arguments
  have step : step host s = enterClass host s r c arguments := by simp only [step, hc, enter]
  have object : s.object? = some s.store.instances.next := by simp only [State.object?, hc]
  have opens : s.opens? host = (enterClass host s r c arguments).control.receiver? := by
    simp only [State.opens?, hc, step]
    rfl
  rw [enterClass_eq] at opens ⊢
  generalize prepared host s.store r c arguments = new at kept opens ⊢
  obtain ⟨store, fault?⟩ := new
  have next : store.frames.next = s.store.frames.next := congrArg Ref.mk kept.size
  have bound := h.withStore (h.store.kept layout kept)
  have layout := (layout.kept kept).layout
  unfold State.bonds
  cases fault? with
  | some fault =>
    rw [show s.opens? host = none from opens]
    exact bound.fail _
  | none =>
    cases hf : c.constructor? with
    | none =>
      rw [hf] at opens
      rw [show s.opens? host = none from opens]
      exact bound.give _
    | some f =>
      rw [hf] at opens
      obtain ⟨bonded, attached⟩ := bound.store.bind layout (proper constructorName f hf) s.store.instances.next
      rw [show s.opens? host = some (.receiver f.routine) from opens, object]
      change Bonded (⟨s.store.frames.next, f.routine, s.store.instances.next⟩ :: log)
        (.opened s.store.frames.next (.receiver f.routine) :: t) _
      rw [← next]
      exact (bound.grow bonded (fun _ hb => .tail _ hb) fun _ he => .tail _ he).push
        (p := .constructed _) trivial attached

/-- Work that reads no member. -/
def Pending.Unread : Pending → Prop
  | .get _ | .updateObject _ _ _ | .index _ _ => False
  | _ => True

theorem resume_bonded (h : Bound log t s) (layout : Layout t s.store) (v : Value) {p : Pending}
    (proper : p.Proper log t) (unread : p.Unread) : Bonded log t (resume s v p) := by
  cases p with
  | unary op => exact h.answer _ _
  | binary left op => exact h.answer _ _
  | logical op right =>
    simp only [resume]
    split
    · exact h.give _
    · exact h.go trivial
  | assign id name =>
    simp only [resume]
    split
    · exact (h.write _ proper _).give _
    · exact h.fail _
  | callee es line => exact h.arguments v [] es line
  | arguments callee done es line => exact h.arguments callee (done ++ [v]) es line
  | setObject name value =>
    cases v with
    | «instance» r => exact h.push trivial trivial
    | _ => exact h.fail _
  | setField r name => exact (h.kept layout (.setField _ r name.text v)).give _
  | updateField r name current op =>
    simp only [resume]
    split
    · exact (h.kept layout (.setField _ r name.text _)).give _
    · exact h.fail _
  | print => exact (h.withConsole _).flow .normal
  | var name => exact (h.write s.frame proper v).flow .normal
  | conditional yes no =>
    simp only [resume]
    split
    · exact h.go trivial
    · cases no with
      | none => exact h.flow .normal
      | some no => exact h.go trivial
  | loopCondition condition body =>
    simp only [resume]
    split
    · exact h.push trivial trivial
    · exact h.flow .normal
  | base d =>
    cases v with
    | «class» r => exact declareClass_bonded h proper
    | _ => exact h.fail _
  | ternary | expression | «return» | constructed | site | nativeCall => exact h.go trivial
  | binaryRight | indexObject => exact h.push trivial trivial
  | get | updateObject | index => exact unread.elim
  | sequence | program | loopBody | leave | body => exact h.push proper trivial

theorem proceed_bonded (h : Bound log t s) (f : Flow) {p : Pending} (proper : p.Proper log t) :
    Bonded log t (proceed s f p) := by
  cases p with
  | sequence ss => cases f <;> exact h.go trivial
  | program ss => exact h.go trivial
  | loopBody condition body => cases f <;> first | exact h.go trivial | exact h.push trivial trivial
  | leave outside => exact (h.enter proper).flow f
  | body c outside => exact (h.enter proper.2).give _
  | _ => exact h.push proper trivial

theorem unwind_bonded (h : Bound log t s) (e : Failure) {p : Pending} (proper : p.Proper log t) :
    Bonded log t (unwind s e p) := by
  cases p with
  | leave outside => exact (h.enter proper).fail e
  | body c outside => exact (h.enter proper.2).fail e
  | _ => exact h.fail _

/-- A method that is read is bound to the instance at hand. -/
theorem Bound.realize (h : Bound log t s) (layout : Layout t s.store) (object? : Option (Ref .object)) {p : Property}
    (method : ∀ m r, p = .method m r → object? = some r ∧ m.kind = .ofMethod m.routine.name.text) :
    Bound (bonding s.store p.region? object? ++ log) (opening s.store p.region? ++ t) (s.realize p).2 :=
  h.grow (h.store.realize layout method) (fun _ hb => List.mem_append_right _ hb) fun _ he => List.mem_append_right _ he

theorem read_bonded (layout : Layout t s.store) (h : Bound log t s) {v : Value} {p : Pending} {rest : List Pending}
    (hc : s.control = .value v) (hp : s.pending = p :: rest) (reads : ¬ p.Unread) :
    Bonded (s.bonds host ++ log) (opening s.store (s.opens? host) ++ t) (resume { s with pending := rest } v p) := by
  obtain ⟨-, popped⟩ := h.pop hp
  have property {r r' : Ref .object} {name : String} {q : Property} {m : Closure} (he : q = .method m r')
      (hm : s.store.property? r name = some q) : some r = some r' ∧ m.kind = .ofMethod m.routine.name.text := by
    obtain ⟨rfl, kind⟩ := h.store.property?_method (he ▸ hm)
    exact ⟨rfl, kind⟩
  unfold State.bonds
  cases p with
  | get name =>
    have opens : s.opens? host = (s.store.member? v name.text).bind Property.region? := by
      simp only [State.opens?, hc, hp]
    have object : s.object? = v.object? := by simp only [State.object?, hc, hp]
    rw [opens, object]
    cases hm : s.store.member? v name.text with
    | none =>
      cases v with
      | «instance» r | «class» r =>
        simp only [resume, hm]
        exact popped.fail _
      | _ => exact popped.fail _
    | some m =>
      have realized := popped.realize layout v.object? (p := m) fun _ _ he => h.store.member?_method (he ▸ hm)
      cases v with
      | «instance» r | «class» r =>
        simp only [resume, hm]
        exact realized.give _
      | _ => cases hm
  | updateObject name op value =>
    cases v with
    | «instance» r =>
      have opens : s.opens? host = (s.store.property? r name.text).bind Property.region? := by
        simp only [State.opens?, hc, hp]
      have object : s.object? = some r := by simp only [State.object?, hc, hp, Value.object?]
      rw [opens, object]
      cases hm : s.store.property? r name.text with
      | none =>
        simp only [resume, hm]
        exact popped.fail _
      | some m =>
        simp only [resume, hm]
        exact (popped.realize layout (some r) (p := m) fun _ _ he => property he hm).push trivial trivial
    | _ =>
      rw [show s.opens? host = none by simp only [State.opens?, hc, hp]]
      exact popped.fail _
  | index object line =>
    cases object with
    | «instance» r =>
      have opens : s.opens? host = (s.store.property? r "at").bind Property.region? := by
        simp only [State.opens?, hc, hp]
      have object : s.object? = some r := by simp only [State.object?, hc, hp, Value.object?]
      rw [opens, object]
      cases hm : s.store.property? r "at" with
      | none =>
        simp only [resume, subscript, hm]
        exact popped.fail _
      | some m =>
        simp only [resume, subscript, hm]
        exact (popped.realize layout (some r) (p := m) fun _ _ he => property he hm).go trivial
    | text x =>
      rw [show s.opens? host = none by simp only [State.opens?, hc, hp]]
      exact popped.answer _ _
    | _ =>
      rw [show s.opens? host = none by simp only [State.opens?, hc, hp]]
      exact popped.fail _
  | _ => exact absurd trivial reads

theorem Runs.tidy {fs : Frames} {f : Ref .frame} {hidden : List String} {part : Part} (h : Runs t fs hidden f part)
    (sane : Sane t) : part.Tidy := by
  obtain ⟨site, visited, rfl, -⟩ := h
  exact (visited.good sane).shaped.tidy

/-- A step that opens no frame makes no bond. -/
theorem Bonded.quiet {s' : State} (h : Bonded log t s') (opens : s.opens? host = none) :
    Bonded (s.bonds host ++ log) (s.events host ++ t) s' := by
  simp only [State.bonds, State.events, opens, bonding, opening, Option.map_none, Option.toList_none, List.nil_append]
  unfold State.initializer?
  split
  · exact h.note (by simp) (by simp)
  · exact h.note (by simp) (by simp)
  · exact h

/-- A step that opens a frame begins and ends no initial value. -/
theorem Bonded.loud {s' : State} (h : Bonded (s.bonds host ++ log) (opening s.store (s.opens? host) ++ t) s')
    (initializer : s.initializer? = none) : Bonded (s.bonds host ++ log) (s.events host ++ t) s' := by
  rwa [State.events, initializer, Option.toList_none, List.append_nil]

theorem enter_bonded (lawful : host.Lawful) (layout : Layout t s.store) (h : Bonded log t s) {callee : Callee}
    {arguments : List Value} (hc : s.control = .enter callee arguments) :
    Bonded (s.bonds host ++ log) (s.events host ++ t) (enter host s callee arguments) := by
  have proper := h.control
  rw [hc] at proper
  have initializer : s.initializer? = none := by simp only [State.initializer?, hc]
  rcases callee with (c | n) | ⟨r, c⟩
  · refine Bonded.loud ?_ initializer
    have opens : s.opens? host = some (.call c.routine) := by simp only [State.opens?, hc]
    simp only [State.bonds, opens, bonding, List.nil_append]
    exact enterClosure_bonded layout h.toBound proper
  · refine Bonded.quiet ?_ (by simp only [State.opens?, hc])
    exact enterNative_bonded lawful layout h
  · exact (enterClass_bonded lawful layout h.toBound hc proper).loud initializer

/-- Every step keeps the bonds and makes at most its own. -/
theorem Bonded.step (lawful : host.Lawful) (aligned : Aligned t s) (h : Bonded log t s) :
    Bonded (s.bonds host ++ log) (s.events host ++ t) (step host s) := by
  have layout := aligned.layout
  have runs := aligned.control
  cases hc : s.control with
  | evaluate e =>
    rw [hc] at runs
    simp only [Machine.step, hc]
    exact (evaluate_bonded h.toBound (Runs.tidy runs layout.sane)).quiet (by simp only [State.opens?, hc])
  | execute x =>
    rw [hc] at runs
    simp only [Machine.step, hc]
    by_cases hx : ∃ ss, x = .block ss
    · obtain ⟨ss, rfl⟩ := hx
      have opens : s.opens? host = some (.block ss) := by simp only [State.opens?, hc]
      refine Bonded.loud ?_ (by simp only [State.initializer?, hc])
      simp only [State.bonds, opens, bonding, List.nil_append]
      exact block_bonded layout ss h.toBound
    · have other (ss : List Stmt) : x ≠ .block ss := fun he => hx ⟨ss, he⟩
      refine (execute_bonded h.toBound (Runs.tidy runs layout.sane) other).quiet ?_
      cases x with
      | block ss => exact absurd rfl (other ss)
      | _ => simp only [State.opens?, hc]
  | sequence ss | program ss =>
    refine Bonded.quiet ?_ (by simp only [State.opens?, hc])
    cases ss with
    | nil =>
      simp only [Machine.step, hc]
      exact h.flow .normal
    | cons x xs =>
      simp only [Machine.step, hc]
      exact h.push trivial trivial
  | invoke callee arguments site =>
    simp only [Machine.step, hc]
    exact (invoke_bonded h.toBound callee arguments site).quiet (by simp only [State.opens?, hc])
  | enter callee arguments =>
    simp only [Machine.step, hc]
    exact enter_bonded lawful layout h hc
  | value v =>
    cases hp : s.pending with
    | nil =>
      simp only [Machine.step, hc, hp]
      exact h.quiet (by simp only [State.opens?, hc, hp])
    | cons p rest =>
      obtain ⟨proper, popped⟩ := h.pop hp
      have resumed : Bonded (s.bonds host ++ log) (s.events host ++ t) (resume { s with pending := rest } v p) := by
        by_cases unread : p.Unread
        · refine (resume_bonded popped layout v proper unread).quiet ?_
          cases p <;> first | exact unread.elim | simp only [State.opens?, hc, hp]
        · refine (read_bonded layout h.toBound hc hp unread).loud ?_
          cases p <;> first | exact absurd trivial unread | simp only [State.initializer?, hc, hp]
      simp only [hc] at resumed
      simp only [Machine.step, hc, hp]
      exact resumed
  | flow f =>
    refine Bonded.quiet ?_ (by simp only [State.opens?, hc])
    cases hp : s.pending with
    | nil =>
      simp only [Machine.step, hc, hp]
      exact h
    | cons p rest =>
      obtain ⟨proper, popped⟩ := h.pop hp
      simp only [Machine.step, hc, hp]
      exact proceed_bonded popped f proper
  | raise e =>
    refine Bonded.quiet ?_ (by simp only [State.opens?, hc])
    cases hp : s.pending with
    | nil =>
      simp only [Machine.step, hc, hp]
      exact h
    | cons p rest =>
      obtain ⟨proper, popped⟩ := h.pop hp
      simp only [Machine.step, hc, hp]
      exact unwind_bonded popped e proper

end Steps

end Scriptlet.Machine

namespace Scriptlet

/-- What holds of the bonds at every moment of a session's life. -/
def Phase.Bonded (log : Log) (t : Trace) : Phase → Prop
  | .idle s => s.store.Bonded log t
  | .running _ m => Machine.Bonded log t m

theorem received_root (part : Part) (d : Distances) : (rootSite part d).Received := ⟨.nil, nofun, nofun⟩

/-- Nothing is pending at the start, in the outermost frame. -/
theorem Machine.Bonded.start {log : Log} {t : Trace} {world : World} (h : world.store.Bonded log t) {c : Control}
    (proper : c.Proper log t) : Machine.Bonded log t (.start world c) :=
  ⟨⟨h, .inl rfl, List.forall_mem_nil _⟩, proper⟩

theorem Chronicle.bonded {host : Host} (lawful : host.Lawful) {log : Log} {t : Trace} {phase : Phase}
    (h : Chronicle host log t phase) : phase.Bonded log t := by
  induction h with
  | fresh console => exact Store.Bonded.initial.kept Layout.initial (Store.Kept.bare.trans (.withLibrary _))
  | alter before kept ih => exact ih.kept (before.life.aligned lawful).1 kept
  | read before hp ih =>
    refine Store.Bonded.realize ih (before.life.aligned lawful).1 fun m r he => ?_
    exact ih.member?_method (he ▸ hp)
  | reset _ ih => exact ih
  | refuse _ check ih =>
    obtain ⟨store, -⟩ := Session.check_text check
    simp only [Phase.Bonded, store]
    exact ih
  | accept _ check ih =>
    obtain ⟨store, -⟩ := Session.check_text check
    apply Machine.Bonded.start
    · change Store.Bonded _ _ (Session.store _)
      rw [store]
      exact Store.Bonded.accept ih (received_root _ _)
    · rcases Session.check_control check with ⟨program, rfl, -⟩ | ⟨e, rfl, -⟩ <;> trivial
  | call callee arguments _ ih => exact .start ih trivial
  | step before ih => exact Machine.Bonded.step lawful (before.life.aligned lawful).1 ih
  | feed console _ ih => exact ⟨ih.withConsole console, ih.control⟩
  | finish _ hf ih =>
    obtain ⟨world, -⟩ := Session.world_finish hf
    simp only [Phase.Bonded, Session.store, world]
    exact ih.store

end Scriptlet
