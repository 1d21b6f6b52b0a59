import Scriptlet.Proofs.AlignedSteps

/-!
Calls, returns and whole steps keep states aligned. A call opens the frame of its routine inside the frame that the
closure keeps; a method that is read gets a frame for its receiver; when control leaves a block or a body the frame
outside of it is current again.
-/
namespace Scriptlet.Machine

open Scope (Region)

variable {t : Trace} {s : State} {host : Host}

/-- What is found to call fits where it was declared. -/
theorem callee_fits {store : Store} (layout : Layout t store) {v : Value} {c : Callee} {arguments : List Value}
    (hc : store.callee? v = some c) (arity : arguments.length = c.arity) (f : Ref .frame) :
    (Control.enter c arguments).Fits t store.frames f := by
  cases v with
  | function r =>
    obtain ⟨callable, hr, rfl⟩ := Option.map_eq_some_iff.1 hc
    cases callable with
    | closure c => exact ⟨layout.closed r c hr, arity⟩
    | native n => trivial
  | «class» r =>
    obtain ⟨c, hr, rfl⟩ := Option.map_eq_some_iff.1 hc
    exact ⟨fun name m hm => layout.unbound r c name m hr hm, arity⟩
  | _ => cases hc

theorem invoke_aligned (ready : Ready t s) (callee : Value) (arguments : List Value) (site : Site) :
    Aligned t (invoke s callee arguments site) := by
  unfold invoke
  split
  · exact ready.fail _
  · exact ready.fail _
  · next c line hc =>
    split
    · next arity =>
      exact ready.push rfl (by simp [Pending.code]) trivial rfl (callee_fits ready.layout hc arity _)
    · exact ready.fail _
  · next c hc =>
    split
    · next arity => exact ready.go rfl (callee_fits ready.layout hc arity _)
    · exact ready.fail _

theorem enterClosure_aligned {c : Closure} {arguments : List Value} (ready : Ready t s)
    (closed : Closed t s.store.frames c.frame c.routine) (arity : arguments.length = c.arity) :
    Aligned (.opened s.store.frames.next (.call c.routine) :: t) (enterClosure s c arguments) := by
  obtain ⟨grows, opened, bound⟩ :=
    ready.layout.addFrame c.frame ((c.routine.params.map Name.text).zip arguments) (.call c.routine)
  have runs := (closed.later grows.later).body grows.layout.sane opened fun x hx => bound x.text <| by
    rw [List.map_fst_zip (by simp [arity, Closure.arity])]
    exact List.mem_map_of_mem hx
  refine ⟨grows.layout, (grows.layout.opened _ _ opened.opened).2, ⟨by simp [Pending.code], trivial, ?_, ?_⟩, runs⟩
  · exact Nat.lt_of_lt_of_le ready.frame grows.later.size
  · exact ready.pending.later grows.later

theorem Ready.kept (h : Ready t s) {store : Store} (k : s.store.Kept store) : Ready t { s with store } :=
  h.grow (h.layout.kept k)

theorem Ready.withConsole (h : Ready t s) (console : Console) : Ready t { s with console } := ⟨h.layout, h.frame, h.pending⟩

theorem enterNative_aligned (lawful : host.Lawful) {n : Native} {arguments : List Value} (ready : Ready t s)
    (hc : s.control = .enter (.function (.native n)) arguments) : Aligned t (enterNative host s n arguments) := by
  unfold enterNative
  split
  · exact ready.give _
  · split
    · exact (ready.withConsole _).give _
    · -- while no line has come the machine stays where it is
      have same : s = s.go (.enter (.function (.native n)) arguments) := by rw [← hc]; rfl
      rw [same]
      exact ready.go rfl trivial
  · split
    · refine Ready.give ?_ _
      exact ready.kept (.of_eq rfl rfl rfl)
    · exact ready.fail _
  · split
    · refine Ready.give ?_ _
      exact ready.kept (.of_eq rfl rfl rfl)
    · exact ready.fail _
  · next tag cell _ =>
    have called := (ready.kept (lawful.call tag cell arguments s.store)).withConsole
      ((host.call tag cell arguments s.store).printed.foldl Console.print s.console)
    dsimp only
    split
    · exact called.give _
    · exact called.fail _
    · exact called.push rfl (by simp [Pending.code]) trivial rfl trivial

/-- A new instance, after the native part of its class has prepared it. -/
def prepared (host : Host) (store : Store) (r : Ref .classObject) (c : ClassObject) (arguments : List Value) :
    Store × Option Fault :=
  match c.native with
  | some native => (store.addInstance r).2.prepare host (store.addInstance r).1 arguments native.initializer
  | none => ((store.addInstance r).2, none)

theorem kept_prepared (lawful : host.Lawful) (store : Store) (r : Ref .classObject) (c : ClassObject)
    (arguments : List Value) : store.Kept (prepared host store r c arguments).1 := by
  unfold prepared
  refine (Store.Kept.addInstance store r).trans ?_
  split
  · exact .prepare lawful _ _ _ _
  · exact .refl _

theorem enterClass_eq (r : Ref .classObject) (c : ClassObject) (arguments : List Value) :
    enterClass host s r c arguments =
      let (store, fault?) := prepared host s.store r c arguments
      match fault?, c.constructor? with
      | some fault, _ => { s with store }.go (.raise (.native fault))
      | none, none => { s with store }.give (.instance s.store.instances.next)
      | none, some f =>
        { s with store := (store.bind f s.store.instances.next).2 }.push (.constructed s.store.instances.next)
          (.enter (.function (.closure (store.bind f s.store.instances.next).1)) arguments) := by
  rfl

/-- An instance may be prepared by the host; a constructor is then entered with a frame for the instance. -/
theorem enterClass_aligned (lawful : host.Lawful) {r : Ref .classObject} {c : ClassObject} {arguments : List Value}
    (ready : Ready t s) (unbound : ∀ name m, c.methods.get? name = some m → Unbound t s.store.frames m.frame m.routine)
    (arity : arguments.length = c.arity) :
    (∃ bound, (enterClass host s r c arguments).control = .enter (.function (.closure bound)) arguments ∧
      Aligned (.opened s.store.frames.next (.receiver bound.routine) :: t) (enterClass host s r c arguments)) ∨
    (∀ callee arguments', (enterClass host s r c arguments).control ≠ .enter callee arguments') ∧
      Aligned t (enterClass host s r c arguments) := by
  have kept := kept_prepared lawful s.store r c arguments
  rw [enterClass_eq]
  generalize prepared host s.store r c arguments = new at kept ⊢
  obtain ⟨store, fault?⟩ := new
  have later := (ready.layout.kept kept).later
  have next : store.frames.next = s.store.frames.next := congrArg Ref.mk kept.size
  have ready := ready.kept kept
  dsimp only
  split
  · exact .inr ⟨nofun, ready.fail _⟩
  · exact .inr ⟨nofun, ready.give _⟩
  · next f hf =>
    have arity : arguments.length = f.arity := by rw [arity, ClassObject.arity, hf]
    obtain ⟨grows, closed⟩ := ready.layout.bind ((unbound constructorName f hf).later later) s.store.instances.next
    rw [← next]
    exact .inl ⟨_, rfl, (ready.grow grows).push (p := .constructed _) rfl (by simp [Pending.code]) trivial rfl
      ⟨closed, arity⟩⟩

theorem enter_aligned (lawful : host.Lawful) {callee : Callee} {arguments : List Value} (h : Aligned t s)
    (hc : s.control = .enter callee arguments) : Aligned (s.events host ++ t) (enter host s callee arguments) := by
  have ready : Ready t s := h.ready (by rw [hc]; rfl)
  have fits := h.control
  rw [hc] at fits
  have initializer : s.initializer? = none := by simp [State.initializer?, hc]
  have one (region : Region) (opens : s.opens? host = some region) :
      s.events host = [.opened s.store.frames.next region] := by
    simp [State.events, opens, initializer, opening]
  rcases callee with (c | n) | ⟨r, c⟩
  · obtain ⟨closed, arity⟩ := fits
    rw [one (.call c.routine) (by simp [State.opens?, hc])]
    exact enterClosure_aligned ready closed arity
  · rw [events_nil (by simp [State.opens?, hc]) initializer]
    exact enterNative_aligned lawful ready hc
  · obtain ⟨unbound, arity⟩ := fits
    have step : step host s = enterClass host s r c arguments := by simp only [step, hc, enter]
    rcases enterClass_aligned (r := r) lawful ready unbound arity with ⟨bound, control, aligned⟩ | ⟨control, aligned⟩
    · rw [one (.receiver bound.routine) (by simp only [State.opens?, hc, step, control])]
      exact aligned
    · rw [events_nil ?_ initializer]
      · exact aligned
      · simp only [State.opens?, hc, step]
        split
        · next c' _ he => exact absurd he (control _ _)
        · rfl

section Pop

variable {p : Pending} {rest : List Pending}

/-- Pending work in the same frame is taken up. -/
theorem Aligned.pop (h : Aligned t s) (hides : s.control.hides = []) (hp : s.pending = p :: rest)
    (inside : p.outside? = none) : Ready t { s with pending := rest } ∧
      (∀ part ∈ p.code, Runs t s.store.frames [] s.frame part) ∧ p.Fits t s.store.frames s.frame := by
  have pending := h.pending
  rw [hides, hp] at pending
  obtain ⟨code, fits, others⟩ := pending
  rw [inside] at others
  exact ⟨⟨h.layout, h.frame, others⟩, code, fits⟩

/-- The frame outside becomes current again. -/
theorem Aligned.leave {g : Ref .frame} (h : Aligned t s) (hp : s.pending = p :: rest) (outside : p.outside? = some g) :
    Ready t { s with pending := rest, frame := g } := by
  have pending := h.pending
  rw [hp] at pending
  obtain ⟨-, -, others⟩ := pending
  rw [outside] at others
  exact ⟨h.layout, others.1, others.2⟩

/-- Work that waits for something else is left as it is. -/
theorem Aligned.stay {c : Control} (h : Aligned t s) (hc : s.control = c) (hp : s.pending = p :: rest) :
    Aligned t ({ s with pending := rest }.push p c) := by
  subst hc
  simp only [State.push, ← hp]
  exact h

end Pop

/-- Work that neither reads a member nor ends the initial value of a variable. -/
def Pending.Quiet : Pending → Prop
  | .get _ | .updateObject _ _ _ | .index _ _ | .var _ => False
  | _ => True

theorem events_quiet {v : Value} {p : Pending} {rest : List Pending} (hc : s.control = .value v)
    (hp : s.pending = p :: rest) (quiet : p.Quiet) : s.events host = [] := by
  apply events_nil
  · cases p <;> first | exact quiet.elim | simp [State.opens?, hc, hp]
  · cases p <;> first | exact quiet.elim | simp [State.initializer?, hc, hp]

theorem resume_quiet {v : Value} {p : Pending} {rest : List Pending} (ready : Ready t { s with pending := rest })
    (code : ∀ part ∈ p.code, Runs t s.store.frames [] s.frame part) (fits : p.Fits t s.store.frames s.frame)
    (stay : Aligned t ({ s with pending := rest }.push p (.value v))) (quiet : p.Quiet) :
    Aligned t (resume { s with pending := rest } v p) := by
  have sane := ready.layout.sane
  cases p with
  | unary op => exact ready.answer _ _
  | binaryRight op right | indexObject position line =>
    exact ready.push rfl (by simp [Pending.code]) trivial rfl (code _ (.head _))
  | binary left op => exact ready.answer _ _
  | logical op right =>
    simp only [resume]
    split
    · exact ready.give _
    · exact ready.go rfl (code _ (.head _))
  | ternary yes no =>
    simp only [resume]
    split
    · exact ready.go rfl (code _ (.head _))
    · exact ready.go rfl (code _ (.tail _ (.head _)))
  | assign id name =>
    simp only [resume]
    split
    · exact (ready.write _ _ _).give _
    · exact ready.fail _
  | callee es line => exact ready.arguments v [] line fun e he => code _ (List.mem_map_of_mem he)
  | arguments callee done es line =>
    exact ready.arguments callee (done ++ [v]) line fun e he => code _ (List.mem_map_of_mem he)
  | setObject name value =>
    cases v with
    | «instance» r =>
      exact ready.push rfl (by simp [Pending.code]) trivial rfl (code _ (.head _))
    | _ => exact ready.fail _
  | setField r name => exact (ready.kept (.setField _ r name.text v)).give _
  | updateField r name current op =>
    simp only [resume]
    split
    · exact (ready.kept (.setField _ r name.text _)).give _
    · exact ready.fail _
  | expression => exact ready.flow .normal
  | print => exact (ready.withConsole _).flow .normal
  | conditional yes no =>
    simp only [resume]
    split
    · exact ready.execute (code _ (.head _))
    · cases no with
      | none => exact ready.flow .normal
      | some no => exact ready.execute (code _ (.tail _ (.head _)))
  | loopCondition condition body =>
    have runs := code _ (.head _)
    have inner : Runs t s.store.frames [] s.frame (.stmt body) :=
      runs.ofPlain sane trivial (.tail _ (.head _))
    simp only [resume]
    split
    · exact ready.pushExecute (fun part hp => (code part hp).hide _) trivial rfl inner
    · exact ready.flow .normal
  | «return» => exact ready.flow _
  | base d =>
    cases v with
    | «class» r => exact declareClass_aligned ready fits
    | _ => exact ready.fail _
  | constructed object => exact ready.give _
  | site line => exact ready.give _
  | nativeCall => exact ready.give _
  | get name => exact quiet.elim
  | updateObject name op value => exact quiet.elim
  | index object line => exact quiet.elim
  | var name => exact quiet.elim
  | sequence ss => exact stay
  | program ss => exact stay
  | loopBody condition body => exact stay
  | leave outside => exact stay
  | body c outside => exact stay

/-- A value for pending work; a member that is read may open a frame for its receiver. -/
theorem resume_aligned {v : Value} {p : Pending} {rest : List Pending} (h : Aligned t s) (hc : s.control = .value v)
    (hp : s.pending = p :: rest) : Aligned (s.events host ++ t) (resume { s with pending := rest } v p) := by
  have hides : s.control.hides = [] := by rw [hc]; rfl
  have stay : Aligned t ({ s with pending := rest }.push p (.value v)) := h.stay hc hp
  have quiet (hq : p.Quiet) (inside : p.outside? = none) :
      Aligned (s.events host ++ t) (resume { s with pending := rest } v p) := by
    obtain ⟨ready, code, fits⟩ := h.pop hides hp inside
    rw [events_quiet hc hp hq]
    exact resume_quiet ready code fits stay hq
  cases p with
  | get name =>
    obtain ⟨ready, -, -⟩ := h.pop hides hp rfl
    have events : s.events host = opening s.store ((s.store.member? v name.text).bind Property.region?) := by
      simp [State.events, State.opens?, State.initializer?, hc, hp]
    rw [events]
    cases hm : s.store.member? v name.text with
    | none =>
      cases v with
      | «instance» r | «class» r =>
        simp only [resume, hm]
        exact ready.fail _
      | _ => exact ready.fail _
    | some m =>
      have realized := ready.realize (h.layout.member?_unbound hm)
      cases v with
      | «instance» r | «class» r =>
        simp only [resume, hm]
        exact realized.give _
      | _ => cases hm
  | updateObject name op value =>
    obtain ⟨ready, code, -⟩ := h.pop hides hp rfl
    cases v with
    | «instance» r =>
      have events : s.events host = opening s.store ((s.store.property? r name.text).bind Property.region?) := by
        simp [State.events, State.opens?, State.initializer?, hc, hp]
      rw [events]
      cases hm : s.store.property? r name.text with
      | none =>
        simp only [resume, hm]
        exact ready.fail _
      | some m =>
        have grows := h.layout.realize (h.layout.property?_unbound hm)
        have realized := ready.realize (h.layout.property?_unbound hm)
        simp only [resume, hm]
        exact realized.push (p := .updateField r name _ op) rfl (by simp [Pending.code]) trivial rfl
          ((code _ (.head _)).later grows.later)
    | _ =>
      rw [events_nil (by simp [State.opens?, hc, hp]) (by simp [State.initializer?, hc, hp])]
      exact ready.fail _
  | index object line =>
    obtain ⟨ready, -, -⟩ := h.pop hides hp rfl
    cases object with
    | «instance» r =>
      have events : s.events host = opening s.store ((s.store.property? r "at").bind Property.region?) := by
        simp [State.events, State.opens?, State.initializer?, hc, hp]
      rw [events]
      cases hm : s.store.property? r "at" with
      | none =>
        simp only [resume, subscript, hm]
        exact ready.fail _
      | some m =>
        have realized := ready.realize (h.layout.property?_unbound hm)
        simp only [resume, subscript, hm]
        exact realized.call _ _ _
    | text x =>
      rw [events_nil (by simp [State.opens?, hc, hp]) (by simp [State.initializer?, hc, hp])]
      exact ready.answer _ _
    | _ =>
      rw [events_nil (by simp [State.opens?, hc, hp]) (by simp [State.initializer?, hc, hp])]
      exact ready.fail _
  | var name =>
    obtain ⟨ready, -, -⟩ := h.pop hides hp rfl
    have events : s.events host = [.ended s.frame name.text] := by
      simp [State.events, State.opens?, State.initializer?, hc, hp, opening]
    rw [events]
    have bound := Frames.bound_define h.frame name.text v
    have grows := h.layout.define s.frame name.text v
    exact (ready.grow (grows.trans (grows.layout.finish fun _ => bound))).flow .normal
  | leave outside | body c outside =>
    rw [events_quiet hc hp trivial]
    exact stay
  | _ => exact quiet trivial rfl

theorem proceed_aligned {f : Flow} {p : Pending} {rest : List Pending} (h : Aligned t s) (hc : s.control = .flow f)
    (hp : s.pending = p :: rest) : Aligned t (proceed { s with pending := rest } f p) := by
  have hides : s.control.hides = [] := by rw [hc]; rfl
  have stay : Aligned t ({ s with pending := rest }.push p (.flow f)) := h.stay hc hp
  cases p with
  | sequence ss =>
    obtain ⟨ready, code, -⟩ := h.pop hides hp rfl
    cases f with
    | normal => exact ready.go rfl (code _ (.head _))
    | _ => exact ready.flow _
  | program ss =>
    obtain ⟨ready, code, -⟩ := h.pop hides hp rfl
    exact ready.go rfl (code _ (.head _))
  | loopBody condition body =>
    obtain ⟨ready, code, -⟩ := h.pop hides hp rfl
    have runs := code _ (.head _)
    have again : Aligned t ({ s with pending := rest }.push (.loopCondition condition body) (.evaluate condition)) :=
      ready.push rfl code trivial rfl (runs.ofPlain h.layout.sane trivial (.head _))
    cases f with
    | «break» => exact ready.flow _
    | «return» v => exact ready.flow _
    | normal => exact again
    | «continue» => exact again
  | leave outside => exact (h.leave hp rfl).flow f
  | body c outside => exact (h.leave hp rfl).give _
  | _ => exact stay

theorem unwind_aligned {e : Failure} {p : Pending} {rest : List Pending} (h : Aligned t s) (hc : s.control = .raise e)
    (hp : s.pending = p :: rest) : Aligned t (unwind { s with pending := rest } e p) := by
  have hides : s.control.hides = [] := by rw [hc]; rfl
  cases p with
  | leave outside => exact (h.leave hp rfl).fail _
  | body c outside => exact (h.leave hp rfl).fail _
  | _ =>
    obtain ⟨ready, -, -⟩ := h.pop hides hp rfl
    exact ready.fail _

/-- Every step leads from an aligned state to an aligned state. -/
theorem Aligned.step (lawful : host.Lawful) (h : Aligned t s) : Aligned (s.events host ++ t) (step host s) := by
  have quiet (hq : s.events host = []) {s' : State} (ha : Aligned t s') : Aligned (s.events host ++ t) s' := by
    rwa [hq]
  have control := h.control
  cases hc : s.control with
  | evaluate e =>
    rw [hc] at control
    simp only [Machine.step, hc]
    refine quiet (events_nil (by simp [State.opens?, hc]) (by simp [State.initializer?, hc])) ?_
    exact evaluate_aligned (h.ready (by rw [hc]; rfl)) control
  | execute x =>
    simp only [Machine.step, hc]
    exact execute_aligned h hc
  | sequence ss | program ss =>
    rw [hc] at control
    refine quiet (events_nil (by simp [State.opens?, hc]) (by simp [State.initializer?, hc])) ?_
    have ready := h.ready (by rw [hc]; rfl)
    cases ss with
    | nil =>
      simp only [Machine.step, hc]
      exact ready.flow .normal
    | cons x xs =>
      simp only [Machine.step, hc]
      exact ready.pushExecute (List.forall_mem_singleton.2 (control.tail h.layout.sane)) trivial rfl control.head
  | invoke callee arguments site =>
    simp only [Machine.step, hc]
    refine quiet (events_nil (by simp [State.opens?, hc]) (by simp [State.initializer?, hc])) ?_
    exact invoke_aligned (h.ready (by rw [hc]; rfl)) callee arguments site
  | enter callee arguments =>
    simp only [Machine.step, hc]
    exact enter_aligned lawful h hc
  | value v =>
    cases hp : s.pending with
    | nil =>
      simp only [Machine.step, hc, hp]
      exact quiet (events_nil (by simp [State.opens?, hc, hp]) (by simp [State.initializer?, hc, hp])) h
    | cons p rest =>
      have aligned : Aligned (s.events host ++ t) _ := resume_aligned h hc hp
      simp only [hc] at aligned
      simp only [Machine.step, hc, hp]
      exact aligned
  | flow f =>
    refine quiet (events_nil (by simp [State.opens?, hc]) (by simp [State.initializer?, hc])) ?_
    cases hp : s.pending with
    | nil =>
      simp only [Machine.step, hc, hp]
      exact h
    | cons p rest =>
      simp only [Machine.step, hc, hp]
      exact proceed_aligned h hc hp
  | raise e =>
    refine quiet (events_nil (by simp [State.opens?, hc]) (by simp [State.initializer?, hc])) ?_
    cases hp : s.pending with
    | nil =>
      simp only [Machine.step, hc, hp]
      exact h
    | cons p rest =>
      simp only [Machine.step, hc, hp]
      exact unwind_aligned h hc hp

end Scriptlet.Machine
