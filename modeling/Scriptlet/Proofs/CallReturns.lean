import Scriptlet.Proofs.BondedRuns
import Scriptlet.Proofs.CallSites

/-!
What calls of constructors come to. While a call is under way the pending work of its caller stays where it is, below all
that the call leaves pending, so the call is back when that work is on top again. A call of a class with a constructor,
and a call of the constructor that was read from an instance, leave work pending that ends in their instance: whatever
runs above it, they are back with a failure or with that instance.
-/
namespace Scriptlet.Machine

section Suffix

variable {host : Host} {s t : State} {p : Pending} {rest : List Pending}

/-- Something is done now that neither gives a result to pending work nor fails. -/
def Control.Working : Control → Prop
  | .value _ | .flow _ | .raise _ => False
  | _ => True

theorem Plain.suffix (h : Plain s t) : s.pending <:+ t.pending := by
  rcases h.pending with same | ⟨p, -, pushed⟩
  · exact same ▸ List.suffix_rfl
  · rw [pushed]
    exact List.suffix_cons p s.pending

theorem invoke_suffix (callee : Value) (arguments : List Value) (site : Site) :
    s.pending <:+ (invoke s callee arguments site).pending := by
  unfold invoke
  split
  · exact List.suffix_rfl
  · exact List.suffix_rfl
  · split
    · exact List.suffix_cons _ _
    · exact List.suffix_rfl
  · split <;> exact List.suffix_rfl

theorem enter_suffix (callee : Callee) (arguments : List Value) :
    s.pending <:+ (enter host s callee arguments).pending := by
  rcases callee with (c | n) | ⟨r, c⟩
  · exact List.suffix_cons _ _
  · simp only [enter, enterNative]
    split
    · exact List.suffix_rfl
    · split <;> exact List.suffix_rfl
    · split <;> exact List.suffix_rfl
    · split <;> exact List.suffix_rfl
    · split
      · exact List.suffix_rfl
      · exact List.suffix_rfl
      · exact List.suffix_cons _ _
  · rw [enter, enterClass_eq]
    dsimp only
    split
    · exact List.suffix_rfl
    · exact List.suffix_rfl
    · exact List.suffix_cons _ _

/-- What is done now takes itself apart and leaves all pending work alone. -/
theorem Control.Working.suffix (host : Host) (h : s.control.Working) : s.pending <:+ (step host s).pending := by
  cases hc : s.control with
  | evaluate e =>
    simp only [step, hc]
    exact (plain_evaluate e).suffix
  | execute x =>
    simp only [step, hc]
    exact (plain_execute x).suffix
  | sequence ss | program ss =>
    cases ss with
    | nil =>
      simp only [step, hc]
      exact List.suffix_rfl
    | cons x xs =>
      simp only [step, hc]
      exact List.suffix_cons _ _
  | invoke callee arguments site =>
    simp only [step, hc]
    exact invoke_suffix callee arguments site
  | enter callee arguments =>
    simp only [step, hc]
    exact enter_suffix callee arguments
  | value | flow | raise =>
    rw [hc] at h
    exact h.elim

/-- A step takes off at most the topmost pending work. -/
theorem step_suffix (hp : s.pending = p :: rest) : rest <:+ (step host s).pending := by
  by_cases working : s.control.Working
  · have whole := working.suffix host
    rw [hp] at whole
    exact (List.suffix_cons p rest).trans whole
  · cases hc : s.control with
    | value v =>
      simp only [step, hc, hp]
      by_cases native : p = .nativeCall
      · subst native
        exact List.suffix_rfl
      · exact Plain.suffix (s := { s with control := .value v, pending := rest }) (plain_resume v native)
    | flow f =>
      simp only [step, hc, hp]
      by_cases native : p = .nativeCall
      · subst native
        exact List.suffix_cons _ _
      · exact Plain.suffix (s := { s with control := .flow f, pending := rest }) (plain_proceed f native)
    | raise e =>
      simp only [step, hc, hp]
      cases p <;> exact List.suffix_rfl
    | _ =>
      rw [hc] at working
      exact absurd trivial working

end Suffix

/-- The call that `s` makes is over in `u`: the caller's work is on top again, with a value or a failure for it. -/
def State.Back (s u : State) : Prop :=
  u.pending = s.pending ∧ ((∃ v, u.control = .value v) ∨ ∃ e, u.control = .raise e)

/-- The states of a call, from the one that makes it to the one where it is over. More input may arrive meanwhile. -/
inductive Calling (host : Host) (s : State) : State → Prop
  | made : Calling host s s
  | step {u : State} : Calling host s u → ¬ s.Back u → Calling host s (step host u)
  | feed {u : State} (console : Console) : Calling host s u → Calling host s { u with console }

/-- A call of a value is a call of a constructor for the receiver of the bond. The class makes the bond when it is
called; the method that was read from an instance has it. -/
inductive Constructs (log : Log) (store : Store) : Value → Bond → Prop
  | create {r : Ref .classObject} {c : ClassObject} {f : Closure} : store.classes.get? r = some c →
      c.constructor? = some f → Constructs log store (.class r) ⟨store.frames.next, f.routine, store.instances.next⟩
  | again {r : Ref .function} {c : Closure} {object : Ref .object} : store.functions.get? r = some (.closure c) →
      ⟨c.frame, c.routine, object⟩ ∈ log → c.routine.name.text = constructorName →
      Constructs log store (.function r) ⟨c.frame, c.routine, object⟩

/-- A constructor that is read from an instance is bound to that instance. -/
theorem constructs_read {host : Host} {log : Log} {t : Trace} {s : State} {object receiver : Ref .object} {name : Name}
    {rest : List Pending} {m : Closure} (bonded : s.store.Bonded log t) (hc : s.control = .value (.instance object))
    (hp : s.pending = .get name :: rest) (hm : s.store.property? object name.text = some (.method m receiver))
    (named : m.routine.name.text = constructorName) :
    ∃ f frame, (step host s).control = .value (.function f) ∧
      Constructs (s.bonds host ++ log) (step host s).store (.function f) ⟨frame, m.routine, object⟩ := by
  obtain ⟨rfl, -⟩ := bonded.property?_method hm
  have member : s.store.member? (.instance receiver) name.text = some (.method m receiver) := hm
  have bonds : s.bonds host = [⟨s.store.frames.next, m.routine, receiver⟩] := by
    simp only [State.bonds, State.opens?, State.object?, hc, hp, member]
    rfl
  have step : step host s = ({ s with pending := rest }.realize (.method m receiver)).2.give
      (.function s.store.functions.next) := by
    simp only [Machine.step, hc, hp, resume, member]
    rfl
  refine ⟨s.store.functions.next, s.store.frames.next, ?_, ?_⟩
  · rw [step]
    rfl
  · rw [bonds, step]
    exact .again (c := ⟨m.routine, s.store.frames.next, m.kind⟩) (Heap.get?_alloc_next _ _) (.head _) named

/-- The callee is the class that makes the bond, or the closure that belongs to it. -/
inductive Callee.Makes (log : Log) (store : Store) : Callee → Bond → Prop
  | create {r : Ref .classObject} {c : ClassObject} {f : Closure} : c.constructor? = some f →
      Makes log store (.class r c) ⟨store.frames.next, f.routine, store.instances.next⟩
  | again {c : Closure} {object : Ref .object} : c.kind = .constructor → ⟨c.frame, c.routine, object⟩ ∈ log →
      Makes log store (.function (.closure c)) ⟨c.frame, c.routine, object⟩

/-- Pending work that ends a call with the receiver of the bond. -/
inductive Pending.Yields (b : Bond) : Pending → Prop
  | constructed : Yields b (.constructed b.receiver)
  | body {c : Closure} (outside : Ref .frame) : c.kind = .constructor → c.frame = b.frame → Yields b (.body c outside)

/-- At most the line of a call lies between the caller's work and the call. -/
def Caller (below caller : List Pending) : Prop := below = caller ∨ ∃ line, below = .site line :: caller

/-- How far a call of a constructor has come. -/
inductive Underway (log : Log) (caller : List Pending) (b : Bond) (u : State) : Prop
  | asked (callee : Value) (arguments : List Value) (site : Site) : u.control = .invoke callee arguments site →
      u.pending = caller → Constructs log u.store callee b → Underway log caller b u
  | entering (callee : Callee) (arguments : List Value) : u.control = .enter callee arguments →
      Caller u.pending caller → Callee.Makes log u.store callee b → Underway log caller b u
  | within (p : Pending) (below : List Pending) : p :: below <:+ u.pending → Caller below caller → p.Yields b →
      b ∈ log → Underway log caller b u
  | yielded : Caller u.pending caller → u.control = .value (.instance b.receiver) → b ∈ log → Underway log caller b u
  | failed (e : Failure) : Caller u.pending caller → u.control = .raise e → Underway log caller b u

section Underway

variable {host : Host} {log : Log} {t : Trace} {caller : List Pending} {b : Bond} {u : State}

/-- A value that constructs is checked and then entered. -/
theorem Constructs.callee {callee : Value} (h : Constructs log u.store callee b) (bonded : u.store.Bonded log t)
    (layout : Layout t u.store) : ∃ c, u.store.callee? callee = some c ∧ Callee.Makes log u.store c b := by
  cases h with
  | @create r c f hr hf => exact ⟨.class r c, by simp only [Store.callee?, hr, Option.map_some], .create hf⟩
  | @again r c object hr bond name =>
    have kind : c.kind = .constructor := by
      rw [bonded.kind layout (bonded.closure r c hr) bond, name]
      rfl
    exact ⟨_, by simp only [Store.callee?, hr, Option.map_some], .again kind bond⟩

theorem Constructs.invoke {callee : Value} {arguments : List Value} {site : Site} (h : Constructs log u.store callee b)
    (bonded : u.store.Bonded log t) (layout : Layout t u.store) (pending : u.pending = caller) :
    Underway log caller b (invoke u callee arguments site) := by
  obtain ⟨c, found, makes⟩ := h.callee bonded layout
  unfold Machine.invoke
  rw [found]
  cases site with
  | script line =>
    dsimp only
    split
    · exact .entering c arguments rfl (.inr ⟨line, congrArg _ pending⟩) makes
    · exact .failed _ (.inl pending) rfl
  | host =>
    dsimp only
    split
    · exact .entering c arguments rfl (.inl pending) makes
    · exact .failed _ (.inl pending) rfl

/-- The bond of a class that is called is made as its constructor is entered. -/
theorem bonds_enterClass {r : Ref .classObject} {c : ClassObject} {arguments : List Value} {f : Closure} {store : Store}
    (hc : u.control = .enter (.class r c) arguments) (hf : c.constructor? = some f)
    (ready : prepared host u.store r c arguments = (store, none)) :
    u.bonds host = [⟨u.store.frames.next, f.routine, u.store.instances.next⟩] := by
  have step : (step host u).control =
      .enter (.function (.closure (store.bind f u.store.instances.next).1)) arguments := by
    simp only [step, hc, enter, enterClass_eq, ready, hf]
    rfl
  simp only [State.bonds, State.opens?, State.object?, hc, step]
  rfl

theorem Callee.Makes.enter {callee : Callee} {arguments : List Value} (h : Callee.Makes log u.store callee b)
    (hc : u.control = .enter callee arguments) (pending : Caller u.pending caller) :
    Underway (u.bonds host ++ log) caller b (enter host u callee arguments) := by
  cases h with
  | again kind bond =>
    exact .within _ u.pending List.suffix_rfl pending (.body u.frame kind rfl) (List.mem_append_right _ bond)
  | @create r c f hf =>
    rw [Machine.enter, enterClass_eq]
    rcases ready : prepared host u.store r c arguments with ⟨store, _ | fault⟩
    · rw [hf]
      refine .within _ u.pending List.suffix_rfl pending .constructed (List.mem_append_left _ ?_)
      rw [bonds_enterClass hc hf ready]
      exact .head _
    · exact .failed _ pending rfl

/-- The work that ends the call is on top. -/
theorem Pending.Yields.step {p : Pending} {below : List Pending} (h : p.Yields b) (hp : u.pending = p :: below)
    (caller' : Caller below caller) (this : u.store.frames.fetch b.frame "this" = some (.instance b.receiver))
    (bond : b ∈ log) : Underway log caller b (step host u) := by
  cases hc : u.control with
  | value v =>
    simp only [Machine.step, hc, hp]
    cases h with
    | constructed => exact .yielded caller' rfl bond
    | body outside kind same => exact .within _ below List.suffix_rfl caller' (.body outside kind same) bond
  | flow f =>
    simp only [Machine.step, hc, hp]
    cases h with
    | constructed => exact .within _ below List.suffix_rfl caller' .constructed bond
    | body outside kind same =>
      refine .yielded caller' ?_ bond
      simp only [proceed, State.give, State.go, bodyResult, if_pos kind, same, this, Option.getD_some]
  | raise e =>
    simp only [Machine.step, hc, hp]
    cases h with
    | constructed => exact .failed e caller' rfl
    | body outside kind same => exact .failed e caller' rfl
  | _ =>
    have working : u.control.Working := by
      rw [hc]
      trivial
    have whole := working.suffix host
    rw [hp] at whole
    exact .within p below whole caller' h bond

/-- Results and failures pass the line of the call. -/
theorem Caller.step (host : Host) (h : Caller u.pending caller) (under : u.pending ≠ caller) :
    (∀ v, u.control = .value v → (step host u).control = .value v ∧ (step host u).pending = caller) ∧
      ∀ e, u.control = .raise e → (∃ e', (step host u).control = .raise e') ∧ (step host u).pending = caller := by
  obtain ⟨line, hp⟩ := h.resolve_left under
  constructor
  · intro v hc
    simp only [Machine.step, hc, hp, resume]
    exact ⟨rfl, rfl⟩
  · intro e hc
    simp only [Machine.step, hc, hp, unwind]
    exact ⟨⟨_, rfl⟩, rfl⟩

theorem Underway.step (h : Underway log caller b u) (bonded : u.store.Bonded log t) (layout : Layout t u.store)
    (under : u.pending = caller → ¬ ((∃ v, u.control = .value v) ∨ ∃ e, u.control = .raise e)) :
    Underway (u.bonds host ++ log) caller b (step host u) := by
  cases h with
  | asked callee arguments site hc pending constructs =>
    have bonds : u.bonds host = [] := by simp only [State.bonds, State.opens?, hc, bonding]
    simp only [Machine.step, hc, bonds, List.nil_append]
    exact constructs.invoke bonded layout pending
  | entering callee arguments hc pending makes =>
    simp only [Machine.step, hc]
    exact makes.enter hc pending
  | within p below hs caller' yields bond =>
    obtain ⟨above, hp⟩ := hs
    have bond' : b ∈ u.bonds host ++ log := List.mem_append_right _ bond
    cases above with
    | nil => exact yields.step hp.symm caller' (bonded.this b bond) bond'
    | cons q above =>
      -- what runs above takes off at most its own work
      refine .within p below ?_ caller' yields bond'
      exact (List.suffix_append above (p :: below)).trans (step_suffix hp.symm)
  | yielded pending hc bond =>
    obtain ⟨values, -⟩ := pending.step host fun same => under same (.inl ⟨_, hc⟩)
    obtain ⟨control, same⟩ := values _ hc
    exact .yielded (.inl same) control (List.mem_append_right _ bond)
  | failed e pending hc =>
    obtain ⟨-, failures⟩ := pending.step host fun same => under same (.inr ⟨e, hc⟩)
    obtain ⟨⟨e', control⟩, same⟩ := failures e hc
    exact .failed e' (.inl same) control

/-- Of a whole call. -/
theorem Calling.underway (lawful : host.Lawful) {session : Session} {s : State} {callee : Value}
    {arguments : List Value} {site : Site} (chronicle : Chronicle host log t (.running session s))
    (hc : s.control = .invoke callee arguments site) (constructs : Constructs log s.store callee b) (h : Calling host s u) :
    ∃ log' t', Chronicle host log' t' (.running session u) ∧ Underway log' s.pending b u := by
  induction h with
  | made => exact ⟨log, t, chronicle, .asked callee arguments site hc rfl constructs⟩
  | @step u _ under ih =>
    obtain ⟨log', t', chronicle, underway⟩ := ih
    obtain ⟨aligned, -⟩ := chronicle.life.aligned lawful
    exact ⟨_, _, chronicle.step, underway.step (chronicle.bonded lawful).store aligned.layout fun same back =>
      under ⟨same, back⟩⟩
  | feed console _ ih =>
    obtain ⟨log', t', chronicle, underway⟩ := ih
    refine ⟨log', t', chronicle.feed console, ?_⟩
    cases underway with
    | asked callee arguments site hc pending constructs => exact .asked callee arguments site hc pending constructs
    | entering callee arguments hc pending makes => exact .entering callee arguments hc pending makes
    | within p below hs caller yields bond => exact .within p below hs caller yields bond
    | yielded pending hc bond => exact .yielded pending hc bond
    | failed e pending hc => exact .failed e pending hc

/-- When the caller's work is on top again with a value, the call has yielded its instance. -/
theorem Underway.value (h : Underway log caller b u) {v : Value} (hp : u.pending = caller) (hc : u.control = .value v) :
    v = .instance b.receiver ∧ b ∈ log := by
  cases h with
  | asked callee arguments site hc' => cases hc.symm.trans hc'
  | entering callee arguments hc' => cases hc.symm.trans hc'
  | within p below hs caller' =>
    have shorter := hs.length_le
    rw [hp] at shorter
    rcases caller' with rfl | ⟨line, rfl⟩
    · rw [List.length_cons] at shorter
      omega
    · rw [List.length_cons, List.length_cons] at shorter
      omega
  | yielded _ hc' bond =>
    cases hc.symm.trans hc'
    exact ⟨rfl, bond⟩
  | failed e _ hc' => cases hc.symm.trans hc'

end Underway

/-- While a run leaves more pending than the caller has, the call is not over. -/
theorem calling_run {host : Host} {s : State} (working : s.control.Working) {n : Nat}
    (deeper : ∀ i < n, s.pending.length < (run host (i + 1) s).pending.length) :
    Calling host s (run host (n + 1) s) := by
  induction n with
  | zero =>
    rw [run_step]
    refine Calling.made.step ?_
    rintro ⟨-, ⟨v, hc⟩ | ⟨e, hc⟩⟩
    · rw [hc] at working
      exact working
    · rw [hc] at working
      exact working
  | succ n ih =>
    have before := ih fun i lt => deeper i (by omega)
    rw [run_step]
    refine before.step fun back => ?_
    have longer := deeper n (by omega)
    rw [back.1] at longer
    omega

end Scriptlet.Machine
