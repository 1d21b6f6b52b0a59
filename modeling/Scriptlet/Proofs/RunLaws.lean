import Scriptlet.Machine.Run

/-!
Runs as repeated steps. A machine that has halted or waits for input stays where it is when it steps, so a run of `n`
steps is `n` steps, whether or not it comes to an end before. No step changes the distances, nor the frame that all
pending work comes back to in the end.
-/
namespace Scriptlet.Machine

variable {host : Host} {s : State}

/-- Nothing is pending, and what is done now is done. -/
theorem outcome?_isSome (h : s.outcome?.isSome = true) :
    s.pending = [] ∧ ((∃ v, s.control = .value v) ∨ (∃ f, s.control = .flow f) ∨ ∃ e, s.control = .raise e) := by
  unfold State.outcome? at h
  split at h
  · next v hp hc => exact ⟨hp, .inl ⟨v, hc⟩⟩
  · next f hp hc => exact ⟨hp, .inr (.inl ⟨f, hc⟩)⟩
  · next e hp hc => exact ⟨hp, .inr (.inr ⟨e, hc⟩)⟩
  · cases h

theorem step_of_halted (h : s.outcome?.isSome = true) : step host s = s := by
  obtain ⟨hp, ⟨v, hc⟩ | ⟨f, hc⟩ | ⟨e, hc⟩⟩ := outcome?_isSome h
  · simp only [step, hc, hp]
  · simp only [step, hc, hp]
  · simp only [step, hc, hp]

theorem step_of_waiting (h : s.waiting = true) : step host s = s := by
  unfold State.waiting at h
  split at h
  · next n arguments hc =>
    obtain ⟨input, unread⟩ := (Bool.and_eq_true _ _).mp h
    have behaviour : n.behaviour = .input := of_decide_eq_true input
    have read : s.console.read? = none := Option.isNone_iff_eq_none.1 unread
    simp only [step, hc, enter, enterNative, behaviour, read]
  · cases h

theorem run_succ (n : Nat) (s : State) : run host (n + 1) s = run host n (step host s) := by
  have still (h : step host s = s) : run host n s = s := by
    induction n with
    | zero => rfl
    | succ n ih =>
      rw [run, h]
      split
      · rfl
      · exact ih
  rw [run]
  split
  · next h =>
    have same : step host s = s := by
      rcases Bool.or_eq_true _ _ |>.mp h with h | h
      · exact step_of_halted h
      · exact step_of_waiting h
    rw [same, still same]
  · rfl

theorem run_add (m n : Nat) (s : State) : run host (m + n) s = run host n (run host m s) := by
  induction m generalizing s with
  | zero =>
    rw [Nat.zero_add]
    rfl
  | succ m ih => rw [Nat.add_right_comm, run_succ, run_succ, ih]

/-- The last step of a run. -/
theorem run_step (n : Nat) (s : State) : run host (n + 1) s = step host (run host n s) := by
  rw [run_add, run_succ]
  rfl

/-- A machine that does not move any more stays where it is. -/
theorem run_still (n : Nat) (h : step host s = s) : run host n s = s := by
  induction n with
  | zero => rfl
  | succ n ih => rw [run_succ, h, ih]

theorem run_halted (n : Nat) (h : s.outcome?.isSome = true) : run host n s = s := run_still n (step_of_halted h)

/-- The first moment at which a run has its outcome. -/
theorem exists_first_outcome {n : Nat} (h : (run host n s).outcome?.isSome = true) :
    ∃ k, k ≤ n ∧ (run host k s).outcome?.isSome = true ∧ ∀ m < k, (run host m s).outcome? = none := by
  induction n with
  | zero => exact ⟨0, Nat.le_refl 0, h, fun m hm => absurd hm (Nat.not_lt_zero m)⟩
  | succ n ih =>
    by_cases before : (run host n s).outcome?.isSome = true
    · obtain ⟨k, le, halted, going⟩ := ih before
      exact ⟨k, Nat.le_succ_of_le le, halted, going⟩
    · refine ⟨n + 1, Nat.le_refl _, h, fun m hm => Option.not_isSome_iff_eq_none.1 fun halted => before ?_⟩
      obtain ⟨r, rfl⟩ := Nat.exists_eq_add_of_le (Nat.le_of_lt_succ hm)
      rwa [run_add, run_halted r halted]

/-- Two runs from one state come to the same end. -/
theorem run_ends {m n : Nat} (hm : (run host m s).outcome?.isSome = true) (hn : (run host n s).outcome?.isSome = true) :
    run host m s = run host n s := by
  rcases Nat.le_total m n with h | h
  · obtain ⟨k, rfl⟩ := Nat.exists_eq_add_of_le h
    rw [run_add, run_halted k hm]
  · obtain ⟨k, rfl⟩ := Nat.exists_eq_add_of_le h
    rw [run_add, run_halted k hn]

/-- The frame that is current after the work, if `f` is before it. -/
def Pending.after (f : Ref .frame) : Pending → Ref .frame
  | .leave outside => outside
  | .body _ outside => outside
  | _ => f

/-- The frame that is current once all pending work is done. -/
def State.home (s : State) : Ref .frame := s.pending.foldl Pending.after s.frame

/-- What no step changes. -/
def State.ground (s : State) : Distances × Ref .frame := (s.distances, s.home)

section Ground

theorem ground_evaluate (e : Expr) : (evaluate s e).ground = s.ground := by
  cases e <;> simp only [evaluate] <;> (repeat' split) <;> rfl

/-- Nothing but the store changes. -/
theorem addStatics_eq (s : State) (rs : List Routine) :
    (addStatics s rs).2 = { s with store := (addStatics s rs).2.store } := by
  unfold addStatics
  generalize Table.empty = table
  induction rs generalizing s table with
  | nil => rfl
  | cons r rs ih => exact ih (s.addClosure r .static).2 _

theorem ground_declareClass (d : ClassDeclaration) : (declareClass s d).ground = s.ground := by
  have place : (declareClass s d).ground = (addStatics s d.statics).2.ground := rfl
  rw [place, addStatics_eq]
  rfl

theorem ground_execute (x : Stmt) : (execute s x).ground = s.ground := by
  cases x with
  | var name initial => cases initial <;> rfl
  | «return» line value => cases value <;> rfl
  | «class» d =>
    simp only [execute]
    split
    · rfl
    · exact ground_declareClass d
  | _ => rfl

theorem ground_invoke (callee : Value) (arguments : List Value) (site : Site) :
    (invoke s callee arguments site).ground = s.ground := by
  unfold invoke
  repeat' split
  all_goals rfl

/-- A body is entered with the way back to the caller's frame pending; the host has no hold on frames. -/
theorem ground_enter (callee : Callee) (arguments : List Value) : (enter host s callee arguments).ground = s.ground := by
  rcases callee with (c | n) | ⟨r, c⟩
  · rfl
  · simp only [enter, enterNative]
    repeat' split
    all_goals rfl
  · simp only [enter, enterClass]
    repeat' split
    all_goals rfl

/-- Work that is taken off for a value does not come back to another frame. -/
theorem ground_resume (v : Value) (p : Pending) :
    (resume s v p).ground = State.ground { s with pending := p :: s.pending } := by
  cases p with
  | base d =>
    simp only [resume]
    split
    · exact ground_declareClass d
    · rfl
  | callee arguments line => cases arguments <;> rfl
  | arguments callee done rest line => cases rest <;> rfl
  | _ =>
    simp only [resume, subscript, State.answer]
    repeat' split
    all_goals rfl

theorem ground_proceed (f : Flow) (p : Pending) :
    (proceed s f p).ground = State.ground { s with pending := p :: s.pending } := by
  cases p with
  | sequence rest => cases f <;> rfl
  | loopBody condition body => cases f <;> rfl
  | _ => rfl

theorem ground_unwind (e : Failure) (p : Pending) :
    (unwind s e p).ground = State.ground { s with pending := p :: s.pending } := by
  cases p <;> rfl

theorem ground_step (host : Host) (s : State) : (step host s).ground = s.ground := by
  obtain ⟨world, control, frame, pending⟩ := s
  cases control with
  | evaluate e => exact ground_evaluate e
  | execute x => exact ground_execute x
  | sequence body => cases body <;> rfl
  | program body => cases body <;> rfl
  | invoke callee arguments site => exact ground_invoke callee arguments site
  | enter callee arguments => exact ground_enter callee arguments
  | value v =>
    cases pending with
    | nil => rfl
    | cons p rest => exact ground_resume (s := ⟨world, .value v, frame, rest⟩) v p
  | flow f =>
    cases pending with
    | nil => rfl
    | cons p rest => exact ground_proceed (s := ⟨world, .flow f, frame, rest⟩) f p
  | raise e =>
    cases pending with
    | nil => rfl
    | cons p rest => exact ground_unwind (s := ⟨world, .raise e, frame, rest⟩) e p

/-- The machine only reads distances. -/
theorem distances_step (s : State) : (step host s).distances = s.distances := congrArg Prod.fst (ground_step host s)

theorem home_step (host : Host) (s : State) : (step host s).home = s.home := congrArg Prod.snd (ground_step host s)

end Ground

end Scriptlet.Machine
