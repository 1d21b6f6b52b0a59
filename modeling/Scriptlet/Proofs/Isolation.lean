import Scriptlet.Proofs.CallReturns
import Scriptlet.Proofs.Followed

/-!
Calls on their own. What waits below a call has no part in it: the machine does the same steps when nothing waits there.
So a call can be looked at with nothing else pending, where it starts with a callee and its arguments and can only end
in a value or a failure, never in a flow.
-/
namespace Scriptlet.Machine

variable {host : Host} {below : List Pending}

/-- The same state with more work waiting below all that is pending. -/
def State.under (s : State) (below : List Pending) : State := { s with pending := s.pending ++ below }

section Under

theorem State.amid_eq_under (s : State) : s.amid [] s.distances below = s.under below := by
  obtain ⟨⟨store, console, distances⟩, control, frame, pending⟩ := s
  have work : Pending.followed [] = id := by
    funext p
    cases p with
    | program rest => exact congrArg _ (List.append_nil rest)
    | _ => rfl
  have same : control.followed [] = control := by
    cases control with
    | program body => exact congrArg _ (List.append_nil body)
    | _ => rfl
  simp only [amid, followed, under, work, same, List.map_id]

/-- Unless it is over, work does not look at what waits below. -/
theorem step_under {s : State} (going : s.outcome? = none) :
    step host (s.under below) = (step host s).under below := by
  rw [← State.amid_eq_under, ← State.amid_eq_under, distances_step]
  exact step_amid (fun _ _ _ => rfl) (.inr rfl) (.inr going)

/-- As long as work is not over, it makes the same steps with more work below it. -/
theorem run_under {s : State} (n : Nat) (going : ∀ m < n, (run host m s).outcome? = none) :
    run host n (s.under below) = (run host n s).under below := by
  induction n with
  | zero => rfl
  | succ n ih =>
    rw [run_step, run_step, ih fun m hm => going m (Nat.lt_succ_of_lt hm), step_under (going n (Nat.lt_succ_self n))]

theorem outcome?_under {s : State} (more : below ≠ []) : (s.under below).outcome? = none := by
  rw [← Option.not_isSome_iff_eq_none]
  intro ended
  obtain ⟨nothing, -⟩ := outcome?_isSome ended
  exact more (List.append_eq_nil_iff.1 nothing).2

end Under

/-- Work that ends a call or a part of one: no statement waits for it. -/
def Pending.EndsCall : Pending → Prop
  | .body _ _ | .constructed _ | .site _ | .nativeCall => True
  | _ => False

/-- What can be done with nothing pending while a call is looked at on its own. -/
def Control.OfCall : Control → Prop
  | .invoke _ _ _ | .enter _ _ | .value _ | .raise _ => True
  | _ => False

/-- What is pending lowest is in `E`, and with nothing pending what is done is in `C`. -/
structure State.Based (E : Pending → Prop) (C : Control → Prop) (s : State) : Prop where
  lowest : ∀ p, s.pending.getLast? = some p → E p
  control : s.pending = [] → C s.control

/-- A call on its own: what is pending lowest ends a call, and nothing is pending only before and after it. -/
abbrev State.Alone : State → Prop := State.Based Pending.EndsCall Control.OfCall

namespace State.Based

variable {E : Pending → Prop} {C : Control → Prop} {s t : State}

theorem of_suffix (h : s.Based E C) (more : s.pending ≠ []) (suffix : s.pending <:+ t.pending) : t.Based E C := by
  obtain ⟨above, ha⟩ := suffix
  constructor
  · intro p hp
    rw [← ha, List.getLast?_append_of_ne_nil _ more] at hp
    exact h.lowest p hp
  · intro none
    rw [none] at ha
    exact absurd (List.append_eq_nil_iff.1 ha).2 more

theorem of_nil (hp : t.pending = []) (hc : C t.control) : t.Based E C := by
  refine ⟨fun p last => ?_, fun _ => hc⟩
  rw [hp] at last
  cases last

theorem of_one {p : Pending} (hp : t.pending = [p]) (ends : E p) : t.Based E C := by
  constructor
  · intro q last
    rw [hp] at last
    cases last
    exact ends
  · intro none
    rw [hp] at none
    cases none

/-- Only what is done with nothing pending, or with the lowest work on top, matters. -/
theorem step_of (h : s.Based E C) (start : s.pending = [] → C s.control → (step host s).Based E C)
    (last : ∀ p, s.pending = [p] → E p → ¬ s.control.Working → (step host s).Based E C) : (step host s).Based E C := by
  rcases hp : s.pending with _ | ⟨p, rest⟩
  · exact start hp (h.control hp)
  · have more : s.pending ≠ [] := by simp [hp]
    by_cases working : s.control.Working
    · exact h.of_suffix more (working.suffix host)
    · rcases rest with _ | ⟨q, rest⟩
      · exact last p hp (h.lowest p (by simp [hp])) working
      · -- the step takes off at most the topmost work, which is not the lowest
        refine of_suffix (s := { s with pending := q :: rest }) ⟨?_, by simp⟩ (by simp) (step_suffix hp)
        intro lowest last
        refine h.lowest lowest ?_
        rw [hp, List.getLast?_cons_cons]
        exact last

end State.Based

section Alone

variable {s t : State}

theorem invoke_alone (hp : s.pending = []) (callee : Value) (arguments : List Value) (site : Site) :
    (invoke s callee arguments site).Alone := by
  unfold invoke
  split
  · exact .of_nil hp trivial
  · exact .of_nil hp trivial
  · split
    · exact .of_one (congrArg _ hp) trivial
    · exact .of_nil hp trivial
  · split <;> exact .of_nil hp trivial

theorem enter_alone (hp : s.pending = []) (callee : Callee) (arguments : List Value)
    (hc : s.control = .enter callee arguments) : (enter host s callee arguments).Alone := by
  rcases callee with (c | n) | ⟨r, c⟩
  · exact .of_one (congrArg _ hp) trivial
  · simp only [enter, enterNative]
    split
    · exact .of_nil hp trivial
    · split
      · exact .of_nil hp trivial
      · exact .of_nil hp (hc ▸ trivial)
    · split <;> exact .of_nil hp trivial
    · split <;> exact .of_nil hp trivial
    · split
      · exact .of_nil hp trivial
      · exact .of_nil hp trivial
      · exact .of_one (congrArg _ hp) trivial
  · rw [enter, enterClass_eq]
    dsimp only
    split
    · exact .of_nil hp trivial
    · exact .of_nil hp trivial
    · exact .of_one (congrArg _ hp) trivial

/-- The lowest work of a call is on top. -/
theorem alone_last {p : Pending} (hp : s.pending = [p]) (ends : p.EndsCall) (idle : ¬ s.control.Working) :
    (step host s).Alone := by
  cases hc : s.control with
  | value v =>
    simp only [step, hc, hp]
    cases p with
    | body c outside => exact .of_one rfl trivial
    | constructed | site | nativeCall => exact .of_nil rfl trivial
    | _ => exact ends.elim
  | flow f =>
    simp only [step, hc, hp]
    cases p with
    | body c outside => exact .of_nil rfl trivial
    | constructed | site | nativeCall => exact .of_one rfl trivial
    | _ => exact ends.elim
  | raise e =>
    simp only [step, hc, hp]
    cases p with
    | body | constructed | site | nativeCall => exact .of_nil rfl trivial
    | _ => exact ends.elim
  | _ =>
    rw [hc] at idle
    exact absurd trivial idle

theorem State.Alone.step (h : s.Alone) : (step host s).Alone := by
  refine h.step_of (fun hp ofCall => ?_) fun p hp ends idle => alone_last hp ends idle
  cases hc : s.control with
  | invoke callee arguments site =>
    simp only [Machine.step, hc]
    exact invoke_alone hp callee arguments site
  | enter callee arguments =>
    simp only [Machine.step, hc]
    exact enter_alone hp callee arguments hc
  | value | raise =>
    simp only [Machine.step, hc, hp]
    exact h
  | _ =>
    rw [hc] at ofCall
    exact ofCall.elim

theorem State.Alone.feed (h : s.Alone) (console : Console) : { s with console }.Alone := ⟨h.lowest, h.control⟩

/-- A call ends in a value or a failure. -/
theorem State.Alone.outcome (h : s.Alone) (halted : s.outcome?.isSome = true) :
    s.pending = [] ∧ ((∃ v, s.control = .value v) ∨ ∃ e, s.control = .raise e) := by
  obtain ⟨hp, hc⟩ := outcome?_isSome halted
  refine ⟨hp, ?_⟩
  rcases hc with value | ⟨f, flow⟩ | failure
  · exact .inl value
  · have ofCall := h.control hp
    rw [flow] at ofCall
    exact ofCall.elim
  · exact .inr failure

end Alone

/-- The state in which a call is made, without the work of the caller. -/
def State.alone (s : State) : State := { s with pending := [] }

section Calls

variable {s u : State} {callee : Value} {arguments : List Value} {site : Site}

theorem State.alone_call (hc : s.control = .invoke callee arguments site) : s.alone.Alone :=
  .of_nil rfl (show s.control.OfCall from hc ▸ trivial)

/-- All states of a call are those of the call on its own, with the caller's work below. -/
theorem Calling.alone (hc : s.control = .invoke callee arguments site) (h : Calling host s u) :
    ∃ v : State, Calling host s.alone v ∧ v.Alone ∧ u = v.under s.pending := by
  induction h with
  | made => exact ⟨s.alone, .made, s.alone_call hc, rfl⟩
  | @step u _ under ih =>
    obtain ⟨v, calling, alone, rfl⟩ := ih
    have under' : ¬ s.alone.Back v := by
      rintro ⟨hp, back⟩
      refine under ⟨?_, back⟩
      have hp : v.pending = [] := hp
      rw [State.under, hp, List.nil_append]
    refine ⟨Machine.step host v, calling.step under', alone.step, step_under ?_⟩
    rw [← Option.not_isSome_iff_eq_none]
    exact fun halted => under' (alone.outcome halted)
  | feed console _ ih =>
    obtain ⟨v, calling, alone, rfl⟩ := ih
    exact ⟨{ v with console }, calling.feed console, alone.feed console, rfl⟩

/-- A run from a call with nothing pending consists of states of the call. -/
theorem calling_run_alone (hp : s.pending = []) (n : Nat) :
    Calling host s (run host n s) := by
  induction n with
  | zero => exact .made
  | succ n ih =>
    rw [run_step]
    by_cases back : s.Back (run host n s)
    · have halted : (run host n s).outcome?.isSome = true := by
        obtain ⟨pending, ⟨v, control⟩ | ⟨e, control⟩⟩ := back
        · simp only [State.outcome?, pending, hp, control, Option.isSome_some]
        · simp only [State.outcome?, pending, hp, control, Option.isSome_some]
      rwa [step_of_halted halted]
    · exact ih.step back

end Calls

end Scriptlet.Machine
