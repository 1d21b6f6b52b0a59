import Scriptlet.Proofs.Confinement
import Scriptlet.Proofs.ContainedRuns
import Scriptlet.Proofs.Followed

/-!
The frame that is current before some work is current after it. A block and the body of a closure leave the way back
pending, so the frame that all pending work comes back to in the end stays the same in every step, whether a value, a
flow or a failure passes through. Work is over when what waited for it is on top again; then that frame is the current one.
-/
namespace Scriptlet.Machine

/-- What `s` has started is over in `u`: what waited for it is on top again, and has a value, a flow or a failure. -/
def State.Over (s u : State) : Prop := u.pending = s.pending ∧ ¬ u.control.Working

/-- The states of what `s` starts, to the one where it is over. More input may arrive meanwhile. -/
inductive Doing (host : Host) (s : State) : State → Prop
  | begun : Doing host s s
  | step {u : State} : Doing host s u → ¬ s.Over u → Doing host s (step host u)
  | feed {u : State} (console : Console) : Doing host s u → Doing host s { u with console }

section Doing

variable {host : Host} {s u : State}

/-- Work makes the steps that it makes on its own, and on its own it leads back to the frame in which it was begun. -/
theorem Doing.alone (h : Doing host s u) : ∃ v : State, v.home = s.frame ∧ u = v.under s.pending := by
  induction h with
  | begun => exact ⟨s.alone, rfl, rfl⟩
  | @step u _ under ih =>
    obtain ⟨v, home, rfl⟩ := ih
    refine ⟨Machine.step host v, (home_step host v).trans home, step_under ?_⟩
    rw [← Option.not_isSome_iff_eq_none]
    intro halted
    obtain ⟨done, ended⟩ := outcome?_isSome halted
    refine under ⟨by rw [State.under, done, List.nil_append], ?_⟩
    rcases ended with ⟨v, hv⟩ | ⟨f, hf⟩ | ⟨e, he⟩
    · exact hv ▸ id
    · exact hf ▸ id
    · exact he ▸ id
  | feed console _ ih =>
    obtain ⟨v, home, rfl⟩ := ih
    exact ⟨{ v with console }, home, rfl⟩

theorem Doing.frame (h : Doing host s u) (ended : s.Over u) : u.frame = s.frame := by
  obtain ⟨v, home, rfl⟩ := h.alone
  have nothing : v.pending = [] := List.append_left_eq_self.1 ended.1
  rwa [State.home, nothing] at home

/-- While a run leaves more pending than there was, what it does is not over. -/
theorem doing_run (working : s.control.Working) {n : Nat}
    (deeper : ∀ i < n, s.pending.length < (run host (i + 1) s).pending.length) :
    Doing host s (run host (n + 1) s) := by
  induction n with
  | zero =>
    rw [run_step]
    exact Doing.begun.step fun ended => ended.2 working
  | succ n ih =>
    have before := ih fun i lt => deeper i (Nat.lt_succ_of_lt lt)
    rw [run_step]
    refine before.step fun ended => ?_
    have longer := deeper n n.lt_succ_self
    rw [ended.1] at longer
    omega

/-- A run comes back to the outermost frame, in which it was started. -/
theorem Course.home {world : World} {control : Control} (h : Course host world control u) : u.home = Store.globals := by
  induction h with
  | start => rfl
  | step _ ih => exact (home_step host _).trans ih
  | feed console _ ih => exact ih

theorem Course.frame {world : World} {control : Control} (h : Course host world control u)
    (halted : u.outcome?.isSome = true) : u.frame = Store.globals := by
  obtain ⟨nothing, -⟩ := outcome?_isSome halted
  have home := h.home
  rwa [State.home, nothing] at home

end Doing

/-- In a block, a function of the host is called with a function that fails in a block of its own. -/
def failingCall : State where
  store := { Store.initial with
    frames := (Heap.empty.alloc ⟨(Table.empty.insert "f" (.function ⟨0⟩)).insert "apply" (.function ⟨1⟩), none⟩).alloc
      ⟨.empty, some Store.globals⟩
    functions := (Heap.empty.alloc (.closure ⟨⟨⟨"f", 1⟩, [⟨"x", 1⟩], [.block [.expression (.variable 0 ⟨"y", 1⟩)]]⟩,
      Store.globals, .function⟩)).alloc (.native ⟨"apply", 2, .host "apply" none⟩) }
  console := ⟨#[], [], true, .zero⟩
  distances := .empty
  control := .execute (.expression (.call (.variable 1 ⟨"apply", 1⟩) [.variable 2 ⟨"f", 1⟩, .literal .null] 1))
  frame := ⟨1⟩
  pending := [.sequence [], .leave Store.globals]

/-- Whatever is executed, evaluated or called, in whatever state: the work of the caller stays below it, and when it is
over, with a value, a flow or a failure, the frame is current that was current before. So all runs, in a session or not,
end in the outermost frame. -/
theorem current_frame_restored (host : Host) :
    (∀ s u, Doing host s u → s.pending <:+ u.pending ∧ (s.Over u → u.frame = s.frame)) ∧
    (∀ world control m, Course host world control m → m.outcome?.isSome = true → m.frame = Store.globals) ∧
    ∀ t session m, Life host t (.running session m) → m.outcome?.isSome = true → m.frame = Store.globals := by
  refine ⟨fun s u doing => ⟨?_, doing.frame⟩, fun world control m course => course.frame, fun t session m life => ?_⟩
  · obtain ⟨v, -, rfl⟩ := doing.alone
    exact List.suffix_append v.pending s.pending
  · obtain ⟨world, control, -, -, course, -⟩ := life.grown
    exact course.frame

/-- The failure leaves a block, the body around it and the function of the host before the call is over. -/
theorem current_frame_restored_failingCall :
    (∃ u e, Doing Host.sample failingCall u ∧ failingCall.Over u ∧ u.control = .raise e ∧
      failingCall.frame ≠ Store.globals ∧ u.frame = failingCall.frame) ∧
    ∃ m, Course Host.sample failingCall.toWorld failingCall.control m ∧ m.outcome?.isSome = true ∧
      m.frame = Store.globals := by
  obtain ⟨restored, outermost, -⟩ := current_frame_restored Host.sample
  constructor
  · have doing : Doing Host.sample failingCall (run .sample 25 failingCall) := doing_run (by exact trivial) (by decide)
    have ended : failingCall.Over (run .sample 25 failingCall) := ⟨rfl, id⟩
    exact ⟨_, _, doing, ended, rfl, by decide, (restored _ _ doing).2 ended⟩
  · have course := course_run Host.sample failingCall.toWorld failingCall.control 25
    exact ⟨_, course, rfl, outermost _ _ _ course rfl⟩

end Scriptlet.Machine
