import Scriptlet.Proofs.Reports
import Scriptlet.Shell.Basic

/-!
What a shell can come to, whoever drives it: lines are fed, the clock is set, what it has written is taken away, and the
machine runs for some steps at a time. A shell that is done stays as it is; at its prompt a shell has no open errors.
-/
namespace Scriptlet.Shell

open Machine

/-- The shells that one can get to, with the results of the texts that have come to the end of their run meanwhile. -/
inductive Reached (host : Host) (first : Shell) : List (Except Error Value) → Shell → Prop where
  | start : Reached host first [] first
  | feed {rs : List (Except Error Value)} {sh : Shell} (line : Line) : Reached host first rs sh →
      Reached host first rs (sh.feed line)
  | withClock {rs : List (Except Error Value)} {sh : Shell} (clock : Number) : Reached host first rs sh →
      Reached host first rs (sh.withClock clock)
  | taken {rs : List (Except Error Value)} {sh : Shell} : Reached host first rs sh →
      Reached host first rs { sh with out := "", err := "" }
  | going {rs : List (Except Error Value)} {sh : Shell} {form : Session.Form} {state : State} {limit : Nat} :
      Reached host first rs sh → sh.phase = .running form state →
      sh.session.finish (run host limit state) = none → Reached host first rs (sh.advance host limit)
  | ended {rs : List (Except Error Value)} {sh : Shell} {form : Session.Form} {state : State} {limit : Nat}
      {session : Session} {r : Except Error Value} : Reached host first rs sh → sh.phase = .running form state →
      sh.session.finish (run host limit state) = some (session, r) →
      Reached host first (rs ++ [r]) (sh.advance host limit)

variable {host : Host} {first sh : Shell} {rs : List (Except Error Value)}

theorem Reached.advance (h : Reached host first rs sh) (limit : Nat) :
    ∃ rs', Reached host first rs' (sh.advance host limit) := by
  cases hp : sh.phase with
  | prompt | done status => exact ⟨rs, by simpa only [Shell.advance, hp] using h⟩
  | running form state =>
    cases hf : sh.session.finish (run host limit state) with
    | none => exact ⟨rs, h.going hp hf⟩
    | some ended => exact ⟨_, h.ended hp hf⟩

/-- A shell that is played with lines is one of these. -/
theorem Reached.play (h : Reached host first rs sh) (limit turns : Nat) (lines : List Line) :
    ∃ rs', Reached host first rs' (sh.play host limit turns lines) := by
  induction turns generalizing lines sh rs with
  | zero => exact ⟨rs, h⟩
  | succ turns ih =>
    unfold Shell.play
    split
    · exact ⟨rs, h⟩
    · split
      · exact ih (h.feed _) _
      · obtain ⟨rs', h'⟩ := h.advance limit
        exact ih h' _

/-- The shell is interactive and, unless it is done, its session has no open errors. -/
def Clear (sh : Shell) : Prop :=
  sh.interactive = true ∧ ((∃ status, sh.phase = .done status) ∨ sh.session.reporter.blocked = false)

/-- A result and no open errors go together. -/
theorem clear_conclude {form : Session.Form} {session : Session} {r : Except Error Value} (h : sh.interactive = true)
    (clear : ∀ v, r = .ok v → session.reporter.blocked = false) : (sh.conclude form session r).Clear := by
  cases r with
  | error e =>
    simp only [conclude, collect, h, if_true]
    exact ⟨rfl, .inr rfl⟩
  | ok v =>
    cases form with
    | expression =>
      simp only [conclude, collect, h, if_true]
      exact ⟨rfl, .inr (clear v rfl)⟩
    | program =>
      simp only [conclude, collect, h, if_true, if_false, reduceCtorEq]
      exact ⟨rfl, .inr (clear v rfl)⟩

theorem clear_submit (h : sh.interactive = true) (form : Session.Form) (source : String) : (sh.submit form source).Clear := by
  unfold Shell.submit
  split
  · exact clear_conclude h fun v he => by cases he
  · next session control hc =>
    have clear : session.reporter.blocked = false := Session.clear_of_check hc
    exact ⟨h, .inr clear⟩

theorem Clear.feed (h : sh.Clear) (line : Line) : (sh.feed line).Clear := by
  unfold Shell.feed
  split
  · next t hp =>
    dsimp only
    split
    · obtain ⟨interactive, ⟨status, hd⟩ | clear⟩ := h
      · rw [hp] at hd
        cases hd
      · exact ⟨interactive, .inr clear⟩
    · exact clear_submit h.1 _ _
  · exact ⟨h.1, .inl ⟨_, rfl⟩⟩
  · exact ⟨h.1, .inl ⟨_, rfl⟩⟩
  · next form state hp =>
    obtain ⟨interactive, ⟨status, hd⟩ | clear⟩ := h
    · rw [hp] at hd
      cases hd
    · exact ⟨interactive, .inr clear⟩
  · exact h

theorem Clear.withClock (h : sh.Clear) (clock : Number) : (sh.withClock clock).Clear := by
  unfold Shell.withClock
  split
  · next form state hp =>
    obtain ⟨interactive, ⟨status, hd⟩ | clear⟩ := h
    · rw [hp] at hd
      cases hd
    · exact ⟨interactive, .inr clear⟩
  · exact h

theorem Clear.advance (h : sh.Clear) (limit : Nat) : (sh.advance host limit).Clear := by
  unfold Shell.advance
  split
  · next form state hp =>
    obtain ⟨interactive, ⟨status, hd⟩ | clear⟩ := h
    · rw [hp] at hd
      cases hd
    dsimp only
    split
    · next session r hf =>
      refine clear_conclude interactive fun v he => ?_
      subst he
      exact Session.clear_of_finish clear hf
    · exact ⟨interactive, .inr clear⟩
  · exact h

theorem Reached.clear (h : Reached host first rs sh) (clear : first.Clear) : sh.Clear := by
  induction h with
  | start => exact clear
  | feed line _ ih => exact ih.feed line
  | withClock clock _ ih => exact ih.withClock clock
  | taken _ ih => exact ih
  | going _ _ _ ih => exact ih.advance _
  | ended _ _ _ ih => exact ih.advance _

theorem feed_of_done {status : Nat} (h : sh.phase = .done status) (line : Line) : sh.feed line = sh := by
  simp only [Shell.feed, h]

theorem feed_of_running {form : Session.Form} {state : State} (h : sh.phase = .running form state) (line : Line) :
    sh.feed line = { sh with phase := .running form (provide state line) } := by
  simp only [Shell.feed, h]

theorem withClock_of_done {status : Nat} (h : sh.phase = .done status) (clock : Number) : sh.withClock clock = sh := by
  simp only [Shell.withClock, h]

/-- What is done writes no more. -/
theorem Reached.of_done (h : Reached host first rs sh) {status : Nat} (done : first.phase = .done status)
    (silent : first.out = "") : rs = [] ∧ sh.phase = .done status ∧ sh.out = "" := by
  induction h with
  | start => exact ⟨rfl, done, silent⟩
  | feed line _ ih => rwa [feed_of_done ih.2.1]
  | withClock clock _ ih => rwa [withClock_of_done ih.2.1]
  | taken _ ih => exact ⟨ih.1, ih.2.1, rfl⟩
  | going _ running _ ih | ended _ running _ ih => cases running.symm.trans ih.2.1

/-- The status with which a shell that is not interactive ends a run. -/
def runStatus : Except Error Value → Nat
  | .ok _ => 0
  | .error _ => 70

/-- A shell that is not interactive: its one text is running, or has come to an end, which the status tells. -/
structure Script (form : Session.Form) (rs : List (Except Error Value)) (sh : Shell) : Prop where
  script : sh.interactive = false
  phase : (rs = [] ∧ ∃ state, sh.phase = .running form state) ∨ ∃ r, rs = [r] ∧ sh.phase = .done (runStatus r)

theorem phase_conclude {form : Session.Form} {session : Session} {r : Except Error Value} (h : sh.interactive = false)
    (running : ∀ e, r = .error e → e.isRuntime = true) :
    (sh.conclude form session r).interactive = false ∧ (sh.conclude form session r).phase = .done (runStatus r) := by
  cases r with
  | error e =>
    have code : status e = 70 := by rw [status, running e rfl]; rfl
    simp [conclude, collect, h, code, runStatus]
  | ok v => cases form <;> simp [conclude, collect, h, runStatus]

theorem Script.advance {form form' : Session.Form} {state : State} {limit : Nat} {session : Session}
    {r : Except Error Value} (h : Script form rs sh) (running : sh.phase = .running form' state)
    (finished : sh.session.finish (run host limit state) = some (session, r)) :
    Script form (rs ++ [r]) (sh.advance host limit) := by
  obtain ⟨script, ⟨none, state', phase⟩ | ⟨r', one, phase⟩⟩ := h
  · have failed : ∀ e, r = .error e → e.isRuntime = true := by
      rintro e rfl
      obtain ⟨-, ⟨e', he, failed, -⟩ | ⟨v, he, -⟩⟩ := Session.finish_aftermath finished
      · cases he
        exact failed
      · cases he
    cases running.symm.trans phase
    simp only [Shell.advance, running, finished]
    obtain ⟨script', phase'⟩ := phase_conclude script failed
    exact ⟨script', .inr ⟨r, by rw [none]; rfl, phase'⟩⟩
  · cases running.symm.trans phase

theorem Reached.script (h : Reached host first rs sh) {form : Session.Form} (start : Script form [] first) :
    Script form rs sh := by
  induction h with
  | start => exact start
  | feed line _ ih =>
    obtain ⟨script, ⟨none, state, phase⟩ | ⟨r, one, phase⟩⟩ := ih
    · rw [feed_of_running phase]
      exact ⟨script, .inl ⟨none, _, rfl⟩⟩
    · rw [feed_of_done phase]
      exact ⟨script, .inr ⟨r, one, phase⟩⟩
  | withClock clock _ ih =>
    obtain ⟨script, ⟨none, state, phase⟩ | ⟨r, one, phase⟩⟩ := ih
    · simp only [Shell.withClock, phase]
      exact ⟨script, .inl ⟨none, _, rfl⟩⟩
    · rw [withClock_of_done phase]
      exact ⟨script, .inr ⟨r, one, phase⟩⟩
  | taken _ ih => exact ⟨ih.script, ih.phase⟩
  | going _ running unfinished ih =>
    obtain ⟨script, ⟨none, state, phase⟩ | ⟨r, one, phase⟩⟩ := ih
    · cases running.symm.trans phase
      simp only [Shell.advance, running, unfinished]
      exact ⟨script, .inl ⟨none, _, rfl⟩⟩
    · cases running.symm.trans phase
  | ended _ running finished ih => exact ih.advance running finished

end Scriptlet.Shell
