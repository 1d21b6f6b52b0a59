import Scriptlet.Proofs.AddressRuns
import Scriptlet.Proofs.Isolation

/-!
Runs that take the same course. They pass through the same worlds and end with the same outcome, however many steps the
one or the other spends in a world. This compares also runs that never end, and runs that come to wait for input.
-/
namespace Scriptlet.Machine

variable {host : Host} {s t u : State} {below below' : List Pending}

/-- What the run from `s` comes to, world by world and with its outcome, the run from `t` comes to as well. -/
def Follows (host : Host) (t s : State) : Prop :=
  ∀ n, ∃ m, (run host m t).toWorld = (run host n s).toWorld ∧
    ∀ o, (run host n s).outcome? = some o → (run host m t).outcome? = some o

structure Parallel (host : Host) (s t : State) : Prop where
  follows : Follows host t s
  followed : Follows host s t

section Follows

theorem Follows.refl (s : State) : Follows host s s := fun n => ⟨n, rfl, fun _ h => h⟩

theorem Follows.trans (h : Follows host u t) (h' : Follows host t s) : Follows host u s := by
  intro n
  obtain ⟨m, world, outcome⟩ := h' n
  obtain ⟨k, world', outcome'⟩ := h m
  exact ⟨k, world'.trans world, fun o ended => outcome' o (outcome o ended)⟩

/-- What comes later in a run is part of it. -/
theorem Leads.follows (h : Leads host s t) : Follows host s t := by
  obtain ⟨k, rfl⟩ := h
  intro n
  refine ⟨k + n, ?_⟩
  rw [run_add]
  exact ⟨rfl, fun _ ended => ended⟩

/-- To follow a run, it is enough to follow it from the next step on, if the start can be matched. -/
theorem Follows.of_step (h : Follows host t (step host s)) (world : t.toWorld = s.toWorld)
    (unfinished : s.outcome? = none) : Follows host t s := by
  intro n
  cases n with
  | zero =>
    refine ⟨0, world, fun o ended => ?_⟩
    have ended : s.outcome? = some o := ended
    rw [unfinished] at ended
    cases ended
  | succ n =>
    rw [run_succ]
    exact h n

end Follows

namespace Parallel

theorem refl (s : State) : Parallel host s s := ⟨.refl s, .refl s⟩

theorem symm (h : Parallel host s t) : Parallel host t s := ⟨h.followed, h.follows⟩

theorem trans (h : Parallel host s t) (h' : Parallel host t u) : Parallel host s u :=
  ⟨h'.follows.trans h.follows, h.followed.trans h'.followed⟩

/-- A step that leaves the world alone does not show. -/
theorem of_step (h : step host s = t) (world : t.toWorld = s.toWorld) : Parallel host s t := by
  refine ⟨?_, (Leads.of_step h).follows⟩
  by_cases halted : s.outcome?.isSome = true
  · rw [← h, step_of_halted halted]
    exact .refl s
  · apply Follows.of_step _ world (Option.not_isSome_iff_eq_none.1 halted)
    rw [h]
    exact .refl t

/-- A step that changes two worlds alike. -/
theorem of_steps (world : s.toWorld = t.toWorld) (unfinished : s.outcome? = none) (unfinished' : t.outcome? = none)
    (h : Parallel host (step host s) (step host t)) : Parallel host s t :=
  ⟨.of_step ((Leads.of_step rfl).follows.trans h.follows) world.symm unfinished,
    .of_step ((Leads.of_step rfl).follows.trans h.followed) world unfinished'⟩

/-- Runs that take the same course finish alike, if they do. -/
theorem finishes_iff {w : World} {o : Outcome} (h : Parallel host s t) :
    Finishes host s w o ↔ Finishes host t w o := by
  have alike {s t : State} (h : Follows host t s) (finishes : Finishes host s w o) : Finishes host t w o := by
    obtain ⟨_, ⟨n, rfl⟩, outcome, world⟩ := finishes
    obtain ⟨m, same, ended⟩ := h n
    exact ⟨_, ⟨m, rfl⟩, ended o outcome, same.trans world⟩
  exact ⟨alike h.follows, alike h.followed⟩

/-- Machines that have come to a standstill in the same world. -/
theorem of_stuck (world : s.toWorld = t.toWorld) (unfinished : s.outcome? = none) (unfinished' : t.outcome? = none)
    (still : step host s = s) (still' : step host t = t) : Parallel host s t := by
  constructor
  · intro n
    refine ⟨0, ?_⟩
    rw [run_still n still, unfinished]
    exact ⟨world.symm, nofun⟩
  · intro n
    refine ⟨0, ?_⟩
    rw [run_still n still', unfinished']
    exact ⟨world, nofun⟩

end Parallel

theorem follows_under (more : below ≠ [])
    (ends : ∀ n, (run host n s).outcome?.isSome = true →
      Follows host ((run host n s).under below') ((run host n s).under below)) :
    Follows host (s.under below') (s.under below) := by
  intro n
  by_cases ended : (run host n s).outcome?.isSome = true
  · -- from the first moment at which the work is over, all depends on what is made of its outcome
    obtain ⟨k, le, halted, going⟩ := exists_first_outcome ended
    obtain ⟨r, rfl⟩ := Nat.exists_eq_add_of_le le
    obtain ⟨m, same⟩ := ends k halted r
    refine ⟨k + m, ?_⟩
    rw [run_add, run_add, run_under k going, run_under k going]
    exact same
  · have going (m : Nat) (hm : m < n) : (run host m s).outcome? = none := by
      rw [← Option.not_isSome_iff_eq_none]
      intro halted
      obtain ⟨r, rfl⟩ := Nat.exists_eq_add_of_le (Nat.le_of_lt hm)
      rw [run_add, run_halted r halted] at ended
      exact ended halted
    refine ⟨n, ?_⟩
    rw [run_under n going, run_under n going]
    refine ⟨rfl, fun o halted => ?_⟩
    rw [outcome?_under more] at halted
    cases halted

/-- Work takes the same course over two kinds of work below it, if what becomes of its outcome does. -/
theorem Parallel.under (more : below ≠ []) (more' : below' ≠ [])
    (ends : ∀ n, (run host n s).outcome?.isSome = true →
      Parallel host ((run host n s).under below) ((run host n s).under below')) :
    Parallel host (s.under below) (s.under below') :=
  ⟨follows_under more fun n halted => (ends n halted).follows,
    follows_under more' fun n halted => (ends n halted).followed⟩

end Scriptlet.Machine
