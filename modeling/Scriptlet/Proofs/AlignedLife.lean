import Scriptlet.Proofs.AlignedRuns
import Scriptlet.Proofs.RunLaws
import Scriptlet.Proofs.Texts

/-!
Sessions keep their frames and texts in agreement for all their life: while the host alone acts, between texts, and in
every state of every run.
-/
namespace Scriptlet

/-- What holds at every moment of a session's life. -/
def Phase.Aligned (t : Trace) : Phase → Prop
  | .idle s => Layout t s.store ∧ Recorded t s.world.distances s.nextId
  | .running s m => Machine.Aligned t m ∧ Recorded t m.distances s.nextId

theorem opening_eq {store : Store} {region? : Option Scope.Region} {e : Event} (h : e ∈ opening store region?) :
    ∃ region, e = .opened store.frames.next region := by
  cases region? with
  | none => cases h
  | some region => exact ⟨region, List.mem_singleton.1 h⟩

/-- A step accepts no text. -/
theorem accepted_of_events {host : Host} {m : Machine.State} {t : Trace} {root : Scope.Site}
    (h : .accepted root ∈ m.events host ++ t) : .accepted root ∈ t := by
  rcases List.mem_append.1 h with h | h
  · rcases List.mem_append.1 h with h | h
    · obtain ⟨region, he⟩ := opening_eq h
      cases he
    · unfold Machine.State.initializer? at h
      split at h
      · cases List.mem_singleton.1 h
      · cases List.mem_singleton.1 h
      · cases h
  · exact h

theorem Session.world_finish {s s' : Session} {m : Machine.State} {result : Except Error Value}
    (h : s.finish m = some (s', result)) : s'.world = m.toWorld ∧ s'.nextId = s.nextId := by
  unfold Session.finish at h
  cases ho : m.outcome? with
  | none =>
    rw [ho] at h
    cases h
  | some o =>
    rw [ho] at h
    cases o <;> cases h <;> exact ⟨rfl, rfl⟩

theorem Life.aligned {host : Host} (lawful : host.Lawful) {t : Trace} {phase : Phase} (life : Life host t phase) :
    phase.Aligned t := by
  induction life with
  | fresh console =>
    exact ⟨(Layout.initial.kept (Store.Kept.bare.trans (.withLibrary _))).layout, .empty⟩
  | alter _ kept ih => exact ⟨(ih.1.kept kept).layout, ih.2⟩
  | read _ hm ih =>
    refine ⟨(ih.1.realize (ih.1.member?_unbound hm)).layout, ih.2.of_accepted fun root hr => ?_⟩
    rcases List.mem_append.1 hr with hr | hr
    · obtain ⟨region, he⟩ := opening_eq hr
      cases he
    · exact hr
  | reset _ ih => exact ih
  | refuse _ check ih =>
    obtain ⟨layout, recorded⟩ := ih
    obtain ⟨store, ⟨distances, le, -⟩ | ⟨part, readable, distances, -⟩⟩ := Session.check_text check
    · exact ⟨by rwa [store], by rw [distances]; exact recorded.skip le⟩
    · exact ⟨by rwa [store], by rw [distances]; exact recorded.analysed readable⟩
  | @accept t s s' form source control _ check ih =>
    obtain ⟨layout, recorded⟩ := ih
    obtain ⟨store, ⟨-, -, e, he⟩ | ⟨part, readable, distances, passed⟩⟩ := Session.check_text check
    · cases he
    · obtain ⟨text, passes⟩ := passed control rfl
      subst text
      have layout := layout.accept (recorded.good readable passes) (by cases control <;> trivial)
      rw [← store] at layout
      have runs : Runs (.accepted (rootSite control.text s.world.distances) :: t) s'.store.frames [] Store.globals
          control.text :=
        ⟨rootSite control.text s.world.distances, ⟨_, .head _, .root⟩, rfl, rfl⟩
      have aligned : Machine.Aligned (.accepted (rootSite control.text s.world.distances) :: t) (s'.start control) := by
        rcases Session.check_control check with ⟨program, rfl, -⟩ | ⟨e, rfl, -⟩
        · exact ⟨layout, layout.room, trivial, runs⟩
        · exact ⟨layout, layout.room, trivial, runs⟩
      refine ⟨aligned, ?_⟩
      change Recorded _ s'.world.distances s'.nextId
      rw [distances]
      exact recorded.accept readable
  | call callee arguments _ ih => exact ⟨⟨ih.1, ih.1.room, trivial, trivial⟩, ih.2⟩
  | step _ ih =>
    refine ⟨ih.1.step lawful, ?_⟩
    rw [Machine.distances_step]
    exact ih.2.of_accepted fun root hr => accepted_of_events hr
  | feed console _ ih => exact ⟨⟨ih.1.layout, ih.1.frame, ih.1.pending, ih.1.control⟩, ih.2⟩
  | finish _ hf ih =>
    obtain ⟨world, next⟩ := Session.world_finish hf
    simp only [Phase.Aligned, Session.store, world, next]
    exact ⟨ih.1.layout, ih.2⟩

end Scriptlet
