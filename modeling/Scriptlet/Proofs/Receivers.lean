import Scriptlet.Proofs.CallReturns
import Scriptlet.Proofs.ResolvedNames

/-!
The receiver that `this` stands for. Wherever a node `this` is evaluated, in the body of a method or in functions, blocks
and base expressions within it, and whether or not the method has returned, the frame at the node's distance is that of
the bond of the invocation around it, and it still holds the bond's receiver.
-/
namespace Scriptlet

open Scope (Site Region)
open Machine (Calling Constructs)

/-- The innermost method around the site is that of the bond, and the invocation of it that the site runs in was bound
there: going outward from the current frame, one comes to the frame of the invocation and right around it to the frame of
the bond. -/
structure Invoked (log : Log) (t : Trace) (fs : Frames) (site : Site) (frames : List (Ref .frame)) (b : Bond) :
    Prop where
  bond : b ∈ log
  only : ∀ b' ∈ log, b'.frame = b.frame → b' = b
  innermost : ∃ inner outer call, site.regions = inner ++ .call b.method :: .receiver b.method :: outer ∧
    (∀ region ∈ inner, region.method? = none) ∧ frames[inner.length]? = some call ∧
    .opened call (.call b.method) ∈ t ∧ fs.enclosing call = some b.frame

section This

variable {host : Host} {log : Log} {t : Trace} {s : Machine.State} {next : Nat} {id : NodeId} {line : Nat}

theorem Chain.enclosing {fs : Frames} {f g h : Ref .frame} {frames : List (Ref .frame)} (chain : Chain fs f frames)
    {i : Nat} (hg : frames[i]? = some g) (hh : frames[i + 1]? = some h) : fs.enclosing g = some h := by
  induction chain generalizing i with
  | outermost => cases hg
  | @cons f p frames _ enclosing rest ih =>
    cases i with
    | zero =>
      cases hg
      cases rest with
      | outermost => cases hh
      | cons =>
        cases hh
        exact enclosing
    | succ i => exact ih hg hh

/-- The distance of `this` leads to the frame of the bond. -/
theorem Surrounds.invoked {site : Site} {frames : List (Ref .frame)} (surrounds : Surrounds t s site frames)
    (layout : Layout t s.store) (bonded : s.store.Bonded log t) (received : site.Received)
    (within : ∃ m, Scope.Within m site.regions) :
    ∃ d b, Scope.nearest "this" site.names = some d ∧ s.store.frames.ancestor s.frame d = some b.frame ∧
      Invoked log t s.store.frames site frames b := by
  obtain ⟨m, within⟩ := within
  obtain ⟨inner, outer, regions, plain, found⟩ := within.nearest received.marked
  obtain ⟨f, hf, leads⟩ := surrounds.leadsTo layout found
  -- the region at that distance is for the receiver of the method, so a bond was made for it
  have opened : .opened f (.receiver m) ∈ t := by
    obtain ⟨region, hr, only⟩ := leads.region
    rw [regions] at hr
    refine (only _).2 ?_
    simpa using hr
  obtain ⟨r, bond⟩ := bonded.made f m opened
  refine ⟨inner.length + 1, ⟨f, m, r⟩, found, leads.ancestor, bond, fun b' hb' same => ?_, inner, outer, ?_⟩
  · exact bonded.unique layout hb' bond same
  · have lt : inner.length < frames.length := by
      have lt := (List.getElem?_eq_some_iff.1 hf).1
      omega
    have hc : frames[inner.length]? = some frames[inner.length] := List.getElem?_eq_getElem lt
    obtain ⟨region, hr, called⟩ := forall₂_getElem? surrounds.opened hc
    rw [regions] at hr
    obtain rfl : region = .call m := by simpa using hr.symm
    exact ⟨_, regions, plain, hc, called, surrounds.chain.enclosing hc hf⟩

theorem Machine.Aligned.this (aligned : Aligned t s) (recorded : Recorded t s.distances next)
    (bonded : s.store.Bonded log t) (hc : s.control = .evaluate (.this id line)) :
    ∃ site frames b, StandsAt t id "this" site ∧ Surrounds t s site frames ∧
      Invoked log t s.store.frames site frames b ∧ Machine.step host s = s.give (.instance b.receiver) := by
  have layout := aligned.layout
  have control := aligned.control
  have node : s.node? = some (id, "this") := by simp only [State.node?, hc, Part.node?]
  obtain ⟨site, frames, stands, surrounds, distance, -⟩ := aligned.surroundings recorded node
  -- the node's only site is that of the expression, where the analysis has let `this` pass
  have part : site.part = .expr (.this id line) := by
    rw [hc] at control
    obtain ⟨site', visited, part, -⟩ := control
    rwa [stands.unique site' visited "this" (by rw [part]; rfl)] at part
  obtain ⟨root, accepted, visits⟩ := stands.visited
  have received := visits.received (layout.sane root accepted).1 (bonded.roots root accepted)
  have object := (stands.visited.good layout.sane).object part
  obtain ⟨d, b, found, ancestor, invoked⟩ := surrounds.invoked layout bonded received
    (received.within (by simp [part]) object)
  have lookup := State.lookup_of_ancestor (x := "this") (distance.trans found) ancestor
  rw [bonded.this b invoked.bond] at lookup
  refine ⟨site, frames, b, stands, surrounds, invoked, ?_⟩
  simp only [Machine.step, hc, evaluate, lookup]

end This

section Example

/-- A class whose instances keep a function of the constructor that last ran for them. -/
def keeperText : String :=
  "class A \x7b construct() \x7b fun me() \x7b return this; \x7d this.me = me; \x7d \x7d A().construct().me();"

def keeperConstructor : Routine :=
  ⟨⟨"construct", 1⟩, [], [.function ⟨⟨"me", 1⟩, [], [.return 1 (some (.this 0 1))]⟩,
    .expression (.set (.this 1 1) ⟨"me", 1⟩ (.variable 2 ⟨"me", 1⟩))]⟩

def keeperProgram : List Stmt :=
  [.class ⟨⟨"A", 1⟩, none, [keeperConstructor], []⟩,
    .expression (.call (.get (.call (.get (.call (.variable 3 ⟨"A", 1⟩) [] 1) ⟨"construct", 1⟩) [] 1) ⟨"me", 1⟩) [] 1)]

def keeperStart : Machine.State :=
  .start { (Session.withConsole ⟨#[], [], true, .zero⟩).world with
    distances := (Scope.resolve keeperProgram .empty).distances } (.program keeperProgram)

theorem keeper_chronicle (n : Nat) :
    ∃ log t session, Chronicle Host.empty log t (.running session (Machine.run .empty n keeperStart)) := by
  obtain ⟨⟨world, reporter, next⟩, check, rfl, -, -⟩ := @Session.check_program_ok (.withConsole ⟨#[], [], true, .zero⟩)
    keeperText keeperProgram 4 rfl (by cbv) (by cbv) (by cbv)
  have fresh : Chronicle Host.empty _ _ _ := .fresh ⟨#[], [], true, .zero⟩
  obtain ⟨log, t, h⟩ := (fresh.accept check).run n
  exact ⟨log, t, _, h⟩

/-- The constructor is called again as it was read from the instance, in a frame of its own. -/
theorem keeper_again :
    ∃ log t session, Chronicle Host.empty log t (.running session (Machine.run .empty 33 keeperStart)) ∧
      ⟨⟨3⟩, keeperConstructor, ⟨0⟩⟩ ∈ log := by
  obtain ⟨log, t, session, h⟩ := keeper_chronicle 31
  have bonds : (Machine.run .empty 31 keeperStart).bonds .empty = [⟨⟨3⟩, keeperConstructor, ⟨0⟩⟩] := by cbv
  have later := h.step.step
  rw [bonds, ← Machine.run_step, ← Machine.run_step] at later
  exact ⟨_, _, _, later, List.mem_append_right _ (.head _)⟩

theorem calling_keeper (k n : Nat) (working : (Machine.run .empty k keeperStart).control.Working)
    (deeper : ((List.range n).all fun i => decide ((Machine.run .empty k keeperStart).pending.length <
      (Machine.run .empty (i + 1) (Machine.run .empty k keeperStart)).pending.length)) = true) :
    Calling Host.empty (Machine.run .empty k keeperStart)
      (Machine.run .empty (n + 1) (Machine.run .empty k keeperStart)) := by
  apply Machine.calling_run working
  intro i lt
  exact of_decide_eq_true (List.all_eq_true.1 deeper i (List.mem_range.2 lt))

end Example

/-- In every state of every run, a node `this` yields the receiver that the invocation around it was bound to. A call of a
constructor, of the class or of the method as it was read from an instance, yields its instance if it does not fail. -/
theorem this_is_the_receiver {host : Host} (lawful : host.Lawful) :
    (∀ t phase, Life host t phase → ∃ log, Chronicle host log t phase) ∧
    ∀ log t session s, Chronicle host log t (.running session s) →
      (∀ id line, s.control = .evaluate (.this id line) →
        ∃ site frames b, StandsAt t id "this" site ∧ Surrounds t s site frames ∧
          Invoked log t s.store.frames site frames b ∧ Machine.step host s = s.give (.instance b.receiver)) ∧
      (∀ object name rest m receiver, s.control = .value (.instance object) → s.pending = .get name :: rest →
        s.store.property? object name.text = some (.method m receiver) → m.routine.name.text = constructorName →
        ∃ f frame, (Machine.step host s).control = .value (.function f) ∧
          Constructs (s.bonds host ++ log) (Machine.step host s).store (.function f) ⟨frame, m.routine, object⟩) ∧
      (∀ callee arguments site b, s.control = .invoke callee arguments site → Constructs log s.store callee b →
        ∀ u, Calling host s u → u.pending = s.pending → ∀ v, u.control = .value v →
          v = .instance b.receiver ∧ ∃ log' t', Chronicle host log' t' (.running session u) ∧ b ∈ log') := by
  refine ⟨fun t phase life => life.chronicle, fun log t session s chronicle => ⟨?_, ?_, ?_⟩⟩
  · intro id line hc
    obtain ⟨aligned, recorded⟩ := chronicle.life.aligned lawful
    exact aligned.this recorded (chronicle.bonded lawful).store hc
  · intro object name rest m receiver hc hp hm named
    exact Machine.constructs_read (chronicle.bonded lawful).store hc hp hm named
  · intro callee arguments site b hc constructs u calling hp v hv
    obtain ⟨log', t', later, underway⟩ := calling.underway lawful chronicle hc constructs
    obtain ⟨same, bond⟩ := underway.value hp hv
    exact ⟨same, log', t', later, bond⟩

/-- Both calls of the constructor yield the one instance, and so does its function after they have returned. -/
theorem this_is_the_receiver_keeper :
    (∃ log t session s u b, Chronicle Host.empty log t (.running session s) ∧
      s.control = .invoke (.class ⟨2⟩) [] (.script 1) ∧ Constructs log s.store (.class ⟨2⟩) b ∧
      Calling Host.empty s u ∧ u.pending = s.pending ∧ u.control = .value (.instance b.receiver)) ∧
    (∃ log t session s u b, Chronicle Host.empty log t (.running session s) ∧
      s.control = .invoke (.function ⟨3⟩) [] (.script 1) ∧ Constructs log s.store (.function ⟨3⟩) b ∧
      Calling Host.empty s u ∧ u.pending = s.pending ∧ u.control = .value (.instance b.receiver)) ∧
    ∃ log t session s b, Chronicle Host.empty log t (.running session s) ∧ s.control = .evaluate (.this 0 1) ∧
      b ∈ log ∧ Machine.step Host.empty s = s.give (.instance b.receiver) := by
  obtain ⟨-, all⟩ := this_is_the_receiver Host.empty_lawful
  refine ⟨?_, ?_, ?_⟩
  · obtain ⟨log, t, session, chronicle⟩ := keeper_chronicle 12
    have hc : (Machine.run .empty 12 keeperStart).control = .invoke (.class ⟨2⟩) [] (.script 1) := by cbv
    obtain ⟨b, constructs⟩ : ∃ b, Constructs log (Machine.run .empty 12 keeperStart).store (.class ⟨2⟩) b :=
      ⟨_, .create (by cbv) (by cbv)⟩
    have calling := calling_keeper 12 18 (by rw [hc]; trivial) (by cbv)
    have hv : (Machine.run .empty 19 (Machine.run .empty 12 keeperStart)).control = .value (.instance ⟨0⟩) := by cbv
    have hp : (Machine.run .empty 19 (Machine.run .empty 12 keeperStart)).pending =
        (Machine.run .empty 12 keeperStart).pending := by cbv
    obtain ⟨same, -⟩ := (all _ _ _ _ chronicle).2.2 _ _ _ _ hc constructs _ calling hp _ hv
    exact ⟨log, t, session, _, _, _, chronicle, hc, constructs, calling, hp, hv.trans (congrArg _ same)⟩
  · obtain ⟨log, t, session, chronicle, bond⟩ := keeper_again
    have hc : (Machine.run .empty 33 keeperStart).control = .invoke (.function ⟨3⟩) [] (.script 1) := by cbv
    have constructs : Constructs log (Machine.run .empty 33 keeperStart).store (.function ⟨3⟩)
        ⟨⟨3⟩, keeperConstructor, ⟨0⟩⟩ :=
      .again (c := ⟨keeperConstructor, ⟨3⟩, .constructor⟩) (by cbv) bond rfl
    have calling := calling_keeper 33 16 (by rw [hc]; trivial) (by cbv)
    have hv : (Machine.run .empty 17 (Machine.run .empty 33 keeperStart)).control = .value (.instance ⟨0⟩) := by cbv
    have hp : (Machine.run .empty 17 (Machine.run .empty 33 keeperStart)).pending =
        (Machine.run .empty 33 keeperStart).pending := by cbv
    obtain ⟨same, -⟩ := (all _ _ _ _ chronicle).2.2 _ _ _ _ hc constructs _ calling hp _ hv
    exact ⟨log, t, session, _, _, _, chronicle, hc, constructs, calling, hp, hv.trans (congrArg _ same)⟩
  · obtain ⟨log, t, session, chronicle⟩ := keeper_chronicle 56
    have hc : (Machine.run .empty 56 keeperStart).control = .evaluate (.this 0 1) := by cbv
    obtain ⟨site, frames, b, -, -, invoked, step⟩ := (all _ _ _ _ chronicle).1 0 1 hc
    exact ⟨log, t, session, _, b, chronicle, hc, invoked.bond, step⟩

end Scriptlet
