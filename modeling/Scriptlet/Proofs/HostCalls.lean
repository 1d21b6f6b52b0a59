import Scriptlet.Proofs.AddressedValues
import Scriptlet.Proofs.Isolation
import Scriptlet.Proofs.Operations

/-!
Calls by a host agree with calls in a text. Once its callee and its arguments are known, the two calls make the same
steps; a call in a text has its site below it, which passes a value on and gives a native fault the line of the call.
-/
namespace Scriptlet

open Token (IsIdentifier)

/-- A native fault that has come to a line of a program. -/
def Error.at (line : Nat) : Error → Error
  | .native message => .runtime line message
  | e => e

theorem Error.ofFailure_at (line : Nat) (e : Failure) : Error.ofFailure (e.at line) = (Error.ofFailure e).at line := by
  cases e <;> rfl

namespace Machine

variable {host : Host} {s : State} {w : World} {o : Outcome}

/-- What the site of a call makes of its outcome. -/
def Outcome.at (line : Nat) : Outcome → Outcome
  | .failure e => .failure (e.at line)
  | o => o

/-- What a session tells of an outcome. -/
def Outcome.result : Outcome → Except Error Value
  | .value v => .ok v
  | .flow _ => .ok .null
  | .failure e => .error (.ofFailure e)

theorem Outcome.result_at (line : Nat) (o : Outcome) : (o.at line).result = o.result.mapError (Error.at line) := by
  cases o with
  | failure e => exact congrArg Except.error (Error.ofFailure_at line e)
  | _ => rfl

theorem State.Alone.run (h : s.Alone) (n : Nat) : (Machine.run host n s).Alone := by
  induction n with
  | zero => exact h
  | succ n ih =>
    rw [run_step]
    exact ih.step

/-- The end of a call is handed to its site. -/
theorem leads_site (host : Host) (line : Nat) (h : s.Alone) (outcome : s.outcome? = some o) :
    ∃ t, Leads host (s.under [.site line]) t ∧ t.outcome? = some (o.at line) ∧ t.toWorld = s.toWorld := by
  refine ⟨_, .of_step rfl, ?_⟩
  obtain ⟨pending, ⟨v, control⟩ | ⟨e, control⟩⟩ := h.outcome (by rw [outcome, Option.isSome_some])
  · simp only [State.outcome?, pending, control, Option.some.injEq] at outcome
    subst outcome
    simp only [step, State.under, pending, control]
    exact ⟨rfl, rfl⟩
  · simp only [State.outcome?, pending, control, Option.some.injEq] at outcome
    subst outcome
    simp only [step, State.under, pending, control]
    exact ⟨rfl, rfl⟩

/-- A call at a site ends when the call on its own does. -/
theorem finishes_site {line : Nat} (h : s.Alone) :
    Finishes host (s.under [.site line]) w o ↔ ∃ o', Finishes host s w o' ∧ o = o'.at line := by
  by_cases ends : ∃ n, (run host n s).outcome?.isSome = true
  · -- up to the first moment at which the call is over, both make the same steps
    obtain ⟨n, ended⟩ := ends
    obtain ⟨k, -, halted, going⟩ := exists_first_outcome ended
    obtain ⟨o', outcome⟩ := Option.isSome_iff_exists.1 halted
    obtain ⟨t, leads, handed, world⟩ := leads_site host line (h.run k) outcome
    have sited : Leads host (s.under [.site line]) t := Leads.trans ⟨_, run_under k going⟩ leads
    have own : Leads host s (run host k s) := ⟨_, rfl⟩
    simp only [finishes_of_leads sited, finishes_of_leads own, finishes_of_outcome handed, finishes_of_outcome outcome,
      world]
    constructor
    · rintro ⟨rfl, rfl⟩
      exact ⟨o', ⟨rfl, rfl⟩, rfl⟩
    · rintro ⟨o'', ⟨rfl, rfl⟩, rfl⟩
      exact ⟨rfl, rfl⟩
  · have going (m : Nat) : (run host m s).outcome? = none :=
      Option.not_isSome_iff_eq_none.1 fun halted => ends ⟨m, halted⟩
    constructor
    · rintro ⟨t, ⟨n, rfl⟩, outcome, -⟩
      rw [run_under n fun m _ => going m, outcome?_under (List.cons_ne_nil _ _)] at outcome
      cases outcome
    · rintro ⟨o', ⟨t, ⟨n, rfl⟩, outcome, -⟩, -⟩
      rw [going n] at outcome
      cases outcome

section Invoke

variable {callee : Value} {arguments : List Value} {line : Nat} (hp : s.pending = [])
include hp

/-- A call that is entered ends in a text as it does for a host, but for the line that native faults get. -/
theorem finishes_invoke_entered {c : Callee} (found : s.store.callee? callee = some c)
    (fits : arguments.length = c.arity) :
    Finishes host (s.go (.invoke callee arguments (.script line))) w o ↔
      ∃ o', Finishes host (s.go (.invoke callee arguments .host)) w o' ∧ o = o'.at line := by
  have enters : Leads host (s.go (.invoke callee arguments .host)) (s.go (.enter c arguments)) := by
    refine .of_step ?_
    simp only [step, State.go, invoke, found, if_pos fits]
  have sited : Leads host (s.go (.invoke callee arguments (.script line)))
      ((s.go (.enter c arguments)).under [.site line]) := by
    refine .of_step ?_
    simp only [step, State.go, invoke, found, if_pos fits, State.push, State.under, hp, List.nil_append]
  have alone : (s.go (.enter c arguments)).Alone := .of_nil hp trivial
  simp only [finishes_of_leads sited, finishes_of_leads enters, finishes_site alone]

theorem finishes_invoke_result {c : Callee} (found : s.store.callee? callee = some c)
    (fits : arguments.length = c.arity) {r : Except Error Value} :
    (∃ o, Finishes host (s.go (.invoke callee arguments (.script line))) w o ∧ o.result = r) ↔
      ∃ r', (∃ o, Finishes host (s.go (.invoke callee arguments .host)) w o ∧ o.result = r') ∧
        r = r'.mapError (Error.at line) := by
  simp only [finishes_invoke_entered hp found fits]
  constructor
  · rintro ⟨_, ⟨o, finishes, rfl⟩, rfl⟩
    exact ⟨o.result, ⟨o, finishes, rfl⟩, o.result_at line⟩
  · rintro ⟨_, ⟨o, finishes, rfl⟩, rfl⟩
    exact ⟨_, ⟨o, finishes, rfl⟩, o.result_at line⟩

/-- A call that is not entered fails, whoever makes it. -/
theorem finishes_invoke_refused {site : Site}
    (refused : ∀ c, s.store.callee? callee = some c → arguments.length ≠ c.arity)
    (finishes : Finishes host (s.go (.invoke callee arguments site)) w o) : ∃ e, o = .failure e := by
  have raises : ∃ e, step host (s.go (.invoke callee arguments site)) = s.go (.raise e) := by
    rcases found : s.store.callee? callee with _ | c
    · simp only [step, State.go, invoke, found]
      cases site <;> exact ⟨_, rfl⟩
    · have other := refused c found
      simp only [step, State.go, invoke, found]
      cases site <;> exact ⟨_, if_neg other⟩
  obtain ⟨e, raised⟩ := raises
  have outcome : (s.go (.raise e)).outcome? = some (.failure e) := by simp only [State.go, State.outcome?, hp]
  rw [finishes_of_leads (.of_step raised), finishes_of_outcome outcome] at finishes
  exact ⟨e, finishes.1⟩

/-- A call yields a value in a text if it yields this value for a host. -/
theorem finishes_invoke_ok {v : Value} :
    (∃ o, Finishes host (s.go (.invoke callee arguments (.script line))) w o ∧ o.result = .ok v) ↔
      ∃ o, Finishes host (s.go (.invoke callee arguments .host)) w o ∧ o.result = .ok v := by
  by_cases entered : ∃ c, s.store.callee? callee = some c ∧ arguments.length = c.arity
  · obtain ⟨c, found, fits⟩ := entered
    rw [finishes_invoke_result hp found fits]
    constructor
    · rintro ⟨r', finishes, same⟩
      cases r' with
      | ok v' =>
        cases same
        exact finishes
      | error e => cases same
    · intro finishes
      exact ⟨.ok v, finishes, rfl⟩
  · have refused : ∀ c, s.store.callee? callee = some c → arguments.length ≠ c.arity :=
      fun c found fits => entered ⟨c, found, fits⟩
    have none (site : Site) : ¬ ∃ o, Finishes host (s.go (.invoke callee arguments site)) w o ∧ o.result = .ok v := by
      rintro ⟨o, finishes, result⟩
      obtain ⟨e, rfl⟩ := finishes_invoke_refused hp refused finishes
      cases result
    exact iff_of_false (none _) (none _)

end Invoke

end Machine

namespace Session

open Machine

variable {host : Host} {s s' s0 : Session} {address : String} {r : Except Error Value} {w : World}

theorem ended_eq (s : Session) (w : World) (o : Outcome) :
    (s.ended w o).1.world = w ∧ (s.ended w o).2 = o.result := by
  cases o <;> exact ⟨rfl, rfl⟩

/-- The worlds and results in which work can end do not depend on what else a session has. -/
theorem exists_ended {p : World → Outcome → Prop} :
    (∃ s', (∃ w o, p w o ∧ s.ended w o = (s', r)) ∧ s'.world = w) ↔ ∃ o, p w o ∧ o.result = r := by
  constructor
  · rintro ⟨s', ⟨w', o, ho, ended⟩, rfl⟩
    obtain ⟨world, result⟩ := s.ended_eq w' o
    rw [ended] at world result
    cases world
    exact ⟨o, ho, result.symm⟩
  · rintro ⟨o, ho, rfl⟩
    obtain ⟨world, result⟩ := s.ended_eq w o
    exact ⟨_, ⟨w, o, ho, Prod.ext rfl result⟩, world⟩

/-- A host calls what stands at an address, and the call comes to its end. -/
def Calls (host : Host) (s : Session) (address : String) (arguments : List Value) (s' : Session)
    (r : Except Error Value) : Prop :=
  ∃ limit, s.operate host limit (.call (.address address) arguments) = (s', some r)

theorem settle_eq_some {ended : Option (Session × Except Error Value)} {meanwhile : Session} :
    settle ended meanwhile = (s', some r) ↔ ended = some (s', r) := by
  rcases ended with _ | ⟨s1, r1⟩ <;> simp [settle]

section Calls

variable {arguments : List Value} {callee : Value}

/-- What a host calls is what it reads at the address. -/
theorem calls_iff (got : s.get address = (s0, .ok callee)) :
    (∃ s', s.Calls host address arguments s' r ∧ s'.world = w) ↔
      ∃ o, Finishes host (s0.start (.invoke callee arguments .host)) w o ∧ o.result = r := by
  simp only [Calls, operate, aim, got, settle_eq_some, call, perform_iff]
  exact exists_ended

theorem not_calls {e : Error} (missing : s.get address = (s0, .error e)) (v : Value) :
    ¬ s.Calls host address arguments s' (.ok v) := by
  simp only [Calls, operate, aim, missing]
  rintro ⟨limit, result⟩
  cases result

variable (reachable : s.Reachable host) (clear : s.reporter.blocked = false)
  (names : ∀ name ∈ Address.segments address, IsIdentifier name) {gs : List String} (hgs : ∀ g ∈ gs, IsIdentifier g)
  (held : List.Forall₂ (fun g v => s.store.frames.fetch Store.globals g = some v) gs arguments)
  (few : gs.length ≤ 255)
include reachable clear names hgs held few

/-- A call in a text calls what a host reads at the address, in what the address has made of the store. -/
theorem evaluates_call_iff (got : s.get address = (s0, .ok callee)) :
    (∃ s', s.Evaluates host (address ++ "(" ++ ", ".intercalate gs ++ ")") s' r ∧ s'.world = w) ↔
      ∃ o, Finishes host (s0.start (.invoke callee arguments (.script 1))) w o ∧ o.result = r := by
  obtain ⟨first, rest, whole, -⟩ := Address.exists_segments address
  obtain ⟨s1, checked, world⟩ := check_call clear names whole hgs few
  obtain ⟨ok, -⟩ := leads_call host (s := s.start (.evaluate (.call (Address.tree s.nextId first rest)
    (argumentTrees (s.nextId + 1) gs) 1))) rfl (reachable.unset (Nat.le_refl _))
    (fun id hid => reachable.unset (Nat.le_of_succ_le hid)) held
  rcases s.get_cases names with ⟨v, store, found, got'⟩ | ⟨fault, e, missing, got'⟩
  · cases got.symm.trans got'
    rw [whole] at found
    simp only [evaluates_iff checked world (ok callee store found)]
    exact exists_ended
  · cases got.symm.trans got'

theorem not_evaluates_call {e : Error} (missing : s.get address = (s0, .error e)) (v : Value) :
    ¬ s.Evaluates host (address ++ "(" ++ ", ".intercalate gs ++ ")") s' (.ok v) := by
  obtain ⟨first, rest, whole, -⟩ := Address.exists_segments address
  obtain ⟨s1, checked, world⟩ := check_call clear names whole hgs few
  obtain ⟨-, error⟩ := leads_call host (s := s.start (.evaluate (.call (Address.tree s.nextId first rest)
    (argumentTrees (s.nextId + 1) gs) 1))) rfl (reachable.unset (Nat.le_refl _))
    (fun id hid => reachable.unset (Nat.le_of_succ_le hid)) held
  rcases s.get_cases names with ⟨v, store, found, got⟩ | ⟨fault, e', failed, got⟩
  · cases missing.symm.trans got
  · rw [whole] at failed
    obtain ⟨t, e, leads, raised⟩ := error fault failed
    exact evaluates_failure checked world leads raised v

end Calls

end Session

open Machine in
/-- A host that calls what stands at an address does what the call does as an expression, with globals for its
arguments: both yield the same value or neither yields one, and they leave the same world behind. If the callee is
entered, their failures agree too; only a native fault has the line of the call in the one and no line in the other. -/
theorem call_eq_expression {host : Host} {s : Session} (reachable : s.Reachable host)
    (clear : s.reporter.blocked = false) {address : String}
    (names : ∀ name ∈ Address.segments address, IsIdentifier name) {gs : List String} {arguments : List Value}
    (identifiers : ∀ g ∈ gs, IsIdentifier g)
    (held : List.Forall₂ (fun g v => s.store.frames.fetch Store.globals g = some v) gs arguments)
    (few : gs.length ≤ 255) :
    let text := address ++ "(" ++ ", ".intercalate gs ++ ")"
    (∀ v w, (∃ s', s.Calls host address arguments s' (.ok v) ∧ s'.world = w) ↔
      ∃ s', s.Evaluates host text s' (.ok v) ∧ s'.world = w) ∧
    ∀ s0 callee c, s.get address = (s0, .ok callee) → s0.store.callee? callee = some c → arguments.length = c.arity →
      ∀ r w, (∃ s', s.Evaluates host text s' r ∧ s'.world = w) ↔
        ∃ r', (∃ s', s.Calls host address arguments s' r' ∧ s'.world = w) ∧ r = r'.mapError (Error.at 1) := by
  intro text
  constructor
  · intro v w
    rcases got : s.get address with ⟨s0, e | callee⟩
    · refine iff_of_false ?_ ?_
      · rintro ⟨s', calls, -⟩
        exact Session.not_calls got v calls
      · rintro ⟨s', evaluates, -⟩
        exact Session.not_evaluates_call reachable clear names identifiers held few got v evaluates
    · rw [Session.calls_iff got, Session.evaluates_call_iff reachable clear names identifiers held few got]
      exact (finishes_invoke_ok (s := s0.start (.value callee)) rfl).symm
  · intro s0 callee c got found fits r w
    rw [Session.evaluates_call_iff reachable clear names identifiers held few got]
    simp only [Session.calls_iff got]
    exact finishes_invoke_result (s := s0.start (.value callee)) rfl found fits

section Example

open Machine

def showingText : String := "fun show(x) \x7b print x.value; \x7d var items = List();"

def showingProgram : List Stmt :=
  [.function ⟨⟨"show", 1⟩, [⟨"x", 1⟩], [.print (.get (.variable 0 ⟨"x", 1⟩) ⟨"value", 1⟩)]⟩,
    .var ⟨"items", 1⟩ (some (.call (.variable 1 ⟨"List", 1⟩) [] 1))]

/-- A world with a box after the declarations of a function that shows what is in one, and of a list. -/
def showingWorld : World :=
  (run Host.empty 20 (.start { boxSession.world with distances := Distances.empty.insert 0 0 }
    (.program showingProgram))).toWorld

theorem exists_showing :
    ∃ s : Session, s.Reachable Host.empty ∧ s.reporter.blocked = false ∧ s.world = showingWorld := by
  have parsed : Parser.parse (Session.tokensOf showingText) 0 = ⟨.ok showingProgram, 2⟩ := by cbv
  have resolved : (Scope.resolve showingProgram .empty).result = .ok () := by cbv
  have distances : (Scope.resolve showingProgram .empty).distances = Distances.empty.insert 0 0 := by cbv
  obtain ⟨s', takes, -⟩ := Session.exists_takes (s := boxSession) rfl (by cbv) parsed resolved
  have start : s'.start (.program showingProgram) =
      .start { boxSession.world with distances := Distances.empty.insert 0 0 } (.program showingProgram) := by
    rw [Session.start, takes.world, ← distances]
    rfl
  have ran : boxSession.submit Host.empty 20 .program showingText = some ({ s' with world := showingWorld }, .ok .null) := by
    simp only [Session.submit, takes.check, Session.perform, start]
    rfl
  exact ⟨_, (boxSession_reachable _).submit ran, takes.clear, rfl⟩

theorem showing_calls {s : Session} (world : s.world = showingWorld) {address : String} {callee : Value}
    (read : Address.read showingWorld.store address = .ok (callee, showingWorld.store)) {arguments : List Value}
    {o : Outcome}
    (outcome : (run Host.empty 20 (.start showingWorld (.invoke callee arguments .host))).outcome? = some o) :
    s.get address = (s, .ok callee) ∧ ∃ s', s.Calls Host.empty address arguments s' o.result ∧
      s'.world = (run Host.empty 20 (.start showingWorld (.invoke callee arguments .host))).toWorld := by
  have store : s.store = showingWorld.store := congrArg World.store world
  have got : s.get address = (s, .ok callee) := by
    rw [← store] at read
    rw [Session.get, read]
    rfl
  refine ⟨got, (Session.calls_iff got).2 ⟨o, ⟨_, ⟨20, rfl⟩, ?_⟩, rfl⟩⟩
  rw [Session.start, world]
  exact ⟨outcome, rfl⟩

/-- A call that prints, and one in which a native fails: an expression tells its line. -/
theorem call_eq_expression_showing : ∃ s : Session, s.Reachable Host.empty ∧
    (∃ w, w.console.output = #["one"] ∧
      (∃ s', s.Calls Host.empty "show" [.instance ⟨0⟩] s' (.ok .null) ∧ s'.world = w) ∧
      ∃ s', s.Evaluates Host.empty "show(box)" s' (.ok .null) ∧ s'.world = w) ∧
    ∃ w message,
      (∃ s', s.Calls Host.empty "items.at" [.text "two"] s' (.error (.native message)) ∧ s'.world = w) ∧
      ∃ s', s.Evaluates Host.empty "items.at(spare)" s' (.error (.runtime 1 message)) ∧ s'.world = w := by
  obtain ⟨s, reachable, clear, world⟩ := exists_showing
  have held {g : String} {v : Value} (h : showingWorld.store.frames.fetch Store.globals g = some v) :
      List.Forall₂ (fun g v => s.store.frames.fetch Store.globals g = some v) [g] [v] := by
    rw [Session.store, world]
    exact .cons h .nil
  have show' : ∀ name ∈ Address.segments "show", IsIdentifier name := by
    rw [show Address.segments "show" = ["show"] by cbv, List.forall_mem_singleton]
    cbv
  have items : ∀ name ∈ Address.segments "items.at", IsIdentifier name := by
    rw [show Address.segments "items.at" = ["items", "at"] by cbv, List.forall_mem_cons, List.forall_mem_singleton]
    exact ⟨by cbv, by cbv⟩
  have box : ∀ g ∈ ["box"], IsIdentifier g := by
    rw [List.forall_mem_singleton]
    cbv
  have spare : ∀ g ∈ ["spare"], IsIdentifier g := by
    rw [List.forall_mem_singleton]
    cbv
  have readShow : Address.read showingWorld.store "show" = .ok (.function ⟨2⟩, showingWorld.store) := rfl
  have readItems : Address.read showingWorld.store "items.at" = .ok (.function ⟨4⟩, showingWorld.store) := rfl
  have shown : (run Host.empty 20 (.start showingWorld (.invoke (.function ⟨2⟩) [.instance ⟨0⟩] .host))).outcome? =
      some (.value .null) := rfl
  have failed : (run Host.empty 20 (.start showingWorld (.invoke (.function ⟨4⟩) [.text "two"] .host))).outcome? =
      some (.failure (.native (.listIndex "two"))) := rfl
  obtain ⟨-, shows⟩ := showing_calls world readShow shown
  obtain ⟨got, fails⟩ := showing_calls world readItems failed
  obtain ⟨same, -⟩ := call_eq_expression reachable clear show' box (held rfl) (by decide)
  obtain ⟨-, entered⟩ := call_eq_expression reachable clear items spare (held rfl) (by decide)
  refine ⟨s, reachable, ⟨_, ?_, shows, ?_⟩, _, _, fails, ?_⟩
  · rfl
  · exact (same .null _).1 shows
  · have found : s.store.callee? (.function ⟨4⟩) = some (.function (.native ⟨"at", 1, .list .at ⟨0⟩⟩)) := by
      rw [Session.store, world]
      rfl
    exact (entered s _ _ got found rfl _ _).2 ⟨_, fails, rfl⟩

end Example

end Scriptlet
