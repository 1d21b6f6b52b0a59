import Scriptlet.Proofs.TwinSessions

/-!
Texts that are refused before they run. All that such a text leaves in a session is reports, and that some numbers have
been given out; once the session is reset, nothing that a host does from then on can tell.
-/
namespace Scriptlet

open Machine

/-- The error arose before anything was run. -/
def Error.isStatic : Error → Bool
  | .lex _ _ | .parse _ _ | .resolve _ _ => true
  | _ => false

/-- What a host gets to know of an operation: its result, the lines printed meanwhile, and the lines reported. -/
structure Observation where
  result : Option (Except Error Value)
  printed : List String
  reported : List String

namespace Session

/-- What a host sees of operations, each with its limit of steps. -/
def observe (host : Host) (s : Session) : List (Operation × Nat) → List Observation
  | [] => []
  | (op, limit) :: ops =>
    let (s', result) := s.operate host limit op
    ⟨result, s'.world.console.output.toList.drop s.world.console.output.size,
      s'.reporter.lines.toList.drop s.reporter.lines.size⟩ :: observe host s' ops

variable {host : Host} {s s' : Session}

/-- Operations that answer alike look alike, if what comes after them does. -/
theorem Answers.observe {base : NodeId} {k : Nat} {ls ls' : List String} {op op' : Operation} {limit limit' : Nat}
    {ops : List (Operation × Nat)}
    (h : Answers base k ls ls' (s.operate host limit op) (s'.operate host limit' op'))
    (console : s'.world.console = s.world.console) (reporter : s.reporter.Twin ls ls' s'.reporter)
    (later : (s'.operate host limit' op').1.observe host ops = (s.operate host limit op).1.observe host ops) :
    s'.observe host ((op', limit') :: ops) = s.observe host ((op, limit) :: ops) := by
  obtain ⟨χ, world⟩ := h.session.world
  simp only [Session.observe, h.result, console, world.console, reporter.reported h.session.reporter, later]

theorem Twin.observe (lawful : host.Lawful) (oblivious : host.Oblivious) {base : NodeId} {k : Nat} {ls ls' : List String}
    (h : Twin base k ls ls' s s') (ops : List (Operation × Nat)) : s'.observe host ops = s.observe host ops := by
  induction ops generalizing s s' with
  | nil => rfl
  | cons op ops ih =>
    obtain ⟨op, limit⟩ := op
    have answers := h.operate lawful oblivious limit op
    obtain ⟨χ, world⟩ := h.world
    exact answers.observe world.console h.reporter (ih answers.session)

/-- Machines do not fail with an error of an earlier stage. -/
theorem check_of_static {limit : Nat} {form : Form} {source : String} {e : Error}
    (h : s.submit host limit form source = some (s', .error e)) (static : e.isStatic = true) :
    s.check form source = (s', .error e) := by
  unfold submit at h
  rcases hc : s.check form source with ⟨s₁, e₁ | control⟩ <;> rw [hc] at h
  · cases h
    rfl
  · unfold perform finish at h
    dsimp only at h
    split at h
    · cases h
    · cases h
    · next failure _ =>
      cases failure <;> cases h <;> cases static
    · cases h

/-- A session after a refused text and a reset, against the session before. -/
theorem twin_of_refused (lawful : host.Lawful) (reachable : s.Reachable host) (clear : s.reporter.blocked = false)
    {form : Form} {source : String} {e : Error} (check : s.check form source = (s', .error e)) :
    Twin s.nextId (s'.nextId - s.nextId) s.reporter.lines.toList s'.reporter.lines.toList s s'.reset := by
  obtain ⟨t, life⟩ := reachable
  obtain ⟨layout, recorded⟩ := life.aligned lawful
  obtain ⟨-, recorded'⟩ := (Life.refuse life check).aligned lawful
  obtain ⟨le, kept⟩ := check_numbers s form source
  rw [check] at le kept
  have world : s'.world = { s.world with distances := s'.world.distances } := check_world check
  have next : s'.nextId = s.nextId + (s'.nextId - s.nextId) := (Nat.add_sub_of_le le).symm
  have moved : Moved s.nextId (s'.nextId - s.nextId) s.world.distances s'.world.distances := by
    apply Moved.of_unset kept recorded.unset
    rw [← next]
    exact recorded'.unset
  have store : s.store.Twin (.skip s.nextId (s'.nextId - s.nextId)) .none s.store :=
    .self layout recorded fun id lt => if_pos lt
  have flags : s.reporter.hadError = false ∧ s.reporter.hadRuntimeError = false := by
    simpa [Reporter.blocked] using clear
  refine ⟨⟨.none, ?_, ?_, moved.fits⟩, next, Nat.le_refl _, ⟨[], by simp, by simp [Session.reset, Reporter.reset]⟩, ?_, ?_⟩
  · have same : s'.world.store = s.world.store := by rw [world]
    change s.world.store.Twin _ _ s'.world.store
    rw [same]
    exact store
  · change s'.world.console = s.world.console
    rw [world]
  · exact flags.1.symm
  · exact flags.2.symm

/-- A text that declares a name twice, once it has given the first one a distance. -/
def clashingText : String := "\x7b var a = 'one'; print a; var a = 'two'; \x7d"

def clashingProgram : List Stmt :=
  [.block [.var ⟨"a", 1⟩ (some (.literal (.text "one"))), .print (.variable 0 ⟨"a", 1⟩),
    .var ⟨"a", 1⟩ (some (.literal (.text "two")))]]

end Session

end Scriptlet
