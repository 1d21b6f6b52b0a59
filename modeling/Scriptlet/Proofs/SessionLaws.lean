import Scriptlet.Session.Basic

/-!
What checking a text does to a session. A text is scanned, parsed and analysed; the first stage that finds errors ends
the check. Whatever the end, the store and the console stay as they are.
-/
namespace Scriptlet.Session

open Machine

variable {s s' : Session}

def tokensOf (source : String) : List Token := Item.tokens (Token.scan source)

/-- The stages after scanning, for any kind of text. -/
def process {α : Type} (s : Session) (outcome : Parser.Outcome α) (analyse : α → Distances → Scope.Report)
    (control : α → Control) : Session × Except Error Control :=
  match s.parsed outcome with
  | (s, .error e) => (s, .error e)
  | (s, .ok tree) =>
    let (s, result) := s.resolved (analyse tree s.world.distances)
    (s, result.map fun _ => control tree)

theorem load_program (s : Session) (tokens : List Token) :
    s.load .program tokens = s.process (Parser.parse tokens s.nextId) Scope.resolve .program := by
  unfold load process
  rcases s.parsed (Parser.parse tokens s.nextId) with ⟨s1, e | program⟩ <;> rfl

theorem load_expression (s : Session) (tokens : List Token) :
    s.load .expression tokens = s.process (Parser.parseExpression tokens s.nextId) Scope.resolveExpression .evaluate := by
  unfold load process
  rcases s.parsed (Parser.parseExpression tokens s.nextId) with ⟨s1, e | e⟩ <;> rfl

theorem parsed_cases {α : Type} {outcome : Parser.Outcome α} {r : Except Error α} (h : s.parsed outcome = (s', r)) :
    s'.world = s.world ∧ s'.nextId = outcome.nextId ∧
      ((∃ e, r = .error e) ∨ ∃ tree, r = .ok tree ∧ outcome.result = .ok tree ∧ s'.reporter = s.reporter) := by
  obtain ⟨result, next⟩ := outcome
  rcases result with (_ | ⟨e, es⟩) | tree
  · cases h
    exact ⟨rfl, rfl, .inl ⟨_, rfl⟩⟩
  · cases h
    exact ⟨rfl, rfl, .inl ⟨_, rfl⟩⟩
  · cases h
    exact ⟨rfl, rfl, .inr ⟨tree, rfl, rfl, rfl⟩⟩

theorem resolved_cases {report : Scope.Report} {r : Except Error Unit} (h : s.resolved report = (s', r)) :
    s'.world = { s.world with distances := report.distances } ∧ s'.nextId = s.nextId ∧
      ((∃ e, r = .error e) ∨ r = .ok () ∧ report.result = .ok ()) := by
  obtain ⟨result, warnings, distances⟩ := report
  cases result with
  | error e =>
    cases h
    exact ⟨rfl, rfl, .inl ⟨_, rfl⟩⟩
  | ok u =>
    cases h
    exact ⟨rfl, rfl, .inr ⟨rfl, rfl⟩⟩

/-- Either there is no tree, or its analysis decides. -/
theorem process_cases {α : Type} {outcome : Parser.Outcome α} {analyse : α → Distances → Scope.Report}
    {control : α → Control} {r : Except Error Control} (h : s.process outcome analyse control = (s', r)) :
    s'.nextId = outcome.nextId ∧
      ((∃ e, r = .error e ∧ s'.world = s.world) ∨
        ∃ tree, outcome.result = .ok tree ∧
          s'.world = { s.world with distances := (analyse tree s.world.distances).distances } ∧
          ((∃ e, r = .error e) ∨ r = .ok (control tree) ∧ (analyse tree s.world.distances).result = .ok ())) := by
  unfold process at h
  cases hp : s.parsed outcome with
  | mk s1 r1 =>
    obtain ⟨world, next, failed | ⟨tree, rfl, parsed, -⟩⟩ := parsed_cases hp
    · obtain ⟨e, rfl⟩ := failed
      simp only [hp] at h
      cases h
      exact ⟨next, .inl ⟨e, rfl, world⟩⟩
    · simp only [hp] at h
      cases hr : s1.resolved (analyse tree s1.world.distances) with
      | mk s2 r2 =>
        obtain ⟨world', next', result⟩ := resolved_cases hr
        simp only [hr] at h
        cases h
        rw [world] at world' result
        refine ⟨next'.trans next, .inr ⟨tree, parsed, world', ?_⟩⟩
        rcases result with ⟨e, rfl⟩ | ⟨rfl, passed⟩
        · exact .inl ⟨e, rfl⟩
        · exact .inr ⟨rfl, passed⟩

/-- A check ends before the text is parsed, or it comes down to the later stages. -/
theorem check_cases {form : Form} {source : String} {r : Except Error Control} (h : s.check form source = (s', r)) :
    (s'.world = s.world ∧ s'.nextId = s.nextId ∧ ∃ e, r = .error e) ∨
      (s.reporter.blocked = false ∧ Item.faults (Token.scan source) = [] ∧ s.load form (tokensOf source) = (s', r)) := by
  unfold check at h
  split at h
  · cases h
    exact .inl ⟨rfl, rfl, _, rfl⟩
  · next hb =>
    unfold scan at h
    cases hf : Item.faults (Token.scan source) with
    | nil =>
      simp only [hf, List.map_nil] at h
      exact .inr ⟨by simpa using hb, rfl, h⟩
    | cons f fs =>
      simp only [hf, List.map_cons] at h
      cases h
      exact .inl ⟨rfl, rfl, _, rfl⟩

/-- A check touches nothing of the world but the distances. -/
theorem check_world {form : Form} {source : String} {r : Except Error Control} (h : s.check form source = (s', r)) :
    s'.world = { s.world with distances := s'.world.distances } := by
  rcases check_cases h with ⟨world, -, -⟩ | ⟨-, -, load⟩
  · rw [world]
  · cases form with
    | program =>
      rw [load_program] at load
      obtain ⟨-, ⟨e, -, world⟩ | ⟨tree, -, world, -⟩⟩ := process_cases load <;> rw [world]
    | expression =>
      rw [load_expression] at load
      obtain ⟨-, ⟨e, -, world⟩ | ⟨tree, -, world, -⟩⟩ := process_cases load <;> rw [world]

theorem outcome_eq {α : Type} {o : Parser.Outcome α} {tree : α} (h : o.result = .ok tree) : o = ⟨.ok tree, o.nextId⟩ := by
  rw [← h]

/-- A text that has passed has been parsed and analysed, and starts as what it is. -/
theorem check_control {form : Form} {source : String} {control : Control} (h : s.check form source = (s', .ok control)) :
    (∃ program, control = .program program ∧ (Parser.parse (tokensOf source) s.nextId).result = .ok program ∧
      (Scope.resolve program s.world.distances).result = .ok ()) ∨
    ∃ e, control = .evaluate e ∧ (Parser.parseExpression (tokensOf source) s.nextId).result = .ok e := by
  rcases check_cases h with ⟨-, -, e, he⟩ | ⟨-, -, hl⟩
  · cases he
  · cases form with
    | program =>
      rw [load_program] at hl
      obtain ⟨-, ⟨e, he, -⟩ | ⟨tree, parsed, -, ⟨e, he⟩ | ⟨he, resolved⟩⟩⟩ := process_cases hl <;> cases he
      exact .inl ⟨tree, rfl, parsed, resolved⟩
    | expression =>
      rw [load_expression] at hl
      obtain ⟨-, ⟨e, he, -⟩ | ⟨tree, parsed, -, ⟨e, he⟩ | ⟨he, -⟩⟩⟩ := process_cases hl <;> cases he
      exact .inr ⟨tree, rfl, parsed⟩

/-- Without open errors and faults of its own a text comes down to the later stages. -/
theorem check_eq_load {source : String} (clear : s.reporter.blocked = false) (scanned : Item.faults (Token.scan source) = [])
    (form : Form) : s.check form source = s.load form (tokensOf source) := by
  rw [check, scan, scanned, clear]
  rfl

/-- A program that passes every stage is accepted. -/
theorem check_program_ok {source : String} {program : List Stmt} {next : NodeId} (clear : s.reporter.blocked = false)
    (scanned : Item.faults (Token.scan source) = [])
    (parsed : Parser.parse (tokensOf source) s.nextId = ⟨.ok program, next⟩)
    (resolved : (Scope.resolve program s.world.distances).result = .ok ()) :
    ∃ s', s.check .program source = (s', .ok (.program program)) ∧
      s'.world = { s.world with distances := (Scope.resolve program s.world.distances).distances } ∧
      s'.nextId = next ∧ s'.reporter =
        s.reporter.warnings ((Scope.resolve program s.world.distances).warnings.map .ofScope) := by
  rw [check_eq_load clear scanned, load_program, parsed]
  simp only [process, Session.parsed, Session.resolved, resolved]
  exact ⟨_, rfl, rfl, rfl, rfl⟩

end Scriptlet.Session
