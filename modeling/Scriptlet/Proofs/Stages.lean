import Scriptlet.Proofs.Operations
import Scriptlet.Proofs.ParserBudget

/-!
The stages of a check. A session without open errors scans a text, parses its tokens and analyses the tree; the first
stage that finds errors reports all of them and fails with the first. `check_stages` says for every text which of the
four ends the check comes to.
-/
namespace Scriptlet.Session

open Machine

/-- The trees that a kind of text has. -/
def Form.Tree : Form → Type
  | .program => List Stmt
  | .expression => Expr

def Form.parse : (form : Form) → List Token → NodeId → Parser.Outcome form.Tree
  | .program => Parser.parse
  | .expression => Parser.parseExpression

def Form.resolve : (form : Form) → form.Tree → Distances → Scope.Report
  | .program => Scope.resolve
  | .expression => Scope.resolveExpression

def Form.control : (form : Form) → form.Tree → Control
  | .program => .program
  | .expression => .evaluate

theorem load_eq_process (s : Session) (form : Form) (tokens : List Token) :
    s.load form tokens = s.process (form.parse tokens s.nextId) form.resolve form.control := by
  cases form with
  | program => exact load_program s tokens
  | expression => exact load_expression s tokens

theorem Form.parse_result_ne (form : Form) (tokens : List Token) (base : NodeId) :
    (form.parse tokens base).result ≠ .error [] := by
  cases form with
  | program => exact Parser.parse_result_ne tokens base
  | expression => exact Parser.parseExpression_result_ne tokens base

/-- The session once a tree has been analysed. -/
def analysed (s : Session) (next : NodeId) (report : Scope.Report) : Session where
  world := { s.world with distances := report.distances }
  reporter := s.reporter.warnings (report.warnings.map .ofScope)
  nextId := next

variable {s : Session} {form : Form} {source : String}

/-- What becomes of a text: one of three stages refuses it, or it is ready to run. -/
theorem check_stages (clear : s.reporter.blocked = false) (form : Form) (source : String) :
    (∃ line fault more, Item.faults (Token.scan source) = (line, fault) :: more ∧
      s.check form source = s.fail (.ofLex line fault) (more.map fun (line, fault) => .ofLex line fault)) ∨
    (Item.faults (Token.scan source) = [] ∧
      ((∃ e es, (form.parse (tokensOf source) s.nextId).result = .error (e :: es) ∧
        s.check form source =
          { s with nextId := (form.parse (tokensOf source) s.nextId).nextId }.fail (.ofParse e) (es.map .ofParse)) ∨
      ∃ tree, (form.parse (tokensOf source) s.nextId).result = .ok tree ∧
        ((∃ e, (form.resolve tree s.world.distances).result = .error e ∧
          s.check form source = (s.analysed (form.parse (tokensOf source) s.nextId).nextId
            (form.resolve tree s.world.distances)).fail (.ofResolve e) []) ∨
        ((form.resolve tree s.world.distances).result = .ok () ∧
          s.check form source = (s.analysed (form.parse (tokensOf source) s.nextId).nextId
            (form.resolve tree s.world.distances), .ok (form.control tree)))))) := by
  cases scanned : Item.faults (Token.scan source) with
  | cons f fs =>
    obtain ⟨line, fault⟩ := f
    refine .inl ⟨line, fault, fs, rfl, ?_⟩
    rw [check, clear, scan, scanned]
    rfl
  | nil =>
    refine .inr ⟨rfl, ?_⟩
    have loaded := (check_eq_load clear scanned form).trans (load_eq_process s form (tokensOf source))
    have some_fault := form.parse_result_ne (tokensOf source) s.nextId
    rw [loaded, process, parsed]
    rcases hp : (form.parse (tokensOf source) s.nextId).result with (_ | ⟨e, es⟩) | tree
    · exact absurd hp some_fault
    · exact .inl ⟨e, es, rfl, rfl⟩
    · refine .inr ⟨tree, rfl, ?_⟩
      dsimp only
      rw [resolved]
      rcases hr : (form.resolve tree s.world.distances).result with e | u
      · exact .inl ⟨e, rfl, rfl⟩
      · exact .inr ⟨rfl, rfl⟩

theorem check_of_blocked (h : s.reporter.blocked = true) (form : Form) (source : String) :
    s.check form source = (s, .error .pending) := by
  rw [check, if_pos h]

end Scriptlet.Session
