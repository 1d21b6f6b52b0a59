import Scriptlet.Proofs.AddressedValues
import Scriptlet.Proofs.Isolation
import Scriptlet.Proofs.LexerSeam
import Scriptlet.Proofs.ParserExact

/-!
An expression and the program that prints it. The text `print`, the expression and a semicolon on a line of its own has
the tokens of the expression between two more, so its tree is the print statement with the tree of the expression, and
the analysis of the one is that of the other. The machine evaluates the expression as it would on its own, with the
print statement waiting below, and prints what it comes to.
-/
namespace Scriptlet

namespace Machine

variable {host : Host} {s t : State}

/-- Pending work that comes to a value, whatever it waits for. -/
def Pending.GivesValue : Pending → Prop
  | .expression | .print | .var _ | .conditional _ _ | .loopCondition _ _ | .return | .base _ => False
  | .sequence _ | .program _ | .loopBody _ _ | .leave _ => False
  | _ => True

/-- What can be done with nothing pending while an expression is looked at on its own. -/
def Control.OfExpression : Control → Prop
  | .evaluate _ => True
  | control => control.OfCall

/-- An expression on its own: the lowest pending work comes to a value, and no statement is done with nothing pending. -/
abbrev State.Valued : State → Prop := State.Based Pending.GivesValue Control.OfExpression

theorem Control.OfCall.ofExpression {c : Control} (h : c.OfCall) : c.OfExpression := by
  cases c with
  | evaluate e => trivial
  | _ => exact h

theorem State.Alone.valued (h : s.Alone) : s.Valued where
  lowest p last := by
    have ends := h.lowest p last
    cases p with
    | body | constructed | site | nativeCall => trivial
    | _ => exact ends.elim
  control none := (h.control none).ofExpression

theorem evaluate_valued (hp : s.pending = []) (e : Expr) : (evaluate s e).Valued := by
  cases e with
  | literal | group | lambda => exact .of_nil hp trivial
  | «variable» id name | this id line =>
    simp only [evaluate]
    split <;> exact .of_nil hp trivial
  | suffix id name op =>
    simp only [evaluate]
    repeat' split
    all_goals exact .of_nil hp trivial
  | _ => exact .of_one (congrArg _ hp) trivial

/-- The lowest work comes to a value once it gets one. -/
theorem resume_valued (hp : s.pending = []) (v : Value) {p : Pending} (gives : p.GivesValue) :
    (resume s v p).Valued := by
  have answer (line : Nat) (result : Except Fault Value) : (s.answer line result).Valued := by
    cases result <;> exact .of_nil hp trivial
  have arguments (f : Value) (done : List Value) (es : List Expr) (line : Nat) :
      (evaluateArguments s f done es line).Valued := by
    cases es with
    | nil => exact .of_nil hp trivial
    | cons e es => exact .of_one (congrArg _ hp) trivial
  cases p with
  | unary op => exact answer _ _
  | binary left op => exact answer _ _
  | binaryRight | indexObject | body c outside => exact .of_one (congrArg _ hp) trivial
  | callee | arguments => exact arguments _ _ _ _
  | ternary | setField | constructed | site | nativeCall => exact .of_nil hp trivial
  | logical | assign | get | updateField =>
    simp only [resume]
    repeat' split
    all_goals exact .of_nil hp trivial
  | setObject name value =>
    cases v with
    | «instance» r => exact .of_one (congrArg _ hp) trivial
    | _ => exact .of_nil hp trivial
  | updateObject name op value =>
    cases v with
    | «instance» r =>
      simp only [resume]
      split
      · exact .of_one (congrArg _ hp) trivial
      · exact .of_nil hp trivial
    | _ => exact .of_nil hp trivial
  | index object line =>
    cases object with
    | text t => exact answer _ _
    | «instance» r =>
      simp only [resume, subscript]
      split <;> exact .of_nil hp trivial
    | _ => exact .of_nil hp trivial
  | _ => exact gives.elim

/-- The lowest work is on top. -/
theorem valued_last {p : Pending} (hp : s.pending = [p]) (gives : p.GivesValue) (idle : ¬ s.control.Working) :
    (step host s).Valued := by
  cases hc : s.control with
  | value v =>
    simp only [step, hc, hp]
    exact resume_valued rfl v gives
  | flow f =>
    simp only [step, hc, hp]
    cases p with
    | body c outside => exact .of_nil rfl trivial
    | expression | print | var | conditional | loopCondition | «return» | base | sequence | program | loopBody | leave =>
      exact gives.elim
    | _ => exact .of_one rfl trivial
  | raise e =>
    simp only [step, hc, hp]
    cases p <;> exact .of_nil rfl trivial
  | _ =>
    rw [hc] at idle
    exact absurd trivial idle

theorem State.Valued.step (h : s.Valued) : (step host s).Valued := by
  refine h.step_of (fun hp ofExpression => ?_) fun p hp gives idle => valued_last hp gives idle
  cases hc : s.control with
  | evaluate e =>
    simp only [Machine.step, hc]
    exact evaluate_valued hp e
  | invoke callee arguments site =>
    simp only [Machine.step, hc]
    exact (invoke_alone hp callee arguments site).valued
  | enter callee arguments =>
    simp only [Machine.step, hc]
    exact (enter_alone hp callee arguments hc).valued
  | value | raise =>
    simp only [Machine.step, hc, hp]
    exact h
  | _ =>
    rw [hc] at ofExpression
    exact ofExpression.elim

theorem State.Valued.run (h : s.Valued) (n : Nat) : (run host n s).Valued := by
  induction n with
  | zero => exact h
  | succ n ih =>
    rw [run_step]
    exact ih.step

/-- An expression ends in a value or a failure. -/
theorem State.Valued.outcome {o : Outcome} (h : s.Valued) (ended : s.outcome? = some o) :
    s.pending = [] ∧ ((∃ v, o = .value v ∧ s.control = .value v) ∨ ∃ e, o = .failure e ∧ s.control = .raise e) := by
  unfold State.outcome? at ended
  split at ended
  · next v hp hc =>
    cases ended
    exact ⟨hp, .inl ⟨v, rfl, hc⟩⟩
  · next f hp hc =>
    have ofExpression := h.control hp
    rw [hc] at ofExpression
    exact ofExpression.elim
  · next e hp hc =>
    cases ended
    exact ⟨hp, .inr ⟨e, rfl, hc⟩⟩
  · cases ended

end Machine

/-- The world once a line has been printed. -/
def World.printing (w : World) (line : String) : World := { w with console := w.console.print line }

namespace Machine

section Print

variable {host : Host} {w w' : World} {e : Expr} {o o' : Outcome}

/-- What waits while the expression of a print statement is evaluated that is all of a program. -/
def belowPrint : List Pending := [.print, .program []]

/-- What that comes to: a value is printed, a failure goes on. -/
def afterPrint (w : World) : Outcome → World × Outcome
  | .value v => (w.printing (w.store.display v), .flow .normal)
  | o => (w, o)

/-- The program comes to evaluate the expression. -/
theorem leads_print (host : Host) (w : World) (e : Expr) :
    Leads host (.start w (.program [.print e])) ((State.start w (.evaluate e)).under belowPrint) := ⟨2, rfl⟩

theorem finishes_below {t : State} (valued : t.Valued) (ended : t.outcome? = some o) :
    Finishes host (t.under belowPrint) (afterPrint t.toWorld o).1 (afterPrint t.toWorld o).2 := by
  obtain ⟨pending, ⟨v, rfl, control⟩ | ⟨f, rfl, control⟩⟩ := valued.outcome ended
  · have prints : step host (t.under belowPrint) = { t with
        console := t.console.print (t.store.display v), control := .flow .normal, pending := [.program []] } := by
      simp only [step, State.under, control, pending, belowPrint, List.nil_append]
      rfl
    refine ⟨_, ⟨3, rfl⟩, ?_⟩
    rw [run_succ, prints]
    exact ⟨rfl, rfl⟩
  · have raises : step host (t.under belowPrint) = { t with control := .raise f, pending := [.program []] } := by
      simp only [step, State.under, control, pending, belowPrint, List.nil_append]
      rfl
    refine ⟨_, ⟨2, rfl⟩, ?_⟩
    rw [run_succ, raises]
    exact ⟨rfl, rfl⟩

theorem valued_start (w : World) (e : Expr) : (State.start w (.evaluate e)).Valued := .of_nil rfl trivial

/-- An expression does not end in a flow. -/
theorem finishes_evaluate_ne_flow {f : Flow} : ¬ Finishes host (.start w (.evaluate e)) w' (.flow f) := by
  rintro ⟨_, ⟨n, rfl⟩, ended, -⟩
  obtain ⟨-, ⟨v, impossible, -⟩ | ⟨e', impossible, -⟩⟩ := ((valued_start w e).run n).outcome ended <;> cases impossible

/-- Once the expression has come to its end, the program comes to its own. -/
theorem finishes_print {n : Nat} (ended : (run host n (.start w (.evaluate e))).outcome? = some o) :
    Finishes host (.start w (.program [.print e])) (afterPrint (run host n (.start w (.evaluate e))).toWorld o).1
      (afterPrint (run host n (.start w (.evaluate e))).toWorld o).2 := by
  have halted : (run host n (.start w (.evaluate e))).outcome?.isSome = true := by rw [ended, Option.isSome_some]
  obtain ⟨k, -, first, going⟩ := exists_first_outcome halted
  have same := run_ends halted first
  rw [same] at ended ⊢
  have leads : Leads host (.start w (.program [.print e])) ((run host k (.start w (.evaluate e))).under belowPrint) := by
    apply (leads_print host w e).trans
    exact ⟨k, run_under k going⟩
  exact (finishes_of_leads leads).2 (finishes_below ((valued_start w e).run k) ended)

/-- As long as the expression has not come to its end, neither has the program. -/
theorem run_print_unfinished (going : ∀ n, (run host n (.start w (.evaluate e))).outcome? = none) (n : Nat) :
    (run host n (.start w (.program [.print e]))).outcome? = none := by
  have later : (run host (2 + n) (.start w (.program [.print e]))).outcome? = none := by
    have down : run host 2 (.start w (.program [.print e])) = (State.start w (.evaluate e)).under belowPrint := rfl
    rw [run_add, down, run_under n fun m _ => going m]
    exact outcome?_under (List.cons_ne_nil _ _)
  rw [← Option.not_isSome_iff_eq_none]
  intro halted
  rw [Nat.add_comm, run_add, run_halted 2 halted] at later
  rw [later] at halted
  cases halted

/-- The program ends where the expression does, and prints its value. -/
theorem finishes_print_iff : Finishes host (.start w (.program [.print e])) w' o' ↔
    ∃ w₁ o, Finishes host (.start w (.evaluate e)) w₁ o ∧ w' = (afterPrint w₁ o).1 ∧ o' = (afterPrint w₁ o).2 := by
  constructor
  · intro finishes
    by_cases going : ∀ n, (run host n (.start w (.evaluate e))).outcome? = none
    · obtain ⟨_, ⟨n, rfl⟩, ended, -⟩ := finishes
      rw [run_print_unfinished going n] at ended
      cases ended
    · obtain ⟨n, unfinished⟩ := not_forall.1 going
      obtain ⟨o, ended⟩ := Option.ne_none_iff_exists'.1 unfinished
      obtain ⟨outcome, world⟩ := finishes.unique (finishes_print ended)
      exact ⟨_, o, ⟨_, ⟨n, rfl⟩, ended, rfl⟩, world, outcome⟩
  · rintro ⟨_, o, ⟨_, ⟨n, rfl⟩, ended, rfl⟩, rfl, rfl⟩
    exact finishes_print ended

end Print

end Machine

namespace Token

variable {source : String}

/-- The text of the program that prints an expression. -/
def printing (source : String) : String := "print " ++ source ++ "\n;"

theorem pieces_print (cs : List Char) : pieces ("print ".toList ++ cs) =
    ⟨"print".toList, .token (.keyword .print)⟩ :: ⟨[' '], .blank⟩ :: pieces cs := by
  have word : firstPiece 'p' ("rint ".toList ++ cs) = (⟨"print".toList, .token (.keyword .print)⟩, ' ' :: cs) := rfl
  have whole : "print ".toList ++ cs = 'p' :: ("rint ".toList ++ cs) := rfl
  rw [whole, pieces, word, pieces]
  rfl

/-- The text of the program is cut into `print`, the pieces of the expression, and a semicolon. -/
theorem scan_printing (faultless : Item.faults (scan source) = []) (comment : endsInComment source = false) :
    Item.faults (scan (printing source)) = [] ∧ wordsOf (printing source) =
      ⟨.keyword .print, "print", 1⟩ :: wordsOf source ++ [.ofPunct .semicolon (1 + (newlines source.toList + 1))] := by
  have cut : pieces ("print " ++ source).toList =
      ⟨"print".toList, .token (.keyword .print)⟩ :: ⟨[' '], .blank⟩ :: pieces source.toList := by
    rw [String.toList_append]
    exact pieces_print source.toList
  have faultless' : Item.faults (scan ("print " ++ source)) = [] := by
    rw [scan, faults_items] at faultless ⊢
    rw [cut]
    simpa using faultless
  have comment' : endsInComment ("print " ++ source) = false := by
    unfold endsInComment at comment ⊢
    rw [cut]
    cases hp : pieces source.toList with
    | nil => rfl
    | cons p ps =>
      rw [hp] at comment
      rwa [List.getLast?_cons_cons, List.getLast?_cons_cons]
  have text : printing source = "print " ++ source ++ "\n" ++ ";" := by
    rw [printing, String.append_assoc, String.append_assoc, String.append_assoc]
    rfl
  have words : wordsOf ("print " ++ source) = ⟨.keyword .print, "print", 1⟩ :: wordsOf source := by
    rw [wordsOf, cut]
    rfl
  have breaks : newlines ("print " ++ source).toList = newlines source.toList := by
    rw [String.toList_append, newlines_append]
    exact Nat.zero_add _
  have closing : Item.faults (scan ";") = [] := by cbv
  have semicolon : wordsOf ";" = [.ofPunct .semicolon 1] := by cbv
  obtain ⟨none, seam⟩ := scan_seam faultless' closing comment' 0
  rw [text, seam, words, breaks, semicolon]
  exact ⟨none, rfl⟩

end Token

namespace Grammar

open Session (tokensOf)
open Token (wordsOf printing)

variable {source : String} {base next : NodeId} {e : Expr}

/-- The program that prints an expression has its tree and the numbers of its nodes. -/
theorem parse_printing (faultless : Item.faults (Token.scan source) = []) (comment : Token.endsInComment source = false)
    (last : ∀ t, (wordsOf source).getLast? = some t → t.is .semicolon = false)
    (parsed : Parser.parseExpression (tokensOf source) base = ⟨.ok e, next⟩) :
    Parser.parse (tokensOf (printing source)) base = ⟨.ok [.print e], next⟩ := by
  rw [parseExpression_eq_ok, significant_tokensOf] at parsed
  rw [parse_eq_ok, significant_tokensOf, (Token.scan_printing faultless comment).2]
  rcases parsed with derives | ⟨ts, c, whole, semicolon, -⟩
  · have statement := Derives.print (l := false) (c := ⟨.keyword .print, "print", 1⟩) rfl derives
      (e := .ofPunct .semicolon (1 + (Token.newlines source.toList + 1))) rfl
    have program := Derives.moreDeclarations (.statement statement) .noDeclaration
    rwa [List.append_nil] at program
  · have open' := last c (by rw [whole, List.getLast?_concat])
    rw [semicolon] at open'
    cases open'

end Grammar

/-- A print statement is analysed as its expression is. -/
theorem Scope.resolve_print (e : Expr) (distances : Distances) :
    Scope.resolve [.print e] distances = Scope.resolveExpression e distances := by
  have same : Analysis.stmts [.print e] = Analysis.expr e := by
    funext c
    show Analysis.andThen (Analysis.expr e) (fun _ => Analysis.done ()) c = _
    unfold Analysis.andThen
    rcases Analysis.expr e c with ⟨fault | u, c'⟩ <;> rfl
  rw [resolve, resolveExpression, same]

namespace Session

open Machine

variable {host : Host} {s s' : Session} {source : String} {e : Expr} {r : Except Error Value}

/-- The text is run as a program, to its end. -/
def Runs (host : Host) (s : Session) (source : String) (s' : Session) (r : Except Error Value) : Prop :=
  ∃ limit, s.submit host limit .program source = some (s', r)

/-- The session once a line has been printed. -/
def printing (s : Session) (line : String) : Session := { s with world := s.world.printing line }

/-- The expression and the program that prints it get through the checks alike. -/
theorem check_printing (clear : s.reporter.blocked = false) (faultless : Item.faults (Token.scan source) = [])
    (comment : Token.endsInComment source = false)
    (last : ∀ t, (Token.wordsOf source).getLast? = some t → t.is .semicolon = false)
    (accepted : (Parser.parseExpression (tokensOf source) s.nextId).result = .ok e) :
    ∃ s₁, (∃ fault, s.check .expression source = (s₁, .error fault) ∧
        s.check .program (Token.printing source) = (s₁, .error fault)) ∨
      s.check .expression source = (s₁, .ok (.evaluate e)) ∧
        s.check .program (Token.printing source) = (s₁, .ok (.program [.print e])) := by
  obtain ⟨next, parsed⟩ : ∃ next, Parser.parseExpression (tokensOf source) s.nextId = ⟨.ok e, next⟩ :=
    ⟨_, by rw [← accepted]⟩
  have parsed' := Grammar.parse_printing faultless comment last parsed
  rw [check_eq_load clear faultless, load_expression, check_eq_load clear (Token.scan_printing faultless comment).1,
    load_program, parsed, parsed']
  simp only [process, Session.parsed, Scope.resolve_print]
  rcases Session.resolved _ _ with ⟨s₁, fault | u⟩
  · exact ⟨s₁, .inl ⟨fault, rfl, rfl⟩⟩
  · exact ⟨s₁, .inr ⟨rfl, rfl⟩⟩

section Ends

variable {s₁ : Session} (checked : s.check .expression source = (s₁, .ok (.evaluate e)))
  (checked' : s.check .program (Token.printing source) = (s₁, .ok (.program [.print e])))
include checked checked'

theorem print_fails_iff {fault : Error} :
    s.Runs host (Token.printing source) s' (.error fault) ↔ s.Evaluates host source s' (.error fault) := by
  simp only [Runs, Evaluates, submit, checked, checked', perform_iff, start, finishes_print_iff]
  constructor
  · rintro ⟨_, _, ⟨w, o, finishes, rfl, rfl⟩, result⟩
    cases o with
    | failure f => exact ⟨w, .failure f, finishes, result⟩
    | value | flow => cases result
  · rintro ⟨w, o, finishes, result⟩
    cases o with
    | failure f => exact ⟨w, .failure f, ⟨w, .failure f, finishes, rfl, rfl⟩, result⟩
    | value | flow => cases result

theorem print_shows_iff {w : Value} : s.Runs host (Token.printing source) s' (.ok w) ↔
    w = .null ∧ ∃ s₂ v, s.Evaluates host source s₂ (.ok v) ∧ s' = s₂.printing (s₂.store.display v) := by
  simp only [Runs, Evaluates, submit, checked, checked', perform_iff, start, finishes_print_iff]
  constructor
  · rintro ⟨_, _, ⟨w₁, o, finishes, rfl, rfl⟩, result⟩
    cases o with
    | value v =>
      cases result
      exact ⟨rfl, _, v, ⟨w₁, .value v, finishes, rfl⟩, rfl⟩
    | flow f => exact absurd finishes finishes_evaluate_ne_flow
    | failure f => cases result
  · rintro ⟨rfl, _, v, ⟨w₁, o, finishes, result⟩, rfl⟩
    cases o with
    | value =>
      cases result
      exact ⟨_, _, ⟨w₁, .value v, finishes, rfl, rfl⟩, rfl⟩
    | flow f => exact absurd finishes finishes_evaluate_ne_flow
    | failure f => cases result

end Ends

/-- An expression that passes every stage is accepted. -/
theorem check_expression_ok {next : NodeId} (clear : s.reporter.blocked = false)
    (scanned : Item.faults (Token.scan source) = [])
    (parsed : Parser.parseExpression (tokensOf source) s.nextId = ⟨.ok e, next⟩)
    (resolved : (Scope.resolveExpression e s.world.distances).result = .ok ()) :
    ∃ s', s.check .expression source = (s', .ok (.evaluate e)) ∧
      s'.world = { s.world with distances := (Scope.resolveExpression e s.world.distances).distances } ∧
      s'.reporter = s.reporter.warnings ((Scope.resolveExpression e s.world.distances).warnings.map .ofScope) := by
  rw [check_eq_load clear scanned, load_expression, parsed]
  simp only [process, Session.parsed, Session.resolved, resolved]
  exact ⟨_, rfl, rfl, rfl⟩

section Example

/-- An expression that prints a line and leaves a variable unread; it ends in a remark. -/
def echoText : String := "(fun (x) \x7b print x; var a = 'idle'; return x + x; \x7d)('no') // twice"

def echoTree : Expr :=
  .call (.group (.lambda ⟨⟨"fun", 1⟩, [⟨"x", 1⟩],
    [.print (.variable 0 ⟨"x", 1⟩), .var ⟨"a", 1⟩ (some (.literal (.text "idle"))),
      .return 1 (some (.binary (.variable 1 ⟨"x", 1⟩) (.ofPunct .plus 1) (.variable 2 ⟨"x", 1⟩)))]⟩))
    [.literal (.text "no")] 1

theorem scan_echoText : Item.faults (Token.scan echoText) = [] := by cbv

theorem parse_echoText : Parser.parseExpression (tokensOf echoText) 0 = ⟨.ok echoTree, 3⟩ := by cbv

theorem evaluates_echoText (console : Console) :
    ∃ s, (withConsole console).Evaluates Host.empty echoText s (.ok (.text "nono")) ∧
      s.world.console = console.print "no" ∧
      s.reporter.lines = #["[line 1] Warning at 'a': Local variable is never used."] := by
  have passed : (Scope.resolveExpression echoTree .empty).result = .ok () := by cbv
  have reported : (Reporter.empty.warnings ((Scope.resolveExpression echoTree .empty).warnings.map .ofScope)).lines =
      #["[line 1] Warning at 'a': Local variable is never used."] := by cbv
  obtain ⟨s₁, checked, world, reporter⟩ := check_expression_ok (s := withConsole console) rfl scan_echoText
    parse_echoText passed
  have start : s₁.start (.evaluate echoTree) = .start
      ⟨Store.bare.withLibrary, console, (Scope.resolveExpression echoTree .empty).distances⟩ (.evaluate echoTree) := by
    rw [Session.start, world]
    rfl
  have ended : (run Host.empty 40 (s₁.start (.evaluate echoTree))).outcome? = some (.value (.text "nono")) := by
    rw [start]
    cbv
  have shown : (run Host.empty 40 (s₁.start (.evaluate echoTree))).console = console.print "no" := by
    rw [start]
    cbv
  have submitted : (withConsole console).submit Host.empty 40 .expression echoText =
      some (s₁.ended (run Host.empty 40 (s₁.start (.evaluate echoTree))).toWorld (.value (.text "nono"))) := by
    simp only [submit, checked, perform, finish_eq, ended, Option.map_some]
  refine ⟨_, ⟨40, submitted⟩, shown, ?_⟩
  show s₁.reporter.lines = _
  rw [reporter]
  exact reported

end Example

/-- An expression and the program that prints it come through the same checks, fail in the same way, and end in the same
session but for the last line, in which the program shows the value of the expression. -/
theorem evaluate_eq_print (clear : s.reporter.blocked = false) (faultless : Item.faults (Token.scan source) = [])
    (comment : Token.endsInComment source = false)
    (last : ∀ t, (Token.wordsOf source).getLast? = some t → t.is .semicolon = false)
    (accepted : (Parser.parseExpression (tokensOf source) s.nextId).result = .ok e) :
    (s.check .program (Token.printing source)).1 = (s.check .expression source).1 ∧
    (∀ s' fault, s.Runs host (Token.printing source) s' (.error fault) ↔ s.Evaluates host source s' (.error fault)) ∧
    ∀ s' w, s.Runs host (Token.printing source) s' (.ok w) ↔
      w = .null ∧ ∃ s₁ v, s.Evaluates host source s₁ (.ok v) ∧ s' = s₁.printing (s₁.store.display v) := by
  obtain ⟨s₁, ⟨fault, checked, checked'⟩ | ⟨checked, checked'⟩⟩ := check_printing clear faultless comment last accepted
  · simp only [Runs, Evaluates, submit, checked, checked']
    simp
  · rw [checked, checked']
    exact ⟨rfl, fun _ _ => print_fails_iff checked checked', fun _ _ => print_shows_iff checked checked'⟩

/-- The expression prints one line, the program that line and the value; both warn of the variable. -/
theorem evaluate_eq_print_echo : ∃ s₁ s₂,
    (withConsole ⟨#[], [], true, .zero⟩).Evaluates Host.empty echoText s₁ (.ok (.text "nono")) ∧
    s₁.world.console.output = #["no"] ∧
    (withConsole ⟨#[], [], true, .zero⟩).Runs Host.empty (Token.printing echoText) s₂ (.ok .null) ∧
    s₂.world.console.output = #["no", "nono"] ∧
    s₂.reporter.lines = #["[line 1] Warning at 'a': Local variable is never used."] := by
  have ending : (Token.wordsOf echoText).getLast? = some (.ofPunct .rightParen 1) := by cbv
  have last (t : Token) (ht : (Token.wordsOf echoText).getLast? = some t) : t.is .semicolon = false := by
    rw [ending] at ht
    cases ht
    rfl
  obtain ⟨s₁, evaluates, console, lines⟩ := evaluates_echoText ⟨#[], [], true, .zero⟩
  obtain ⟨-, -, shows⟩ := @evaluate_eq_print Host.empty (withConsole ⟨#[], [], true, .zero⟩) echoText echoTree rfl
    scan_echoText (by cbv) last (congrArg Parser.Outcome.result parse_echoText)
  refine ⟨s₁, s₁.printing "nono", evaluates, ?_, (shows _ _).2 ⟨rfl, s₁, _, evaluates, rfl⟩, ?_, lines⟩
  · rw [console]
    rfl
  · show (s₁.world.console.print "nono").output = _
    rw [console]
    rfl

end Session

end Scriptlet
