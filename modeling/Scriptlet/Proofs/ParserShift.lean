import Scriptlet.Ast.Parser
import Scriptlet.Proofs.Relabel

/-!
Numbers that start elsewhere. A parser that begins with a higher number does the same, faults included, and gives the
same tree with all numbers higher by as much.
-/
namespace Scriptlet

namespace Parser

variable {α β γ δ : Type} {g : α → β} {k : Nat}

def State.raise (k : Nat) (s : State) : State := { s with nextId := s.nextId + k }

def Result.raise (k : Nat) (g : α → β) : Result α → Result β
  | .ok a s => .ok (g a) (s.raise k)
  | .error e s => .error e (s.raise k)
  | .exhausted => .exhausted

/-- From numbers that are higher by `k` on, `p'` does what `p` does, with results changed by `g`. -/
def Raised (k : Nat) (g : α → β) (p : Parser α) (p' : Parser β) : Prop := ∀ s, p' (s.raise k) = (p s).raise k g

theorem Raised.bind {h : γ → δ} {p : Parser α} {p' : Parser β} {f : α → Parser γ} {f' : β → Parser δ}
    (hp : Raised k g p p') (hf : ∀ a, Raised k h (f a) (f' (g a))) : Raised k h (p >>= f) (p' >>= f') := by
  intro s
  change andThen p' f' (s.raise k) = (andThen p f s).raise k h
  unfold andThen
  rw [hp s]
  cases p s with
  | ok a t => exact hf a t
  | error e t => rfl
  | exhausted => rfl

theorem raised_pure {a : α} {b : β} (h : b = g a) : Raised k g (pure a) (pure b) := fun _ => h ▸ rfl

theorem raised_exhausted : Raised k g exhausted exhausted := fun _ => rfl

theorem raised_fail (place : Place) (fault : Fault) : Raised k g (fail place fault) (fail place fault) :=
  fun _ => rfl

theorem Raised.ite {p q : Parser α} {p' q' : Parser β} {c : Prop} [Decidable c] (yes : Raised k g p p')
    (no : Raised k g q q') : Raised k g (if c then p else q) (if c then p' else q') := by
  split
  · exact yes
  · exact no

/-- Two branches with a common continuation. -/
theorem Raised.branch {h : γ → δ} {p q : Parser α} {p' q' : Parser β} {f : α → Parser γ} {f' : β → Parser δ}
    {c : Prop} [Decidable c] (yes : Raised k g p p') (no : Raised k g q q') (later : ∀ a, Raised k h (f a) (f' (g a))) :
    Raised k h (if c then p >>= f else q >>= f) (if c then p' >>= f' else q' >>= f') :=
  .ite (yes.bind later) (no.bind later)

theorem Raised.some {p : Parser α} {p' : Parser β} (h : Raised k g p p') :
    Raised k (Option.map g) (Option.some <$> p) (Option.some <$> p') :=
  h.bind fun _ => raised_pure rfl

theorem raised_none : Raised k (Option.map g) (pure none) (pure none) := raised_pure rfl

/-- From higher numbers on, the parser does the same with results changed by `g`. -/
abbrev Raises (k : Nat) (g : α → α) (p : Parser α) : Prop := Raised k g p p

/-- The parser has nothing to do with numbers. -/
abbrev Unnumbered (p : Parser α) : Prop := ∀ k, Raises k id p

theorem unnumbered_note (place : Place) (fault : Fault) : Unnumbered (note place fault) := fun _ _ => rfl

theorem unnumbered_place : Unnumbered Parser.place := fun _ _ => rfl

/-- A limit that is exceeded is noted. -/
theorem Raised.limit {p : Parser α} {p' : Parser β} {c : Prop} [Decidable c] (fault : Fault)
    (h : Raised k g p p') : Raised k g (if c then Parser.place >>= fun place => note place fault >>= fun _ => p else p)
      (if c then Parser.place >>= fun place => note place fault >>= fun _ => p' else p') :=
  .ite ((unnumbered_place k).bind fun _ => (unnumbered_note _ _ k).bind fun _ => h) h

theorem raised_freshId : Raises k (· + k) freshId := by
  intro s
  simp only [freshId, State.raise, Result.raise, Nat.add_right_comm]

theorem unnumbered_loopDepth : Unnumbered loopDepth := fun _ _ => rfl

theorem unnumbered_atEnd : Unnumbered atEnd := fun _ _ => rfl

theorem unnumbered_next (p : Punct) : Unnumbered (next p) := fun _ _ => rfl

theorem unnumbered_takeAs? (f : Token → Option α) : Unnumbered (takeAs? f) := by
  intro k s
  simp only [takeAs?, State.raise]
  split
  · rfl
  · split <;> rfl

theorem Raised.takeAs? {t : Token → Option γ} {f : Option γ → Parser α} {f' : Option γ → Parser β}
    (taken : ∀ a, Raised k g (f (.some a)) (f' (.some a))) (missed : Raised k g (f none) (f' none)) :
    Raised k g (takeAs? t >>= f) (takeAs? t >>= f') := by
  refine (unnumbered_takeAs? t k).bind fun a => ?_
  cases a with
  | some a => exact taken a
  | none => exact missed

theorem unnumbered_accept (p : Punct) : Unnumbered (accept p) := fun k =>
  (unnumbered_takeAs? _ k).bind fun _ => raised_pure rfl

theorem unnumbered_acceptKeyword (w : Keyword) : Unnumbered (acceptKeyword w) := fun k =>
  (unnumbered_takeAs? _ k).bind fun _ => raised_pure rfl

theorem Raised.accept {p : Punct} {f : Bool → Parser α} {f' : Bool → Parser β}
    (taken : Raised k g (f true) (f' true)) (missed : Raised k g (f false) (f' false)) :
    Raised k g (accept p >>= f) (accept p >>= f') := by
  refine (unnumbered_accept p k).bind fun b => ?_
  cases b with
  | true => exact taken
  | false => exact missed

theorem Raised.acceptKeyword {w : Keyword} {f : Bool → Parser α} {f' : Bool → Parser β}
    (taken : Raised k g (f true) (f' true)) (missed : Raised k g (f false) (f' false)) :
    Raised k g (acceptKeyword w >>= f) (acceptKeyword w >>= f') := by
  refine (unnumbered_acceptKeyword w k).bind fun b => ?_
  cases b with
  | true => exact taken
  | false => exact missed

theorem raised_unexpected (fault : Fault) :
    Raised k g (do fail (← Parser.place) fault) (do fail (← Parser.place) fault) :=
  (unnumbered_place k).bind fun _ => raised_fail _ _

theorem unnumbered_expect (p : Punct) (fault : Fault) : Unnumbered (expect p fault) := fun _ =>
  .takeAs? (fun _ => raised_pure rfl) (raised_unexpected fault)

theorem unnumbered_expectName (fault : Fault) : Unnumbered (expectName fault) := fun _ =>
  .takeAs? (fun _ => raised_pure rfl) (raised_unexpected fault)

theorem Raised.withLoopDepth {p : Parser α} {p' : Parser β} (change : Nat → Nat) (hp : Raised k g p p') :
    Raised k g (withLoopDepth change p) (withLoopDepth change p') := by
  intro s
  have inner := hp { s with loopDepth := change s.loopDepth }
  unfold Parser.withLoopDepth
  change (match p' (State.raise k { s with loopDepth := change s.loopDepth }) with
    | .ok value t => _
    | .error e t => _
    | .exhausted => _) = _
  rw [inner]
  cases p { s with loopDepth := change s.loopDepth } <;> rfl

theorem unnumbered_acceptNamedFunction : Unnumbered acceptNamedFunction := by
  intro k s
  simp only [acceptNamedFunction, State.raise]
  split
  · split <;> rfl
  · rfl

theorem unnumbered_loopControl (t : Token) (w : Keyword) : Unnumbered (loopControl t w) := by
  intro k
  have close : Raises k id (do let _ ← expect .semicolon (.loopControlEnd w); pure ()) :=
    (unnumbered_expect _ _ k).bind fun _ => raised_pure rfl
  exact (unnumbered_loopDepth k).bind fun d => .ite ((unnumbered_note _ _ k).bind fun _ => close) close

theorem unnumbered_parameters (n count : Nat) : Unnumbered (parameters n count) := by
  intro k
  induction n generalizing count with
  | zero => exact raised_exhausted
  | succ n ih =>
    unfold parameters
    exact .limit _ ((unnumbered_expectName _ k).bind fun _ =>
      .accept ((ih _).bind fun _ => raised_pure rfl) (raised_pure rfl))

theorem unnumbered_recover : Unnumbered recover := by
  intro k s
  simp only [recover, State.raise]
  split <;> rfl

/-- Trees with numbers higher by `k`. -/
abbrev higher (k : Nat) : Relabeling := .renumber (· + k)

theorem higher_node (level : Level) (left : Expr) (op : Token) (right : Expr) :
    level.node ((higher k).expr left) op ((higher k).expr right) = (higher k).expr (level.node left op right) := by
  cases level <;> rfl

theorem raised_updateTarget? (target : Expr) (op : Token) (value : Expr) :
    Raised k (Option.map (higher k).expr) (updateTarget? target op value)
      (updateTarget? ((higher k).expr target) op ((higher k).expr value)) := by
  cases target with
  | «variable» id name => exact raised_freshId.bind fun _ => raised_pure rfl
  | get object name => exact raised_pure rfl
  | _ => exact raised_pure rfl

/-- The parsers of one level, from numbers that are higher by `k`. -/
structure Raising (k n : Nat) : Prop where
  expression : Raises k (higher k).expr (expression n)
  commaTail : ∀ left, Raised k (higher k).expr (commaTail n left) (commaTail n ((higher k).expr left))
  assignment : Raises k (higher k).expr (assignment n)
  ternary : Raises k (higher k).expr (ternary n)
  operand : ∀ levels, Raises k (higher k).expr (operand n levels)
  operandTail : ∀ level tighter left,
    Raised k (higher k).expr (operandTail n level tighter left) (operandTail n level tighter ((higher k).expr left))
  unary : Raises k (higher k).expr (unary n)
  suffixed : Raises k (higher k).expr (suffixed n)
  call : Raises k (higher k).expr (call n)
  callTail : ∀ e, Raised k (higher k).expr (callTail n e) (callTail n ((higher k).expr e))
  arguments : ∀ count, Raises k (List.map (higher k).expr) (arguments n count)
  primary : Raises k (higher k).expr (primary n)
  routine : ∀ role, Raises k (higher k).routine (routine n role)
  routineRest : ∀ name role, Raises k (higher k).routine (routineRest n name role)
  block : Raises k (List.map (higher k).stmt) (block n)
  members : Raises k (Prod.map (List.map (higher k).routine) (List.map (higher k).routine)) (members n)
  declaration : Raises k (higher k).stmt (declaration n)
  statement : Raises k (higher k).stmt (statement n)
  condition : ∀ keyword, Raises k (higher k).expr (condition n keyword)

section Succ

variable {n : Nat} (ih : Raising k n)

include ih

theorem Raising.assignment_succ : Raises k (higher k).expr (Parser.assignment (n + 1)) := by
  refine ih.ternary.bind fun target => .takeAs? (fun equals => ?_) (.takeAs? (fun compound => ?_) (raised_pure rfl))
  · refine ih.assignment.bind fun value => ?_
    cases target with
    | «variable» id name => exact raised_freshId.bind fun _ => raised_pure rfl
    | get object name => exact raised_pure rfl
    | _ => exact (unnumbered_note _ _ k).bind fun _ => raised_pure rfl
  · refine ih.assignment.bind fun value => (raised_updateTarget? _ _ _).bind fun e => ?_
    cases e with
    | some e => exact raised_pure rfl
    | none => exact raised_fail _ _

theorem Raising.unary_succ : Raises k (higher k).expr (Parser.unary (n + 1)) := by
  refine .takeAs? (fun op => ih.unary.bind fun _ => raised_pure rfl) (.takeAs? (fun step => ?_) ih.suffixed)
  refine ih.suffixed.bind fun target => (raised_updateTarget? _ _ (.literal (.number .one))).bind fun e => ?_
  cases e with
  | some e => exact raised_pure rfl
  | none => exact raised_fail _ _

theorem Raising.suffixed_succ : Raises k (higher k).expr (Parser.suffixed (n + 1)) := by
  refine ih.call.bind fun target => .takeAs? (fun op => ?_) (raised_pure rfl)
  cases target with
  | «variable» id name => exact raised_freshId.bind fun _ => raised_pure rfl
  | _ => exact raised_fail _ _

theorem Raising.callTail_succ (e : Expr) :
    Raised k (higher k).expr (Parser.callTail (n + 1) e) (Parser.callTail (n + 1) ((higher k).expr e)) := by
  refine .accept ?_ (.accept ?_ (.accept ?_ (raised_pure rfl)))
  · refine (unnumbered_next _ k).bind fun empty =>
      .branch (g := List.map (higher k).expr) (raised_pure rfl) (ih.arguments 0) fun es => ?_
    refine (unnumbered_expect _ _ k).bind fun c => ?_
    have rest := ih.callTail (.call e es c.line)
    rw [Relabeling.expr, Relabeling.exprs_eq_map] at rest
    exact rest
  · exact (unnumbered_expectName _ k).bind fun name => ih.callTail (.get e name)
  · exact ih.expression.bind fun position => (unnumbered_expect _ _ k).bind fun close =>
      ih.callTail (.index e position close.line)

theorem Raising.arguments_succ (count : Nat) : Raises k (List.map (higher k).expr) (Parser.arguments (n + 1) count) := by
  unfold Parser.arguments
  exact .limit _ (ih.assignment.bind fun _ => .accept ((ih.arguments _).bind fun _ => raised_pure rfl) (raised_pure rfl))

theorem Raising.primary_succ : Raises k (higher k).expr (Parser.primary (n + 1)) := by
  refine .takeAs? (fun value => raised_pure rfl) (.takeAs? (fun this => ?_) (.takeAs? (fun name => ?_)
    (.accept ?_ (.takeAs? (fun word => ?_) (raised_unexpected _)))))
  · exact raised_freshId.bind fun _ => raised_pure rfl
  · exact raised_freshId.bind fun _ => raised_pure rfl
  · exact ih.expression.bind fun _ => (unnumbered_expect _ _ k).bind fun _ => raised_pure rfl
  · exact (ih.routineRest _ _).bind fun _ => raised_pure rfl

theorem Raising.routineRest_succ (name : Name) (role : Role) :
    Raises k (higher k).routine (Parser.routineRest (n + 1) name role) := by
  refine (unnumbered_expect _ _ k).bind fun _ => (unnumbered_next _ k).bind fun empty =>
    .branch (g := id) (raised_pure rfl) (unnumbered_parameters n 0 k) fun params => ?_
  refine (unnumbered_expect _ _ k).bind fun _ => (unnumbered_expect _ _ k).bind fun _ =>
    (ih.block.withLoopDepth _).bind fun body => raised_pure ?_
  have same : params.map (higher k).name = params := List.map_id params
  rw [Relabeling.routine, Relabeling.stmts_eq_map, same]
  rfl

theorem Raising.block_succ : Raises k (List.map (higher k).stmt) (Parser.block (n + 1)) :=
  (unnumbered_next _ k).bind fun _ => (unnumbered_atEnd k).bind fun _ =>
    .ite ((unnumbered_expect _ _ k).bind fun _ => raised_pure rfl)
      (ih.declaration.bind fun _ => ih.block.bind fun _ => raised_pure rfl)

theorem Raising.members_succ :
    Raises k (Prod.map (List.map (higher k).routine) (List.map (higher k).routine)) (Parser.members (n + 1)) :=
  (unnumbered_next _ k).bind fun _ => (unnumbered_atEnd k).bind fun _ =>
    .ite ((unnumbered_expect _ _ k).bind fun _ => raised_pure rfl)
      (.acceptKeyword ((ih.routine _).bind fun _ => ih.members.bind fun _ => raised_pure rfl)
        ((ih.routine _).bind fun _ => ih.members.bind fun _ => raised_pure rfl))

theorem Raising.declaration_succ : Raises k (higher k).stmt (Parser.declaration (n + 1)) := by
  refine .acceptKeyword ?_ ((unnumbered_acceptNamedFunction k).bind fun named => .ite ?_ (.acceptKeyword ?_ ih.statement))
  · refine (unnumbered_expectName _ k).bind fun name => (unnumbered_accept _ k).bind fun colon =>
      .branch ih.call.some raised_none fun base => ?_
    refine (unnumbered_expect _ _ k).bind fun _ => ih.members.bind fun members => raised_pure ?_
    rw [Relabeling.stmt, Relabeling.declaration, Relabeling.optional_eq_map, Relabeling.routines_eq_map,
      Relabeling.routines_eq_map]
    rfl
  · exact (ih.routine _).bind fun _ => raised_pure rfl
  · refine (unnumbered_expectName _ k).bind fun name => (unnumbered_accept _ k).bind fun equal =>
      .branch ih.expression.some raised_none fun initial => ?_
    refine (unnumbered_expect _ _ k).bind fun _ => raised_pure ?_
    rw [Relabeling.stmt, Relabeling.optional_eq_map]
    rfl

theorem Raising.statement_succ : Raises k (higher k).stmt (Parser.statement (n + 1)) := by
  refine .acceptKeyword ?_ (.acceptKeyword ?_ (.takeAs? (fun word => ?_) (.takeAs? (fun word => ?_)
    (.takeAs? (fun word => ?_) (.accept ?_ (.acceptKeyword ?_ ?_))))))
  · refine (ih.condition _).bind fun e => ih.statement.bind fun yes => (unnumbered_acceptKeyword _ k).bind fun other =>
      .branch ih.statement.some raised_none fun no => raised_pure ?_
    rw [Relabeling.stmt, Relabeling.branch_eq_map]
  · exact (ih.condition _).bind fun _ => (ih.statement.withLoopDepth _).bind fun _ => raised_pure rfl
  · refine (unnumbered_next _ k).bind fun empty => .branch raised_none ih.expression.some fun value => ?_
    refine (unnumbered_expect _ _ k).bind fun _ => raised_pure ?_
    rw [Relabeling.stmt, Relabeling.optional_eq_map]
    rfl
  · exact (unnumbered_loopControl _ _ k).bind fun _ => raised_pure rfl
  · exact (unnumbered_loopControl _ _ k).bind fun _ => raised_pure rfl
  · refine ih.block.bind fun body => raised_pure ?_
    rw [Relabeling.stmt, Relabeling.stmts_eq_map]
  · exact ih.expression.bind fun _ => (unnumbered_expect _ _ k).bind fun _ => raised_pure rfl
  · exact ih.expression.bind fun _ => (unnumbered_expect _ _ k).bind fun _ => raised_pure rfl

end Succ

theorem raising (k n : Nat) : Raising k n := by
  induction n with
  | zero =>
    constructor
    all_goals intros
    all_goals exact raised_exhausted
  | succ n ih =>
    constructor
    case expression => exact ih.assignment.bind fun _ => ih.commaTail _
    case commaTail =>
      intro left
      exact .takeAs? (fun op => ih.assignment.bind fun right => ih.commaTail (.binary left op right)) (raised_pure rfl)
    case assignment => exact ih.assignment_succ
    case ternary =>
      refine (ih.operand _).bind fun condition => .accept ?_ (raised_pure rfl)
      exact ih.ternary.bind fun _ => (unnumbered_expect _ _ k).bind fun _ => ih.ternary.bind fun _ => raised_pure rfl
    case operand =>
      intro levels
      cases levels with
      | nil => exact ih.unary
      | cons level tighter => exact (ih.operand _).bind fun left => ih.operandTail level tighter left
    case operandTail =>
      intro level tighter left
      refine .takeAs? (fun op => (ih.operand _).bind fun right => ?_) (raised_pure rfl)
      have rest := ih.operandTail level tighter (level.node left op right)
      rw [← higher_node] at rest
      exact rest
    case unary => exact ih.unary_succ
    case suffixed => exact ih.suffixed_succ
    case call => exact ih.primary.bind fun e => ih.callTail e
    case callTail => exact ih.callTail_succ
    case arguments => exact ih.arguments_succ
    case primary => exact ih.primary_succ
    case routine => exact fun role => (unnumbered_expectName _ k).bind fun name => ih.routineRest name role
    case routineRest => exact ih.routineRest_succ
    case block => exact ih.block_succ
    case members => exact ih.members_succ
    case declaration => exact ih.declaration_succ
    case statement => exact ih.statement_succ
    case condition =>
      exact fun keyword => (unnumbered_expect _ _ k).bind fun _ => ih.expression.bind fun _ =>
        (unnumbered_expect _ _ k).bind fun _ => raised_pure rfl

theorem raised_declaration? (k n : Nat) : Raises k (Option.map (higher k).stmt) (declaration? n) := by
  intro s
  unfold declaration?
  rw [(raising k n).declaration s]
  cases declaration n s with
  | ok x t => rfl
  | error e t =>
    have skip : Raises k (Option.map (higher k).stmt) (do note e.place e.fault; recover; return none) :=
      (unnumbered_note _ _ k).bind fun _ => (unnumbered_recover k).bind fun _ => raised_pure rfl
    exact skip t
  | exhausted => rfl

theorem raised_program (k n : Nat) : Raises k (higher k).stmts (program n) := by
  induction n with
  | zero => exact raised_exhausted
  | succ n ih =>
    refine (unnumbered_atEnd k).bind fun done => .ite (raised_pure rfl) ?_
    refine (raised_declaration? k n).bind fun x? => ih.bind fun rest => raised_pure ?_
    simp only [Relabeling.stmts_eq_map, List.map_append]
    cases x? <;> rfl

theorem raised_wholeExpression (k n : Nat) : Raises k (higher k).expr (wholeExpression n) :=
  (raising k n).expression.bind fun _ => (unnumbered_accept _ k).bind fun _ => (unnumbered_atEnd k).bind fun _ =>
    .limit _ (raised_pure rfl)

/-- What a parser makes of a text from a higher number on. -/
def Outcome.raise (k : Nat) (g : α → α) (o : Outcome α) : Outcome α := ⟨o.result.map g, o.nextId + k⟩

theorem run_raise {p : Nat → Parser α} {g : α → α} (h : ∀ n, Raises k g (p n)) (tokens : List Token) (base : NodeId) :
    run p tokens (base + k) = (run p tokens base).raise k g := by
  have whole := h (budget tokens) (.start tokens base)
  unfold run
  change (match p (budget tokens) (State.raise k (.start tokens base)) with
    | .ok value s => _
    | .error e s => _
    | .exhausted => _) = _
  rw [whole]
  cases p (budget tokens) (.start tokens base) with
  | ok a s =>
    simp only [Result.raise, State.raise, Outcome.raise]
    split <;> rfl
  | error e s => rfl
  | exhausted => rfl

theorem parse_raise (tokens : List Token) (base : NodeId) :
    parse tokens (base + k) = (parse tokens base).raise k (higher k).stmts :=
  run_raise (raised_program k) tokens base

theorem parseExpression_raise (tokens : List Token) (base : NodeId) :
    parseExpression tokens (base + k) = (parseExpression tokens base).raise k (higher k).expr :=
  run_raise (raised_wholeExpression k) tokens base

end Parser

end Scriptlet
