import Mathlib
import Scriptlet.Proofs.ParserBudget
import Scriptlet.Proofs.ParserLaws
import Scriptlet.Proofs.ParserRecipes
import Scriptlet.Proofs.ParserShift

/-!
A semicolon ends what can go wrong. Where no brace opens, no parser but that of a whole statement takes a semicolon, so
until then all parsers do the same whatever comes after it, and recovery stops right behind it at the latest. Hence the
faults of a list of tokens that starts with such a statement are those of the statement and those of the rest.
-/
namespace Scriptlet.Parser

/-- Tokens up to a semicolon, without another one or an opening brace before it. -/
inductive Simple : List Token → Prop where
  | close {t : Token} : t.kind = .punct .semicolon → Simple [t]
  | cons {t : Token} {ts : List Token} : t.kind ≠ .punct .semicolon → t.kind ≠ .punct .leftBrace → Simple ts →
      Simple (t :: ts)

theorem Simple.ne_nil {ts : List Token} (simple : Simple ts) : ts ≠ [] := by
  rintro rfl
  cases simple

/-- The same state with more tokens behind those that are left. -/
def State.followedBy (more : List Token) (line : Nat) (s : State) : State :=
  { s with rest := s.rest ++ more, endLine := line }

variable {α β : Type}

def Result.followedBy (more : List Token) (line : Nat) : Result α → Result α
  | .ok a s => .ok a (s.followedBy more line)
  | .error e s => .error e (s.followedBy more line)
  | .exhausted => .exhausted

/-- After a success the tokens that are left are in `Q`; a fault occurs before the semicolon. -/
def Result.Stops (Q : List Token → Prop) : Result α → Prop
  | .ok _ s => Q s.rest
  | .error _ s => Simple s.rest
  | .exhausted => True

/-- No tokens are left. -/
abbrev Done (ts : List Token) : Prop := ts = []

abbrev Never (_ : List Token) : Prop := False

/-- From tokens in `P` the parser comes to tokens in `Q`, and does the same if more tokens follow. -/
def Tame (P Q : List Token → Prop) (p : Parser α) : Prop :=
  ∀ s : State, P s.rest → (p s).Stops Q ∧
    ∀ more line, Misses (·.isKeyword .else) more → p (s.followedBy more line) = (p s).followedBy more line

variable {P Q R : List Token → Prop} {p : Parser α} {f : α → Parser β}

theorem Tame.bind (first : Tame P Q p) (later : ∀ a, Tame Q R (f a)) : Tame P R (p >>= f) := by
  intro s hs
  obtain ⟨stops, same⟩ := first s hs
  change (andThen p f s).Stops R ∧ ∀ more line, Misses (·.isKeyword .else) more →
    andThen p f (s.followedBy more line) = (andThen p f s).followedBy more line
  unfold andThen
  cases hp : p s with
  | ok a t =>
    rw [hp] at stops same
    obtain ⟨stops', same'⟩ := later a t stops
    refine ⟨stops', fun more line misses => ?_⟩
    rw [same more line misses]
    exact same' more line misses
  | error e t =>
    rw [hp] at stops same
    refine ⟨stops, fun more line misses => ?_⟩
    rw [same more line misses]
    rfl
  | exhausted =>
    rw [hp] at same
    refine ⟨trivial, fun more line misses => ?_⟩
    rw [same more line misses]
    rfl

theorem Tame.ite {q : Parser α} {c : Prop} [Decidable c] (yes : Tame P Q p) (no : Tame P Q q) :
    Tame P Q (if c then p else q) := by
  split
  · exact yes
  · exact no

/-- Two branches with a common continuation. -/
theorem Tame.branch {q : Parser α} {c : Prop} [Decidable c] (yes : Tame P Q p) (no : Tame P Q q)
    (later : ∀ a, Tame Q R (f a)) : Tame P R (if c then p >>= f else q >>= f) :=
  .ite (yes.bind later) (no.bind later)

theorem tame_pure (a : α) : Tame P P (pure a) := fun _ h => ⟨h, fun _ _ _ => rfl⟩

theorem tame_never : Tame Never Q p := fun _ h => h.elim

theorem tame_exhausted : Tame P Q (exhausted : Parser α) := fun _ _ => ⟨trivial, fun _ _ _ => rfl⟩

theorem tame_fail (place : Place) (fault : Fault) : Tame Simple Q (fail place fault : Parser α) :=
  fun _ h => ⟨h, fun _ _ _ => rfl⟩

theorem tame_freshId : Tame P P freshId := fun _ h => ⟨h, fun _ _ _ => rfl⟩

theorem tame_loopDepth : Tame P P loopDepth := fun _ h => ⟨h, fun _ _ _ => rfl⟩

theorem tame_note (place : Place) (fault : Fault) : Tame P P (note place fault) := fun _ h => ⟨h, fun _ _ _ => rfl⟩

theorem Tame.withLoopDepth (change : Nat → Nat) (h : Tame P Q p) : Tame P Q (withLoopDepth change p) := by
  intro s hs
  obtain ⟨stops, same⟩ := h { s with loopDepth := change s.loopDepth } hs
  unfold Parser.withLoopDepth
  constructor
  · cases hp : p { s with loopDepth := change s.loopDepth } with
    | exhausted => trivial
    | _ =>
      rw [hp] at stops
      exact stops
  · intro more line misses
    change (match p (State.followedBy more line { s with loopDepth := change s.loopDepth }) with
      | .ok value t => _
      | .error e t => _
      | .exhausted => _) = _
    rw [same more line misses]
    cases p { s with loopDepth := change s.loopDepth } <;> rfl

section Tokens

variable {t : Token} {q : Punct} {k : Keyword}

theorem is_semicolon (h : t.kind = .punct .semicolon) (other : q ≠ .semicolon) : t.is q = false := by
  simpa [Token.is, h] using other.symm

theorem isKeyword_semicolon (h : t.kind = .punct .semicolon) : t.isKeyword k = false := by
  simp [Token.isKeyword, h]

theorem has_semicolon (h : t.kind = .punct .semicolon) (level : Level) : level.has t = false := by
  cases level <;> simp [Level.has, Token.is, Token.isKeyword, h]

end Tokens

/-- The next token is the semicolon, with nothing behind it, or some token before it that is no opening brace. -/
theorem Tame.take {g : Token → Option α} {f : Option α → Parser β}
    (close : ∀ t a, t.kind = .punct .semicolon → g t = some a → Tame Done Q (f (some a)))
    (inside : ∀ t a, t.kind ≠ .punct .semicolon → t.kind ≠ .punct .leftBrace → g t = some a →
      Tame Simple Q (f (some a)))
    (missed : Tame Simple Q (f none)) : Tame Simple Q (takeAs? g >>= f) := by
  rintro ⟨rest, line, id, depth, noted⟩ (simple : Simple rest)
  change (andThen (takeAs? g) f _).Stops Q ∧ ∀ more line', Misses (·.isKeyword .else) more →
    andThen (takeAs? g) f _ = (andThen (takeAs? g) f _).followedBy more line'
  have missed := missed ⟨rest, line, id, depth, noted⟩ simple
  cases simple with
  | @close t semicolon =>
    simp only [andThen, takeAs?, State.followedBy, List.cons_append]
    cases hg : g t with
    | some a => exact close t a semicolon hg ⟨[], line, id, depth, noted⟩ rfl
    | none => exact missed
  | @cons t ts semicolon brace simple =>
    simp only [andThen, takeAs?, State.followedBy, List.cons_append]
    cases hg : g t with
    | some a => exact inside t a semicolon brace hg ⟨ts, line, id, depth, noted⟩ simple
    | none => exact missed

/-- A parser that leaves the semicolon alone. -/
theorem Tame.takeAs? {g : Token → Option α} {f : Option α → Parser β}
    (spared : ∀ t : Token, t.kind = .punct .semicolon → g t = none) (taken : ∀ a, Tame Simple Q (f (some a)))
    (missed : Tame Simple Q (f none)) : Tame Simple Q (takeAs? g >>= f) := by
  refine .take (fun t a ht hg => ?_) (fun _ a _ _ _ => taken a) missed
  rw [spared t ht] at hg
  cases hg

theorem tame_next (q : Punct) : Tame Simple Simple (next q) := by
  rintro ⟨rest, line', id, depth, noted⟩ (simple : Simple rest)
  obtain ⟨t, ts, rfl⟩ := List.exists_cons_of_ne_nil simple.ne_nil
  exact ⟨simple, fun _ _ _ => rfl⟩

theorem tame_place : Tame Simple Simple Parser.place := by
  rintro ⟨rest, line', id, depth, noted⟩ (simple : Simple rest)
  obtain ⟨t, ts, rfl⟩ := List.exists_cons_of_ne_nil simple.ne_nil
  exact ⟨simple, fun _ _ _ => rfl⟩

/-- A limit that is exceeded is noted. -/
theorem Tame.limit {c : Prop} [Decidable c] (fault : Fault) (h : Tame Simple Q p) :
    Tame Simple Q (if c then Parser.place >>= fun place => note place fault >>= fun _ => p else p) :=
  .ite (tame_place.bind fun _ => (tame_note _ _).bind fun _ => h) h

theorem tame_namedFunction : Tame Simple Simple acceptNamedFunction := by
  rintro ⟨rest, line', id, depth, noted⟩ (simple : Simple rest)
  cases simple with
  | @close t semicolon =>
    refine ⟨.close semicolon, fun more _ _ => ?_⟩
    cases more with
    | nil => rfl
    | cons u more =>
      simp only [acceptNamedFunction, State.followedBy, List.cons_append, List.nil_append,
        isKeyword_semicolon semicolon, Bool.false_and]
      rfl
  | @cons t ts semicolon brace simple =>
    obtain ⟨u, us, rfl⟩ := List.exists_cons_of_ne_nil simple.ne_nil
    simp only [acceptNamedFunction, State.followedBy, List.cons_append]
    split
    · exact ⟨simple, fun _ _ _ => rfl⟩
    · exact ⟨.cons semicolon brace simple, fun _ _ _ => rfl⟩

theorem Tame.accept {q : Punct} {f : Bool → Parser β} (other : q ≠ .semicolon) (taken : Tame Simple Q (f true))
    (missed : Tame Simple Q (f false)) : Tame Simple Q (accept q >>= f) := by
  unfold Parser.accept
  rw [bind_assoc]
  exact .takeAs? (fun _ h => Option.guard_eq_none_iff.2 (is_semicolon h other)) (fun _ => taken) missed

theorem tame_accept {q : Punct} (other : q ≠ .semicolon) : Tame Simple Simple (Parser.accept q) :=
  .takeAs? (fun _ h => Option.guard_eq_none_iff.2 (is_semicolon h other)) (fun _ => tame_pure _) (tame_pure _)

theorem Tame.acceptKeyword {k : Keyword} {f : Bool → Parser β} (taken : Tame Simple Q (f true))
    (missed : Tame Simple Q (f false)) : Tame Simple Q (acceptKeyword k >>= f) := by
  unfold Parser.acceptKeyword
  rw [bind_assoc]
  exact .takeAs? (fun _ h => Option.guard_eq_none_iff.2 (isKeyword_semicolon h)) (fun _ => taken) missed

theorem Tame.acceptKeyword? {k : Keyword} {f : Option Token → Parser β} (taken : ∀ t, Tame Simple Q (f (some t)))
    (missed : Tame Simple Q (f none)) : Tame Simple Q (acceptKeyword? k >>= f) :=
  .takeAs? (fun _ h => Option.guard_eq_none_iff.2 (isKeyword_semicolon h)) taken missed

/-- There is no brace to take. -/
theorem Tame.accept?_brace {f : Option Token → Parser β} (missed : Tame Simple Q (f none)) :
    Tame Simple Q (accept? .leftBrace >>= f) := by
  refine .take (fun t a semicolon hg => ?_) (fun t a _ other hg => ?_) missed
  · obtain ⟨rfl, brace⟩ := Option.guard_eq_some_iff.1 hg
    rw [is_semicolon semicolon (by decide)] at brace
    cases brace
  · obtain ⟨rfl, brace⟩ := Option.guard_eq_some_iff.1 hg
    exact absurd (of_decide_eq_true brace) other

theorem Tame.accept_brace {f : Bool → Parser β} (missed : Tame Simple Q (f false)) :
    Tame Simple Q (Parser.accept .leftBrace >>= f) := by
  unfold Parser.accept
  rw [bind_assoc]
  exact .accept?_brace missed

theorem tame_unexpected (fault : Fault) : Tame Simple Q (do Parser.fail (← Parser.place) fault : Parser α) :=
  tame_place.bind fun _ => tame_fail _ _

theorem tame_expect {q : Punct} (other : q ≠ .semicolon) (fault : Fault) : Tame Simple Simple (expect q fault) :=
  .takeAs? (fun _ h => Option.guard_eq_none_iff.2 (is_semicolon h other)) tame_pure (tame_unexpected fault)

theorem tame_expectName (fault : Fault) : Tame Simple Simple (expectName fault) :=
  .takeAs? (fun _ h => Option.guard_eq_none_iff.2 (by simp [h])) (fun _ => tame_pure _) (tame_unexpected fault)

theorem tame_expect_brace (fault : Fault) : Tame Simple Never (expect .leftBrace fault) :=
  .accept?_brace (tame_unexpected fault)

/-- The semicolon is the last token. -/
theorem tame_expect_semicolon (fault : Fault) : Tame Simple Done (expect .semicolon fault) := by
  refine .take (fun _ _ _ _ => tame_pure _) (fun t a other _ hg => ?_) (tame_unexpected fault)
  obtain ⟨rfl, semicolon⟩ := Option.guard_eq_some_iff.1 hg
  exact absurd (of_decide_eq_true semicolon) other

/-- Behind the semicolon there is no `else`, whether more follows or not. -/
theorem Tame.acceptKeyword_else {f : Bool → Parser β} (missed : Tame Done Q (f false)) :
    Tame Done Q (Parser.acceptKeyword .else >>= f) := by
  rintro ⟨rest, line, id, depth, noted⟩ (rfl : rest = [])
  obtain ⟨stops, same⟩ := missed ⟨[], line, id, depth, noted⟩ rfl
  refine ⟨stops, fun more line' misses => ?_⟩
  have none : Parser.acceptKeyword .else ⟨more, line', id, depth, noted⟩ = .ok false ⟨more, line', id, depth, noted⟩ :=
    acceptKeyword_eq_ok.2 (.inr ⟨rfl, rfl, misses⟩)
  exact (bind_of_ok none).trans (same more line' misses)

theorem tame_updateTarget? (target : Expr) (op : Token) (value : Expr) : Tame P P (updateTarget? target op value) := by
  unfold updateTarget?
  split
  · exact tame_freshId.bind fun _ => tame_pure _
  · exact tame_pure _
  · exact tame_pure _

theorem tame_loopControl (t : Token) (k : Keyword) : Tame Simple Done (loopControl t k) := by
  have close : Tame Simple Done (do let _ ← expect .semicolon (.loopControlEnd k)) :=
    (tame_expect_semicolon _).bind fun _ => tame_pure _
  exact tame_loopDepth.bind fun _ => .ite ((tame_note _ _).bind fun _ => close) close

theorem tame_parameters (n count : Nat) : Tame Simple Simple (parameters n count) := by
  induction n generalizing count with
  | zero => exact tame_exhausted
  | succ n ih =>
    unfold parameters
    exact .limit _ ((tame_expectName _).bind fun _ =>
      .accept (by decide) ((ih _).bind fun _ => tame_pure _) (tame_pure _))

/-- A routine has a body, which no brace opens. -/
theorem tame_routineRest (n : Nat) (name : Name) (role : Role) : Tame Simple Never (routineRest n name role) := by
  cases n with
  | zero => exact tame_exhausted
  | succ n =>
    refine (tame_expect (by decide) _).bind fun _ => (tame_next _).bind fun _ =>
      .branch (tame_pure _) (tame_parameters n 0) fun params => ?_
    exact (tame_expect (by decide) _).bind fun _ => (tame_expect_brace _).bind fun _ => tame_never

theorem tame_routine (n : Nat) (role : Role) : Tame Simple Never (routine n role) := by
  cases n with
  | zero => exact tame_exhausted
  | succ n => exact (tame_expectName _).bind fun name => tame_routineRest n name role

/-- How the grammar goes up to the semicolon. -/
structure Tames (n : Nat) : Prop where
  expression : Tame Simple Simple (expression n)
  commaTail (left : Expr) : Tame Simple Simple (commaTail n left)
  assignment : Tame Simple Simple (assignment n)
  ternary : Tame Simple Simple (ternary n)
  operand (levels : List Level) : Tame Simple Simple (operand n levels)
  operandTail (level : Level) (tighter : List Level) (left : Expr) :
    Tame Simple Simple (operandTail n level tighter left)
  unary : Tame Simple Simple (unary n)
  suffixed : Tame Simple Simple (suffixed n)
  call : Tame Simple Simple (call n)
  callTail (e : Expr) : Tame Simple Simple (callTail n e)
  arguments (count : Nat) : Tame Simple Simple (arguments n count)
  primary : Tame Simple Simple (primary n)
  declaration : Tame Simple Done (declaration n)
  statement : Tame Simple Done (statement n)
  condition (keyword : Keyword) : Tame Simple Simple (condition n keyword)

namespace Tames

variable {n : Nat} (ih : Tames n)

include ih

theorem assignment_succ : Tame Simple Simple (Parser.assignment (n + 1)) := by
  refine ih.ternary.bind fun target => .takeAs?
    (fun _ h => Option.guard_eq_none_iff.2 (is_semicolon h (by decide))) (fun equals => ?_)
    (.takeAs? (fun _ h => by simp [compoundOperator?, h]) (fun compound => ?_) (tame_pure _))
  · refine ih.assignment.bind fun value => ?_
    split
    · exact tame_freshId.bind fun _ => tame_pure _
    · exact tame_pure _
    · exact (tame_note _ _).bind fun _ => tame_pure _
  · refine ih.assignment.bind fun value => (tame_updateTarget? _ _ _).bind fun e => ?_
    split
    · exact tame_pure _
    · exact tame_fail _ _

theorem unary_succ : Tame Simple Simple (Parser.unary (n + 1)) := by
  refine .takeAs? (fun _ h => Option.guard_eq_none_iff.2 (by simp [is_semicolon h])) (fun op => ?_)
    (.takeAs? (fun _ h => by simp [stepOperator?, h]) (fun step => ?_) ih.suffixed)
  · exact ih.unary.bind fun _ => tame_pure _
  · refine ih.suffixed.bind fun target => (tame_updateTarget? _ _ _).bind fun e => ?_
    split
    · exact tame_pure _
    · exact tame_fail _ _

theorem suffixed_succ : Tame Simple Simple (Parser.suffixed (n + 1)) := by
  refine ih.call.bind fun target =>
    .takeAs? (fun _ h => Option.guard_eq_none_iff.2 (by simp [stepOperator?, h])) (fun op => ?_) (tame_pure _)
  dsimp only
  split
  · exact tame_freshId.bind fun _ => tame_pure _
  · exact tame_fail _ _

theorem callTail_succ (e : Expr) : Tame Simple Simple (Parser.callTail (n + 1) e) := by
  refine .accept (by decide) ?_ (.accept (by decide) ?_ (.accept (by decide) ?_ (tame_pure _)))
  · exact (tame_next _).bind fun _ => .branch (tame_pure _) (ih.arguments 0) fun es =>
      (tame_expect (by decide) _).bind fun _ => ih.callTail _
  · exact (tame_expectName _).bind fun _ => ih.callTail _
  · exact ih.expression.bind fun _ => (tame_expect (by decide) _).bind fun _ => ih.callTail _

theorem arguments_succ (count : Nat) : Tame Simple Simple (Parser.arguments (n + 1) count) := by
  unfold Parser.arguments
  exact .limit _ (ih.assignment.bind fun _ =>
    .accept (by decide) ((ih.arguments _).bind fun _ => tame_pure _) (tame_pure _))

theorem primary_succ : Tame Simple Simple (Parser.primary (n + 1)) := by
  refine .takeAs? (fun _ h => by simp [literal?, h]) (fun _ => tame_pure _) (.acceptKeyword? (fun _ => ?_)
    (.takeAs? (fun _ h => Option.guard_eq_none_iff.2 (by simp [h])) (fun _ => ?_) (.accept (by decide) ?_
      (.acceptKeyword? (fun _ => ?_) (tame_unexpected _)))))
  · exact tame_freshId.bind fun _ => tame_pure _
  · exact tame_freshId.bind fun _ => tame_pure _
  · exact ih.expression.bind fun _ => (tame_expect (by decide) _).bind fun _ => tame_pure _
  · exact (tame_routineRest _ _ _).bind fun _ => tame_never

theorem declaration_succ : Tame Simple Done (Parser.declaration (n + 1)) := by
  refine .acceptKeyword ?_ (tame_namedFunction.bind fun named => .ite ?_ (.acceptKeyword ?_ ih.statement))
  · exact (tame_expectName _).bind fun name => (tame_accept (by decide)).bind fun colon =>
      .branch (ih.call.bind fun _ => tame_pure _) (tame_pure _) fun base =>
        (tame_expect_brace _).bind fun _ => tame_never
  · exact (tame_routine _ _).bind fun _ => tame_never
  · exact (tame_expectName _).bind fun name => (tame_accept (by decide)).bind fun equal =>
      .branch (ih.expression.bind fun _ => tame_pure _) (tame_pure _) fun initial =>
        (tame_expect_semicolon _).bind fun _ => tame_pure _

theorem statement_succ : Tame Simple Done (Parser.statement (n + 1)) := by
  refine .acceptKeyword ?_ (.acceptKeyword ?_ (.acceptKeyword? (fun word => ?_) (.acceptKeyword? (fun word => ?_)
    (.acceptKeyword? (fun word => ?_) (.accept_brace (.acceptKeyword ?_ ?_))))))
  · refine (ih.condition _).bind fun e => ih.statement.bind fun yes => .acceptKeyword_else ?_
    exact (tame_pure _).bind fun _ => tame_pure _
  · exact (ih.condition _).bind fun _ => (ih.statement.withLoopDepth _).bind fun _ => tame_pure _
  · exact (tame_next _).bind fun _ => .branch (tame_pure _) (ih.expression.bind fun _ => tame_pure _) fun value =>
      (tame_expect_semicolon _).bind fun _ => tame_pure _
  · exact (tame_loopControl _ _).bind fun _ => tame_pure _
  · exact (tame_loopControl _ _).bind fun _ => tame_pure _
  · exact ih.expression.bind fun _ => (tame_expect_semicolon _).bind fun _ => tame_pure _
  · exact ih.expression.bind fun _ => (tame_expect_semicolon _).bind fun _ => tame_pure _

end Tames

theorem tames (n : Nat) : Tames n := by
  induction n with
  | zero =>
    constructor
    all_goals intros
    all_goals exact tame_exhausted
  | succ n ih =>
    constructor
    case expression => exact ih.assignment.bind fun _ => ih.commaTail _
    case commaTail =>
      intro left
      exact .takeAs? (fun _ h => Option.guard_eq_none_iff.2 (is_semicolon h (by decide)))
        (fun _ => ih.assignment.bind fun _ => ih.commaTail _) (tame_pure _)
    case assignment => exact ih.assignment_succ
    case ternary =>
      refine (ih.operand _).bind fun condition => .accept (by decide) ?_ (tame_pure _)
      exact ih.ternary.bind fun _ => (tame_expect (by decide) _).bind fun _ => ih.ternary.bind fun _ => tame_pure _
    case operand =>
      intro levels
      cases levels with
      | nil => exact ih.unary
      | cons level tighter => exact (ih.operand _).bind fun left => ih.operandTail level tighter left
    case operandTail =>
      intro level tighter left
      exact .takeAs? (fun _ h => Option.guard_eq_none_iff.2 (has_semicolon h level))
        (fun _ => (ih.operand _).bind fun _ => ih.operandTail _ _ _) (tame_pure _)
    case unary => exact ih.unary_succ
    case suffixed => exact ih.suffixed_succ
    case call => exact ih.primary.bind fun e => ih.callTail e
    case callTail => exact ih.callTail_succ
    case arguments => exact ih.arguments_succ
    case primary => exact ih.primary_succ
    case declaration => exact ih.declaration_succ
    case statement => exact ih.statement_succ
    case condition =>
      exact fun keyword => (tame_expect (by decide) _).bind fun _ => ih.expression.bind fun _ =>
        (tame_expect (by decide) _).bind fun _ => tame_pure _

/-- Nothing is left, or tokens up to a semicolon. -/
abbrev Left (ts : List Token) : Prop := ts = [] ∨ Simple ts

theorem boundary_semicolon {t : Token} (semicolon : t.kind = .punct .semicolon) (ts : List Token) :
    boundary t ts = ts := by
  cases ts with
  | nil => rfl
  | cons u ts => simp [boundary, Token.is, semicolon]

theorem startsStatement_semicolon {t : Token} (h : t.kind = .punct .semicolon) : startsStatement t = false := by
  simp [startsStatement, h]

theorem boundary_simple {last : Token} {ts : List Token} (other : last.kind ≠ .punct .semicolon) (simple : Simple ts) :
    Left (boundary last ts) ∧ ∀ more, boundary last (ts ++ more) = boundary last ts ++ more := by
  have going : last.is .semicolon = false := by simpa [Token.is] using other
  induction simple generalizing last with
  | @close t semicolon =>
    have start := startsStatement_semicolon semicolon
    simp only [List.cons_append, List.nil_append, boundary, going, start, Bool.or_self, Bool.false_eq_true, if_false]
    exact ⟨.inl rfl, boundary_semicolon semicolon⟩
  | @cons t ts semicolon brace simple ih =>
    simp only [List.cons_append, boundary, going, Bool.false_or]
    split
    · exact ⟨.inr (.cons semicolon brace simple), fun _ => rfl⟩
    · exact ih semicolon (by simpa [Token.is] using semicolon)

/-- Recovery stops behind the semicolon at the latest. -/
theorem skipped_simple {ts : List Token} (simple : Simple ts) :
    Left (skipped ts) ∧ ∀ more, skipped (ts ++ more) = skipped ts ++ more := by
  cases simple with
  | close semicolon => exact ⟨.inl rfl, boundary_semicolon semicolon⟩
  | cons semicolon _ simple => exact boundary_simple semicolon simple

theorem tame_declaration? (n : Nat) : Tame Simple Left (declaration? n) := by
  intro s simple
  obtain ⟨stops, same⟩ := (tames n).declaration s simple
  rw [declaration?_eq]
  cases hd : declaration n s with
  | ok x t =>
    rw [hd] at stops same
    refine ⟨.inl stops, fun more line misses => ?_⟩
    rw [declaration?_eq, same more line misses]
    rfl
  | error e t =>
    rw [hd] at stops same
    obtain ⟨left, append⟩ := skipped_simple stops
    refine ⟨left, fun more line misses => ?_⟩
    rw [declaration?_eq, same more line misses]
    simp only [Result.followedBy, State.followedBy, append]
  | exhausted =>
    rw [hd] at same
    refine ⟨trivial, fun more line misses => ?_⟩
    rw [declaration?_eq, same more line misses]
    rfl

section Programs

variable {n : Nat} {s t : State} {x : Option Stmt}

theorem ne_exhausted_of_bind {p : Parser α} {f : α → Parser β} (h : (p >>= f) s ≠ .exhausted) : p s ≠ .exhausted := by
  intro hp
  apply h
  change andThen p f s = .exhausted
  rw [andThen, hp]

theorem nil_append_map (p : Parser (List α)) (s : State) : (([] ++ ·) <$> p) s = p s := by
  change andThen p (fun xs => pure ([] ++ xs)) s = p s
  unfold andThen
  cases p s <;> rfl

theorem append_map {p q : Parser (List α)} {xs ys : List α} (h : p s = ((ys ++ ·) <$> q) t) :
    ((xs ++ ·) <$> p) s = ((xs ++ ys ++ ·) <$> q) t := by
  change andThen p (fun zs => pure (xs ++ zs)) s = andThen q (fun zs => pure (xs ++ ys ++ zs)) t
  change p s = andThen q (fun zs => pure (ys ++ zs)) t at h
  unfold andThen at h ⊢
  rw [h]
  cases q t with
  | ok zs u => simp only [List.append_assoc]; rfl
  | error e u => rfl
  | exhausted => rfl

theorem program_round (some_left : s.rest ≠ []) :
    program (n + 1) s = (declaration? n >>= fun x => (x.toList ++ ·) <$> program n) s := by
  have going : atEnd s = .ok false s := by simpa [atEnd] using some_left
  exact bind_of_ok going

theorem program_end (ended : s.rest = []) : program (n + 1) s = .ok [] s := by
  have ended : atEnd s = .ok true s := by simp [atEnd, ended]
  exact bind_of_ok ended

theorem program_ok (h : program n s ≠ .exhausted) : ∃ xs t, program n s = .ok xs t := by
  induction n generalizing s with
  | zero => exact absurd rfl h
  | succ n ih =>
    by_cases ended : s.rest = []
    · exact ⟨[], s, program_end ended⟩
    · rw [program_round ended] at h ⊢
      obtain ⟨x, t, round⟩ := declaration?_ok (ne_exhausted_of_bind h)
      rw [bind_of_ok round] at h ⊢
      obtain ⟨xs, u, later⟩ := ih (ne_exhausted_of_bind h)
      exact ⟨_, _, bind_of_ok later⟩

/-- The tokens up to a semicolon are dealt with on their own, and then what follows. -/
theorem program_followedBy (left : Left s.rest) (enough : 24 * s.rest.length + 20 ≤ n) :
    ∃ xs t m, program n s = .ok xs t ∧ t.rest = [] ∧ n ≤ m + s.rest.length ∧
      ∀ more line, Misses (·.isKeyword .else) more →
        program n (s.followedBy more line) = ((xs ++ ·) <$> program m) (t.followedBy more line) := by
  induction n generalizing s with
  | zero => omega
  | succ n ih =>
    rcases left with ended | simple
    · refine ⟨[], s, n + 1, program_end ended, ended, Nat.le_add_right _ _, fun more line _ => ?_⟩
      exact (nil_append_map _ _).symm
    have one_left : 1 ≤ s.rest.length := List.length_pos_iff.2 simple.ne_nil
    have ended := ends_declaration? one_left (by omega : 24 * s.rest.length + 19 ≤ n) s (Nat.le_refl _)
    obtain ⟨stops, same⟩ := tame_declaration? n s simple
    obtain ⟨x, u, round⟩ := declaration?_ok ended.ne_exhausted
    rw [round] at ended stops same
    have fewer : u.rest.length + 1 ≤ s.rest.length := ended
    obtain ⟨ys, t, m, later, done, le, follow⟩ := ih stops (by omega)
    refine ⟨x.toList ++ ys, t, m, ?_, done, by omega, fun more line misses => ?_⟩
    · rw [program_round simple.ne_nil, bind_of_ok round]
      exact bind_of_ok later
    · have some_left : (s.followedBy more line).rest ≠ [] := by simp [State.followedBy, simple.ne_nil]
      rw [program_round some_left, bind_of_ok (same more line misses)]
      exact append_map (follow more line misses)

/-- Any two budgets that suffice give the same answer. -/
theorem program_budget {m : Nat} (hn : 24 * s.rest.length + 20 ≤ n) (hm : 24 * s.rest.length + 20 ≤ m) :
    program n s = program m s := by
  have ended {k : Nat} (h : 24 * s.rest.length + 20 ≤ k) : program k s ≠ .exhausted :=
    (ends_program h s (Nat.le_refl _)).ne_exhausted
  rcases Nat.le_total n m with le | le
  · exact (answer_of_larger Recipe.program (ended hn) le).symm
  · exact answer_of_larger Recipe.program (ended hm) le

end Programs

/-- The faults that are reported; none if there is a tree. -/
def Outcome.errors (o : Outcome α) : List Error :=
  match o.result with
  | .ok _ => []
  | .error es => es

/-- What is reported when the tokens have been read. -/
def State.outcome (s : State) (a : α) : Outcome α := ⟨if s.noted.isEmpty then .ok a else .error s.noted, s.nextId⟩

theorem errors_outcome (s : State) (a : α) : (s.outcome a).errors = s.noted := by
  unfold State.outcome Outcome.errors
  cases s.noted <;> rfl

theorem outcome_result_eq_ok {s : State} {a b : α} : (s.outcome a).result = .ok b ↔ s.noted = [] ∧ a = b := by
  unfold State.outcome
  cases s.noted <;> simp

section Starts

variable {first later : List Token} {e : Token} (base : NodeId)

theorem parse_eq_outcome {base : NodeId} {tokens : List Token} {n : Nat} {xs : List Stmt} {t : State}
    (enough : 24 * (State.start tokens base).rest.length + 20 ≤ n) (h : program n (.start tokens base) = .ok xs t) :
    parse tokens base = t.outcome xs := by
  have few : (State.start tokens base).rest.length ≤ tokens.length := (List.takeWhile_sublist _).length_le
  have answer : program (budget tokens) (.start tokens base) = .ok xs t :=
    (program_budget (by unfold budget; omega) enough).trans h
  unfold parse run
  rw [answer]
  rfl

theorem start_rest (proper : ∀ t ∈ first, t.kind ≠ .eof) (stop : e.kind = .eof) :
    (State.start (first ++ [e]) base).rest = first := by
  unfold State.start
  rw [List.takeWhile_append_of_pos (by simpa using proper)]
  simp [stop]

theorem start_append (later : List Token) {stop : Token} (proper : ∀ t ∈ first, t.kind ≠ .eof)
    (stops : stop.kind = .eof) (ends : e.kind = .eof) :
    State.start (first ++ later ++ [e]) base =
      (State.start (first ++ [stop]) base).followedBy (State.start (later ++ [e]) base).rest
        (State.start (later ++ [e]) base).endLine := by
  have none : first.find? (·.kind = .eof) = none := by simpa using proper
  obtain ⟨u, found⟩ : ∃ u, (later ++ [e]).find? (·.kind = .eof) = some u :=
    Option.isSome_iff_exists.1 (List.find?_isSome.2 ⟨e, by simp, by simp [ends]⟩)
  unfold State.followedBy
  rw [start_rest base proper stops, List.append_assoc]
  unfold State.start
  rw [List.takeWhile_append_of_pos (by simpa using proper), List.find?_append, none, Option.none_or, found]

theorem misses_start {test : Token → Bool} (ends : e.kind = .eof) (misses : Misses test later) :
    Misses test (State.start (later ++ [e]) base).rest := by
  unfold State.start
  cases later with
  | nil => simp [ends, misses_nil]
  | cons t ts =>
    by_cases ended : t.kind = .eof
    · simp [ended, misses_nil]
    · simpa [ended, misses_cons] using misses

/-- Parsed after others, tokens give the same tree with higher numbers, and their faults are noted behind the others. -/
theorem program_after {base : NodeId} {n k : Nat} {t u : State} {ys : List Stmt} (done : t.rest = [])
    (depth : t.loopDepth = 0) (number : t.nextId = base + k) (h : program n (.start later base) = .ok ys u) :
    program n (t.followedBy (State.start later base).rest (State.start later base).endLine) =
      .ok ((higher k).stmts ys) ((u.raise k).noting t.noted) := by
  have after : t.followedBy (State.start later base).rest (State.start later base).endLine =
      ((State.start later base).raise k).noting t.noted := by
    obtain ⟨rest, line, id, loops, noted⟩ := t
    cases done
    cases depth
    cases number
    simp [State.followedBy, State.raise, State.noting, State.start]
  rw [after, (Recipe.program n).noting, raised_program k n, h]
  rfl

/-- The tokens up to a semicolon and those after it are parsed one after the other. -/
theorem parse_append {stop : Token} (simple : Simple first) (proper : ∀ t ∈ first, t.kind ≠ .eof)
    (stops : stop.kind = .eof) (ends : e.kind = .eof) (misses : Misses (·.isKeyword .else) later) :
    ∃ (xs ys : List Stmt) (t u : State) (k : Nat),
      parse (first ++ [stop]) base = t.outcome xs ∧ parse (later ++ [e]) base = u.outcome ys ∧ t.nextId = base + k ∧
      parse (first ++ later ++ [e]) base = ((u.raise k).noting t.noted).outcome (xs ++ (higher k).stmts ys) := by
  have rest := start_rest base proper stops
  have whole := start_append base later proper stops ends
  have long : (State.start (first ++ later ++ [e]) base).rest.length =
      first.length + (State.start (later ++ [e]) base).rest.length := by
    rw [whole, State.followedBy, List.length_append, rest]
  generalize hn : 24 * (State.start (first ++ later ++ [e]) base).rest.length + 20 = n
  obtain ⟨xs, t, m, one, done, le, follow⟩ :=
    program_followedBy (n := n) (s := .start (first ++ [stop]) base) (.inr (rest.symm ▸ simple)) (by rw [rest]; omega)
  rw [rest] at le
  have enough : 24 * (State.start (later ++ [e]) base).rest.length + 20 ≤ m := by omega
  obtain ⟨ys, u, two⟩ := program_ok (ends_program enough (.start (later ++ [e]) base) (Nat.le_refl _)).ne_exhausted
  have kept := (Recipe.program n).precedes (.start (first ++ [stop]) base)
  rw [one] at kept
  obtain ⟨k, number⟩ := Nat.exists_eq_add_of_le kept.nextId
  have after := program_after done kept.loopDepth number two
  refine ⟨xs, ys, t, u, k, parse_eq_outcome (by rw [rest]; omega) one, parse_eq_outcome enough two, number, ?_⟩
  refine parse_eq_outcome (Nat.le_of_eq hn) ?_
  rw [whole, follow _ _ (misses_start base ends misses)]
  exact bind_of_ok after

end Starts

theorem simple_append {body : List Token} {close : Token}
    (plain : ∀ t ∈ body, t.kind ≠ .punct .semicolon ∧ t.kind ≠ .punct .leftBrace)
    (semicolon : close.kind = .punct .semicolon) : Simple (body ++ [close]) := by
  induction body with
  | nil => exact .close semicolon
  | cons t ts ih =>
    obtain ⟨⟨other, brace⟩, plain⟩ := List.forall_mem_cons.1 plain
    exact .cons other brace (ih plain)

/-- A malformed statement hides no later fault. What is reported for tokens up to a semicolon, without a brace, and more
tokens after it is what is reported for each of the two alone; and if both are accepted, then so is the whole, with the
statements of the second numbered on. -/
theorem faults_survive_semicolon (body later : List Token) (close stop e : Token) (base : NodeId)
    (plain : ∀ t ∈ body, t.kind ≠ .eof ∧ t.kind ≠ .punct .semicolon ∧ t.kind ≠ .punct .leftBrace)
    (semicolon : close.kind = .punct .semicolon) (misses : ∀ t ∈ later.head?, t.isKeyword .else = false)
    (stops : stop.kind = .eof) (ends : e.kind = .eof) :
    (parse (body ++ [close] ++ later ++ [e]) base).errors =
      (parse (body ++ [close] ++ [stop]) base).errors ++ (parse (later ++ [e]) base).errors ∧
    ∀ xs ys, (parse (body ++ [close] ++ [stop]) base).result = .ok xs → (parse (later ++ [e]) base).result = .ok ys →
      ∃ k, (parse (body ++ [close] ++ [stop]) base).nextId = base + k ∧
        parse (body ++ [close] ++ later ++ [e]) base =
          ⟨.ok (xs ++ (higher k).stmts ys), (parse (later ++ [e]) base).nextId + k⟩ := by
  have simple := simple_append (fun t h => (plain t h).2) semicolon
  have proper : ∀ t ∈ body ++ [close], t.kind ≠ .eof := by
    intro t h
    rcases List.mem_append.1 h with h | h
    · exact (plain t h).1
    · rw [List.mem_singleton.1 h, semicolon]
      decide
  obtain ⟨xs, ys, t, u, k, one, two, number, both⟩ := parse_append base simple proper stops ends misses
  rw [one, two, both]
  refine ⟨?_, fun xs' ys' ok ok' => ⟨k, number, ?_⟩⟩
  · rw [errors_outcome, errors_outcome, errors_outcome]
    rfl
  · obtain ⟨none, rfl⟩ := outcome_result_eq_ok.1 ok
    obtain ⟨none', rfl⟩ := outcome_result_eq_ok.1 ok'
    simp only [State.outcome, State.noting, State.raise, none, none', List.append_nil, List.isEmpty_nil, if_true]

/-- `if (a) break b` -/
def strayBreak : List Token :=
  [⟨.keyword .if, "if", 1⟩, .ofPunct .leftParen 1, ⟨.identifier, "a", 1⟩, .ofPunct .rightParen 1,
    ⟨.keyword .break, "break", 1⟩, ⟨.identifier, "b", 1⟩]

/-- `var;` -/
def namelessVariable : List Token := [⟨.keyword .var, "var", 2⟩, .ofPunct .semicolon 2]

def nameUse (name : String) : List Token := [⟨.identifier, name, 1⟩]

/-- The first statement has two faults, one of which stops nothing, and the second has one. The statements of `a; b;`
are numbered on. -/
theorem faults_survive_semicolon_break :
    (parse (strayBreak ++ [Token.ofPunct .semicolon 1] ++ namelessVariable ++ [Token.eof 3]) 0).errors =
      [⟨⟨1, some "break"⟩, .outsideLoop .break⟩, ⟨⟨1, some "b"⟩, .loopControlEnd .break⟩,
        ⟨⟨2, some ";"⟩, .variableName⟩] ∧
    parse (nameUse "a" ++ [Token.ofPunct .semicolon 1] ++ (nameUse "b" ++ [Token.ofPunct .semicolon 1]) ++
        [Token.eof 1]) 0 =
      ⟨.ok [.expression (.variable 0 ⟨"a", 1⟩), .expression (.variable 1 ⟨"b", 1⟩)], 2⟩ := by
  constructor
  · rw [(faults_survive_semicolon _ _ _ (.eof 1) _ 0 (by decide) rfl (by decide) rfl rfl).1]
    cbv
  · obtain ⟨k, number, whole⟩ := (faults_survive_semicolon (nameUse "a") (nameUse "b" ++ [Token.ofPunct .semicolon 1])
      (.ofPunct .semicolon 1) (.eof 1) (.eof 1) 0 (by decide) rfl (by decide) rfl rfl).2
      [.expression (.variable 0 ⟨"a", 1⟩)] [.expression (.variable 0 ⟨"b", 1⟩)] (by cbv) (by cbv)
    obtain rfl : 1 = k := by
      rw [Nat.zero_add] at number
      rw [← number]
      cbv
    rw [whole]
    cbv

end Scriptlet.Parser
