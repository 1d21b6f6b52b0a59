import Scriptlet.Ast.Parser

/-!
The budget of the parser suffices for every list of tokens, also for one that it rejects. Between two tokens
nonterminals nest to a depth of at most `20`, so `24` units a token pay for every way through the grammar, and skipping
after a fault takes at least one token.
-/
namespace Scriptlet.Parser

variable {α β : Type} {m j k : Nat}

/-- Not exhausted; at most `m` tokens are left, and after a success `k` fewer. -/
def Result.Leaves (m k : Nat) : Result α → Prop
  | .ok _ s => s.rest.length + k ≤ m
  | .error _ s => s.rest.length ≤ m
  | .exhausted => False

/-- Before at most `m` tokens the parser comes to an end; to succeed it takes at least `k` of them. -/
def Ends (m k : Nat) (p : Parser α) : Prop := ∀ s, s.rest.length ≤ m → (p s).Leaves m k

theorem Result.Leaves.mono {m' k' : Nat} {r : Result α} (h : r.Leaves m' k') (hm : m' ≤ m) (hk : m' + k ≤ m + k') :
    r.Leaves m k := by
  cases r with
  | ok a s =>
    have left : s.rest.length + k' ≤ m' := h
    show s.rest.length + k ≤ m
    omega
  | error e s => exact Nat.le_trans h hm
  | exhausted => exact h

theorem Result.Leaves.ne_exhausted {r : Result α} (h : r.Leaves m k) : r ≠ .exhausted := by
  rintro rfl
  exact h

theorem ends_pure (a : α) : Ends m 0 (pure a) := fun _ h => h

theorem ends_fail (place : Place) (fault : Fault) : Ends m k (fail place fault : Parser α) := fun _ h => h

theorem Ends.bind {p : Parser α} {f : α → Parser β} (hp : Ends m k p)
    (hf : ∀ a, k ≤ m → Ends (m - k) (j - k) (f a)) : Ends m j (p >>= f) := by
  intro s hs
  have first := hp s hs
  change (andThen p f s).Leaves m j
  unfold andThen
  cases hr : p s with
  | ok a t =>
    rw [hr] at first
    have taken : t.rest.length + k ≤ m := first
    exact (hf a (by omega) t (by omega)).mono (by omega) (by omega)
  | error e t =>
    rw [hr] at first
    exact first
  | exhausted =>
    rw [hr] at first
    exact first

theorem Ends.map {p : Parser α} (g : α → β) (hp : Ends m k p) : Ends m k (g <$> p) :=
  hp.bind fun _ _ => by
    rw [Nat.sub_self]
    exact ends_pure _

theorem Ends.ite {p q : Parser α} {c : Prop} [Decidable c] (yes : Ends m k p) (no : Ends m k q) :
    Ends m k (if c then p else q) := by
  split
  · exact yes
  · exact no

/-- Two branches with a common continuation. -/
theorem Ends.branch {p q : Parser α} {f : α → Parser β} {c : Prop} [Decidable c] (yes : Ends m k p) (no : Ends m k q)
    (later : ∀ a, k ≤ m → Ends (m - k) (j - k) (f a)) : Ends m j (if c then p >>= f else q >>= f) :=
  .ite (yes.bind later) (no.bind later)

theorem ends_note (place : Place) (fault : Fault) : Ends m 0 (note place fault) := fun _ h => h

theorem ends_place : Ends m 0 Parser.place := fun _ h => h

theorem ends_freshId : Ends m 0 freshId := fun _ h => h

theorem ends_loopDepth : Ends m 0 loopDepth := fun _ h => h

theorem ends_next (p : Punct) : Ends m 0 (next p) := fun _ h => h

theorem ends_atEnd : Ends m 0 atEnd := fun _ h => h

theorem Ends.atEnd {f : Bool → Parser β} (done : Ends m j (f true)) (more : 1 ≤ m → Ends m j (f false)) :
    Ends m j (atEnd >>= f) := by
  intro s hs
  change (f s.rest.isEmpty s).Leaves m j
  cases hr : s.rest with
  | nil => exact done s hs
  | cons t rest =>
    rw [hr] at hs
    exact more (Nat.le_trans (Nat.succ_pos _) hs) s (hr ▸ hs)

/-- After an optional token there is one token less, or the parser goes on as before. -/
theorem Ends.takeAs? {g : Token → Option α} {f : Option α → Parser β}
    (taken : ∀ a, 1 ≤ m → Ends (m - 1) (j - 1) (f (some a))) (missed : Ends m j (f none)) :
    Ends m j (takeAs? g >>= f) := by
  intro s hs
  change (andThen (Parser.takeAs? g) f s).Leaves m j
  unfold andThen Parser.takeAs?
  cases hr : s.rest with
  | nil => exact missed s hs
  | cons t rest =>
    dsimp only
    have some_left : rest.length + 1 ≤ m := by rwa [hr] at hs
    cases g t with
    | some a => exact (taken a (by omega) { s with rest } (Nat.le_sub_of_add_le some_left)).mono (by omega) (by omega)
    | none => exact missed s hs

theorem bind_assoc {γ : Type} (p : Parser α) (g : α → Parser β) (f : β → Parser γ) :
    p >>= g >>= f = p >>= fun a => g a >>= f := by
  funext s
  change andThen (andThen p g) f s = andThen p (fun a => andThen (g a) f) s
  unfold andThen
  cases p s <;> rfl

theorem Ends.accept {p : Punct} {f : Bool → Parser β} (taken : 1 ≤ m → Ends (m - 1) (j - 1) (f true))
    (missed : Ends m j (f false)) : Ends m j (accept p >>= f) := by
  unfold Parser.accept
  rw [bind_assoc]
  exact .takeAs? (fun _ => taken) missed

theorem ends_accept {p : Punct} : Ends m 0 (accept p) := .takeAs? (fun _ _ => ends_pure _) (ends_pure _)

theorem Ends.acceptKeyword {w : Keyword} {f : Bool → Parser β} (taken : 1 ≤ m → Ends (m - 1) (j - 1) (f true))
    (missed : Ends m j (f false)) : Ends m j (acceptKeyword w >>= f) := by
  unfold Parser.acceptKeyword
  rw [bind_assoc]
  exact .takeAs? (fun _ => taken) missed

theorem ends_expect (p : Punct) (fault : Fault) : Ends m 1 (expect p fault) :=
  .takeAs? (fun _ _ => ends_pure _) (ends_place.bind fun _ _ => ends_fail _ _)

theorem ends_expectName (fault : Fault) : Ends m 1 (expectName fault) :=
  .takeAs? (fun _ _ => ends_pure _) (ends_place.bind fun _ _ => ends_fail _ _)

theorem Ends.withLoopDepth {p : Parser α} (change : Nat → Nat) (hp : Ends m k p) : Ends m k (withLoopDepth change p) := by
  intro s hs
  have inner := hp { s with loopDepth := change s.loopDepth } hs
  unfold Parser.withLoopDepth
  cases hr : p { s with loopDepth := change s.loopDepth } with
  | ok a t =>
    rw [hr] at inner
    exact inner
  | error e t =>
    rw [hr] at inner
    exact inner
  | exhausted =>
    rw [hr] at inner
    exact inner

theorem Ends.acceptNamedFunction {f : Bool → Parser β} (taken : 1 ≤ m → Ends (m - 1) (j - 1) (f true))
    (missed : Ends m j (f false)) : Ends m j (acceptNamedFunction >>= f) := by
  intro s hs
  change (andThen Parser.acceptNamedFunction f s).Leaves m j
  unfold andThen Parser.acceptNamedFunction
  rcases hr : s.rest with _ | ⟨t, _ | ⟨u, rest⟩⟩
  · exact missed s hs
  · exact missed s hs
  · have some_left : (u :: rest).length + 1 ≤ m := by rwa [hr] at hs
    dsimp only
    cases t.isKeyword .fun && decide (u.kind = .identifier) with
    | true =>
      exact (taken (by omega) { s with rest := u :: rest } (Nat.le_sub_of_add_le some_left)).mono (by omega) (by omega)
    | false => exact missed s hs

/-- A limit that is exceeded is noted. -/
theorem Ends.limit {p : Parser α} {c : Prop} [Decidable c] (fault : Fault) (h : Ends m k p) :
    Ends m k (if c then Parser.place >>= fun place => note place fault >>= fun _ => p else p) :=
  .ite (ends_place.bind fun _ _ => (ends_note _ _).bind fun _ _ => h) h

theorem ends_updateTarget? (target : Expr) (op : Token) (value : Expr) : Ends m 0 (updateTarget? target op value) := by
  unfold updateTarget?
  split
  · exact ends_freshId.bind fun _ _ => ends_pure _
  · exact ends_pure _
  · exact ends_pure _

theorem ends_loopControl (t : Token) (w : Keyword) : Ends m 1 (loopControl t w) := by
  have close {m : Nat} : Ends m 1 (do let _ ← expect .semicolon (.loopControlEnd w); pure ()) :=
    (ends_expect _ _).bind fun _ _ => ends_pure _
  exact ends_loopDepth.bind fun d _ => .ite ((ends_note _ _).bind fun _ _ => close) close

theorem ends_parameters (n count : Nat) (h : 24 * m + 1 ≤ n) : Ends m 0 (parameters n count) := by
  induction n generalizing count m with
  | zero => omega
  | succ n ih =>
    unfold parameters
    refine .limit _ ((ends_expectName _).bind fun name _ => .accept (fun _ => ?_) (ends_pure _))
    exact (ih _ (by omega)).bind fun _ _ => ends_pure _

/-- What a budget of `n` suffices for: `24` for each token that is left, and the depth down to the first one. -/
structure Enough (n : Nat) : Prop where
  expression {m : Nat} : 24 * m + 17 ≤ n → Ends m 0 (expression n)
  commaTail {m : Nat} (left : Expr) : 24 * m + 1 ≤ n → Ends m 0 (commaTail n left)
  assignment {m : Nat} : 24 * m + 16 ≤ n → Ends m 0 (assignment n)
  ternary {m : Nat} : 24 * m + 15 ≤ n → Ends m 0 (ternary n)
  operand {m : Nat} (levels : List Level) : levels.length ≤ 9 → 24 * m + levels.length + 5 ≤ n →
    Ends m 0 (operand n levels)
  operandTail {m : Nat} (level : Level) (tighter : List Level) (left : Expr) : tighter.length ≤ 9 → 24 * m + 1 ≤ n →
    Ends m 0 (operandTail n level tighter left)
  unary {m : Nat} : 24 * m + 4 ≤ n → Ends m 0 (unary n)
  suffixed {m : Nat} : 24 * m + 3 ≤ n → Ends m 0 (suffixed n)
  call {m : Nat} : 24 * m + 2 ≤ n → Ends m 0 (call n)
  callTail {m : Nat} (e : Expr) : 24 * m + 1 ≤ n → Ends m 0 (callTail n e)
  arguments {m : Nat} (count : Nat) : 24 * m + 17 ≤ n → Ends m 0 (arguments n count)
  primary {m : Nat} : 24 * m + 1 ≤ n → Ends m 0 (primary n)
  routine {m : Nat} (role : Role) : 24 * m + 1 ≤ n → Ends m 1 (routine n role)
  routineRest {m : Nat} (name : Name) (role : Role) : 24 * m + 1 ≤ n → Ends m 0 (routineRest n name role)
  block {m : Nat} : 24 * m + 20 ≤ n → Ends m 0 (block n)
  members {m : Nat} : 24 * m + 2 ≤ n → Ends m 0 (members n)
  declaration {m : Nat} : 24 * m + 19 ≤ n → Ends m 1 (declaration n)
  statement {m : Nat} : 24 * m + 18 ≤ n → Ends m 1 (statement n)
  condition {m : Nat} (keyword : Keyword) : 24 * m + 1 ≤ n → Ends m 0 (condition n keyword)

section Succ

variable {n : Nat} (ih : Enough n)

include ih

theorem Enough.assignment_succ (h : 24 * m + 16 ≤ n + 1) : Ends m 0 (Parser.assignment (n + 1)) := by
  refine (ih.ternary (by omega)).bind fun target _ => .takeAs? (fun equals _ => ?_) (.takeAs? (fun compound _ => ?_) ?_)
  · refine (ih.assignment (by omega)).bind fun value _ => ?_
    split
    · exact ends_freshId.bind fun _ _ => ends_pure _
    · exact ends_pure _
    · exact (ends_note _ _).bind fun _ _ => ends_pure _
  · refine (ih.assignment (by omega)).bind fun value _ => (ends_updateTarget? _ _ _).bind fun e _ => ?_
    split
    · exact ends_pure _
    · exact ends_fail _ _
  · exact ends_pure _

theorem Enough.unary_succ (h : 24 * m + 4 ≤ n + 1) : Ends m 0 (Parser.unary (n + 1)) := by
  refine .takeAs? (fun op _ => ?_) (.takeAs? (fun step _ => ?_) ?_)
  · exact (ih.unary (by omega)).bind fun _ _ => ends_pure _
  · refine (ih.suffixed (by omega)).bind fun target _ => (ends_updateTarget? _ _ _).bind fun e _ => ?_
    split
    · exact ends_pure _
    · exact ends_fail _ _
  · exact ih.suffixed (by omega)

theorem Enough.suffixed_succ (h : 24 * m + 3 ≤ n + 1) : Ends m 0 (Parser.suffixed (n + 1)) := by
  refine (ih.call (by omega)).bind fun target _ => .takeAs? (fun op _ => ?_) (ends_pure _)
  dsimp only
  split
  · exact ends_freshId.bind fun _ _ => ends_pure _
  · exact ends_fail _ _

theorem Enough.callTail_succ (e : Expr) (h : 24 * m + 1 ≤ n + 1) : Ends m 0 (Parser.callTail (n + 1) e) := by
  refine .accept (fun _ => ?_) (.accept (fun _ => ?_) (.accept (fun _ => ?_) (ends_pure _)))
  · refine (ends_next _).bind fun empty _ => .branch (ends_pure _) (ih.arguments 0 (by omega)) fun es _ => ?_
    exact (ends_expect _ _).bind fun _ _ => ih.callTail _ (by omega)
  · exact (ends_expectName _).bind fun _ _ => ih.callTail _ (by omega)
  · exact (ih.expression (by omega)).bind fun _ _ => (ends_expect _ _).bind fun _ _ => ih.callTail _ (by omega)

theorem Enough.arguments_succ (count : Nat) (h : 24 * m + 17 ≤ n + 1) : Ends m 0 (Parser.arguments (n + 1) count) := by
  unfold Parser.arguments
  refine .limit _ ((ih.assignment (by omega)).bind fun e _ => .accept (fun _ => ?_) (ends_pure _))
  exact (ih.arguments _ (by omega)).bind fun _ _ => ends_pure _

theorem Enough.primary_succ (h : 24 * m + 1 ≤ n + 1) : Ends m 0 (Parser.primary (n + 1)) := by
  refine .takeAs? (fun value _ => ends_pure _) (.takeAs? (fun this _ => ?_) (.takeAs? (fun name _ => ?_)
    (.accept (fun _ => ?_) (.takeAs? (fun word _ => ?_) ?_))))
  · exact ends_freshId.bind fun _ _ => ends_pure _
  · exact ends_freshId.bind fun _ _ => ends_pure _
  · exact (ih.expression (by omega)).bind fun _ _ => (ends_expect _ _).bind fun _ _ => ends_pure _
  · exact (ih.routineRest _ _ (by omega)).bind fun _ _ => ends_pure _
  · exact ends_place.bind fun _ _ => ends_fail _ _

theorem Enough.routineRest_succ (name : Name) (role : Role) (h : 24 * m + 1 ≤ n + 1) :
    Ends m 0 (Parser.routineRest (n + 1) name role) := by
  refine (ends_expect _ _).bind fun _ _ => (ends_next _).bind fun empty _ =>
    .branch (ends_pure _) (ends_parameters n 0 (by omega)) fun params _ => ?_
  refine (ends_expect _ _).bind fun _ _ => (ends_expect _ _).bind fun _ _ => ?_
  exact ((ih.block (by omega)).withLoopDepth _).bind fun _ _ => ends_pure _

theorem Enough.block_succ (h : 24 * m + 20 ≤ n + 1) : Ends m 0 (Parser.block (n + 1)) := by
  refine (ends_next _).bind fun close _ => ends_atEnd.bind fun done _ => ?_
  split
  · exact (ends_expect _ _).bind fun _ _ => ends_pure _
  · exact (ih.declaration (by omega)).bind fun _ _ => (ih.block (by omega)).bind fun _ _ => ends_pure _

theorem Enough.members_succ (h : 24 * m + 2 ≤ n + 1) : Ends m 0 (Parser.members (n + 1)) := by
  refine (ends_next _).bind fun close _ => ends_atEnd.bind fun done _ => ?_
  split
  · exact (ends_expect _ _).bind fun _ _ => ends_pure _
  · refine .acceptKeyword (fun _ => ?_) ?_
    · exact (ih.routine _ (by omega)).bind fun _ _ => (ih.members (by omega)).bind fun _ _ => ends_pure _
    · exact (ih.routine _ (by omega)).bind fun _ _ => (ih.members (by omega)).bind fun _ _ => ends_pure _

theorem Enough.declaration_succ (h : 24 * m + 19 ≤ n + 1) : Ends m 1 (Parser.declaration (n + 1)) := by
  refine .acceptKeyword (fun _ => ?_) (.acceptNamedFunction (fun _ => ?_) (.acceptKeyword (fun _ => ?_) ?_))
  · refine (ends_expectName _).bind fun name _ => ?_
    refine ends_accept.bind fun colon _ => .branch ((ih.call (by omega)).map some) (ends_pure _) fun base _ => ?_
    exact (ends_expect _ _).bind fun _ _ => (ih.members (by omega)).bind fun _ _ => ends_pure _
  · exact (ih.routine _ (by omega)).bind fun _ _ => ends_pure _
  · refine (ends_expectName _).bind fun name _ => ?_
    refine ends_accept.bind fun equal _ => .branch ((ih.expression (by omega)).map some) (ends_pure _) fun initial _ => ?_
    exact (ends_expect _ _).bind fun _ _ => ends_pure _
  · exact ih.statement (by omega)

theorem Enough.statement_succ (h : 24 * m + 18 ≤ n + 1) : Ends m 1 (Parser.statement (n + 1)) := by
  refine .acceptKeyword (fun _ => ?_) (.acceptKeyword (fun _ => ?_) (.takeAs? (fun word _ => ?_)
    (.takeAs? (fun word _ => ?_) (.takeAs? (fun word _ => ?_) (.accept (fun _ => ?_) (.acceptKeyword (fun _ => ?_) ?_))))))
  · refine (ih.condition _ (by omega)).bind fun e _ => (ih.statement (by omega)).bind fun yes _ => ?_
    refine .acceptKeyword (fun _ => ?_) ?_
    · exact ((ih.statement (by omega)).map some).bind fun _ _ => ends_pure _
    · exact (ends_pure _).bind fun _ _ => ends_pure _
  · refine (ih.condition _ (by omega)).bind fun e _ => ?_
    exact ((ih.statement (by omega)).withLoopDepth _).bind fun _ _ => ends_pure _
  · refine (ends_next _).bind fun empty _ => .branch (ends_pure _) ((ih.expression (by omega)).map some) fun value _ => ?_
    exact (ends_expect _ _).bind fun _ _ => ends_pure _
  · exact (ends_loopControl _ _).bind fun _ _ => ends_pure _
  · exact (ends_loopControl _ _).bind fun _ _ => ends_pure _
  · exact (ih.block (by omega)).bind fun _ _ => ends_pure _
  · exact (ih.expression (by omega)).bind fun _ _ => (ends_expect _ _).bind fun _ _ => ends_pure _
  · exact (ih.expression (by omega)).bind fun _ _ => (ends_expect _ _).bind fun _ _ => ends_pure _

end Succ

theorem enough (n : Nat) : Enough n := by
  induction n with
  | zero =>
    constructor
    all_goals
      intros
      omega
  | succ n ih =>
    constructor
    case expression =>
      intro m h
      exact (ih.assignment (by omega)).bind fun _ _ => ih.commaTail _ (by omega)
    case commaTail =>
      intro m left h
      refine .takeAs? (fun op _ => ?_) (ends_pure _)
      exact (ih.assignment (by omega)).bind fun _ _ => ih.commaTail _ (by omega)
    case assignment => exact fun h => ih.assignment_succ h
    case ternary =>
      intro m h
      refine (ih.operand _ (by decide) (by simp only [Level.all, List.length_cons, List.length_nil]; omega)).bind
        fun condition _ => .accept (fun _ => ?_) (ends_pure _)
      exact (ih.ternary (by omega)).bind fun _ _ => (ends_expect _ _).bind fun _ _ => (ih.ternary (by omega)).bind
        fun _ _ => ends_pure _
    case operand =>
      intro m levels few h
      cases levels with
      | nil => exact ih.unary (by simp only [List.length_nil] at h; omega)
      | cons level tighter =>
        simp only [List.length_cons] at few h
        exact (ih.operand _ (by omega) (by omega)).bind fun left _ => ih.operandTail level tighter left (by omega) (by omega)
    case operandTail =>
      intro m level tighter left few h
      refine .takeAs? (fun op _ => ?_) (ends_pure _)
      exact (ih.operand _ few (by omega)).bind fun _ _ => ih.operandTail _ _ _ few (by omega)
    case unary => exact fun h => ih.unary_succ h
    case suffixed => exact fun h => ih.suffixed_succ h
    case call =>
      intro m h
      exact (ih.primary (by omega)).bind fun e _ => ih.callTail e (by omega)
    case callTail => exact fun e h => ih.callTail_succ e h
    case arguments => exact fun count h => ih.arguments_succ count h
    case primary => exact fun h => ih.primary_succ h
    case routine =>
      intro m role h
      exact (ends_expectName _).bind fun name _ => ih.routineRest name role (by omega)
    case routineRest => exact fun name role h => ih.routineRest_succ name role h
    case block => exact fun h => ih.block_succ h
    case members => exact fun h => ih.members_succ h
    case declaration => exact fun h => ih.declaration_succ h
    case statement => exact fun h => ih.statement_succ h
    case condition =>
      intro m keyword h
      exact (ends_expect _ _).bind fun _ _ => (ih.expression (by omega)).bind fun _ _ => (ends_expect _ _).bind fun _ _ =>
        ends_pure _

theorem length_boundary (last : Token) (ts : List Token) : (boundary last ts).length ≤ ts.length := by
  induction ts generalizing last with
  | nil => exact Nat.le_refl _
  | cons t ts ih =>
    unfold boundary
    split
    · exact Nat.le_refl _
    · exact Nat.le_succ_of_le (ih t)

theorem ends_recover (some_left : 1 ≤ m) : Ends m 1 recover := by
  intro s hs
  unfold recover
  cases hr : s.rest with
  | nil =>
    show s.rest.length + 1 ≤ m
    rw [hr]
    exact some_left
  | cons t rest =>
    have skipped := length_boundary t rest
    rw [hr, List.length_cons] at hs
    show (boundary t rest).length + 1 ≤ m
    omega

/-- A declaration takes a token, or what is skipped after it does; at the end of the tokens there is nothing to skip. -/
theorem ends_declaration? {n : Nat} (some_left : 1 ≤ m) (h : 24 * m + 19 ≤ n) : Ends m 1 (declaration? n) := by
  intro s hs
  have one := (enough n).declaration h s hs
  unfold declaration?
  cases hr : declaration n s with
  | ok stmt t =>
    rw [hr] at one
    exact one
  | error e t =>
    rw [hr] at one
    have skip : Ends m 1 (do note e.place e.fault; recover; return (none : Option Stmt)) :=
      (ends_note _ _).bind fun _ _ => (ends_recover some_left).bind fun _ _ => ends_pure _
    exact skip t one
  | exhausted =>
    rw [hr] at one
    exact one.elim

theorem ends_program {n : Nat} (h : 24 * m + 20 ≤ n) : Ends m 0 (program n) := by
  induction n generalizing m with
  | zero => omega
  | succ n ih =>
    refine .atEnd (ends_pure _) fun some_left => ?_
    exact (ends_declaration? some_left (by omega)).bind fun _ _ => (ih (by omega)).bind fun _ _ => ends_pure _

theorem ends_wholeExpression {n : Nat} (h : 24 * m + 17 ≤ n) : Ends m 0 (wholeExpression n) := by
  refine ((enough n).expression h).bind fun e _ => ?_
  exact ends_accept.bind fun _ _ => ends_atEnd.bind fun _ _ => .limit _ (ends_pure _)

/-- A parser that comes to an end gives a tree or names a fault. -/
theorem run_result_ne {p : Nat → Parser α} (hp : ∀ n m, 24 * m + 20 ≤ n → Ends m 0 (p n)) (tokens : List Token)
    (base : NodeId) : (run p tokens base).result ≠ .error [] := by
  have few : (State.start tokens base).rest.length ≤ tokens.length := (List.takeWhile_sublist _).length_le
  have ended := hp (budget tokens) tokens.length (by unfold budget; omega) (.start tokens base) few
  unfold run
  cases hr : p (budget tokens) (.start tokens base) with
  | ok a s =>
    dsimp only
    split
    · simp
    · next noted =>
      intro he
      simp_all
  | error e s => simp
  | exhausted =>
    rw [hr] at ended
    exact ended.elim

theorem parse_result_ne (tokens : List Token) (base : NodeId) : (parse tokens base).result ≠ .error [] :=
  run_result_ne (fun _ _ h => ends_program h) tokens base

theorem parseExpression_result_ne (tokens : List Token) (base : NodeId) :
    (parseExpression tokens base).result ≠ .error [] :=
  run_result_ne (fun _ _ h => ends_wholeExpression (by omega)) tokens base

end Scriptlet.Parser
