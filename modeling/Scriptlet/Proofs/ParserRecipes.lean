import Scriptlet.Ast.Parser

/-!
How the parsers are put together. A `Recipe` follows a parser down to the elementary parsers that it is made of, and
beside it the same parser with a larger budget, which may go on where the first one gives up. What the elementary
parsers have in common and sequences keep is then shown once, by induction over recipes, and holds for the whole
grammar: a larger budget changes no answer, loops are counted back, numbers are only handed out, and what has been noted
before has no influence.
-/
namespace Scriptlet.Parser

/-- The parsers are made of the same elementary ones in the same way, up to where the first one is exhausted. -/
inductive Recipe : {α : Type} → Parser α → Parser α → Type 1 where
  | done {α : Type} (a : α) : Recipe (pure a) (pure a)
  | fail {α : Type} (place : Place) (fault : Fault) : Recipe (fail place fault : Parser α) (fail place fault)
  | exhausted {α : Type} (q : Parser α) : Recipe exhausted q
  | bind {α β : Type} {p q : Parser α} {f g : α → Parser β} :
      Recipe p q → ((a : α) → Recipe (f a) (g a)) → Recipe (p >>= f) (q >>= g)
  | ite {α : Type} {p q p' q' : Parser α} (c : Prop) [Decidable c] :
      Recipe p q → Recipe p' q' → Recipe (if c then p else p') (if c then q else q')
  | takeAs? {α : Type} (f : Token → Option α) : Recipe (takeAs? f) (takeAs? f)
  | next (p : Punct) : Recipe (next p) (next p)
  | atEnd : Recipe atEnd atEnd
  | place : Recipe place place
  | namedFunction : Recipe acceptNamedFunction acceptNamedFunction
  | freshId : Recipe freshId freshId
  | loopDepth : Recipe loopDepth loopDepth
  | note (place : Place) (fault : Fault) : Recipe (note place fault) (note place fault)
  | withLoopDepth {α : Type} {p q : Parser α} (change : Nat → Nat) :
      Recipe p q → Recipe (withLoopDepth change p) (withLoopDepth change q)
  | recovering {n m : Nat} : Recipe (declaration n) (declaration m) → Recipe (declaration? n) (declaration? m)

namespace Recipe

variable {α β : Type}

def map {p q : Parser α} (g : α → β) (r : Recipe p q) : Recipe (g <$> p) (g <$> q) := .bind r fun a => .done (g a)

def accept (p : Punct) : Recipe (accept p) (accept p) := .bind (.takeAs? _) fun t => .done t.isSome

def acceptKeyword (k : Keyword) : Recipe (acceptKeyword k) (acceptKeyword k) :=
  .bind (.takeAs? _) fun t => .done t.isSome

def expect (p : Punct) (fault : Fault) : Recipe (expect p fault) (expect p fault) :=
  .bind (.takeAs? _) fun
    | some t => .done t
    | none => .bind .place fun place => .fail place fault

def expectName (fault : Fault) : Recipe (expectName fault) (expectName fault) :=
  .bind (.takeAs? _) fun
    | some t => .done (Name.ofToken t)
    | none => .bind .place fun place => .fail place fault

def updateTarget? (target : Expr) (op : Token) (value : Expr) :
    Recipe (updateTarget? target op value) (updateTarget? target op value) := by
  cases target with
  | «variable» id name => exact .bind .freshId fun _ => .done _
  | _ => exact .done _

def loopControl (t : Token) (k : Keyword) : Recipe (loopControl t k) (loopControl t k) :=
  have close : Recipe (do let _ ← Parser.expect .semicolon (.loopControlEnd k))
      (do let _ ← Parser.expect .semicolon (.loopControlEnd k)) := .bind (.expect _ _) fun _ => .done _
  .bind .loopDepth fun _ => .ite _ (.bind (.note _ _) fun _ => close) close

def parameters : (n count : Nat) → Recipe (parameters n count) (parameters (n + 1) count)
  | 0, _ => .exhausted _
  | n + 1, count =>
    have names : Recipe
        (do
          let name ← Parser.expectName .parameterName
          if ← Parser.accept .comma then return name :: (← Parser.parameters n (count + 1)) else return [name])
        (do
          let name ← Parser.expectName .parameterName
          if ← Parser.accept .comma then return name :: (← Parser.parameters (n + 1) (count + 1)) else return [name]) :=
      .bind (.expectName _) fun _ => .bind (.accept _) fun _ =>
        .ite _ (.bind (.parameters n (count + 1)) fun _ => .done _) (.done _)
    .ite _ (.bind .place fun _ => .bind (.note _ _) fun _ => names) names

end Recipe

/-- The recipes of the whole grammar, with a budget of `n` and with one unit more. -/
structure Recipes (n : Nat) where
  expression : Recipe (expression n) (expression (n + 1))
  commaTail (left : Expr) : Recipe (commaTail n left) (commaTail (n + 1) left)
  assignment : Recipe (assignment n) (assignment (n + 1))
  ternary : Recipe (ternary n) (ternary (n + 1))
  operand (levels : List Level) : Recipe (operand n levels) (operand (n + 1) levels)
  operandTail (level : Level) (tighter : List Level) (left : Expr) :
    Recipe (operandTail n level tighter left) (operandTail (n + 1) level tighter left)
  unary : Recipe (unary n) (unary (n + 1))
  suffixed : Recipe (suffixed n) (suffixed (n + 1))
  call : Recipe (call n) (call (n + 1))
  callTail (e : Expr) : Recipe (callTail n e) (callTail (n + 1) e)
  arguments (count : Nat) : Recipe (arguments n count) (arguments (n + 1) count)
  primary : Recipe (primary n) (primary (n + 1))
  routine (role : Role) : Recipe (routine n role) (routine (n + 1) role)
  routineRest (name : Name) (role : Role) : Recipe (routineRest n name role) (routineRest (n + 1) name role)
  block : Recipe (block n) (block (n + 1))
  members : Recipe (members n) (members (n + 1))
  declaration : Recipe (declaration n) (declaration (n + 1))
  statement : Recipe (statement n) (statement (n + 1))
  condition (keyword : Keyword) : Recipe (condition n keyword) (condition (n + 1) keyword)

namespace Recipes

variable {n : Nat} (ih : Recipes n)

def assignmentSucc : Recipe (Parser.assignment (n + 1)) (Parser.assignment (n + 2)) :=
  .bind ih.ternary fun target => .bind (.takeAs? _) fun
    | some _ => .bind ih.assignment fun _ => by
      cases target with
      | «variable» id name => exact .bind .freshId fun _ => .done _
      | get object name => exact .done _
      | _ => exact .bind (.note _ _) fun _ => .done _
    | none => .bind (.takeAs? _) fun
      | some _ => .bind ih.assignment fun _ => .bind (.updateTarget? _ _ _) fun
        | some _ => .done _
        | none => .fail _ _
      | none => .done _

def unarySucc : Recipe (Parser.unary (n + 1)) (Parser.unary (n + 2)) :=
  .bind (.takeAs? _) fun
    | some _ => .bind ih.unary fun _ => .done _
    | none => .bind (.takeAs? _) fun
      | some _ => .bind ih.suffixed fun _ => .bind (.updateTarget? _ _ _) fun
        | some _ => .done _
        | none => .fail _ _
      | none => ih.suffixed

def suffixedSucc : Recipe (Parser.suffixed (n + 1)) (Parser.suffixed (n + 2)) :=
  .bind ih.call fun target => .bind (.takeAs? _) fun
    | none => .done _
    | some _ => by
      cases target with
      | «variable» id name => exact .bind .freshId fun _ => .done _
      | _ => exact .fail _ _

def callTailSucc (e : Expr) : Recipe (Parser.callTail (n + 1) e) (Parser.callTail (n + 2) e) :=
  have close (es : List Expr) : Recipe
      (do let c ← Parser.expect .rightParen .argumentEnd; Parser.callTail n (.call e es c.line))
      (do let c ← Parser.expect .rightParen .argumentEnd; Parser.callTail (n + 1) (.call e es c.line)) :=
    .bind (.expect _ _) fun _ => ih.callTail _
  .bind (.accept _) fun _ => .ite _
    (.bind (.next _) fun _ => .ite _ (.bind (.done _) close) (.bind (ih.arguments 0) close))
    (.bind (.accept _) fun _ => .ite _ (.bind (.expectName _) fun _ => ih.callTail _)
      (.bind (.accept _) fun _ => .ite _
        (.bind ih.expression fun _ => .bind (.expect _ _) fun _ => ih.callTail _) (.done _)))

def argumentsSucc (count : Nat) : Recipe (Parser.arguments (n + 1) count) (Parser.arguments (n + 2) count) :=
  have values : Recipe
      (do
        let e ← Parser.assignment n
        if ← Parser.accept .comma then return e :: (← Parser.arguments n (count + 1)) else return [e])
      (do
        let e ← Parser.assignment (n + 1)
        if ← Parser.accept .comma then return e :: (← Parser.arguments (n + 1) (count + 1)) else return [e]) :=
    .bind ih.assignment fun _ => .bind (.accept _) fun _ => .ite _ (.bind (ih.arguments _) fun _ => .done _) (.done _)
  .ite _ (.bind .place fun _ => .bind (.note _ _) fun _ => values) values

def primarySucc : Recipe (Parser.primary (n + 1)) (Parser.primary (n + 2)) :=
  .bind (.takeAs? _) fun
    | some _ => .done _
    | none => .bind (.takeAs? _) fun
      | some _ => .bind .freshId fun _ => .done _
      | none => .bind (.takeAs? _) fun
        | some _ => .bind .freshId fun _ => .done _
        | none => .bind (.accept _) fun _ => .ite _
          (.bind ih.expression fun _ => .bind (.expect _ _) fun _ => .done _)
          (.bind (.takeAs? _) fun
            | some _ => .bind (ih.routineRest _ _) fun _ => .done _
            | none => .bind .place fun _ => .fail _ _)

def routineRestSucc (name : Name) (role : Role) :
    Recipe (Parser.routineRest (n + 1) name role) (Parser.routineRest (n + 2) name role) :=
  have close (params : List Name) : Recipe
      (do
        let _ ← Parser.expect .rightParen .parameterEnd
        let _ ← Parser.expect .leftBrace (.routineBody role)
        return (⟨name, params, ← Parser.withLoopDepth (fun _ => 0) (Parser.block n)⟩ : Routine))
      (do
        let _ ← Parser.expect .rightParen .parameterEnd
        let _ ← Parser.expect .leftBrace (.routineBody role)
        return (⟨name, params, ← Parser.withLoopDepth (fun _ => 0) (Parser.block (n + 1))⟩ : Routine)) :=
    .bind (.expect _ _) fun _ => .bind (.expect _ _) fun _ => .bind (.withLoopDepth _ ih.block) fun _ => .done _
  .bind (.expect _ _) fun _ => .bind (.next _) fun _ =>
    .ite _ (.bind (.done _) close) (.bind (.parameters n 0) close)

def blockSucc : Recipe (Parser.block (n + 1)) (Parser.block (n + 2)) :=
  .bind (.next _) fun _ => .bind .atEnd fun _ => .ite _
    (.bind (.expect _ _) fun _ => .done _) (.bind ih.declaration fun _ => .bind ih.block fun _ => .done _)

def membersSucc : Recipe (Parser.members (n + 1)) (Parser.members (n + 2)) :=
  .bind (.next _) fun _ => .bind .atEnd fun _ => .ite _
    (.bind (.expect _ _) fun _ => .done _)
    (.bind (.acceptKeyword _) fun _ => .ite _
      (.bind (ih.routine _) fun _ => .bind ih.members fun _ => .done _)
      (.bind (ih.routine _) fun _ => .bind ih.members fun _ => .done _))

def declarationSucc : Recipe (Parser.declaration (n + 1)) (Parser.declaration (n + 2)) :=
  .bind (.acceptKeyword _) fun _ => .ite _
    (.bind (.expectName _) fun name =>
      have close (base : Option Expr) : Recipe
          (do
            let _ ← Parser.expect .leftBrace .classBody
            let members ← Parser.members n
            return Stmt.class ⟨name, base, members.1, members.2⟩)
          (do
            let _ ← Parser.expect .leftBrace .classBody
            let members ← Parser.members (n + 1)
            return Stmt.class ⟨name, base, members.1, members.2⟩) :=
        .bind (.expect _ _) fun _ => .bind ih.members fun _ => .done _
      .bind (.accept _) fun _ => .ite _ (.bind (.map some ih.call) close) (.bind (.done _) close))
    (.bind .namedFunction fun _ => .ite _ (.bind (ih.routine _) fun _ => .done _)
      (.bind (.acceptKeyword _) fun _ => .ite _
        (.bind (.expectName _) fun name =>
          have close (initial : Option Expr) : Recipe
              (do let _ ← Parser.expect .semicolon .variableEnd; return Stmt.var name initial)
              (do let _ ← Parser.expect .semicolon .variableEnd; return Stmt.var name initial) :=
            .bind (.expect _ _) fun _ => .done _
          .bind (.accept _) fun _ => .ite _ (.bind (.map some ih.expression) close) (.bind (.done _) close))
        ih.statement))

def statementSucc : Recipe (Parser.statement (n + 1)) (Parser.statement (n + 2)) :=
  .bind (.acceptKeyword _) fun _ => .ite _
    (.bind (ih.condition _) fun _ => .bind ih.statement fun _ => .bind (.acceptKeyword _) fun _ =>
      .ite _ (.bind (.map some ih.statement) fun _ => .done _) (.bind (.done _) fun _ => .done _))
  (.bind (.acceptKeyword _) fun _ => .ite _
    (.bind (ih.condition _) fun _ => .bind (.withLoopDepth _ ih.statement) fun _ => .done _)
  (.bind (.takeAs? _) fun
    | some t =>
      have close (value : Option Expr) : Recipe
          (do let _ ← Parser.expect .semicolon .returnEnd; return Stmt.return t.line value)
          (do let _ ← Parser.expect .semicolon .returnEnd; return Stmt.return t.line value) :=
        .bind (.expect _ _) fun _ => .done _
      .bind (.next _) fun _ => .ite _ (.bind (.done _) close) (.bind (.map some ih.expression) close)
    | none => .bind (.takeAs? _) fun
      | some t => .bind (.loopControl t .break) fun _ => .done _
      | none => .bind (.takeAs? _) fun
        | some t => .bind (.loopControl t .continue) fun _ => .done _
        | none => .bind (.accept _) fun _ => .ite _ (.bind ih.block fun _ => .done _)
          (.bind (.acceptKeyword _) fun _ => .ite _
            (.bind ih.expression fun _ => .bind (.expect _ _) fun _ => .done _)
            (.bind ih.expression fun _ => .bind (.expect _ _) fun _ => .done _))))

end Recipes

def recipes : (n : Nat) → Recipes n
  | 0 => {
      expression := .exhausted _
      commaTail := fun _ => .exhausted _
      assignment := .exhausted _
      ternary := .exhausted _
      operand := fun _ => .exhausted _
      operandTail := fun _ _ _ => .exhausted _
      unary := .exhausted _
      suffixed := .exhausted _
      call := .exhausted _
      callTail := fun _ => .exhausted _
      arguments := fun _ => .exhausted _
      primary := .exhausted _
      routine := fun _ => .exhausted _
      routineRest := fun _ _ => .exhausted _
      block := .exhausted _
      members := .exhausted _
      declaration := .exhausted _
      statement := .exhausted _
      condition := fun _ => .exhausted _ }
  | n + 1 =>
    have ih := recipes n
    { expression := .bind ih.assignment fun _ => ih.commaTail _
      commaTail := fun _ => .bind (.takeAs? _) fun
        | some _ => .bind ih.assignment fun _ => ih.commaTail _
        | none => .done _
      assignment := ih.assignmentSucc
      ternary := .bind (ih.operand _) fun _ => .bind (.accept _) fun _ => .ite _
        (.bind ih.ternary fun _ => .bind (.expect _ _) fun _ => .bind ih.ternary fun _ => .done _) (.done _)
      operand := fun
        | [] => ih.unary
        | _ :: _ => .bind (ih.operand _) fun _ => ih.operandTail _ _ _
      operandTail := fun _ _ _ => .bind (.takeAs? _) fun
        | some _ => .bind (ih.operand _) fun _ => ih.operandTail _ _ _
        | none => .done _
      unary := ih.unarySucc
      suffixed := ih.suffixedSucc
      call := .bind ih.primary fun _ => ih.callTail _
      callTail := ih.callTailSucc
      arguments := ih.argumentsSucc
      primary := ih.primarySucc
      routine := fun _ => .bind (.expectName _) fun _ => ih.routineRest _ _
      routineRest := ih.routineRestSucc
      block := ih.blockSucc
      members := ih.membersSucc
      declaration := ih.declarationSucc
      statement := ih.statementSucc
      condition := fun _ =>
        .bind (.expect _ _) fun _ => .bind ih.expression fun _ => .bind (.expect _ _) fun _ => .done _ }

namespace Recipe

def program : (n : Nat) → Recipe (program n) (program (n + 1))
  | 0 => .exhausted _
  | n + 1 => .bind .atEnd fun _ => .ite _ (.done _)
      (.bind (.recovering (recipes n).declaration) fun _ => .bind (program n) fun _ => .done _)

def wholeExpression (n : Nat) : Recipe (wholeExpression n) (wholeExpression (n + 1)) :=
  .bind (recipes n).expression fun _ => .bind (.accept _) fun _ => .bind .atEnd fun _ => .ite _
    (.bind .place fun _ => .bind (.note _ _) fun _ => .done _) (.done _)

end Recipe

/-- What is left after the token at fault, and everything up to the next statement boundary, has been skipped. -/
def skipped : List Token → List Token
  | [] => []
  | t :: rest => boundary t rest

/-- A fault is noted and skipped. -/
theorem declaration?_eq (n : Nat) (s : State) :
    declaration? n s = match declaration n s with
      | .ok x t => .ok (some x) t
      | .error e t => .ok none { t with rest := skipped t.rest, noted := t.noted ++ [e] }
      | .exhausted => .exhausted := by
  unfold declaration?
  cases declaration n s with
  | error e t =>
    change andThen recover (fun _ => pure none) { t with noted := t.noted ++ [e] } = _
    unfold andThen recover
    rcases t with ⟨_ | ⟨u, rest⟩, line, id, depth, noted⟩ <;> rfl
  | _ => rfl

/-- A declaration that fails is skipped, so the top level goes on. -/
theorem declaration?_ok {n : Nat} {s : State} (h : declaration? n s ≠ .exhausted) :
    ∃ x t, declaration? n s = .ok x t := by
  rw [declaration?_eq] at h ⊢
  cases hd : declaration n s with
  | ok x t => exact ⟨_, _, rfl⟩
  | error e t => exact ⟨_, _, rfl⟩
  | exhausted =>
    rw [hd] at h
    exact absurd rfl h

section Laws

variable {α : Type} {p q : Parser α}

/-- A larger budget changes no answer. -/
theorem Recipe.larger (r : Recipe p q) (s : State) : p s = .exhausted ∨ q s = p s := by
  induction r generalizing s with
  | exhausted => exact .inl rfl
  | @bind α β p q f g _ _ first later =>
    change andThen p f s = .exhausted ∨ andThen q g s = andThen p f s
    unfold andThen
    rcases first s with h | h
    · exact .inl (by rw [h])
    · rw [h]
      cases p s with
      | ok a t => exact later a t
      | error e t => exact .inr rfl
      | exhausted => exact .inl rfl
  | ite c _ _ yes no =>
    split
    · exact yes s
    · exact no s
  | withLoopDepth change _ ih =>
    unfold Parser.withLoopDepth
    rcases ih { s with loopDepth := change s.loopDepth } with h | h
    · exact .inl (by rw [h])
    · exact .inr (by rw [h])
  | recovering _ ih =>
    rw [declaration?_eq, declaration?_eq]
    rcases ih s with h | h
    · exact .inl (by rw [h])
    · exact .inr (by rw [h])
  | _ => exact .inr rfl

/-- The state that is left, if there is one. -/
def Result.Leads (P : State → Prop) : Result α → Prop
  | .ok _ s => P s
  | .error _ s => P s
  | .exhausted => True

/-- Loops are counted back, and numbers are handed out in order. -/
structure State.Precedes (s t : State) : Prop where
  loopDepth : t.loopDepth = s.loopDepth
  nextId : s.nextId ≤ t.nextId

theorem Recipe.precedes (r : Recipe p q) (s : State) : (p s).Leads s.Precedes := by
  have still {s t : State} (depth : t.loopDepth = s.loopDepth) (id : s.nextId = t.nextId) : s.Precedes t :=
    ⟨depth, Nat.le_of_eq id⟩
  induction r generalizing s with
  | exhausted => trivial
  | @bind α β p q f g _ _ first later =>
    have before := first s
    change (andThen p f s).Leads s.Precedes
    unfold andThen
    cases hp : p s with
    | ok a t =>
      rw [hp] at before
      have after := later a t
      dsimp only
      cases hf : f a t with
      | exhausted => trivial
      | _ =>
        rw [hf] at after
        exact ⟨after.loopDepth.trans before.loopDepth, Nat.le_trans before.nextId after.nextId⟩
    | error e t =>
      rw [hp] at before
      exact before
    | exhausted => trivial
  | ite c _ _ yes no =>
    split
    · exact yes s
    · exact no s
  | takeAs? f =>
    unfold Parser.takeAs?
    split
    · exact still rfl rfl
    · split <;> exact still rfl rfl
  | namedFunction =>
    unfold acceptNamedFunction
    split
    · split <;> exact still rfl rfl
    · exact still rfl rfl
  | freshId => exact ⟨rfl, Nat.le_succ _⟩
  | @withLoopDepth α p q change _ ih =>
    have inner := ih { s with loopDepth := change s.loopDepth }
    unfold Parser.withLoopDepth
    cases hp : p { s with loopDepth := change s.loopDepth } with
    | exhausted => trivial
    | _ =>
      rw [hp] at inner
      exact ⟨rfl, inner.nextId⟩
  | @recovering n m _ ih =>
    have inner := ih s
    rw [declaration?_eq]
    cases hp : declaration n s with
    | exhausted => trivial
    | _ =>
      rw [hp] at inner
      exact ⟨inner.loopDepth, inner.nextId⟩
  | _ => exact still rfl rfl

def State.noting (es : List Error) (s : State) : State := { s with noted := es ++ s.noted }

def Result.noting (es : List Error) : Result α → Result α
  | .ok a s => .ok a (s.noting es)
  | .error e s => .error e (s.noting es)
  | .exhausted => .exhausted

/-- What has been noted before has no influence. -/
theorem Recipe.noting (r : Recipe p q) (es : List Error) (s : State) : p (s.noting es) = (p s).noting es := by
  induction r generalizing s with
  | @bind α β p q f g _ _ first later =>
    change andThen p f (s.noting es) = (andThen p f s).noting es
    unfold andThen
    rw [first]
    cases p s with
    | ok a t => exact later a t
    | error e t => rfl
    | exhausted => rfl
  | ite c _ _ yes no =>
    split
    · exact yes s
    · exact no s
  | takeAs? f =>
    simp only [Parser.takeAs?, State.noting]
    split
    · rfl
    · split <;> rfl
  | namedFunction =>
    simp only [acceptNamedFunction, State.noting]
    split
    · split <;> rfl
    · rfl
  | note place fault => simp only [Parser.note, State.noting, Result.noting, List.append_assoc]
  | @withLoopDepth α p q change _ ih =>
    have inner := ih { s with loopDepth := change s.loopDepth }
    unfold Parser.withLoopDepth
    change (match p (State.noting es { s with loopDepth := change s.loopDepth }) with
      | .ok value t => _
      | .error e t => _
      | .exhausted => _) = _
    rw [inner]
    cases p { s with loopDepth := change s.loopDepth } <;> rfl
  | @recovering n m _ ih =>
    rw [declaration?_eq, declaration?_eq, ih]
    cases declaration n s with
    | ok x t => rfl
    | error e t => simp only [State.noting, Result.noting, List.append_assoc]
    | exhausted => rfl
  | _ => rfl

theorem answer_of_larger {p : Nat → Parser α} (recipe : (n : Nat) → Recipe (p n) (p (n + 1))) {n m : Nat} {s : State}
    (h : p n s ≠ .exhausted) (le : n ≤ m) : p m s = p n s := by
  induction le with
  | refl => rfl
  | step _ ih =>
    rcases (recipe _).larger s with stop | same
    · exact absurd (ih.symm.trans stop) h
    · rw [same, ih]

/-- Whether a parser succeeds or not, the next number only grows. -/
theorem le_nextId_run {p : Nat → Parser α} (recipe : (n : Nat) → Recipe (p n) (p (n + 1))) (tokens : List Token)
    (base : NodeId) : base ≤ (run p tokens base).nextId := by
  have after := (recipe (budget tokens)).precedes (.start tokens base)
  unfold run
  cases hp : p (budget tokens) (.start tokens base) with
  | exhausted => exact Nat.le_refl base
  | _ =>
    rw [hp] at after
    exact after.nextId

theorem le_nextId_parse (tokens : List Token) (base : NodeId) : base ≤ (parse tokens base).nextId :=
  le_nextId_run Recipe.program tokens base

theorem le_nextId_parseExpression (tokens : List Token) (base : NodeId) :
    base ≤ (parseExpression tokens base).nextId :=
  le_nextId_run Recipe.wholeExpression tokens base

end Laws

end Scriptlet.Parser
