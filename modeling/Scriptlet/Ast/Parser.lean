import Scriptlet.Ast.Fault

/-!
The grammar as functions on the tokens that are left. A fatal fault leaves the declaration that it occurs in, and
parsing goes on at the next statement boundary; other faults are only noted. Every nonterminal spends one unit of a
budget that `parse` and `parseExpression` take from the number of tokens.

    program     := declaration*
    declaration := "class" NAME (":" call)? "{" ("static"? routine)* "}" | "fun" routine
                 | "var" NAME ("=" expression)? ";" | statement
    routine     := NAME "(" (NAME ("," NAME)*)? ")" block
    statement   := "if" "(" expression ")" statement ("else" statement)?
                 | "while" "(" expression ")" statement | "return" expression? ";"
                 | ("break" | "continue") ";" | block | "print" expression ";" | expression ";"
    block       := "{" declaration* "}"
    expression  := assignment ("," assignment)*
    assignment  := (call ".")? NAME ("=" | "+=" | "-=" | "*=" | "/=" | "%=") assignment | ternary
    ternary     := operand ("?" ternary ":" ternary)?
    operand     := binary operators, from "or" to "*" as in `Level`
    unary       := ("!" | "-") unary | ("++" | "--") postfix | postfix
    postfix     := call ("++" | "--")?
    call        := primary ("(" (assignment ("," assignment)*)? ")" | "." NAME | "[" expression "]")*
    primary     := literal | "this" | NAME | "(" expression ")" | "fun" "(" … ")" block
-/
namespace Scriptlet

namespace Parser

/-- The tokens left before the end, the line of the end, and what has been handed out and noted so far. -/
structure State where
  rest : List Token
  endLine : Nat
  nextId : NodeId
  loopDepth : Nat
  noted : List Error

inductive Result (α : Type) where
  | ok (value : α) (state : State)
  | error (error : Error) (state : State)
  | exhausted

end Parser

def Parser (α : Type) := Parser.State → Parser.Result α

namespace Parser

@[always_inline, inline]
def done {α : Type} (value : α) : Parser α := fun s => .ok value s

@[always_inline, inline]
def andThen {α β : Type} (p : Parser α) (f : α → Parser β) : Parser β := fun s =>
  match p s with
  | .ok value s => f value s
  | .error e s => .error e s
  | .exhausted => .exhausted

instance : Monad Parser where
  pure := done
  bind := andThen

def exhausted {α : Type} : Parser α := fun _ => .exhausted

def fail {α : Type} (place : Place) (fault : Fault) : Parser α := fun s => .error ⟨place, fault⟩ s

/-- Notes a fault and carries on. -/
def note (place : Place) (fault : Fault) : Parser Unit := fun s =>
  .ok () { s with noted := s.noted ++ [⟨place, fault⟩] }

def State.place (s : State) : Place :=
  match s.rest with
  | [] => ⟨s.endLine, none⟩
  | t :: _ => t.place

/-- The place of the next token. -/
def place : Parser Place := fun s => .ok s.place s

def freshId : Parser NodeId := fun s => .ok s.nextId { s with nextId := s.nextId + 1 }

def loopDepth : Parser Nat := fun s => .ok s.loopDepth s

def atEnd : Parser Bool := fun s => .ok s.rest.isEmpty s

/-- Takes the next token if it can be read by `f`. -/
def takeAs? {α : Type} (f : Token → Option α) : Parser (Option α) := fun s =>
  match s.rest with
  | [] => .ok none s
  | t :: rest =>
    match f t with
    | some value => .ok (some value) { s with rest }
    | none => .ok none s

/-- Takes the next token if the test accepts it. -/
def take? (test : Token → Bool) : Parser (Option Token) := takeAs? (Option.guard test)

def accept? (p : Punct) : Parser (Option Token) := take? (·.is p)

def accept (p : Punct) : Parser Bool := return (← accept? p).isSome

def acceptKeyword? (k : Keyword) : Parser (Option Token) := take? (·.isKeyword k)

def acceptKeyword (k : Keyword) : Parser Bool := return (← acceptKeyword? k).isSome

/-- Whether the next token is the punctuator; it is not taken. -/
def next (p : Punct) : Parser Bool := fun s => .ok (s.rest.head?.any (·.is p)) s

def expect (p : Punct) (fault : Fault) : Parser Token := do
  match ← accept? p with
  | some t => return t
  | none => fail (← place) fault

def Name.ofToken (t : Token) : Name := ⟨t.lexeme, t.line⟩

def expectName (fault : Fault) : Parser Name := do
  match ← take? (·.kind = .identifier) with
  | some t => return Name.ofToken t
  | none => fail (← place) fault

/-- Runs a parser with another count of enclosing loops and puts the count back, also after a fault. -/
def withLoopDepth {α : Type} (change : Nat → Nat) (p : Parser α) : Parser α := fun s =>
  match p { s with loopDepth := change s.loopDepth } with
  | .ok value t => .ok value { t with loopDepth := s.loopDepth }
  | .error e t => .error e { t with loopDepth := s.loopDepth }
  | .exhausted => .exhausted

/-- A `fun` that a name follows starts a declaration; any other starts a lambda. -/
def acceptNamedFunction : Parser Bool := fun s =>
  match s.rest with
  | t :: u :: rest =>
    if t.isKeyword .fun && u.kind = .identifier then .ok true { s with rest := u :: rest } else .ok false s
  | _ => .ok false s

/-- Operators of one binding strength; all are left associative. -/
inductive Level where
  | or | and | equality | comparison | bitOr | bitXor | bitAnd | term | factor
deriving DecidableEq, Repr

def Level.all : List Level :=
  [.or, .and, .equality, .comparison, .bitOr, .bitXor, .bitAnd, .term, .factor]

def Level.has (l : Level) (t : Token) : Bool :=
  match l with
  | .or => t.isKeyword .or
  | .and => t.isKeyword .and
  | .equality => t.is .bangEqual || t.is .equalEqual
  | .comparison => t.is .greater || t.is .greaterEqual || t.is .less || t.is .lessEqual
  | .bitOr => t.is .bar
  | .bitXor => t.is .caret
  | .bitAnd => t.is .ampersand
  | .term => t.is .minus || t.is .plus
  | .factor => t.is .star || t.is .slash || t.is .percent

def Level.node (l : Level) (left : Expr) (op : Token) (right : Expr) : Expr :=
  match l with
  | .or | .and => .logical left op right
  | _ => .binary left op right

/-- The operator that `+=` and its like apply before they store. -/
def compoundOperator? (t : Token) : Option Punct :=
  match t.kind with
  | .punct .plusEqual => some .plus
  | .punct .minusEqual => some .minus
  | .punct .starEqual => some .star
  | .punct .slashEqual => some .slash
  | .punct .percentEqual => some .percent
  | _ => none

/-- The operator that `++` and `--` apply. -/
def stepOperator? (t : Token) : Option Punct :=
  match t.kind with
  | .punct .plusPlus => some .plus
  | .punct .minusMinus => some .minus
  | _ => none

/-- Takes an operator together with the plain one that it stands for. -/
def takeOperator? (plain? : Token → Option Punct) : Parser (Option (Token × Punct)) :=
  takeAs? fun t => (plain? t).map (t, ·)

def literal? (t : Token) : Option Literal :=
  match t.kind with
  | .keyword .false => some (.boolean false)
  | .keyword .true => some (.boolean true)
  | .keyword .null => some .null
  | .number value => some (.number value)
  | .string value => some (.text value)
  | _ => none

/-- `x op= value` is `x = x op value`; on a property it is one update, so that the object is evaluated once. -/
def updateTarget? (target : Expr) (op : Token) (value : Expr) : Parser (Option Expr) := do
  match target with
  | .variable id name => return some (.assign (← freshId) name (.binary (.variable id name) op value))
  | .get object name => return some (.update object name op value)
  | _ => return none

/-- The rest of a `break` or `continue`, which only a loop may hold. -/
def loopControl (t : Token) (keyword : Keyword) : Parser Unit := do
  if (← loopDepth) = 0 then note t.place (.outsideLoop keyword)
  let _ ← expect .semicolon (.loopControlEnd keyword)

/-- Names between parentheses; those from `count` on are checked against the limit. -/
def parameters : Nat → Nat → Parser (List Name)
  | 0, _ => exhausted
  | n + 1, count => do
    if maxArity ≤ count then note (← place) .tooManyParameters
    let name ← expectName .parameterName
    if ← accept .comma then return name :: (← parameters n (count + 1)) else return [name]

mutual

def expression : Nat → Parser Expr
  | 0 => exhausted
  | n + 1 => do commaTail n (← assignment n)

def commaTail : Nat → Expr → Parser Expr
  | 0, _ => exhausted
  | n + 1, left => do
    match ← accept? .comma with
    | some op => commaTail n (.binary left op (← assignment n))
    | none => return left

def assignment : Nat → Parser Expr
  | 0 => exhausted
  | n + 1 => do
    let target ← ternary n
    if let some equals ← accept? .equal then
      let value ← assignment n
      match target with
      | .variable _ name => return .assign (← freshId) name value
      | .get object name => return .set object name value
      | _ =>
        note equals.place .assignmentTarget
        return target
    else if let some (compound, p) ← takeOperator? compoundOperator? then
      let value ← assignment n
      match ← updateTarget? target (.ofPunct p compound.line) value with
      | some e => return e
      | none => fail compound.place .assignmentTarget
    else return target

def ternary : Nat → Parser Expr
  | 0 => exhausted
  | n + 1 => do
    let condition ← operand n Level.all
    if ← accept .question then
      let yes ← ternary n
      let _ ← expect .colon .ternaryColon
      return .ternary condition yes (← ternary n)
    else return condition

/-- An expression over the operators of the given levels, the loosest first. -/
def operand : Nat → List Level → Parser Expr
  | 0, _ => exhausted
  | n + 1, [] => unary n
  | n + 1, level :: tighter => do operandTail n level tighter (← operand n tighter)

def operandTail : Nat → Level → List Level → Expr → Parser Expr
  | 0, _, _, _ => exhausted
  | n + 1, level, tighter, left => do
    match ← take? level.has with
    | some op => operandTail n level tighter (level.node left op (← operand n tighter))
    | none => return left

def unary : Nat → Parser Expr
  | 0 => exhausted
  | n + 1 => do
    if let some op ← take? fun t => t.is .bang || t.is .minus then
      return .unary op (← unary n)
    else if let some (step, p) ← takeOperator? stepOperator? then
      let target ← suffixed n
      match ← updateTarget? target (.ofPunct p step.line) (.literal (.number .one)) with
      | some e => return e
      | none => fail step.place .incrementTarget
    else suffixed n

def suffixed : Nat → Parser Expr
  | 0 => exhausted
  | n + 1 => do
    let target ← call n
    match ← take? fun t => (stepOperator? t).isSome with
    | none => return target
    | some op =>
      match target with
      | .variable _ name => return .suffix (← freshId) name op
      | _ => fail op.place .incrementTarget

def call : Nat → Parser Expr
  | 0 => exhausted
  | n + 1 => do callTail n (← primary n)

def callTail : Nat → Expr → Parser Expr
  | 0, _ => exhausted
  | n + 1, e => do
    if ← accept .leftParen then
      let arguments ← if ← next .rightParen then pure [] else arguments n 0
      let close ← expect .rightParen .argumentEnd
      callTail n (.call e arguments close.line)
    else if ← accept .dot then
      callTail n (.get e (← expectName .propertyName))
    else if ← accept .leftBracket then
      let position ← expression n
      let close ← expect .rightBracket .indexEnd
      callTail n (.index e position close.line)
    else return e

def arguments : Nat → Nat → Parser (List Expr)
  | 0, _ => exhausted
  | n + 1, count => do
    if maxArity ≤ count then note (← place) .tooManyArguments
    let e ← assignment n
    if ← accept .comma then return e :: (← arguments n (count + 1)) else return [e]

def primary : Nat → Parser Expr
  | 0 => exhausted
  | n + 1 => do
    if let some value ← takeAs? literal? then return .literal value
    else if let some t ← acceptKeyword? .this then return .this (← freshId) t.line
    else if let some t ← take? (·.kind = .identifier) then
      return .variable (← freshId) (Name.ofToken t)
    else if ← accept .leftParen then
      let inner ← expression n
      let _ ← expect .rightParen .groupEnd
      return .group inner
    else if let some t ← acceptKeyword? .fun then
      return .lambda (← routineRest n (Name.ofToken t) .lambda)
    else fail (← place) .expression

def routine : Nat → Role → Parser Routine
  | 0, _ => exhausted
  | n + 1, role => do routineRest n (← expectName (.routineName role)) role

def routineRest : Nat → Name → Role → Parser Routine
  | 0, _, _ => exhausted
  | n + 1, name, role => do
    let _ ← expect .leftParen (.parameterList role)
    let params ← if ← next .rightParen then pure [] else parameters n 0
    let _ ← expect .rightParen .parameterEnd
    let _ ← expect .leftBrace (.routineBody role)
    return ⟨name, params, ← withLoopDepth (fun _ => 0) (block n)⟩

/-- Declarations up to a closing brace; the opening one is taken. -/
def block : Nat → Parser (List Stmt)
  | 0 => exhausted
  | n + 1 => do
    if (← next .rightBrace) || (← atEnd) then
      let _ ← expect .rightBrace .blockEnd
      return []
    else
      let s ← declaration n
      return s :: (← block n)

def members : Nat → Parser (List Routine × List Routine)
  | 0 => exhausted
  | n + 1 => do
    if (← next .rightBrace) || (← atEnd) then
      let _ ← expect .rightBrace .classEnd
      return ([], [])
    else if ← acceptKeyword .static then
      let m ← routine n .staticMethod
      let (methods, statics) ← members n
      return (methods, m :: statics)
    else
      let m ← routine n .method
      let (methods, statics) ← members n
      return (m :: methods, statics)

def declaration : Nat → Parser Stmt
  | 0 => exhausted
  | n + 1 => do
    if ← acceptKeyword .classWord then
      let name ← expectName .className
      let base ← if ← accept .colon then some <$> call n else pure none
      let _ ← expect .leftBrace .classBody
      let (methods, statics) ← members n
      return .class ⟨name, base, methods, statics⟩
    else if ← acceptNamedFunction then
      return .function (← routine n .function)
    else if ← acceptKeyword .var then
      let name ← expectName .variableName
      let initial ← if ← accept .equal then some <$> expression n else pure none
      let _ ← expect .semicolon .variableEnd
      return .var name initial
    else statement n

def statement : Nat → Parser Stmt
  | 0 => exhausted
  | n + 1 => do
    if ← acceptKeyword .if then
      let condition ← condition n .if
      let yes ← statement n
      let no ← if ← acceptKeyword .else then some <$> statement n else pure none
      return .conditional condition yes no
    else if ← acceptKeyword .while then
      let condition ← condition n .while
      return .loop condition (← withLoopDepth (· + 1) (statement n))
    else if let some t ← acceptKeyword? .return then
      let value ← if ← next .semicolon then pure none else some <$> expression n
      let _ ← expect .semicolon .returnEnd
      return .return t.line value
    else if let some t ← acceptKeyword? .break then
      loopControl t .break
      return .break t.line
    else if let some t ← acceptKeyword? .continue then
      loopControl t .continue
      return .continue t.line
    else if ← accept .leftBrace then
      return .block (← block n)
    else if ← acceptKeyword .print then
      let value ← expression n
      let _ ← expect .semicolon .printEnd
      return .print value
    else
      let value ← expression n
      let _ ← expect .semicolon .expressionEnd
      return .expression value

def condition : Nat → Keyword → Parser Expr
  | 0, _ => exhausted
  | n + 1, keyword => do
    let _ ← expect .leftParen (.condition keyword)
    let e ← expression n
    let _ ← expect .rightParen .conditionEnd
    return e

end

/-- Starts a statement, so that parsing can go on there after a fault. -/
def startsStatement (t : Token) : Bool :=
  match t.kind with
  | .keyword .classWord | .keyword .fun | .keyword .var | .keyword .if | .keyword .while
  | .keyword .print | .keyword .return | .keyword .break | .keyword .continue => true
  | _ => false

/-- What is left after skipping to behind a semicolon or before the start of a statement. -/
def boundary (last : Token) : List Token → List Token
  | [] => []
  | t :: rest => if last.is .semicolon || startsStatement t then t :: rest else boundary t rest

/-- Skips the token at fault and everything up to the next statement boundary. -/
def recover : Parser Unit := fun s =>
  match s.rest with
  | [] => .ok () s
  | t :: rest => .ok () { s with rest := boundary t rest }

/-- A declaration; a fatal fault is noted and skipped, which gives `none`. -/
def declaration? (n : Nat) : Parser (Option Stmt) := fun s =>
  match declaration n s with
  | .ok stmt s => .ok (some stmt) s
  | .error e s => (do note e.place e.fault; recover; return none) s
  | .exhausted => .exhausted

def program : Nat → Parser (List Stmt)
  | 0 => exhausted
  | n + 1 => do
    if ← atEnd then return []
    else
      let stmt? ← declaration? n
      return stmt?.toList ++ (← program n)

/-- One expression, which a semicolon may close. -/
def wholeExpression (n : Nat) : Parser Expr := do
  let e ← expression n
  let _ ← accept .semicolon
  if !(← atEnd) then note (← place) .trailing
  return e

/-- Only what stands before the first end token counts; a list without one ends on the line of its last token. -/
def State.start (tokens : List Token) (base : NodeId) : State where
  rest := tokens.takeWhile (·.kind ≠ .eof)
  endLine :=
    match tokens.find? (·.kind = .eof), tokens.getLast? with
    | some t, _ => t.line
    | none, some t => t.line
    | none, none => 1
  nextId := base
  loopDepth := 0
  noted := []

/-- More than the depth to which nonterminals nest between two tokens, for each token and for the end. -/
def budget (tokens : List Token) : Nat := 24 * (tokens.length + 1)

/-- A tree, or all faults in the order in which they were found; and the first number not handed out. -/
structure Outcome (α : Type) where
  result : Except (List Error) α
  nextId : NodeId

def run {α : Type} (p : Nat → Parser α) (tokens : List Token) (base : NodeId) : Outcome α :=
  match p (budget tokens) (.start tokens base) with
  | .ok value s => ⟨if s.noted.isEmpty then .ok value else .error s.noted, s.nextId⟩
  | .error e s => ⟨.error (s.noted ++ [e]), s.nextId⟩
  | .exhausted => ⟨.error [], base⟩

/-- Parses a program; node numbers start at `base`. -/
def parse (tokens : List Token) (base : NodeId) : Outcome (List Stmt) := run program tokens base

/-- Parses a single expression; node numbers start at `base`. -/
def parseExpression (tokens : List Token) (base : NodeId) : Outcome Expr := run wholeExpression tokens base

end Parser

end Scriptlet
