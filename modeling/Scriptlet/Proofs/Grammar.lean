import Scriptlet.Ast.Parser

/-!
The grammar of the language as a relation. `Derives k ts i t j` says that the tokens `ts` are a `k` whose tree is `t`,
where the nodes of the tree are numbered from `i` in the order in which they are met, and `j` is the first number left
over. The rules are those of the grammar, one constructor for each alternative; a repetition `x ( op x )*` is a symbol
that carries the tree of what stands before it, so operators associate to the left.
-/
namespace Scriptlet.Grammar

open Scriptlet.Parser (Level)
open Scriptlet.Parser.Name (ofToken)

/-- The operators of a level of binding strength. -/
def operators : Level → List Token.Kind
  | .or => [.keyword .or]
  | .and => [.keyword .and]
  | .equality => [.punct .bangEqual, .punct .equalEqual]
  | .comparison => [.punct .greater, .punct .greaterEqual, .punct .less, .punct .lessEqual]
  | .bitOr => [.punct .bar]
  | .bitXor => [.punct .caret]
  | .bitAnd => [.punct .ampersand]
  | .term => [.punct .minus, .punct .plus]
  | .factor => [.punct .slash, .punct .star, .punct .percent]

/-- The level of the operands of a level; those of the last one are unary expressions. -/
def tighter : Level → Option Level
  | .or => some .and
  | .and => some .equality
  | .equality => some .comparison
  | .comparison => some .bitOr
  | .bitOr => some .bitXor
  | .bitXor => some .bitAnd
  | .bitAnd => some .term
  | .term => some .factor
  | .factor => none

def joined (l : Level) (left : Expr) (op : Token) (right : Expr) : Expr :=
  if l = .or ∨ l = .and then .logical left op right else .binary left op right

/-- The assignment operators that also compute, each with the operator that it applies. -/
def compounds : List (Punct × Punct) :=
  [(.plusEqual, .plus), (.minusEqual, .minus), (.starEqual, .star), (.slashEqual, .slash),
    (.percentEqual, .percent)]

def steps : List (Punct × Punct) := [(.plusPlus, .plus), (.minusMinus, .minus)]

/-- `x op value` with the operator at the line of the token that stands for the whole update. -/
def updated (id : NodeId) (n o : Token) (q : Punct) (value : Expr) : Expr :=
  .binary (.variable id (ofToken n)) (.ofPunct q o.line) value

def one : Expr := .literal (.number .one)

mutual

/-- Whether an `else` after the statement would belong to an `if` inside of it. -/
def endsOpen : Stmt → Bool
  | .conditional _ _ no => branchOpen no
  | .loop _ body => endsOpen body
  | _ => false

def branchOpen : Option Stmt → Bool
  | none => true
  | some no => endsOpen no

end

inductive Symbol where
  | declarations (inLoop : Bool)
  | declaration (inLoop : Bool)
  | statement (inLoop : Bool)
  | block (inLoop : Bool)
  | members
  | method
  | function (name : Name)
  | parameters
  | names
  | expression
  | commas (left : Expr)
  | assignment
  | ternary
  | operand (level : Option Level)
  | operands (level : Level) (left : Expr)
  | unary
  | prefixed
  | suffixed
  | call
  | calls (callee : Expr)
  | arguments
  | values
  | primary

abbrev Symbol.Tree : Symbol → Type
  | .declarations _ | .block _ => List Stmt
  | .declaration _ | .statement _ => Stmt
  | .members => List Routine × List Routine
  | .method | .function _ => Routine
  | .parameters | .names => List Name
  | .arguments | .values => List Expr
  | _ => Expr

set_option autoImplicit true in
inductive Derives : (k : Symbol) → List Token → NodeId → k.Tree → NodeId → Prop
  -- declaration*
  | noDeclaration : Derives (.declarations l) [] i [] i
  | moreDeclarations : Derives (.declaration l) ts i s j → Derives (.declarations l) us j ss k →
      Derives (.declarations l) (ts ++ us) i (s :: ss) k
  -- "class" NAME ( ":" call )? "{" ( "static"? method )* "}"
  | plainClass : c.isKeyword .classWord → n.kind = .identifier → o.is .leftBrace →
      Derives .members ts i ms j → e.is .rightBrace →
      Derives (.declaration l) (c :: n :: o :: ts ++ [e]) i (.class ⟨ofToken n, none, ms.1, ms.2⟩) j
  | derivedClass : c.isKeyword .classWord → n.kind = .identifier → b.is .colon →
      Derives .call us i base j → o.is .leftBrace → Derives .members ts j ms k → e.is .rightBrace →
      Derives (.declaration l) (c :: n :: b :: us ++ o :: ts ++ [e]) i
        (.class ⟨ofToken n, some base, ms.1, ms.2⟩) k
  | noMember : Derives .members [] i ([], []) i
  | oneMethod : Derives .method ts i r j → Derives .members us j ms k →
      Derives .members (ts ++ us) i (r :: ms.1, ms.2) k
  | oneStatic : c.isKeyword .static → Derives .method ts i r j → Derives .members us j ms k →
      Derives .members (c :: ts ++ us) i (ms.1, r :: ms.2) k
  | method : n.kind = .identifier → Derives (.function (ofToken n)) ts i r j →
      Derives .method (n :: ts) i r j
  -- "(" parameters? ")" block, where no loop outside counts for the body
  | function : o.is .leftParen → Derives .parameters ts i ps i → c.is .rightParen →
      Derives (.block false) us i body j → Derives (.function name) (o :: ts ++ c :: us) i ⟨name, ps, body⟩ j
  | noParameter : Derives .parameters [] i [] i
  | someParameters : Derives .names ts i ps i → ps.length ≤ 255 → Derives .parameters ts i ps i
  | oneName : n.kind = .identifier → Derives .names [n] i [ofToken n] i
  | moreNames : n.kind = .identifier → c.is .comma → Derives .names ts i ns i →
      Derives .names (n :: c :: ts) i (ofToken n :: ns) i
  | functionDeclaration : c.isKeyword .fun → Derives .method ts i r j →
      Derives (.declaration l) (c :: ts) i (.function r) j
  -- "var" NAME ( "=" expression )? ";"
  | plainVariable : c.isKeyword .var → n.kind = .identifier → e.is .semicolon →
      Derives (.declaration l) [c, n, e] i (.var (ofToken n) none) i
  | initialVariable : c.isKeyword .var → n.kind = .identifier → o.is .equal →
      Derives .expression ts i value j → e.is .semicolon →
      Derives (.declaration l) (c :: n :: o :: ts ++ [e]) i (.var (ofToken n) (some value)) j
  | statement : Derives (.statement l) ts i s j → Derives (.declaration l) ts i s j
  -- "if" "(" expression ")" statement ( "else" statement )?, with the nearest "if" for an "else"
  | ifThen : c.isKeyword .if → o.is .leftParen → Derives .expression ts i e j → p.is .rightParen →
      Derives (.statement l) us j yes k →
      Derives (.statement l) (c :: o :: ts ++ p :: us) i (.conditional e yes none) k
  | ifElse : c.isKeyword .if → o.is .leftParen → Derives .expression ts i e j → p.is .rightParen →
      Derives (.statement l) us j yes k → endsOpen yes = false → d.isKeyword .else →
      Derives (.statement l) vs k no m →
      Derives (.statement l) (c :: o :: ts ++ p :: us ++ d :: vs) i (.conditional e yes (some no)) m
  | while : c.isKeyword .while → o.is .leftParen → Derives .expression ts i e j → p.is .rightParen →
      Derives (.statement true) us j body k →
      Derives (.statement l) (c :: o :: ts ++ p :: us) i (.loop e body) k
  | returnNull : c.isKeyword .return → e.is .semicolon →
      Derives (.statement l) [c, e] i (.return c.line none) i
  | returnValue : c.isKeyword .return → Derives .expression ts i value j → e.is .semicolon →
      Derives (.statement l) (c :: ts ++ [e]) i (.return c.line (some value)) j
  | break : c.isKeyword .break → e.is .semicolon → Derives (.statement true) [c, e] i (.break c.line) i
  | continue : c.isKeyword .continue → e.is .semicolon →
      Derives (.statement true) [c, e] i (.continue c.line) i
  | blockStatement : Derives (.block l) ts i body j → Derives (.statement l) ts i (.block body) j
  | print : c.isKeyword .print → Derives .expression ts i value j → e.is .semicolon →
      Derives (.statement l) (c :: ts ++ [e]) i (.print value) j
  | expressionStatement : Derives .expression ts i value j → e.is .semicolon →
      Derives (.statement l) (ts ++ [e]) i (.expression value) j
  | block : o.is .leftBrace → Derives (.declarations l) ts i body j → c.is .rightBrace →
      Derives (.block l) (o :: ts ++ [c]) i body j
  -- assignment ( "," assignment )*
  | expression : Derives .assignment ts i left j → Derives (.commas left) us j e k →
      Derives .expression (ts ++ us) i e k
  | noComma : Derives (.commas e) [] i e i
  | comma : c.is .comma → Derives .assignment ts i right j → Derives (.commas (.binary left c right)) us j e k →
      Derives (.commas left) (c :: ts ++ us) i e k
  -- ( call "." )? NAME ( "=" | "+=" | "-=" | "*=" | "/=" | "%=" ) assignment | ternary
  | assignName : n.kind = .identifier → o.is .equal → Derives .assignment us (i + 1) value k →
      Derives .assignment (n :: o :: us) i (.assign k (ofToken n) value) (k + 1)
  | assignProperty : Derives .call ts i object j → d.is .dot → n.kind = .identifier → o.is .equal →
      Derives .assignment us j value k →
      Derives .assignment (ts ++ d :: n :: o :: us) i (.set object (ofToken n) value) k
  | updateName : n.kind = .identifier → (p, q) ∈ compounds → o.is p →
      Derives .assignment us (i + 1) value k →
      Derives .assignment (n :: o :: us) i (.assign k (ofToken n) (updated i n o q value)) (k + 1)
  | updateProperty : Derives .call ts i object j → d.is .dot → n.kind = .identifier →
      (p, q) ∈ compounds → o.is p → Derives .assignment us j value k →
      Derives .assignment (ts ++ d :: n :: o :: us) i (.update object (ofToken n) (.ofPunct q o.line) value) k
  | plainAssignment : Derives .ternary ts i e j → Derives .assignment ts i e j
  -- operand ( "?" ternary ":" ternary )?
  | plainTernary : Derives (.operand (some .or)) ts i e j → Derives .ternary ts i e j
  | ternary : Derives (.operand (some .or)) ts i e j → q.is .question → Derives .ternary us j yes k →
      c.is .colon → Derives .ternary vs k no m →
      Derives .ternary (ts ++ q :: us ++ c :: vs) i (.ternary e yes no) m
  -- tighter ( op tighter )*, for each level of operators
  | operand : Derives (.operand (tighter l)) ts i left j → Derives (.operands l left) us j e k →
      Derives (.operand (some l)) (ts ++ us) i e k
  | noOperator : Derives (.operands l e) [] i e i
  | operator : o.kind ∈ operators l → Derives (.operand (tighter l)) ts i right j →
      Derives (.operands l (joined l left o right)) us j e k → Derives (.operands l left) (o :: ts ++ us) i e k
  | unaryOperand : Derives .unary ts i e j → Derives (.operand none) ts i e j
  -- ( "!" | "-" ) unary | ( "++" | "--" ) ( call "." )? NAME | call | NAME ( "++" | "--" )
  | unary : o.is .bang ∨ o.is .minus → Derives .unary ts i e j → Derives .unary (o :: ts) i (.unary o e) j
  | plainUnary : Derives .prefixed ts i e j → Derives .unary ts i e j
  | stepName : (p, q) ∈ steps → o.is p → n.kind = .identifier →
      Derives .prefixed [o, n] i (.assign (i + 1) (ofToken n) (updated i n o q one)) (i + 2)
  | stepProperty : (p, q) ∈ steps → o.is p → Derives .call ts i object j → d.is .dot →
      n.kind = .identifier →
      Derives .prefixed (o :: ts ++ [d, n]) i (.update object (ofToken n) (.ofPunct q o.line) one) j
  | plainPrefixed : Derives .suffixed ts i e j → Derives .prefixed ts i e j
  | suffixed : n.kind = .identifier → (p, q) ∈ steps → o.is p →
      Derives .suffixed [n, o] i (.suffix (i + 1) (ofToken n) o) (i + 2)
  | plainSuffixed : Derives .call ts i e j → Derives .suffixed ts i e j
  -- primary ( "(" arguments? ")" | "." NAME | "[" expression "]" )*
  | call : Derives .primary ts i e j → Derives (.calls e) us j f k → Derives .call (ts ++ us) i f k
  | noCall : Derives (.calls e) [] i e i
  | invoke : o.is .leftParen → Derives .arguments ts i args j → c.is .rightParen →
      Derives (.calls (.call e args c.line)) us j f k → Derives (.calls e) (o :: ts ++ c :: us) i f k
  | property : d.is .dot → n.kind = .identifier → Derives (.calls (.get e (ofToken n))) us i f k →
      Derives (.calls e) (d :: n :: us) i f k
  | index : o.is .leftBracket → Derives .expression ts i position j → c.is .rightBracket →
      Derives (.calls (.index e position c.line)) us j f k → Derives (.calls e) (o :: ts ++ c :: us) i f k
  | noArgument : Derives .arguments [] i [] i
  | someArguments : Derives .values ts i args j → args.length ≤ 255 → Derives .arguments ts i args j
  | oneValue : Derives .assignment ts i e j → Derives .values ts i [e] j
  | moreValues : Derives .assignment ts i e j → c.is .comma → Derives .values us j es k →
      Derives .values (ts ++ c :: us) i (e :: es) k
  -- primary
  | numberLiteral : t.kind = .number x → Derives .primary [t] i (.literal (.number x)) i
  | textLiteral : t.kind = .string s → Derives .primary [t] i (.literal (.text s)) i
  | trueLiteral : t.isKeyword .true → Derives .primary [t] i (.literal (.boolean true)) i
  | falseLiteral : t.isKeyword .false → Derives .primary [t] i (.literal (.boolean false)) i
  | nullLiteral : t.isKeyword .null → Derives .primary [t] i (.literal .null) i
  | thisWord : t.isKeyword .this → Derives .primary [t] i (.this i t.line) (i + 1)
  | name : t.kind = .identifier → Derives .primary [t] i (.variable i (ofToken t)) (i + 1)
  | group : o.is .leftParen → Derives .expression ts i e j → c.is .rightParen →
      Derives .primary (o :: ts ++ [c]) i (.group e) j
  | lambda : c.isKeyword .fun → Derives (.function (ofToken c)) ts i r j →
      Derives .primary (c :: ts) i (.lambda r) j

/-- A whole program: declarations that do not lie in a loop. -/
def Program (ts : List Token) (base : NodeId) (program : List Stmt) (next : NodeId) : Prop :=
  Derives (.declarations false) ts base program next

/-- A whole expression, which a semicolon may close. -/
def WholeExpression (ts : List Token) (base : NodeId) (e : Expr) (next : NodeId) : Prop :=
  Derives .expression ts base e next ∨
    ∃ us c, ts = us ++ [c] ∧ c.is .semicolon ∧ Derives .expression us base e next

end Scriptlet.Grammar
