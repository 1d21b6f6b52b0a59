import Scriptlet.Token.Basic

/-!
Syntax trees. Every node that reads or writes a variable carries an identifying number, unique in a session, under
which the scope analysis records how many frames out its variable lives.
-/
namespace Scriptlet

abbrev NodeId := Nat

/-- An identifier where it stands in the source. -/
structure Name where
  text : String
  line : Nat
deriving DecidableEq, Repr

def Name.place (n : Name) : Place := ⟨n.line, some n.text⟩

inductive Literal where
  | number (value : Number)
  | text (value : String)
  | boolean (value : Bool)
  | null
deriving DecidableEq, Repr

mutual

/-- Operators are kept as tokens; `line` is the line of the closing `)` of a call or `]` of an index. -/
inductive Expr where
  | literal (value : Literal)
  | unary (op : Token) (right : Expr)
  | binary (left : Expr) (op : Token) (right : Expr)
  | logical (left : Expr) (op : Token) (right : Expr)
  | ternary (condition yes no : Expr)
  | group (inner : Expr)
  | variable (id : NodeId) (name : Name)
  | assign (id : NodeId) (name : Name) (value : Expr)
  | suffix (id : NodeId) (name : Name) (op : Token)
  | call (callee : Expr) (arguments : List Expr) (line : Nat)
  | get (object : Expr) (name : Name)
  | set (object : Expr) (name : Name) (value : Expr)
  | update (object : Expr) (name : Name) (op : Token) (value : Expr)
  | index (object : Expr) (position : Expr) (line : Nat)
  | this (id : NodeId) (line : Nat)
  | lambda (routine : Routine)
deriving BEq

/-- A declared function, method or lambda; a lambda has its keyword for a name. -/
structure Routine where
  name : Name
  params : List Name
  body : List Stmt
deriving BEq

structure ClassDeclaration where
  name : Name
  base : Option Expr
  methods : List Routine
  statics : List Routine
deriving BEq

inductive Stmt where
  | expression (value : Expr)
  | print (value : Expr)
  | var (name : Name) (initial : Option Expr)
  | block (body : List Stmt)
  | conditional (condition : Expr) (yes : Stmt) (no : Option Stmt)
  | loop (condition : Expr) (body : Stmt)
  | break (line : Nat)
  | continue (line : Nat)
  | function (routine : Routine)
  | return (line : Nat) (value : Option Expr)
  | class (declaration : ClassDeclaration)
deriving BEq

end

/-- The method that runs when an instance is created. -/
def constructorName : String := "construct"

/-- What a routine is at run time. -/
inductive RoutineKind where
  | function
  | lambda
  | method
  | constructor
  | static
deriving DecidableEq, Repr

def RoutineKind.ofMethod (name : String) : RoutineKind :=
  if name = constructorName then .constructor else .method

end Scriptlet
