import Scriptlet.Ast.Basic

/-!
Expressions in prefix form, as `(+ 1.0 (* 2.0 x))`. A function is shown by its parameters and the length of its body.
-/
namespace Scriptlet

def Literal.print : Literal → String
  | .number n => n.exactText
  | .text s => s
  | .boolean true => "true"
  | .boolean false => "false"
  | .null => "null"

def Routine.print (f : Routine) : String :=
  "(fun (" ++ " ".intercalate (f.params.map Name.text) ++ ") <" ++ Nat.repr f.body.length ++ " statements>)"

mutual

def Expr.print : Expr → String
  | .literal value => value.print
  | .unary op right => "(" ++ op.lexeme ++ " " ++ right.print ++ ")"
  | .binary left op right => "(" ++ op.lexeme ++ " " ++ left.print ++ " " ++ right.print ++ ")"
  | .logical left op right => "(" ++ op.lexeme ++ " " ++ left.print ++ " " ++ right.print ++ ")"
  | .ternary condition yes no => "(?: " ++ condition.print ++ " " ++ yes.print ++ " " ++ no.print ++ ")"
  | .group inner => "(group " ++ inner.print ++ ")"
  | .variable _ name => name.text
  | .assign _ name value => "(= " ++ name.text ++ " " ++ value.print ++ ")"
  | .suffix _ name op => "(post" ++ op.lexeme ++ " " ++ name.text ++ ")"
  | .call callee arguments _ => "(call " ++ callee.print ++ printArguments arguments ++ ")"
  | .get object name => "(. " ++ object.print ++ " " ++ name.text ++ ")"
  | .set object name value => "(= (. " ++ object.print ++ " " ++ name.text ++ ") " ++ value.print ++ ")"
  | .update object name op value =>
    "(" ++ op.lexeme ++ "= (. " ++ object.print ++ " " ++ name.text ++ ") " ++ value.print ++ ")"
  | .index object position _ => "([] " ++ object.print ++ " " ++ position.print ++ ")"
  | .this _ _ => "this"
  | .lambda routine => routine.print

/-- Each argument after a blank. -/
def Expr.printArguments : List Expr → String
  | [] => ""
  | e :: es => " " ++ e.print ++ printArguments es

end

end Scriptlet
