import Scriptlet.Ast.Basic

/-!
What can be wrong with the structure of a program, and how it is worded.
-/
namespace Scriptlet

/-- What a body of parameters and statements belongs to. -/
inductive Role where
  | function
  | method
  | staticMethod
  | lambda
deriving DecidableEq, Repr

def Role.text : Role → String
  | .function => "function"
  | .method => "method"
  | .staticMethod => "static method"
  | .lambda => "lambda"

/-- Most parameters of a function and most arguments of a call. -/
def maxArity : Nat := 255

namespace Parser

inductive Fault where
  | className
  | classBody
  | classEnd
  | routineName (role : Role)
  | parameterList (role : Role)
  | parameterName
  | parameterEnd
  | tooManyParameters
  | routineBody (role : Role)
  | blockEnd
  | variableName
  | variableEnd
  | printEnd
  | expressionEnd
  | condition (keyword : Keyword)
  | conditionEnd
  | outsideLoop (keyword : Keyword)
  | loopControlEnd (keyword : Keyword)
  | returnEnd
  | ternaryColon
  | assignmentTarget
  | incrementTarget
  | tooManyArguments
  | argumentEnd
  | propertyName
  | indexEnd
  | groupEnd
  | expression
  | trailing
deriving DecidableEq, Repr

def Fault.message : Fault → String
  | .className => "Expected class name"
  | .classBody => "Expected '\x7b' before class body"
  | .classEnd => "Expected '\x7d' after class body"
  | .routineName role => "Expected " ++ role.text ++ " name"
  | .parameterList role => "Expected '(' after " ++ role.text ++ " name"
  | .parameterName => "Expected parameter name"
  | .parameterEnd => "Expected ')' after parameters"
  | .tooManyParameters => "Can't have more than " ++ Nat.repr maxArity ++ " parameters"
  | .routineBody role => "Expected '\x7b' before " ++ role.text ++ " body"
  | .blockEnd => "Expected '\x7d' after block"
  | .variableName => "Expected variable name"
  | .variableEnd => "Expected ';' after variable declaration"
  | .printEnd => "Expected ';' after value"
  | .expressionEnd => "Expected ';' after expression"
  | .condition keyword => "Expected '(' after '" ++ keyword.text ++ "'"
  | .conditionEnd => "Expected ')' after condition"
  | .outsideLoop keyword => "Must be inside a loop to use '" ++ keyword.text ++ "'"
  | .loopControlEnd keyword => "Expected ';' after '" ++ keyword.text ++ "'"
  | .returnEnd => "Expected ';' after return value"
  | .ternaryColon => "Expected ':' in ternary expression"
  | .assignmentTarget => "Invalid assignment target"
  | .incrementTarget => "Invalid increment target"
  | .tooManyArguments => "Can't have more than " ++ Nat.repr maxArity ++ " arguments"
  | .argumentEnd => "Expected ')' after arguments"
  | .propertyName => "Expected property name after '.'"
  | .indexEnd => "Expected ']' after index"
  | .groupEnd => "Expected ')' after expression"
  | .expression => "Expected expression"
  | .trailing => "Expected end of expression"

/-- A fault and the place to which it points. -/
structure Error where
  place : Place
  fault : Fault
deriving DecidableEq, Repr

end Parser

end Scriptlet
