import Scriptlet.Token.Basic

/-!
What can go wrong while a program runs or a host talks to it, and how it is worded.
-/
namespace Scriptlet

inductive Fault where
  | undefinedVariable (name : String)
  | undefinedProperty (name : String)
  | noProperties
  | noFields
  | operandNumber
  | operandNumbers
  | operandSum
  | unaryOperator
  | binaryOperator
  | textIndex
  | textRange
  | instanceIndexing
  | indexing
  | notCallable
  | valueNotCallable (shown : String)
  | arity (expected given : Nat)
  | baseClass
  | listRange (shown : String) (size : Nat)
  | listIndex (shown : String)
  | keyExists (shown : String)
  | keyMissing (shown : String)
  | keyType (typeName : String)
  | notClass (shown : String)
  | malformedAddress (address : String)
  | undefinedAddress (address : String)
  | fieldAddress (address typeName : String)
  | custom (message : String)
deriving DecidableEq, Repr

def Fault.message : Fault → String
  | .undefinedVariable name => "Undefined variable '" ++ name ++ "'."
  | .undefinedProperty name => "Undefined property '" ++ name ++ "'."
  | .noProperties => "Only instances have properties."
  | .noFields => "Only instances have fields."
  | .operandNumber => "Operand must be a number."
  | .operandNumbers => "Operands must be numbers."
  | .operandSum => "Operands must be two numbers or two strings."
  | .unaryOperator => "Invalid unary operator."
  | .binaryOperator => "Invalid binary operator."
  | .textIndex => "Index must be a whole number."
  | .textRange => "Index out of range."
  | .instanceIndexing => "Instance does not support indexing."
  | .indexing => "Only text and instances can be indexed."
  | .notCallable => "Can only call functions and classes."
  | .valueNotCallable shown => "'" ++ shown ++ "' is not callable"
  | .arity expected given =>
    "Expected " ++ Nat.repr expected ++ " arguments but got " ++ Nat.repr given ++ "."
  | .baseClass => "Base class must be a class."
  | .listRange shown size =>
    "Index " ++ shown ++ " out of range for a list of " ++ Nat.repr size ++ " items."
  | .listIndex shown => "List index must be a whole number, got " ++ shown ++ "."
  | .keyExists shown => "Key " ++ shown ++ " already exists."
  | .keyMissing shown => "Key " ++ shown ++ " not found."
  | .keyType typeName => "Map keys must be null, booleans, numbers or text, got " ++ typeName ++ "."
  | .notClass shown => "'" ++ shown ++ "' is not a class"
  | .malformedAddress address => "Malformed address '" ++ address ++ "'"
  | .undefinedAddress address => "Undefined value '" ++ address ++ "'"
  | .fieldAddress address typeName =>
    "Only instances have fields, '" ++ address ++ "' is a " ++ typeName
  | .custom message => message

/-- A fault of the program, which has a line, or of a native or the host, which has none yet. -/
inductive Failure where
  | runtime (line : Nat) (fault : Fault)
  | native (fault : Fault)
deriving DecidableEq, Repr

def Failure.display : Failure → String
  | .runtime line fault => lineTag line ++ "Runtime error: " ++ fault.message
  | .native fault => "Native error: " ++ fault.message

/-- A native fault becomes a fault of the program at the line of the call that ran into it. -/
def Failure.at (line : Nat) : Failure → Failure
  | .native fault => .runtime line fault
  | failure => failure

end Scriptlet
