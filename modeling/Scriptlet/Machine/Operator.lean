import Scriptlet.Machine.Fault
import Scriptlet.Store

/-!
Operators on values.
-/
namespace Scriptlet.Machine

def unary (op : Token) (v : Value) : Except Fault Value :=
  match op.kind, v with
  | .punct .minus, .number x => .ok (.number x.neg)
  | .punct .minus, _ => .error .operandNumber
  | .punct .bang, v => .ok (.boolean !v.truthy)
  | _, _ => .error .unaryOperator

def onNumbers (f : Number → Number → Value) : Value → Value → Except Fault Value
  | .number x, .number y => .ok (f x y)
  | _, _ => .error .operandNumbers

/-- Numbers add up; text takes in anything but `null`, as it is displayed. -/
def add (store : Store) (v w : Value) : Except Fault Value :=
  match v, w with
  | .number x, .number y => .ok (.number (x.add y))
  | .text a, .text b => .ok (.text (a ++ b))
  | .text _, .null => .error .operandSum
  | .text a, w => .ok (.text (a ++ store.display w))
  | .null, .text _ => .error .operandSum
  | v, .text b => .ok (.text (store.display v ++ b))
  | _, _ => .error .operandSum

def binary (store : Store) (op : Token) (v w : Value) : Except Fault Value :=
  match op.kind with
  | .punct .comma => .ok w
  | .punct .equalEqual => .ok (.boolean (v.equal w))
  | .punct .bangEqual => .ok (.boolean !(v.equal w))
  | .punct .plus => add store v w
  | .punct .minus => onNumbers (fun x y => .number (x.sub y)) v w
  | .punct .star => onNumbers (fun x y => .number (x.mul y)) v w
  | .punct .slash => onNumbers (fun x y => .number (x.div y)) v w
  | .punct .percent => onNumbers (fun x y => .number (x.rem y)) v w
  | .punct .ampersand => onNumbers (fun x y => .number (x.bitAnd y)) v w
  | .punct .bar => onNumbers (fun x y => .number (x.bitOr y)) v w
  | .punct .caret => onNumbers (fun x y => .number (x.bitXor y)) v w
  | .punct .greater => onNumbers (fun x y => .boolean (y.less x)) v w
  | .punct .greaterEqual => onNumbers (fun x y => .boolean (y.lessEqual x)) v w
  | .punct .less => onNumbers (fun x y => .boolean (x.less y)) v w
  | .punct .lessEqual => onNumbers (fun x y => .boolean (x.lessEqual y)) v w
  | _ => .error .binaryOperator

/-- Whether a logical operator is done with its left operand. -/
def shortCircuits (op : Token) (left : Value) : Bool :=
  if op.isKeyword .or then left.truthy else !left.truthy

/-- What `++` and `--` leave behind. -/
def stepped (op : Token) (x : Number) : Number := if op.is .plusPlus then x.add .one else x.sub .one

/-- The character at a position of a text. -/
def textAt (t : String) (position : Value) : Except Fault Value :=
  match position.number?.bind (·.toIndex?) with
  | none => .error .textIndex
  | some i =>
    match t.toList[i]? with
    | some c => .ok (.text c.toString)
    | none => .error .textRange

def literal : Literal → Value
  | .number x => .number x
  | .text s => .text s
  | .boolean b => .boolean b
  | .null => .null

end Scriptlet.Machine
