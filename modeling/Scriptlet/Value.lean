import Scriptlet.Number.Decimal
import Scriptlet.Heap

/-!
Values. Functions, classes and instances are references: sharing and identity are part of the language.
-/
namespace Scriptlet

inductive Value where
  | null
  | boolean (value : Bool)
  | number (value : Number)
  | text (value : String)
  | function (ref : Ref .function)
  | class (ref : Ref .classObject)
  | instance (ref : Ref .object)
deriving DecidableEq, Repr, Inhabited

namespace Value

def typeName : Value → String
  | .null => "null"
  | .boolean _ => "boolean"
  | .number _ => "number"
  | .text _ => "text"
  | .function _ => "function"
  | .class _ => "class"
  | .instance _ => "instance"

/-- Everything but `null` and `false` counts as true. -/
def truthy : Value → Bool
  | .null => false
  | .boolean b => b
  | _ => true

/-- Numbers are equal as numbers, everything else if it is the same. -/
def equal : Value → Value → Bool
  | .number x, .number y => x.equal y
  | v, w => v = w

def number? : Value → Option Number
  | .number x => some x
  | _ => none

/-- What may key a map. -/
inductive Key where
  | null
  | boolean (value : Bool)
  | number (bits : UInt64)
  | text (value : String)
deriving DecidableEq, Repr

def key? : Value → Option Key
  | .null => some .null
  | .boolean b => some (.boolean b)
  | .number x => some (.number x.keyBits)
  | .text s => some (.text s)
  | _ => none

end Value

end Scriptlet
