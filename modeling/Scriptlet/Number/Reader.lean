import Scriptlet.Number.Basic

/-!
Numbers from decimal text: an optional sign, digits with an optional point, an optional power of ten; or the names of
infinity and of the number that is none.
-/
namespace Scriptlet.Number

/-- A decimal `± digits · 10 ^ exponent` as it is written, or one of the special numbers. -/
inductive Written where
  | decimal (negative : Bool) (digits : Nat) (exponent : Int)
  | infinity (negative : Bool)
  | nan (negative : Bool)
deriving DecidableEq, Repr

/-- The value of a run of decimal digits. -/
def digitsOf (cs : List Char) : Nat := cs.foldl (fun n c => n * 10 + (c.toNat - '0'.toNat)) 0

def splitSign : List Char → Bool × List Char
  | '-' :: cs => (true, cs)
  | '+' :: cs => (false, cs)
  | cs => (false, cs)

/-- The power of ten after an `e`; nothing at all means power zero. -/
def readPower : List Char → Option Int
  | [] => some 0
  | c :: cs =>
    if c = 'e' || c = 'E' then
      let (negative, ds) := splitSign cs
      if ds.isEmpty || !ds.all Char.isDigit then none
      else some (if negative then -(digitsOf ds : Int) else digitsOf ds)
    else none

def readDecimal (negative : Bool) (cs : List Char) : Option Written :=
  let whole := cs.takeWhile Char.isDigit
  let (fraction, rest) := match cs.dropWhile Char.isDigit with
    | '.' :: rest => (rest.takeWhile Char.isDigit, rest.dropWhile Char.isDigit)
    | rest => ([], rest)
  if whole.isEmpty && fraction.isEmpty then none
  else (readPower rest).map fun power =>
    .decimal negative (digitsOf (whole ++ fraction)) (power - fraction.length)

def readWritten (text : String) : Option Written :=
  let (negative, cs) := splitSign text.toList
  let lower := cs.map Char.toLower
  if lower = "nan".toList then some (.nan negative)
  else if lower = "inf".toList || lower = "infinity".toList then some (.infinity negative)
  else readDecimal negative cs

/-- The number nearest to a written one, through single precision first if asked for. -/
def Written.toNumber (single : Bool) : Written → Number
  | .decimal negative digits exponent =>
    if single then ofDecimalSingle negative digits exponent else ofDecimal negative digits exponent
  | .infinity negative => Number.infinity negative
  | .nan negative => if negative then positiveNaN.neg else positiveNaN

def ofText? (text : String) : Option Number := (readWritten text).map (·.toNumber false)

def ofTextSingle? (text : String) : Option Number := (readWritten text).map (·.toNumber true)

end Scriptlet.Number
