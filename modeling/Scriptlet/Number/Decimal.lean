import Scriptlet.Number.Basic

/-!
Decimal forms of numbers. `shortest` finds the fewest digits that read back as the same double, testing on
each grid of `1, 2, … 17` digits the value's two neighbours in exact arithmetic; the layouts below write them.
-/
namespace Scriptlet

/-- The positive decimal `digits · 10 ^ exponent`. -/
structure Decimal where
  digits : Nat
  exponent : Int
deriving DecidableEq, Repr

/-- Where a value goes that lies halfway between the two shortest forms. -/
inductive Tie where
  | up
  | even
deriving DecidableEq, Repr

namespace Decimal

open scoped Number

def size (n : Nat) : Nat := (Nat.toDigits 10 n).length

/-- The interval of rationals that round to one double, all over the denominator `den`. -/
structure Interval where
  value : Nat
  low : Nat
  high : Nat
  den : Nat
  closed : Bool

/-- Half way to the neighbouring doubles; below a power of two the neighbour is twice as near. -/
def Interval.ofDouble (mantissa : Nat) (exponent : Int) : Interval :=
  let unit : Nat := 2 ^ (exponent - 2).toNat
  let narrow := mantissa = Number.fractionPlace ∧ -1074 < exponent
  { value := 4 * mantissa * unit
    low := (4 * mantissa - if narrow then 1 else 2) * unit
    high := (4 * mantissa + 2) * unit
    den := 2 ^ (2 - exponent).toNat
    closed := mantissa % 2 = 0 }

/-- The least `k` with `value < 10 ^ k`. -/
def Interval.magnitude (i : Interval) : Int :=
  if i.den ≤ i.value then size (i.value / i.den)
  else
    let j := size (i.den / i.value)
    if i.den ≤ i.value * 10 ^ (j - 1) then 2 - j else 1 - j

def Interval.contains (i : Interval) (d : Decimal) : Bool :=
  let c := d.digits * 10 ^ d.exponent.toNat * i.den
  let s : Nat := 10 ^ (-d.exponent).toNat
  if i.closed then i.low * s ≤ c ∧ c ≤ i.high * s else i.low * s < c ∧ c < i.high * s

/-- The nearer neighbour of the value on the grid of multiples of `10 ^ exponent` that reads back. -/
def Interval.onGrid? (i : Interval) (tie : Tie) (exponent : Int) : Option Decimal :=
  let num := i.value * 10 ^ (-exponent).toNat
  let den := i.den * 10 ^ exponent.toNat
  let below : Decimal := ⟨num / den, exponent⟩
  let above : Decimal := ⟨num / den + 1, exponent⟩
  match i.contains below, i.contains above with
  | true, false => some below
  | false, true => some above
  | false, false => none
  | true, true =>
    let twice := 2 * (num % den)
    if twice < den then some below
    else if den < twice then some above
    else match tie with
      | .up => some above
      | .even => some (if below.digits % 2 = 0 then below else above)

/-- A carry past the leading digit leaves one zero at the end. -/
def trim (d : Decimal) : Decimal :=
  if d.digits % 10 = 0 then ⟨d.digits / 10, d.exponent + 1⟩ else d

/-- Seventeen digits always read back. -/
def Interval.shortest (i : Interval) (tie : Tie) : Decimal :=
  let k := i.magnitude
  ((List.range 17).findSome? fun n : Nat => i.onGrid? tie (k - 1 - n)).elim ⟨0, 0⟩ trim

/-- The fewest digits that read back as the positive double `mantissa · 2 ^ exponent`. -/
def ofDouble (tie : Tie) (mantissa : Nat) (exponent : Int) : Decimal :=
  if mantissa = 0 then ⟨0, 0⟩ else (Interval.ofDouble mantissa exponent).shortest tie

def digitText (d : Decimal) : List Char := Nat.toDigits 10 d.digits

/-- Power of ten of the leading digit. -/
def leadingExponent (d : Decimal) : Int := d.exponent + size d.digits - 1

/-- Positional notation, with a point only before a fraction. -/
def plain (d : Decimal) : List Char :=
  let cs := d.digitText
  if 0 ≤ d.exponent then cs ++ List.replicate d.exponent.toNat '0'
  else
    let places := (-d.exponent).toNat
    if places < cs.length then cs.take (cs.length - places) ++ '.' :: cs.drop (cs.length - places)
    else '0' :: '.' :: List.replicate (places - cs.length) '0' ++ cs

/-- Positional with a fraction when the leading power is from -5 to 15, otherwise with a signed exponent. -/
def listed (d : Decimal) : List Char :=
  let e := d.leadingExponent
  if -5 ≤ e ∧ e ≤ 15 then
    if 0 ≤ d.exponent then d.plain ++ ['.', '0'] else d.plain
  else
    let power := 'e' :: (if e < 0 then '-' else '+') :: Nat.toDigits 10 e.natAbs
    match d.digitText with
    | [] => power
    | [c] => c :: power
    | c :: cs => c :: '.' :: cs ++ power

end Decimal

namespace Number

def withSign (negative : Bool) (cs : List Char) : String :=
  String.ofList (if negative then '-' :: cs else cs)

/-- Shortest digits without exponent. -/
def positional (x : Number) : String :=
  match x.shape with
  | .finite negative m e => withSign negative (Decimal.ofDouble .up m e).plain
  | .infinite negative => withSign negative ['i', 'n', 'f']
  | .nan => "NaN"

/-- The integer that a number is, if it lies strictly within `± 2 ^ 63`. -/
def small? (x : Number) : Option Int :=
  match x.toInt? with
  | some i => if i.natAbs < 2 ^ (63 : Nat) then some i else none
  | none => none

def decimalInt (i : Int) : String := withSign (i < 0) (Nat.toDigits 10 i.natAbs)

/-- How a program shows a number: small integers without a fraction or the sign of zero. -/
def display (x : Number) : String :=
  match x.small? with
  | some i => decimalInt i
  | none => x.positional

/-- How a token shows its number: small integers keep one decimal place. -/
def literalText (x : Number) : String :=
  match x.small? with
  | some i => decimalInt i ++ ".0"
  | none => x.positional

/-- How an expression tree shows a number: every whole number in full, with one decimal place. -/
def exactText (x : Number) : String :=
  match x.shape, x.toInt? with
  | .finite negative _ _, some i => withSign negative (Nat.toDigits 10 i.natAbs ++ ['.', '0'])
  | _, _ => x.positional

/-- How a token listing writes a number: a number without decimal form is `null`. -/
def listed (x : Number) : String :=
  match x.shape with
  | .finite negative m e => withSign negative (Decimal.ofDouble .even m e).listed
  | _ => "null"

end Number

end Scriptlet
