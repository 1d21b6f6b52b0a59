/-!
Numbers of the language are doubles, held as their 64 bits: the sign of a zero and of a NaN is part of the
number, since map keys tell bit patterns apart. `shape` reads a pattern as an exact dyadic rational and
`ofScaled` writes one back; everything but the four basic operations is computed exactly on that view.
-/
namespace Scriptlet

structure Number where
  bits : UInt64
deriving DecidableEq, Repr, Inhabited

namespace Number

/-- What a bit pattern stands for. A finite number is `± mantissa · 2 ^ exponent`. -/
inductive Shape where
  | finite (negative : Bool) (mantissa : Nat) (exponent : Int)
  | infinite (negative : Bool)
  | nan
deriving DecidableEq, Repr

-- A power is the one of the core library, whatever else is in scope.
scoped instance naturalPower : Pow Nat Nat := instPowNat
scoped instance integerPower : Pow Int Nat := instPowNat

def signPlace : Nat := 2 ^ (63 : Nat)

def fractionPlace : Nat := 2 ^ (52 : Nat)

def isNegative (x : Number) : Bool := signPlace ≤ x.bits.toNat

def exponentField (x : Number) : Nat := x.bits.toNat / fractionPlace % 2048

def fractionField (x : Number) : Nat := x.bits.toNat % fractionPlace

def shape (x : Number) : Shape :=
  if x.exponentField = 2047 then
    if x.fractionField = 0 then .infinite x.isNegative else .nan
  else if x.exponentField = 0 then .finite x.isNegative x.fractionField (-1074)
  else .finite x.isNegative (x.fractionField + fractionPlace) (x.exponentField - 1075)

def isNaN (x : Number) : Bool := x.shape matches .nan

/-- The bits of a sign above the bits of a magnitude. -/
def signed (negative : Bool) (magnitude : Nat) : Number :=
  ⟨UInt64.ofNat (magnitude + if negative then signPlace else 0)⟩

def zero : Number := signed false 0

def infinity (negative : Bool) : Number := signed negative (2047 * fractionPlace)

/-- The NaN that a reader of numbers produces. -/
def positiveNaN : Number := signed false (2047 * fractionPlace + fractionPlace / 2)

/-- The NaN of an operation that has no result, such as `0 / 0`. -/
def invalid : Number := signed true (2047 * fractionPlace + fractionPlace / 2)

/-- A binary format: mantissas below `2 ^ width`, exponents from `least` to `greatest`. -/
structure Format where
  width : Nat
  least : Int
  greatest : Int

def Format.double : Format := ⟨53, -1074, 971⟩

def Format.single : Format := ⟨24, -149, 104⟩

/-- `a · 2 ^ e` as a pair of naturals, numerator and denominator. -/
def scaledRatio (a : Nat) (e : Int) : Nat × Nat :=
  (a * 2 ^ e.toNat, 2 ^ (-e).toNat)

/-- Nearest natural to `num / den`, a half going to the even neighbour. -/
def nearestQuotient (num den : Nat) : Nat :=
  let q := num / den
  let r := num % den
  if 2 * r < den then q
  else if den < 2 * r then q + 1
  else q + q % 2

/-- The binary place of the leading digit of `num / den`. -/
def leadingPlace (num den : Nat) : Int :=
  let k : Int := (num.log2 : Int) - (den.log2 : Int)
  if den * 2 ^ k.toNat ≤ num * 2 ^ (-k).toNat then k else k - 1

/-- Mantissa and exponent of the format's number nearest to `num / den`, `none` beyond the greatest. -/
def Format.nearest? (f : Format) (num den : Nat) : Option (Nat × Int) :=
  let e := max f.least (leadingPlace num den - f.width + 1)
  let m := nearestQuotient (num * 2 ^ (-e).toNat) (den * 2 ^ e.toNat)
  let (m, e) := if m = 2 ^ f.width then (2 ^ (f.width - 1), e + 1) else (m, e)
  if f.greatest < e then none else some (m, e)

/-- Bits of a magnitude `mantissa · 2 ^ exponent` in double format; the hidden leading digit is dropped. -/
def magnitudeBits (mantissa : Nat) (exponent : Int) : Nat :=
  if mantissa < fractionPlace then mantissa
  else (exponent + 1075).toNat * fractionPlace + (mantissa - fractionPlace)

/-- The double nearest to `± num / den`. -/
def ofRatio (negative : Bool) (num den : Nat) : Number :=
  if num = 0 then signed negative 0
  else match Format.double.nearest? num den with
    | some (m, e) => signed negative (magnitudeBits m e)
    | none => infinity negative

/-- The double nearest to `± mantissa · 2 ^ exponent`. -/
def ofScaled (negative : Bool) (mantissa : Nat) (exponent : Int) : Number :=
  let (num, den) := scaledRatio mantissa exponent
  ofRatio negative num den

def ofNat (n : Nat) : Number := ofRatio false n 1

def ofInt (i : Int) : Number := ofRatio (i < 0) i.natAbs 1

def one : Number := ofNat 1

/-- `± digits · 10 ^ exponent` as a ratio, with far exponents cut to where the result is certain:
beyond them every double is infinite or zero. -/
def decimalRatio (digits : Nat) (exponent : Int) : Nat × Nat :=
  let size : Int := (Nat.toDigits 10 digits).length
  let e := max (-400 - size) (min 400 exponent)
  (digits * 10 ^ e.toNat, 10 ^ (-e).toNat)

/-- The double nearest to `± digits · 10 ^ exponent`. -/
def ofDecimal (negative : Bool) (digits : Nat) (exponent : Int) : Number :=
  let (num, den) := decimalRatio digits exponent
  ofRatio negative num den

/-- As `ofDecimal`, rounded to single format first. -/
def ofDecimalSingle (negative : Bool) (digits : Nat) (exponent : Int) : Number :=
  let (num, den) := decimalRatio digits exponent
  if num = 0 then signed negative 0
  else match Format.single.nearest? num den with
    | some (m, e) => ofScaled negative m e
    | none => infinity negative

/-! Arithmetic. A NaN operand is the result, the left one first. -/

def toFloat (x : Number) : Float := Float.ofBits x.bits

def lift (op : Float → Float → Float) (x y : Number) : Number :=
  if x.isNaN then x
  else if y.isNaN then y
  else
    let r := op x.toFloat y.toFloat
    if r.isNaN then invalid else ⟨r.toBits⟩

def add (x y : Number) : Number := lift (· + ·) x y

def sub (x y : Number) : Number := lift (· - ·) x y

def mul (x y : Number) : Number := lift (· * ·) x y

def div (x y : Number) : Number := lift (· / ·) x y

def neg (x : Number) : Number := ⟨x.bits ^^^ UInt64.ofNat signPlace⟩

/-- Remainder of the division rounded towards zero; it has the sign of the dividend and is exact. -/
def rem (x y : Number) : Number :=
  match x.shape, y.shape with
  | .nan, _ => x
  | _, .nan => y
  | .infinite _, _ => invalid
  | _, .infinite _ => x
  | .finite negative a d, .finite _ b e =>
    if b = 0 then invalid
    else
      let low := min d e
      ofScaled negative (a * 2 ^ (d - low).toNat % (b * 2 ^ (e - low).toNat)) low

/-- Equality of numbers as numbers: zeros agree and a NaN differs from itself. -/
def equal (x y : Number) : Bool := x.toFloat == y.toFloat

def less (x y : Number) : Bool := x.toFloat < y.toFloat

def lessEqual (x y : Number) : Bool := x.toFloat ≤ y.toFloat

/-! Whole numbers. -/

/-- The integer that a number is, if it is one. -/
def toInt? (x : Number) : Option Int :=
  match x.shape with
  | .finite negative m e =>
    let (num, den) := scaledRatio m e
    if num % den = 0 then some (if negative then -(num / den : Nat) else (num / den : Nat)) else none
  | _ => none

/-- The position that a number denotes: a whole number, not below zero. -/
def toIndex? (x : Number) : Option Nat :=
  match x.toInt? with
  | some (.ofNat n) => some n
  | _ => none

/-- The integer below in magnitude, held within the 64-bit range; a NaN counts as zero. -/
def truncate (x : Number) : Int :=
  match x.shape with
  | .finite negative m e =>
    let (num, den) := scaledRatio m e
    let n : Int := (num / den : Nat)
    if negative then max (-2 ^ (63 : Nat)) (-n) else min (2 ^ (63 : Nat) - 1) n
  | .infinite negative => if negative then -2 ^ (63 : Nat) else 2 ^ (63 : Nat) - 1
  | .nan => 0

def bitwise (op : Int64 → Int64 → Int64) (x y : Number) : Number :=
  ofInt (op (Int64.ofInt x.truncate) (Int64.ofInt y.truncate)).toInt

def bitAnd (x y : Number) : Number := bitwise (· &&& ·) x y

def bitOr (x y : Number) : Number := bitwise (· ||| ·) x y

def bitXor (x y : Number) : Number := bitwise (· ^^^ ·) x y

/-- Bit pattern under which a number is a map key: both zeros count as the positive one. -/
def keyBits (x : Number) : UInt64 :=
  if x = signed true 0 then zero.bits else x.bits

end Number

end Scriptlet
