import Mathlib.Algebra.Order.Field.Rat
import Mathlib.Data.Rat.Cast.Order
import Mathlib.Tactic.FieldSimp
import Mathlib.Tactic.Linarith
import Scriptlet.Number.Basic

/-!
The exact value of a number, as a rational. A number is an integer if its value is one, and the numbers of small naturals
have these as their values.
-/
namespace Scriptlet

namespace Number

/-- The value of a finite number. -/
def value? (x : Number) : Option ℚ :=
  match x.shape with
  | .finite negative m e => some ((if negative then -1 else 1) * (m * (2 : ℚ) ^ e))
  | _ => none

theorem scaledRatio_value (m : Nat) (e : Int) :
    (m : ℚ) * (2 : ℚ) ^ e = ((scaledRatio m e).1 : ℚ) / ((scaledRatio m e).2 : ℚ) := by
  cases e with
  | ofNat k => simp [scaledRatio]
  | negSucc k => simp [scaledRatio, zpow_negSucc, div_eq_mul_inv]

/-- A quotient is an integer if there is no remainder. -/
theorem quotient_eq_int {num den : Nat} (pos : 0 < den) {z : Int} :
    (num : ℚ) / den = z ↔ num % den = 0 ∧ ((num / den : Nat) : Int) = z := by
  have nonzero : (den : ℚ) ≠ 0 := by exact_mod_cast pos.ne'
  rw [div_eq_iff nonzero]
  constructor
  · intro same
    have product : (num : Int) = z * den := by exact_mod_cast same
    have divides : den ∣ num := Int.natCast_dvd_natCast.1 ⟨z, product.trans (mul_comm _ _)⟩
    refine ⟨Nat.mod_eq_zero_of_dvd divides, ?_⟩
    rw [Int.natCast_div, product, Int.mul_ediv_cancel _ (by exact_mod_cast pos.ne')]
  · rintro ⟨whole, rfl⟩
    have product : num / den * den = num := Nat.div_mul_cancel (Nat.dvd_of_mod_eq_zero whole)
    exact_mod_cast product.symm

/-- A number is an integer just if its value is this integer. -/
theorem toInt?_eq_some {x : Number} {z : Int} : x.toInt? = some z ↔ x.value? = some (z : ℚ) := by
  unfold toInt? value?
  cases x.shape with
  | finite negative m e =>
    have pos : 0 < (scaledRatio m e).2 := Nat.pow_pos (by decide)
    dsimp only
    rw [scaledRatio_value, Option.some.injEq]
    cases negative with
    | false =>
      simp only [Bool.false_eq_true, if_false, one_mul, quotient_eq_int pos, Option.ite_none_right_eq_some,
        Option.some.injEq]
    | true =>
      have negated : -1 * (((scaledRatio m e).1 : ℚ) / ((scaledRatio m e).2 : ℚ)) = z ↔
          ((scaledRatio m e).1 : ℚ) / ((scaledRatio m e).2 : ℚ) = ((-z : Int) : ℚ) := by
        rw [neg_one_mul, neg_eq_iff_eq_neg, Int.cast_neg]
      simp only [if_true, negated, quotient_eq_int pos, Option.ite_none_right_eq_some, Option.some.injEq, neg_eq_iff_eq_neg]
  | infinite negative => exact ⟨nofun, nofun⟩
  | nan => exact ⟨nofun, nofun⟩

/-- A number denotes a position just if its value is this natural. -/
theorem toIndex?_eq_some {x : Number} {k : Nat} : x.toIndex? = some k ↔ x.value? = some (k : ℚ) := by
  rw [← Int.cast_natCast, ← toInt?_eq_some]
  unfold toIndex?
  split
  · next n whole =>
    rw [whole]
    simp
  · next other =>
    refine ⟨nofun, fun whole => ?_⟩
    exact absurd whole (other k)

section Fields

theorem fractionPlace_eq : fractionPlace = 4503599627370496 := rfl

theorem signPlace_eq : signPlace = 9223372036854775808 := rfl

theorem bits_signed {x : Nat} (bounded : x < signPlace) : (signed false x).bits.toNat = x := by
  have small : x < 18446744073709551616 := by
    rw [signPlace_eq] at bounded
    omega
  simp only [signed, Bool.false_eq_true, if_false, Nat.add_zero]
  exact UInt64.toNat_ofNat_of_lt' small

variable {field fraction : Nat}

theorem fields_lt (high : field < 2047) (low : fraction < fractionPlace) : field * fractionPlace + fraction < signPlace := by
  rw [fractionPlace_eq] at *
  rw [signPlace_eq]
  omega

theorem exponentField_signed (high : field < 2047) (low : fraction < fractionPlace) :
    (signed false (field * fractionPlace + fraction)).exponentField = field := by
  rw [exponentField, bits_signed (fields_lt high low)]
  rw [fractionPlace_eq] at *
  omega

theorem fractionField_signed (high : field < 2047) (low : fraction < fractionPlace) :
    (signed false (field * fractionPlace + fraction)).fractionField = fraction := by
  rw [fractionField, bits_signed (fields_lt high low), Nat.mul_comm, Nat.mul_add_mod, Nat.mod_eq_of_lt low]

/-- The bits of a normal number are read back. -/
theorem shape_signed (positive : 0 < field) (high : field < 2047) (low : fraction < fractionPlace) :
    (signed false (field * fractionPlace + fraction)).shape =
      .finite false (fraction + fractionPlace) (field - 1075) := by
  have sign : (signed false (field * fractionPlace + fraction)).isNegative = false := by
    rw [isNegative, bits_signed (fields_lt high low), decide_eq_false_iff_not, Nat.not_le]
    exact fields_lt high low
  rw [shape, exponentField_signed high low, fractionField_signed high low, sign, if_neg high.ne, if_neg positive.ne']

end Fields

theorem nearestQuotient_one (n : Nat) : nearestQuotient n 1 = n := by
  simp [nearestQuotient, Nat.mod_one]

theorem leadingPlace_one {n : Nat} (pos : 0 < n) : leadingPlace n 1 = n.log2 := by
  have reaches : 2 ^ n.log2 ≤ n := Nat.log2_self_le pos.ne'
  have whole : (-(n.log2 : Int)).toNat = 0 := by omega
  have single : Nat.log2 1 = 0 := rfl
  simp only [leadingPlace, single, Nat.cast_zero, sub_zero, Int.toNat_natCast, whole, Nat.one_mul]
  exact if_pos (reaches.trans_eq (Nat.mul_one n).symm)

/-- A natural with at most 53 binary digits is scaled until its mantissa is normal. -/
theorem nearest?_natural {n : Nat} (pos : 0 < n) (small : n < 2 * fractionPlace) :
    ∃ k : Nat, k ≤ 52 ∧ fractionPlace ≤ n * 2 ^ k ∧ n * 2 ^ k < 2 * fractionPlace ∧
      Format.double.nearest? n 1 = some (n * 2 ^ k, -(k : Int)) := by
  have place : n.log2 ≤ 52 := Nat.lt_succ_iff.1 ((Nat.log2_lt pos.ne').2 small)
  obtain ⟨k, hk⟩ : ∃ k, n.log2 + k = 52 := ⟨52 - n.log2, Nat.add_sub_cancel' place⟩
  have total : 2 ^ n.log2 * 2 ^ k = fractionPlace := by
    rw [← Nat.pow_add, hk]
    rfl
  have low : fractionPlace ≤ n * 2 ^ k := total ▸ Nat.mul_le_mul_right _ (Nat.log2_self_le pos.ne')
  have high : n * 2 ^ k < 2 * fractionPlace := by
    have below : n < 2 ^ n.log2 * 2 := Nat.lt_log2_self
    rw [← total, ← Nat.mul_assoc, Nat.mul_comm 2]
    exact Nat.mul_lt_mul_of_pos_right below (Nat.pow_pos (by decide))
  refine ⟨k, by omega, low, high, ?_⟩
  have exponent : max Format.double.least ((n.log2 : Int) - Format.double.width + 1) = -(k : Int) := by
    simp only [Format.double]
    omega
  have whole : (-(k : Int)).toNat = 0 := by omega
  have rounded : nearestQuotient (n * 2 ^ k) (2 ^ 0) = n * 2 ^ k := nearestQuotient_one _
  have room : ¬ n * 2 ^ k = 2 ^ Format.double.width := high.ne
  have reached : ¬ Format.double.greatest < -(k : Int) := by
    simp only [Format.double]
    omega
  simp only [Format.nearest?, leadingPlace_one pos, exponent, neg_neg, Int.toNat_natCast, whole, Nat.one_mul, rounded,
    if_neg room, if_neg reached]

/-- The numbers of naturals with at most 53 binary digits are exact. -/
theorem value?_ofNat {n : Nat} (small : n < 2 * fractionPlace) : (ofNat n).value? = some (n : ℚ) := by
  by_cases zero : n = 0
  · have shape : (ofNat 0).shape = .finite false 0 (-1074) := rfl
    simp [zero, value?, shape]
  · obtain ⟨k, hk, low, high, nearest⟩ := nearest?_natural (Nat.pos_of_ne_zero zero) small
    have bits : ofNat n = signed false ((1075 - k) * fractionPlace + (n * 2 ^ k - fractionPlace)) := by
      have field : (-(k : Int) + 1075).toNat = 1075 - k := by omega
      simp only [ofNat, ofRatio, if_neg zero, nearest, magnitudeBits, if_neg (Nat.not_lt.2 low), field]
    have shape : (ofNat n).shape = .finite false (n * 2 ^ k) (-(k : Int)) := by
      rw [bits, shape_signed (by omega) (by omega) (by omega), Nat.sub_add_cancel low]
      congr 1
      omega
    simp [value?, shape]

theorem mantissa_eq_zero {negative : Bool} {m : Nat} {e : Int}
    (zero : (if negative then -1 else 1) * ((m : ℚ) * (2 : ℚ) ^ e) = 0) : m = 0 := by
  have scale : (2 : ℚ) ^ e ≠ 0 := zpow_ne_zero e two_ne_zero
  cases negative <;> simpa [scale] using zero

/-- There are two numbers whose value is zero. -/
theorem value?_eq_zero {x : Number} : x.value? = some 0 ↔ x = signed false 0 ∨ x = signed true 0 := by
  constructor
  · intro zero
    have fields : x.exponentField = 0 ∧ x.fractionField = 0 := by
      unfold value? shape at zero
      split at zero
      · next negative m e shape =>
        have none := mantissa_eq_zero (Option.some.inj zero)
        split at shape
        · split at shape <;> cases shape
        · split at shape
          · next subnormal =>
            cases shape
            exact ⟨subnormal, none⟩
          · cases shape
            rw [fractionPlace_eq] at none
            omega
      · cases zero
    have bits : x.bits.toNat = 0 ∨ x.bits.toNat = 9223372036854775808 := by
      have bounded : x.bits.toNat < 18446744073709551616 := x.bits.toNat_lt
      unfold exponentField fractionField at fields
      rw [fractionPlace_eq] at fields
      omega
    refine bits.imp (fun same => ?_) fun same => ?_
    · exact congrArg Number.mk (UInt64.toNat_inj.1 same)
    · exact congrArg Number.mk (UInt64.toNat_inj.1 same)
  · rintro (rfl | rfl)
    · have shape : (signed false 0).shape = .finite false 0 (-1074) := rfl
      simp [value?, shape]
    · have shape : (signed true 0).shape = .finite true 0 (-1074) := rfl
      simp [value?, shape]

/-- Numbers are the same key if they are the same or have both the value zero. -/
theorem keyBits_eq_iff {x y : Number} : x.keyBits = y.keyBits ↔ x = y ∨ x.value? = some 0 ∧ y.value? = some 0 := by
  have ext {x y : Number} (same : x.bits = y.bits) : x = y := congrArg Number.mk same
  rw [value?_eq_zero, value?_eq_zero]
  unfold keyBits
  grind [zero]

end Number

end Scriptlet
