import MailTemplate.Binary.Format
import Mathlib.Data.Nat.Log

/-!
# Rounding What a Format Holds

A number that a format holds is rounded to itself. So a number of the 32-bit format comes back from
the 64-bit format as it was.

* `round_eq_finite` is the general statement, `narrow_widen` the one for the two formats.
-/

namespace MailTemplate.Binary

theorem powerOf_pos (n : Nat) : 0 < powerOf 2 n :=
  Nat.pow_pos (by decide)

theorem powerOf_succ (n : Nat) : powerOf 2 (n + 1) = powerOf 2 n * 2 :=
  Nat.pow_succ 2 n

/-- Powers of two are moved from an odd number to the exponent. -/
theorem reduce_mul_powerOf {significand : Nat} (hodd : significand % 2 = 1) (k : Nat)
    (exponent : Int) :
    reduce (significand * powerOf 2 k) exponent = (significand, exponent + k) := by
  induction k generalizing exponent with
  | zero =>
    have hne : significand ≠ 0 := by omega
    have hone : powerOf 2 0 = 1 := rfl
    rw [hone, Nat.mul_one, reduce, if_neg hne, if_pos hodd, Int.natCast_zero, Int.add_zero]
  | succ k ih =>
    have hne : significand * powerOf 2 k * 2 ≠ 0 := by
      have hpos := Nat.mul_pos (show 0 < significand by omega) (powerOf_pos k)
      omega
    rw [powerOf_succ, ← Nat.mul_assoc, reduce, if_neg hne, if_neg (by omega),
      Nat.mul_div_cancel _ (by decide), ih, Int.add_assoc, Int.add_comm 1, Int.natCast_succ]

/-- The quotient of an exact division is not rounded. -/
theorem roundQuotient_one (num : Nat) : roundQuotient num 1 = num := by
  simp [roundQuotient, Nat.mod_one]

theorem log2Quotient_one {num : Nat} (h : num ≠ 0) : log2Quotient num 1 = num.log2 := by
  have hle : powerOf 2 num.log2 ≤ num := Nat.log2_self_le h
  have hzero : powerOf 2 0 = 1 := rfl
  have hlog : Nat.log2 1 = 0 := by decide
  simp [log2Quotient, hzero, hlog, hle]

namespace Value

variable {f : Format} {negative : Bool} {significand : Nat} {exponent : Int}

theorem ofScaled_eq_finite {scaled : Nat} {unit : Int}
    (hparts : reduce scaled unit = (significand, exponent))
    (hreduced : Reduced significand exponent) (hheld : f.Holds significand exponent) :
    ofScaled f negative scaled unit =
      .finite ⟨negative, significand, exponent, hreduced, hheld⟩ := by
  obtain ⟨rfl, rfl⟩ := Prod.mk.inj (hparts : ((reduce scaled unit).1, (reduce scaled unit).2) = _)
  exact dif_pos hheld

/-- A number that the format holds is rounded to itself. -/
theorem round_eq_finite (hreduced : Reduced significand exponent)
    (hheld : f.Holds significand exponent) :
    round f negative significand 1 exponent =
      .finite ⟨negative, significand, exponent, hreduced, hheld⟩ := by
  rcases id hreduced with hodd | ⟨rfl, rfl⟩
  · have hne : significand ≠ 0 := by omega
    obtain ⟨hsmall, hmin, -⟩ := id hheld
    have hlog : significand.log2 < f.precision := (Nat.log2_lt hne).2 hsmall
    rw [round, if_neg hne, log2Quotient_one hne]
    dsimp only
    -- The last place that is kept is not above the exponent, so nothing is cut off.
    have hunit : (if f.minExponent ≤ (significand.log2 : Int) + exponent - (f.precision - 1) then
        (significand.log2 : Int) + exponent - (f.precision - 1) else f.minExponent) ≤ exponent := by
      split <;> omega
    generalize (if f.minExponent ≤ (significand.log2 : Int) + exponent - (f.precision - 1) then
      (significand.log2 : Int) + exponent - (f.precision - 1) else f.minExponent) = unit at hunit ⊢
    have hscale : (-(exponent - unit)).toNat = 0 := by omega
    have hone : 1 * powerOf 2 0 = 1 := rfl
    have hback : unit + ((exponent - unit).toNat : Int) = exponent := by omega
    rw [hscale, hone, roundQuotient_one]
    refine ofScaled_eq_finite ?_ hreduced hheld
    rw [reduce_mul_powerOf hodd, hback]
  · rw [round, if_pos rfl]
    exact ofScaled_eq_finite (by rw [reduce, if_pos rfl]) hreduced hheld

end Value

/-- A 32-bit number comes back from the 64-bit format as it was. -/
theorem Finite.narrow_widen (x : Finite .single) : x.widen.narrow = .finite x :=
  Value.round_eq_finite x.reduced x.held

end MailTemplate.Binary
