/-!
# Binary Floating-Point Numbers

Floating-point numbers as exact values `± significand * 2 ^ exponent`, for any binary interchange
format. A finite number is kept in lowest terms, so two finite numbers of one format are equal as
values exactly when they are equal as data, the two zeros aside.

* `Format` fixes which exact values a format holds; `single` and `double` are the two in use.
* `Value.round` gives the number of a format nearest to an exact fraction, a tie going to the even
  significand, and the infinity of the same sign past the largest number.
* `Finite.widen` and `Finite.narrow` pass between the two formats.
-/

namespace MailTemplate.Binary

/-- A binary format: how many bits a significand has, the exponent of the smallest positive
number, and the largest binary logarithm of a finite number. -/
structure Format where
  /-- The number of bits of a significand. -/
  precision : Nat
  /-- The exponent of the smallest positive number. -/
  minExponent : Int
  /-- The floor of the binary logarithm of the largest finite number. -/
  maxLog : Int
deriving DecidableEq, Repr

/-- The 32-bit format. -/
def Format.single : Format := ⟨24, -149, 127⟩

/-- The 64-bit format. -/
def Format.double : Format := ⟨53, -1074, 1023⟩

/-- A power. -/
def powerOf (base exponent : Nat) : Nat :=
  Nat.pow base exponent

/-- The format holds `significand * 2 ^ exponent`, given in lowest terms. -/
def Format.Holds (f : Format) (significand : Nat) (exponent : Int) : Prop :=
  significand < powerOf 2 f.precision ∧ f.minExponent ≤ exponent ∧
    exponent + significand.log2 ≤ f.maxLog

instance (f : Format) (significand : Nat) (exponent : Int) :
    Decidable (f.Holds significand exponent) :=
  inferInstanceAs (Decidable (_ ∧ _ ∧ _))

/-- A pair in lowest terms: an odd significand, or zero with exponent zero. -/
def Reduced (significand : Nat) (exponent : Int) : Prop :=
  significand % 2 = 1 ∨ significand = 0 ∧ exponent = 0

/-- Whether a pair is in lowest terms is decidable. -/
instance (significand : Nat) (exponent : Int) : Decidable (Reduced significand exponent) :=
  inferInstanceAs (Decidable (_ ∨ _))

/-- A finite number `± significand * 2 ^ exponent` of a format, in lowest terms. -/
structure Finite (f : Format) where
  /-- Whether the sign is minus; a zero has a sign as well. -/
  negative : Bool
  /-- The odd factor of the number, or zero. -/
  significand : Nat
  /-- The power of two of the number. -/
  exponent : Int
  reduced : Reduced significand exponent
  held : f.Holds significand exponent
deriving DecidableEq

/-- A floating-point value of a format. -/
inductive Value (f : Format) where
  /-- A finite number. -/
  | finite (x : Finite f)
  /-- An infinity. -/
  | infinite (negative : Bool)
  /-- The value that is no number. -/
  | nan
deriving DecidableEq

/-- Divides by two while the significand is even. -/
def reduce (significand : Nat) (exponent : Int) : Nat × Int :=
  if significand = 0 then (0, 0)
  else if significand % 2 = 1 then (significand, exponent)
  else reduce (significand / 2) (exponent + 1)
termination_by significand
decreasing_by omega

/-- The outcome of `reduce` is in lowest terms. -/
theorem reduced_reduce (significand : Nat) (exponent : Int) :
    Reduced (reduce significand exponent).1 (reduce significand exponent).2 := by
  fun_induction reduce significand exponent with
  | case1 => exact .inr ⟨rfl, rfl⟩
  | case2 _ _ _ odd => exact .inl odd
  | case3 _ _ _ _ ih => exact ih

/-- The quotient rounded to the nearest integer, a tie going to the even one. -/
def roundQuotient (num den : Nat) : Nat :=
  let q := num / den
  let r := num % den
  if 2 * r < den then q
  else if den < 2 * r then q + 1
  else q + q % 2

/-- The floor of the binary logarithm of the positive fraction `num / den`. -/
def log2Quotient (num den : Nat) : Int :=
  let k : Int := (num.log2 : Int) - den.log2
  if den * powerOf 2 k.toNat ≤ num * powerOf 2 (-k).toNat then k else k - 1

namespace Value

variable {f : Format}

/-- The number `± significand * 2 ^ exponent`, or the infinity of that sign if the format does not
hold it. -/
def ofScaled (f : Format) (negative : Bool) (significand : Nat) (exponent : Int) : Value f :=
  let r := reduce significand exponent
  if held : f.Holds r.1 r.2 then
    .finite ⟨negative, r.1, r.2, reduced_reduce significand exponent, held⟩
  else .infinite negative

/-- The value of the format nearest to `± num / den * 2 ^ shift`. -/
def round (f : Format) (negative : Bool) (num den : Nat) (shift : Int) : Value f :=
  if num = 0 then ofScaled f negative 0 0
  else
    let unit := log2Quotient num den + shift - (f.precision - 1)
    let exponent := if f.minExponent ≤ unit then unit else f.minExponent
    let scale := shift - exponent
    let rounded :=
      roundQuotient (num * powerOf 2 scale.toNat) (den * powerOf 2 (-scale).toNat)
    ofScaled f negative rounded exponent

/-- The value nearest to a natural number with a sign. -/
def ofNat (f : Format) (negative : Bool) (n : Nat) : Value f :=
  round f negative n 1 0

/-- The value nearest to an integer. -/
def ofInt (f : Format) (i : Int) : Value f :=
  ofNat f (i < 0) i.natAbs

/-- Numerical equality: the zeros are equal, and no value equals the value that is no number. -/
def agrees : Value f → Value f → Bool
  | .finite x, .finite y =>
    x.significand == y.significand && x.exponent == y.exponent &&
      (x.negative == y.negative || x.significand == 0)
  | .infinite x, .infinite y => x == y
  | _, _ => false

/-- Whether a value is finite. -/
def isFinite : Value f → Bool
  | .finite _ => true
  | _ => false

/-- Whether a value is below zero; neither zero is. -/
def isNegative : Value f → Bool
  | .finite x => x.negative && x.significand != 0
  | .infinite negative => negative
  | .nan => false

end Value

namespace Finite

variable {f : Format}

/-- The zero of the given sign. -/
def zero (f : Format) (negative : Bool) (held : f.Holds 0 0 := by decide) : Finite f :=
  ⟨negative, 0, 0, .inr ⟨rfl, rfl⟩, held⟩

/-- The number with the opposite sign. -/
def neg (x : Finite f) : Finite f :=
  { x with negative := !x.negative }

/-- The product, rounded. -/
def mul (x y : Finite f) : Value f :=
  .round f (x.negative != y.negative) (x.significand * y.significand) 1 (x.exponent + y.exponent)

/-- The quotient by a number that is not zero, rounded. -/
def div (x y : Finite f) : Value f :=
  .round f (x.negative != y.negative) x.significand y.significand (x.exponent - y.exponent)

/-- The largest integer not above the number. -/
def floor (x : Finite f) : Int :=
  let num : Int := x.significand * (powerOf 2 x.exponent.toNat : Nat)
  let den : Int := (powerOf 2 (-x.exponent).toNat : Nat)
  Int.fdiv (if x.negative then -num else num) den

/-- Every number of the 32-bit format is one of the 64-bit format. -/
theorem holds_double {significand : Nat} {exponent : Int}
    (h : Format.single.Holds significand exponent) : Format.double.Holds significand exponent := by
  obtain ⟨small, low, high⟩ := h
  simp only [Format.Holds, Format.single, Format.double] at *
  exact ⟨Nat.lt_of_lt_of_le small (by decide), by omega, by omega⟩

/-- The same number in the wider format. -/
def widen (x : Finite .single) : Finite .double :=
  ⟨x.negative, x.significand, x.exponent, x.reduced, holds_double x.held⟩

/-- The nearest value of the narrower format. -/
def narrow (x : Finite .double) : Value .single :=
  .round .single x.negative x.significand 1 x.exponent

end Finite

end MailTemplate.Binary
