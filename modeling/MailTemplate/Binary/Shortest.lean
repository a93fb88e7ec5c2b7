import MailTemplate.Binary.Format

/-!
# Shortest Decimal Digits

The shortest decimal number that reads back as a given floating-point number. A decimal reads back
if it lies between the midpoints to the two neighbouring numbers, the midpoints themselves included
when the significand is even. Decimal grids are tried from the coarsest one on; on the first grid
with a point that reads back, the point nearest to the number is taken, and a tie is settled by
the rule that the writer asks for.
-/

namespace MailTemplate.Binary

/-- A positive decimal number `digits * 10 ^ exponent`. -/
structure Decimal where
  /-- All significant digits as one number. -/
  digits : Nat
  /-- The power of ten of the last digit. -/
  exponent : Int
deriving DecidableEq, Repr

/-- Which of two equally near decimals is taken. -/
inductive TieRule where
  /-- The one with an even last digit. -/
  | toEven
  /-- The larger one. -/
  | up
deriving DecidableEq, Repr

/-- Compares `a * 10 ^ t` with `b * 2 ^ q`. -/
def compareScaled (a : Nat) (t : Int) (b : Nat) (q : Int) : Ordering :=
  compare (a * powerOf 10 t.toNat * powerOf 2 (-q).toNat)
    (b * powerOf 2 q.toNat * powerOf 10 (-t).toNat)

namespace Finite

variable {f : Format}

/-- The exponent of one unit in the last place. -/
def unitExponent (x : Finite f) : Int :=
  let unit := (x.significand.log2 : Int) + x.exponent - (f.precision - 1)
  if f.minExponent ≤ unit then unit else f.minExponent

/-- The number counted in units in its last place. -/
def units (x : Finite f) : Nat :=
  x.significand * powerOf 2 (x.exponent - x.unitExponent).toNat

/-- Whether the magnitude is a power of two whose lower neighbour is only half a unit away. -/
def atBinadeStart (x : Finite f) : Bool :=
  x.units == powerOf 2 (f.precision - 1) && f.minExponent < x.unitExponent

/-- Whether `digits * 10 ^ t` reads back as the magnitude of the number. -/
def ReadsBack (x : Finite f) (digits : Nat) (t : Int) : Bool :=
  let low := 4 * x.units - (if x.atBinadeStart then 1 else 2)
  let high := 4 * x.units + 2
  let closed := x.units % 2 = 0
  let aboveLow := compareScaled digits t low (x.unitExponent - 2)
  let belowHigh := compareScaled digits t high (x.unitExponent - 2)
  (aboveLow == .gt || closed && aboveLow == .eq) &&
    (belowHigh == .lt || closed && belowHigh == .eq)

/-- The greatest multiple of `10 ^ t` not above the magnitude, counted in `10 ^ t`. -/
def below (x : Finite f) (t : Int) : Nat :=
  x.significand * powerOf 2 x.exponent.toNat * powerOf 10 (-t).toNat /
    (powerOf 2 (-x.exponent).toNat * powerOf 10 t.toNat)

/-- The nearest point of the grid of multiples of `10 ^ t` that reads back, if there is one. -/
def onGrid? (x : Finite f) (tie : TieRule) (t : Int) : Option Decimal :=
  let low := x.below t
  match x.ReadsBack low t, x.ReadsBack (low + 1) t with
  | false, false => none
  | true, false => some ⟨low, t⟩
  | false, true => some ⟨low + 1, t⟩
  | true, true =>
    match compareScaled (2 * low + 1) t (2 * x.significand) x.exponent with
    | .gt => some ⟨low, t⟩
    | .lt => some ⟨low + 1, t⟩
    | .eq => if tie = .toEven ∧ low % 2 = 0 then some ⟨low, t⟩ else some ⟨low + 1, t⟩

/-- A power of ten above the magnitude, by at most two decimal places. -/
def gridStart (x : Finite f) : Int :=
  ((x.significand.log2 : Int) + x.exponent + 1) * 30103 / 100000 + 1

/-- The shortest decimal that reads back as the magnitude of a number other than zero. -/
def shortest (x : Finite f) (tie : TieRule) : Decimal :=
  let grids := (List.range (f.precision / 3 + 5)).map fun (i : Nat) => x.gridStart - i
  (grids.findSome? (x.onGrid? tie)).getD ⟨x.units, 0⟩

end Finite

/-- The decimal digits of a number as characters. -/
def digitChars (n : Nat) : List Char :=
  Nat.toDigits 10 n

namespace Decimal

/-- Positional text: digits with a point only where a fraction follows. -/
def positional (d : Decimal) : List Char :=
  let ds := digitChars d.digits
  let places := (-d.exponent).toNat
  if 0 ≤ d.exponent then ds ++ List.replicate d.exponent.toNat '0'
  else if places < ds.length then
    ds.take (ds.length - places) ++ '.' :: ds.drop (ds.length - places)
  else '0' :: '.' :: (List.replicate (places - ds.length) '0' ++ ds)

/-- The power of ten of the first digit. -/
def leadingExponent (d : Decimal) : Int :=
  d.exponent + (digitChars d.digits).length - 1

/-- Scientific text: one digit before the point, and a signed exponent. -/
def scientific (d : Decimal) : List Char :=
  let e := d.leadingExponent
  let mantissa : List Char := match digitChars d.digits with
    | [] => []
    | [c] => [c]
    | c :: cs => c :: '.' :: cs
  mantissa ++ 'e' :: (if e < 0 then '-' else '+') :: digitChars e.natAbs

end Decimal

end MailTemplate.Binary
