import MailTemplate.Binary.Shortest

/-!
# JSON Numbers

A JSON number is a whole number that fits 64 bits, signed or unsigned, or a finite 64-bit
floating-point number. `Number.ofParts?` is the value of a written number: the digits of its whole
part and fraction, as far as they fit 64 bits, times a power of ten.

* `Number.chars` writes a number: whole numbers as digits, the others as the shortest digits that
  read back, positional from `0.00001` up to `10 ^ 16` and scientific elsewhere.
-/

namespace MailTemplate.Json

open Binary

/-- A whole number that fits 64 bits, signed or unsigned: from `-2 ^ 63` up to `2 ^ 64 - 1`. -/
structure Integer where
  /-- The number itself. -/
  value : Int
  inRange : -9223372036854775808 ≤ value ∧ value < 18446744073709551616 := by decide
deriving DecidableEq

/-- A JSON number. -/
inductive Number where
  /-- A number written without a point and without an exponent. -/
  | integer (i : Integer)
  /-- Any other number. -/
  | float (x : Finite .double)
deriving DecidableEq

namespace Integer

/-- The number of an unsigned 64-bit word. -/
def ofUInt64 (n : UInt64) : Integer :=
  ⟨n.toNat, by have := n.toNat_lt; omega⟩

/-- The number of an unsigned 32-bit word. -/
def ofUInt32 (n : UInt32) : Integer :=
  ⟨n.toNat, by have := n.toNat_lt; omega⟩

/-- The number of an unsigned byte. -/
def ofUInt8 (n : UInt8) : Integer :=
  ⟨n.toNat, by have := n.toNat_lt; omega⟩

/-- The number of a signed 64-bit word. -/
def ofInt64 (n : Int64) : Integer :=
  ⟨n.toInt, by have := n.le_toInt; have := n.toInt_lt; omega⟩

/-- The whole number, if it fits 64 bits. -/
def ofInt? (i : Int) : Option Integer :=
  if h : -9223372036854775808 ≤ i ∧ i < 18446744073709551616 then some ⟨i, h⟩ else none

/-- The digits of a whole number, after a minus if it is negative. -/
def chars (i : Integer) : List Char :=
  let digits := digitChars i.value.natAbs
  if i.value < 0 then '-' :: digits else digits

end Integer

namespace Number

/-- Text of a floating-point number: the shortest digits that read back. A number from `0.00001` up
to `10 ^ 16` is written with a point, any other with an exponent. -/
def floatChars (x : Finite .double) : List Char :=
  let magnitude : List Char :=
    if x.significand = 0 then ['0', '.', '0']
    else
      let d := x.shortest .toEven
      if -5 ≤ d.leadingExponent ∧ d.leadingExponent < 16 then
        if 0 ≤ d.exponent then d.positional ++ ['.', '0'] else d.positional
      else d.scientific
  if x.negative then '-' :: magnitude else magnitude

/-- The text of a number. -/
def chars : Number → List Char
  | .integer i => i.chars
  | .float x => floatChars x

/-- A digit sequence that is being collected into 64 bits: the digits kept, as one number, how many
of them there are, and how many had to be dropped. -/
structure Digits where
  /-- The digits kept, as one number. -/
  significand : Nat := 0
  /-- How many digits were kept. -/
  kept : Nat := 0
  /-- How many digits were dropped. -/
  dropped : Nat := 0

/-- Takes one more digit, unless an earlier one was dropped or 64 bits do not hold it. -/
def Digits.push (d : Digits) (digit : Nat) : Digits :=
  if d.dropped = 0 ∧ d.significand * 10 + digit < UInt64.size then
    ⟨d.significand * 10 + digit, d.kept + 1, 0⟩
  else { d with dropped := d.dropped + 1 }

/-- Takes a run of digits. -/
def Digits.extend (d : Digits) (digits : List Char) : Digits :=
  digits.foldl (fun d c => d.push (c.toNat - '0'.toNat)) d

/-- The finite number of a value. -/
def finite? : Value .double → Option (Finite .double)
  | .finite x => some x
  | _ => none

/-- `10 ^ n` as a floating-point number. -/
def powerOfTen? (n : Nat) : Option (Finite .double) :=
  finite? (.ofNat .double false (powerOf 10 n))

/-- The largest power of ten that is a finite number. -/
def maxPower : Nat := 308

/-- One rounded multiplication by a power of ten. -/
def timesPower? (x : Finite .double) (n : Nat) : Option (Finite .double) :=
  (powerOfTen? n).bind fun p => finite? (x.mul p)

/-- One rounded division by a power of ten. -/
def overPower? (x : Finite .double) (n : Nat) : Option (Finite .double) :=
  (powerOfTen? n).bind fun p => finite? (x.div p)

/-- `x * 10 ^ exponent`, or nothing if that is infinite. A number is divided by at most
`10 ^ maxPower` at a time, and each step rounds. -/
def scale? (x : Finite .double) (exponent : Int) : Option (Finite .double) :=
  if 0 ≤ exponent then
    if exponent ≤ maxPower then timesPower? x exponent.natAbs
    else if x.significand = 0 then some x
    else none
  else if -exponent ≤ maxPower then overPower? x exponent.natAbs
  else if x.significand = 0 then some x
  else (overPower? x maxPower).bind fun y => scale? y (exponent + maxPower)
termination_by exponent.natAbs
decreasing_by simp only [maxPower] at *; omega

/-- The floating-point number `± significand * 10 ^ exponent`, or nothing if it is out of range. -/
def ofParts? (negative : Bool) (significand : Nat) (exponent : Int) : Option (Finite .double) :=
  match Value.ofNat .double false significand with
  | .finite x => (scale? x exponent).map fun y => if negative then y.neg else y
  | _ => none

/-- The floating-point zero of a sign. -/
def zero (negative : Bool) : Number :=
  .float (.zero .double negative)

/-- A whole number with a sign. It is a floating-point number if 64 bits do not hold it, and so is
zero with a minus. -/
def ofSigned? (negative : Bool) (significand : Nat) : Option Number :=
  if negative ∧ significand = 0 then some (.zero true)
  else
    match Integer.ofInt? (if negative then -(significand : Int) else significand) with
    | some i => some (.integer i)
    | none => (ofParts? negative significand 0).map .float

end Number

end MailTemplate.Json
