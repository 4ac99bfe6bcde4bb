-- SUMMARY: Binary floating-point numbers, given by their bits.
import JsonText.Decimal.Basic

/-!
# Binary floating-point numbers

A number comes in one of two formats, single and double, as its bits: a sign,
an exponent field and a fraction. `magnitude` reads exponent and fraction as a
natural number of units of a power of two.
-/

namespace JsonText

/-- A number in one of the two interchange formats. -/
inductive Binary where
  | single (bits : UInt32)
  | double (bits : UInt64)
deriving DecidableEq, Repr

namespace Binary

/-! ## Formats -/

/-- How the bits of a number are divided. -/
structure Format where
  /-- How many bits the fraction has. -/
  fractionBits : Nat
  /-- How many bits the exponent field has. -/
  exponentBits : Nat
deriving DecidableEq, Repr

namespace Format

/-- Single precision: 24 significant bits. -/
def single : Format := ⟨23, 8⟩

/-- Double precision: 53 significant bits. -/
def double : Format := ⟨52, 11⟩

/-- The exponent field of infinities and of what is not a number. -/
def reservedField (f : Format) : Nat :=
  (1 <<< f.exponentBits) - 1

/-- The exponent of the least unit of the format. -/
def leastExponent (f : Format) : Int :=
  2 - (1 <<< (f.exponentBits - 1) : Nat) - f.fractionBits

end Format

/-! ## Parts of a number -/

/-- The format of the number. -/
def format : Binary → Format
  | single _ => .single
  | double _ => .double

/-- The bits as a natural number. -/
def bits : Binary → Nat
  | single b => b.toNat
  | double b => b.toNat

/-- The fraction. -/
def fraction (x : Binary) : Nat :=
  x.bits % (1 <<< x.format.fractionBits)

/-- The exponent field. -/
def exponentField (x : Binary) : Nat :=
  (x.bits >>> x.format.fractionBits) % (1 <<< x.format.exponentBits)

/-- The sign bit is set. Zero has a sign too. -/
def isNegative (x : Binary) : Bool :=
  x.bits.testBit (x.format.fractionBits + x.format.exponentBits)

/-- The number is neither infinite nor undefined. -/
def isFinite (x : Binary) : Bool :=
  x.exponentField != x.format.reservedField

/-! ## Magnitudes -/

/-- The number `m * 2 ^ q` among the numbers of its format. -/
structure Magnitude where
  m : Nat
  q : Int
  /-- The next number below is half as far away as the next number above. -/
  narrowBelow : Bool
deriving DecidableEq, Repr

/-- The absolute value of a finite number. An exponent field of zero goes without the
leading bit that all other numbers have. -/
def magnitude (x : Binary) : Magnitude :=
  match x.exponentField with
  | 0 => ⟨x.fraction, x.format.leastExponent, false⟩
  | e + 1 =>
    ⟨(1 <<< x.format.fractionBits) + x.fraction, x.format.leastExponent + e,
      x.fraction == 0 && e != 0⟩

namespace Magnitude

/-- The magnitude is the quotient of this number and `denominator`. -/
def numerator (x : Magnitude) : Nat :=
  Decimal.timesTwo x.m x.q

/-- The denominator that goes with `numerator`. -/
def denominator (x : Magnitude) : Nat :=
  Decimal.timesTwo 1 (-x.q)

/-- The magnitude as a decimal, with all its digits. -/
def toDecimal (x : Magnitude) : Decimal :=
  if 0 ≤ x.q then ⟨Decimal.timesTwo x.m x.q, 0⟩ else ⟨x.m * Nat.pow 5 (-x.q).toNat, x.q⟩

end Magnitude

end Binary

end JsonText
