-- SUMMARY: How decimals and binary numbers are spelled.
import JsonText.Decimal.Shortest

/-!
# Spelling numbers

A number of moderate size is spelled with its point in place and at least one
digit on either side of it; any other number is spelled with an exponent, whose
sign is always there, and without an empty fraction.
-/

namespace JsonText

/-- Which decimals are spelled without an exponent: those whose leading digit stands for a
power of ten from `least` to `greatest`. -/
structure Decimal.PlainRange where
  least : Int
  greatest : Int
deriving DecidableEq, Repr

namespace Decimal

/-- The digits with the point behind the first `n` of them, padded with zeros. -/
def pointBehind (ds : List Char) (n : Nat) : List Char :=
  ds.take n ++ List.replicate (n - ds.length) '0' ++ '.' ::
    match ds.drop n with
    | [] => ['0']
    | fs => fs

/-- The digits behind a point and `n` zeros. -/
def pointBefore (ds : List Char) (n : Nat) : List Char :=
  '0' :: '.' :: List.replicate n '0' ++ ds

/-- The digits with an exponent for the first of them. -/
def scientific (ds : List Char) (e : Int) : List Char :=
  let mantissa :=
    match ds with
    | d :: f :: fs => d :: '.' :: f :: fs
    | ds => ds
  mantissa ++ 'e' :: (if e < 0 then '-' else '+') :: Nat.toDigits 10 e.natAbs

/-- The decimal as it is spelled. -/
def spell (range : PlainRange) (d : Decimal) : List Char :=
  let ds := Nat.toDigits 10 d.digits
  let e : Int := d.exponent + (ds.length - 1 : Nat)
  if e < range.least ∨ range.greatest < e then scientific ds e
  else if e < 0 then pointBefore ds (-e - 1).toNat
  else pointBehind ds (e + 1).toNat

end Decimal

namespace Binary

/-- Doubles from `1e-5` and below `1e16` and singles from `1e-6` and below `1e13` are
spelled without an exponent. -/
def plainRange : Binary → Decimal.PlainRange
  | single _ => ⟨-6, 12⟩
  | double _ => ⟨-5, 15⟩

/-- A finite number as it is spelled, nothing for any other. -/
def spell? (x : Binary) : Option String :=
  if x.isFinite then
    let digits :=
      if x.magnitude.m = 0 then ['0', '.', '0']
      else x.magnitude.shortest.spell x.plainRange
    some (String.ofList (if x.isNegative then '-' :: digits else digits))
  else none

end Binary

end JsonText
