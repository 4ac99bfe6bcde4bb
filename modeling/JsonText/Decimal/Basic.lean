-- SUMMARY: Decimals, and their comparison with binary fractions.

/-!
# Decimals

A decimal is a natural number of units of a power of ten. It is compared with
`m * 2 ^ q` by clearing all denominators, in exact arithmetic.
-/

namespace JsonText

/-- The number `digits * 10 ^ exponent`. -/
structure Decimal where
  digits : Nat
  exponent : Int
deriving DecidableEq, Repr

namespace Decimal

/-- How many decimal digits `n` is written with; zero is written with one. -/
def digitCount (n : Nat) : Nat :=
  (Nat.toDigits 10 n).length

/-- The natural number that a run of decimal digits spells. -/
def ofDigits (ds : List Char) : Nat :=
  Nat.ofDigitChars 10 ds 0

/-- The number `n * 10 ^ e`, or `n` itself where `e` is negative. -/
def timesTen (n : Nat) (e : Int) : Nat :=
  n * Nat.pow 10 e.toNat

/-- The number `n * 2 ^ e`, or `n` itself where `e` is negative. -/
def timesTwo (n : Nat) (e : Int) : Nat :=
  n <<< e.toNat

/-- The order of the decimal and `m * 2 ^ q`. Negative exponents go to the other side. -/
def compareBinary (d : Decimal) (m : Nat) (q : Int) : Ordering :=
  compare (timesTwo (timesTen d.digits d.exponent) (-q))
    (timesTen (timesTwo m q) (-d.exponent))

/-- The same number with as few digits as can be. -/
def strip (d : Decimal) : Decimal :=
  go d.digits d.exponent
where
  /-- Moves factors ten of `n` into the exponent. -/
  go (n : Nat) (e : Int) : Decimal :=
    if n = 0 then ⟨0, 0⟩
    else if n % 10 = 0 then go (n / 10) (e + 1)
    else ⟨n, e⟩
  termination_by n
  decreasing_by omega

end Decimal

end JsonText
