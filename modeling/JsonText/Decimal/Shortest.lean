-- SUMMARY: The shortest decimal that reads back as a given binary number.
import JsonText.Decimal.Binary

/-!
# Shortest decimals

Every binary number stands for an interval of reals: those that are nearer to
it than to any other number of its format, with the two ends if its units are
even. Of the decimals in that interval `shortest` takes one with the fewest
digits, and of those the nearest.

The search goes through grids of decimals from coarse to fine. If a grid has a
point in the interval, then one of the two points next to the number itself is
in the interval, so each grid needs two tests.
-/

namespace JsonText.Binary.Magnitude

/-- The decimal lies in the interval for which `x` stands. -/
def readsBack (x : Magnitude) (d : Decimal) : Bool :=
  let below := d.compareBinary (4 * x.m - if x.narrowBelow then 1 else 2) (x.q - 2)
  let above := d.compareBinary (4 * x.m + 2) (x.q - 2)
  if x.m % 2 = 0 then below != .lt && above != .gt else below == .gt && above == .lt

/-- The least `k` such that `x` is less than `10 ^ k`, for `x` other than zero. -/
def scale (x : Magnitude) : Int :=
  if x.denominator ≤ x.numerator then Decimal.digitCount (x.numerator / x.denominator)
  else 1 - Decimal.digitCount ((x.denominator - 1) / x.numerator)

/-- The greatest multiple of `10 ^ g` that is at most `x`. -/
def floorOn (x : Magnitude) (g : Int) : Decimal :=
  ⟨Decimal.timesTen x.numerator (-g) / Decimal.timesTen x.denominator g, g⟩

/-- Of the two multiples of `10 ^ g` next to `x`, the nearer one that reads back as `x`.
Of two that are equally near it is the even one. -/
def onGrid? (x : Magnitude) (g : Int) : Option Decimal :=
  let lower := x.floorOn g
  let upper : Decimal := ⟨lower.digits + 1, g⟩
  match x.readsBack lower, x.readsBack upper with
  | false, false => none
  | true, false => some lower
  | false, true => some upper
  | true, true =>
    match (⟨2 * lower.digits + 1, g⟩ : Decimal).compareBinary (2 * x.m) x.q with
    | .gt => some lower
    | .lt => some upper
    | .eq => if lower.digits % 2 = 0 then some lower else some upper

/-- The shortest decimal that reads back as `x`, for `x` other than zero. Seventeen digits
are enough for both formats. -/
def shortest (x : Magnitude) : Decimal :=
  let grids := (List.range 17).map fun n => x.scale - (n + 1 : Nat)
  ((grids.findSome? x.onGrid?).getD x.toDecimal).strip

end JsonText.Binary.Magnitude
