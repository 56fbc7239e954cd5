import Rill.Number.Binary

/-!
# The fewest digits that read back

`shortest` finds the decimal with the fewest digits among those that lie closer
to `mantissa * 2 ^ exponent` than to its neighbours, and of these the nearest.
All arithmetic is exact: numbers are compared as fractions over one denominator.
-/

namespace Rill.Number

/-- The decimal number `digits * 10 ^ exponent`. -/
structure Decimal where
  digits : Nat
  exponent : Int
  deriving DecidableEq, Repr

/-- A positive number `value / scale` with the open or closed interval of numbers that round to
it. -/
structure Rounding where
  value : Nat
  low : Nat
  high : Nat
  scale : Nat
  closed : Bool
  deriving DecidableEq, Repr

namespace Rounding

/-- The interval of `mantissa * 2 ^ exponent`, measured in quarters of its last place. The gap below
a power of two is half the gap above it, unless the power is the least normal double. -/
def ofBinary (mantissa : Nat) (exponent : Int) : Rounding :=
  let below := if mantissa = leadingBit ∧ -1074 < exponent then 1 else 2
  let up := (exponent - 2).toNat
  { value := (4 * mantissa) <<< up
    low := (4 * mantissa - below) <<< up
    high := (4 * mantissa + 2) <<< up
    scale := 1 <<< (2 - exponent).toNat
    closed := mantissa % 2 = 0 }

/-- Whether `n / d` rounds to the number. -/
def holds (r : Rounding) (n d : Nat) : Bool :=
  if r.closed then
    r.low * d ≤ n * r.scale && n * r.scale ≤ r.high * d
  else
    r.low * d < n * r.scale && n * r.scale < r.high * d

/-- The exponent of the leading decimal digit. -/
def leading (r : Rounding) : Int :=
  if r.scale ≤ r.value then
    (Nat.toDigits 10 (r.value / r.scale)).length - 1
  else
    -(Nat.toDigits 10 ((r.scale - 1) / r.value)).length

/-- The nearest multiple of `10 ^ exponent` that rounds to the number, looking at the two
neighbours of the number. A tie goes to the greater one. -/
def onGrid? (r : Rounding) (exponent : Int) : Option Nat :=
  let up := Nat.pow 10 exponent.toNat
  let down := Nat.pow 10 (-exponent).toNat
  let below := r.value * down / (r.scale * up)
  let above := below + 1
  let fits := fun k => r.holds (k * up) down
  match fits below, fits above with
  | true, true =>
    if (2 * below + 1) * (r.scale * up) ≤ 2 * (r.value * down) then some above else some below
  | true, false => some below
  | false, true => some above
  | false, false => none

/-- Tries grids of `count`, `count + 1`, … digits. -/
def search (r : Rounding) (count : Nat) : Nat → Decimal
  | 0 => ⟨0, 0⟩
  | fuel + 1 =>
    let exponent := r.leading + 1 - count
    match r.onGrid? exponent with
    | some digits => ⟨digits, exponent⟩
    | none => search r (count + 1) fuel

end Rounding

/-- The shortest decimal that reads back as `mantissa * 2 ^ exponent`. Seventeen digits suffice for
every double. -/
def shortest (mantissa : Nat) (exponent : Int) : Decimal :=
  (Rounding.ofBinary mantissa exponent).search 1 17

end Rill.Number
