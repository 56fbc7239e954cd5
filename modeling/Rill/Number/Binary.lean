/-!
# Floats as mantissa and exponent

A finite double is a sign and `mantissa * 2 ^ exponent`, with the mantissa below
`2 ^ 53` and the exponent at least `-1074`. The remainder of two floats is taken
on that form in whole numbers, where it is exact.
-/

namespace Rill.Number

inductive Parts where
  | nan
  | infinite (negative : Bool)
  | finite (negative : Bool) (mantissa : Nat) (exponent : Int)
  deriving DecidableEq, Repr

/-- The leading bit of a normal mantissa, which the bits of a float leave out: `2 ^ 52`. -/
def leadingBit : Nat := 0x10000000000000

/-- The bit that marks negative floats: `2 ^ 63`. -/
def signBit : Nat := 0x8000000000000000

/-- Takes a float apart. -/
def parts (x : Float) : Parts :=
  let bits := x.toBits.toNat
  let negative := decide (signBit ≤ bits)
  let field : Nat := bits / leadingBit % 2048
  let fraction := bits % leadingBit
  if field = 2047 then
    if fraction = 0 then .infinite negative else .nan
  else if field = 0 then
    .finite negative fraction (-1074)
  else
    .finite negative (leadingBit + fraction) (field - 1075)

/-- The float `mantissa * 2 ^ exponent`, for a mantissa below `2 ^ 53` and a value that a double
can hold exactly. -/
def assemble (negative : Bool) (mantissa : Nat) (exponent : Int) : Float :=
  let shift := min (52 - mantissa.log2) (exponent + 1074).toNat
  let wide := mantissa <<< shift
  let magnitude :=
    if wide < leadingBit then wide
    else wide - leadingBit + (exponent - shift + 1075).toNat * leadingBit
  Float.ofBits (UInt64.ofNat (magnitude + if negative then signBit else 0))

def nan : Float := Float.ofBits 0x7ff8000000000000

def infinity : Float := Float.ofBits 0x7ff0000000000000

/-- The remainder of the division of `x` by `y` whose quotient is cut toward zero: it has the sign
of `x`, and is exact. -/
def remainder (x y : Float) : Float :=
  match parts x, parts y with
  | .nan, _ | _, .nan | .infinite _, _ => nan
  | .finite .., .infinite _ => x
  | .finite negative m p, .finite _ n q =>
    if n = 0 then
      nan
    else
      let low := min p q
      let rest := (m <<< (p - low).toNat) % (n <<< (q - low).toNat)
      assemble negative rest low

end Rill.Number
