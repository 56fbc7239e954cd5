import Rill.Number.Binary
import Rill.Number.Shortest

/-!
# Numbers as text

Integers are plain decimals. Floats are written with the fewest digits that
read back, always with a fraction or an exponent so that they never look like
integers: positionally from `0.0001` up to but not including `1e16`, with an
exponent outside that range.
-/

namespace Rill.Number

/-- The number that decimal digits denote. -/
def ofDigits (digits : List Char) : Nat :=
  digits.foldl (fun n c => 10 * n + (c.toNat - '0'.toNat)) 0

/-- The float nearest to `whole.fraction * 10 ^ exponent`. -/
def ofDecimal (whole fraction : List Char) (exponent : Int) : Float :=
  let shifted := exponent - fraction.length
  Float.ofScientific (ofDigits (whole ++ fraction)) (decide (shifted < 0)) shifted.natAbs

/-- The float that a literal of digits, a dot and digits denotes. -/
def ofLiteral (text : List Char) : Float :=
  let whole := text.takeWhile Char.isDigit
  ofDecimal whole (text.drop (whole.length + 1)) 0

def zeros (n : Nat) : List Char :=
  List.replicate n '0'

/-- Writes a decimal whose digits do not end in a zero. -/
def Decimal.render (d : Decimal) : String :=
  let digits := Nat.toDigits 10 d.digits
  let leading := d.exponent + digits.length - 1
  String.ofList <|
    if leading < -4 ∨ 15 < leading then
      let fraction := digits.drop 1
      digits.take 1 ++ (if fraction.isEmpty then [] else '.' :: fraction)
        ++ 'e' :: (toString leading).toList
    else if 0 ≤ d.exponent then
      digits ++ zeros d.exponent.toNat ++ ['.', '0']
    else if 0 ≤ leading then
      digits.take (leading.toNat + 1) ++ '.' :: digits.drop (leading.toNat + 1)
    else
      '0' :: '.' :: zeros (-leading - 1).toNat ++ digits

/-- The same number without zeros at the end of its digits. -/
def Decimal.trim (d : Decimal) : Decimal :=
  let tail := (Nat.toDigits 10 d.digits).reverse.takeWhile (· == '0')
  ⟨d.digits / Nat.pow 10 tail.length, d.exponent + tail.length⟩

def sign (negative : Bool) : String :=
  if negative then "-" else ""

def renderFloat (x : Float) : String :=
  match parts x with
  | .nan => "NaN"
  | .infinite negative => sign negative ++ "inf"
  | .finite negative 0 _ => sign negative ++ "0.0"
  | .finite negative mantissa exponent =>
    sign negative ++ (shortest mantissa exponent).trim.render

/-- Reads what `renderFloat` writes, and plain decimals. -/
def readFloat? (text : String) : Option Float :=
  let unsigned : List Char → Option Float
    | ['N', 'a', 'N'] => some nan
    | ['i', 'n', 'f'] => some infinity
    | cs =>
      let whole := cs.takeWhile Char.isDigit
      let rest := cs.dropWhile Char.isDigit
      let fraction := match rest with
        | '.' :: more => more.takeWhile Char.isDigit
        | _ => []
      let rest := match rest with
        | '.' :: more => more.dropWhile Char.isDigit
        | rest => rest
      if whole.isEmpty && fraction.isEmpty then
        none
      else
        match rest with
        | [] => some (ofDecimal whole fraction 0)
        | 'e' :: '-' :: exponent =>
          if exponent.all Char.isDigit && !exponent.isEmpty then
            some (ofDecimal whole fraction (-(ofDigits exponent : Int)))
          else none
        | 'e' :: exponent =>
          if exponent.all Char.isDigit && !exponent.isEmpty then
            some (ofDecimal whole fraction (ofDigits exponent))
          else none
        | _ => none
  match text.toList with
  | '-' :: rest => (unsigned rest).map Float.neg
  | cs => unsigned cs

def renderInt (n : Int64) : String :=
  toString n.toInt

/-- Reads a decimal that fits in 64 bits with a sign. -/
def readInt? (text : String) : Option Int64 :=
  let bounded (n : Int) : Option Int64 :=
    if -0x8000000000000000 ≤ n ∧ n < 0x8000000000000000 then some (Int64.ofInt n) else none
  match text.toList with
  | '-' :: digits =>
    if digits.all Char.isDigit && !digits.isEmpty then bounded (-(ofDigits digits : Int)) else none
  | digits =>
    if digits.all Char.isDigit && !digits.isEmpty then bounded (ofDigits digits) else none

end Rill.Number
