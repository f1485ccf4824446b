import EntityQuery.Decimal.Binary64
import EntityQuery.Decimal.Numeral
import EntityQuery.Text.Cut

/-! # The text of a float

A float is written with the fewest digits that read back as the same float and, among those, the
nearest ones; a tie goes up. `FloatFormat` says how the digits are laid out. In the other direction
`float?` reads a sign, digits with an optional point, and an optional exponent, rounding to the
nearest float. -/
namespace EntityQuery.Decimal

/-- The decimal `0.d₁d₂… · 10 ^ point`. -/
structure Expansion where
  digits : List Char
  point : Int

/-- The positive number `numerator / denominator`, and the bounds within which a decimal still
reads back as it. -/
structure Neighbourhood where
  numerator : Nat
  denominator : Nat
  lower : Nat
  upper : Nat
  closed : Bool

/-- The neighbourhood of `mantissa · 2 ^ exponent`: half of the way to the next float on each side,
ends included when the mantissa is even. -/
def Neighbourhood.of (mantissa : Nat) (exponent : Int) (atPower : Bool) : Neighbourhood :=
  let scale := Nat.pow 2 (exponent - 2).toNat
  { numerator := 4 * mantissa * scale
    denominator := Nat.pow 2 (2 - exponent).toNat
    lower := (4 * mantissa - (if atPower then 1 else 2)) * scale
    upper := (4 * mantissa + 2) * scale
    closed := mantissa % 2 == 0 }

namespace Neighbourhood

variable (v : Neighbourhood)

/-- The least `d` for which the number is below `10 ^ d`. -/
def magnitude : Int :=
  if v.denominator ≤ v.numerator then (text (v.numerator / v.denominator)).length
  else
    match (List.range 400).find? fun n => v.denominator ≤ v.numerator * Nat.pow 10 n with
    | some n => 1 - (n : Int)
    | none => 0

/-- Whether `count · 10 ^ power` reads back as the number. -/
def readsBack (count : Nat) (power : Int) : Bool :=
  let value := count * v.denominator * Nat.pow 10 power.toNat
  let low := v.lower * Nat.pow 10 (-power).toNat
  let high := v.upper * Nat.pow 10 (-power).toNat
  if v.closed then low ≤ value && value ≤ high else low < value && value < high

/-- The multiple of `10 ^ power` that reads back and lies nearest. -/
def onGrid? (power : Int) : Option Nat :=
  let num := v.numerator * Nat.pow 10 (-power).toNat
  let den := v.denominator * Nat.pow 10 power.toNat
  let below := num / den
  match v.readsBack below power, v.readsBack (below + 1) power with
  | true, true => some (if (2 * below + 1) * den ≤ 2 * num then below + 1 else below)
  | true, false => some below
  | false, true => some (below + 1)
  | false, false => none

/-- The fewest digits that read back: grids of one digit, two digits and so on are tried in turn. -/
def shortest : Expansion :=
  let d := v.magnitude
  let found := (List.range 17).findSome? fun (k : Nat) =>
    let power := d - 1 - k
    (v.onGrid? power).map fun n => (n, power)
  match found with
  | some (n, power) =>
    let digits := text n
    { digits := (digits.reverse.dropWhile (· == '0')).reverse
      point := digits.length + power }
  | none => { digits := [], point := 0 }

end Neighbourhood

/-- How digits are laid out. -/
structure FloatFormat where
  /-- Powers of ten outside this range are written with an exponent. -/
  positional : Int → Bool
  /-- Whole numbers end in `.0`. -/
  fraction : Bool

/-- Values are shown without an exponent, and whole numbers without a point. -/
def FloatFormat.plain : FloatFormat := { positional := fun _ => true, fraction := false }

/-- Bind values are shown with a fraction, and with an exponent from 10¹⁶ on and below 10⁻⁴. -/
def FloatFormat.exact : FloatFormat :=
  { positional := fun point => -3 ≤ point && point ≤ 16, fraction := true }

/-- Lays out a decimal. -/
def Expansion.layout (format : FloatFormat) (x : Expansion) : List Char :=
  let count : Int := x.digits.length
  if format.positional x.point then
    if x.point ≤ 0 then ['0', '.'] ++ List.replicate (-x.point).toNat '0' ++ x.digits
    else if count ≤ x.point then
      x.digits ++ List.replicate (x.point - count).toNat '0'
        ++ (if format.fraction then ['.', '0'] else [])
    else x.digits.take x.point.toNat ++ '.' :: x.digits.drop x.point.toNat
  else
    (match x.digits with
      | d :: e :: rest => d :: '.' :: e :: rest
      | short => short) ++ 'e' :: signedText (x.point - 1)

/-- The text of a float. -/
def floatText (format : FloatFormat) (f : Float) : List Char :=
  match Binary64.ofFloat f with
  | .nan => ['N', 'a', 'N']
  | .infinite negative => (if negative then ['-'] else []) ++ ['i', 'n', 'f']
  | .finite negative mantissa exponent atPower =>
    (if negative then ['-'] else []) ++
      if mantissa == 0 then (if format.fraction then ['0', '.', '0'] else ['0'])
      else (Neighbourhood.of mantissa exponent atPower).shortest.layout format

/-- The float nearest to `count · 10 ^ power`; beyond the range of floats an infinity or zero. -/
def nearestFloat (count : Nat) (power : Int) : Float :=
  if count == 0 then 0.0
  else
    let point := power + (text count).length
    if 400 < point then 1.0 / 0.0
    else if point < -400 then 0.0
    else Float.ofScientific count (power < 0) power.natAbs

/-- Reads digits with an optional point and an optional exponent. -/
def unsignedFloat? (s : List Char) : Option Float :=
  let lower := Text.asciiLower s
  if lower == ['i', 'n', 'f'] || lower == ['i', 'n', 'f', 'i', 'n', 'i', 't', 'y'] then
    some (1.0 / 0.0)
  else if lower == ['n', 'a', 'n'] then some (0.0 / 0.0)
  else do
    let (number, exponent) := (Text.cut 'e' lower).getD (lower, ['0'])
    let (whole, fraction) := (Text.cut '.' number).getD (number, [])
    let digits := whole ++ fraction
    let count ← digits? digits
    let power : Int ← match exponent with
      | '-' :: r => (digits? r).map fun n => -(n : Int)
      | '+' :: r => (digits? r).map fun n => (n : Int)
      | r => (digits? r).map fun n => (n : Int)
    some (nearestFloat count (power - fraction.length))

/-- Reads a float after an optional sign. -/
def float? : List Char → Option Float
  | '-' :: r => (unsignedFloat? r).map fun f => -f
  | '+' :: r => unsignedFloat? r
  | s => unsignedFloat? s

end EntityQuery.Decimal
