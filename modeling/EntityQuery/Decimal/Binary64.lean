/-! # Binary floating-point numbers, taken apart

A 64-bit float is a NaN, an infinity, or a sign with a natural mantissa and a power of two. The
decoding reads the bits, so everything said about a float's text or about its being a whole number
is exact arithmetic on naturals. -/
namespace EntityQuery.Decimal

/-- What the bits of a float say. -/
inductive Binary64 where
  | nan
  | infinite (negative : Bool)
  /-- The number `±mantissa · 2 ^ exponent`; `atPower` when the next float towards zero is half as
  far away as the next one from zero. -/
  | finite (negative : Bool) (mantissa : Nat) (exponent : Int) (atPower : Bool)

/-- The parts of a float. -/
def Binary64.ofFloat (f : Float) : Binary64 :=
  let bits : Nat := f.toBits.toNat
  let negative := bits / 0x8000000000000000 == 1
  let exponent : Nat := bits / 0x10000000000000 % 0x800
  let fraction : Nat := bits % 0x10000000000000
  if exponent == 2047 then
    if fraction == 0 then .infinite negative else .nan
  else if exponent == 0 then .finite negative fraction (-1074) false
  else
    .finite negative (0x10000000000000 + fraction) ((exponent : Int) - 1075)
      (fraction == 0 && 1 < exponent)

/-- The whole number that the float is, if it is one. -/
def wholeNumber? (f : Float) : Option Int :=
  match Binary64.ofFloat f with
  | .finite negative mantissa exponent _ =>
    let scale := Nat.pow 2 exponent.natAbs
    let size : Option Nat :=
      if 0 ≤ exponent then some (mantissa * scale)
      else if mantissa % scale == 0 then some (mantissa / scale)
      else none
    size.map fun n => if negative then -(n : Int) else n
  | _ => none

/-- The natural number below 2⁶⁴ nearest to a float, a half going up; 0 for what is no number. -/
def nearestNatural (f : Float) : Nat :=
  match Binary64.ofFloat f with
  | .nan => 0
  | .infinite negative => if negative then 0 else UInt64.size - 1
  | .finite negative mantissa exponent _ =>
    let scale := Nat.pow 2 exponent.natAbs
    let twice := if 0 ≤ exponent then 2 * mantissa * scale else 2 * mantissa / scale
    if negative then 0 else min ((twice + 1) / 2) (UInt64.size - 1)

/-- The float nearest to a 64-bit signed integer. -/
def ofInt64 (i : Int64) : Float := .ofModel (.ofInt64 i)

/-- The float nearest to the length of a list, which is a number of 64 bits. -/
def ofLength (n : Nat) : Float := (UInt64.ofNatClamp n).toFloat

/-- The nearest 64-bit signed integer to a whole number. -/
def saturate (n : Int) : Int64 := Int64.ofInt (max (-0x8000000000000000) (min 0x7FFFFFFFFFFFFFFF n))

end EntityQuery.Decimal
