import EntityQuery.Json.Basic
import EntityQuery.Text.Cut

/-! # JSON as it is written

In a text a number is a row of digits and marks, and a string is a row of characters and escapes. A
`Json.Source` keeps both as they are written, and `Source.value?` says what it all stands for. Not
everything that is well formed stands for something: a number can be too large, and an escape can
be half of a surrogate pair. What a reader passes over does not have to. -/
namespace EntityQuery.Json

/-- A value as it is written. -/
inductive Source where
  | null
  | bool (b : Bool)
  | number (written : List Char)
  | text (written : List Char)
  | list (items : List Source)
  | object (members : List (List Char × Source))

/-- The character that a one-letter escape stands for. -/
def simpleEscape? : Char → Option Char
  | '"' => some '"'
  | '\\' => some '\\'
  | '/' => some '/'
  | 'b' => some '\x08'
  | 'f' => some '\x0c'
  | 'n' => some '\n'
  | 'r' => some '\r'
  | 't' => some '\t'
  | _ => none

/-- The number of an escaped character at the start of a text, and what follows it. -/
def escapedNumber? : List Char → Option (Nat × List Char)
  | '\\' :: 'u' :: a :: b :: c :: d :: s => (Text.hexNumber? [a, b, c, d]).map fun n => (n, s)
  | _ => none

/-- The characters that the inside of a string stands for. Two escapes that are the halves of a
surrogate pair stand for one character; `fuel` bounds the number of characters. -/
def charsWithin? : Nat → List Char → Option (List Char)
  | 0, _ => none
  | _, [] => some []
  | fuel + 1, '\\' :: 'u' :: s => do
    let (n, rest) ← escapedNumber? ('\\' :: 'u' :: s)
    if n < 0xD800 ∨ 0xE000 ≤ n then
      return Char.ofNat n :: (← charsWithin? fuel rest)
    else
      let (low, rest) ← escapedNumber? rest
      if n < 0xDC00 ∧ 0xDC00 ≤ low ∧ low < 0xE000 then
        let c := Char.ofNat (0x10000 + (n - 0xD800) * 0x400 + (low - 0xDC00))
        return c :: (← charsWithin? fuel rest)
      else none
  | fuel + 1, '\\' :: c :: s => do return (← simpleEscape? c) :: (← charsWithin? fuel s)
  | fuel + 1, c :: s => do return c :: (← charsWithin? fuel s)

/-- The text that the inside of a string stands for. -/
def unescape? (written : List Char) : Option String :=
  (charsWithin? (written.length + 1) written).map String.ofList

/-- What a number stands for: an integer if it is written in digits alone, else a float. It has to
be within the range of floats. -/
def number? (written : List Char) : Option Json := do
  let f ← Decimal.float? written
  if !f.isFinite then none
  else
    match written with
    | '-' :: digits => some (if digits.all Char.isDigit then int (-ofDigits digits) else float f)
    | digits => some (if digits.all Char.isDigit then int (ofDigits digits) else float f)
where
  /-- The number that digits write. -/
  ofDigits (digits : List Char) : Int := Nat.ofDigitChars 10 digits 0

namespace Source

mutual

/-- What a source stands for if its lists and objects are no deeper than `depth`. -/
def valueWithin? (depth : Nat) : Source → Option Json
  | null => some .null
  | bool b => some (.bool b)
  | number written => number? written
  | text written => (unescape? written).map .text
  | list items => if depth = 0 then none else (itemsWithin? (depth - 1) items).map .list
  | object members => if depth = 0 then none else (membersWithin? (depth - 1) members).map .object

/-- What the items of a list stand for. -/
def itemsWithin? (depth : Nat) : List Source → Option (List Json)
  | [] => some []
  | item :: rest => do return (← valueWithin? depth item) :: (← itemsWithin? depth rest)

/-- What the members of an object stand for. -/
def membersWithin? (depth : Nat) : List (List Char × Source) → Option (List (String × Json))
  | [] => some []
  | (name, value) :: rest => do
    return (← unescape? name, ← valueWithin? depth value) :: (← membersWithin? depth rest)

end

/-- What a source stands for. Lists and objects may be nested 127 deep. -/
def value? (s : Source) : Option Json := valueWithin? 127 s

end Source

end EntityQuery.Json
