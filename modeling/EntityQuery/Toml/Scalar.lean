import EntityQuery.Calendar.Date
import EntityQuery.Decimal.FloatText
import EntityQuery.Text.Cut
import EntityQuery.Toml.Basic

/-! # TOML scalars

Strings in their four forms, numbers, dates and times. Each function reads one scalar at the start
of a text and gives what follows it. -/
namespace EntityQuery.Toml

/-- A character that may stand in a comment or a string: any but the control characters. -/
def isPlain (c : Char) : Bool := c == '\t' || (0x20 ≤ c.toNat && c.toNat != 0x7F)

/-- A space or a tab. -/
def isBlank (c : Char) : Bool := c == ' ' || c == '\t'

/-! ## Strings -/

/-- The character that a one-letter escape stands for. -/
def simpleEscape? : Char → Option Char
  | 'b' => some '\x08'
  | 't' => some '\t'
  | 'n' => some '\n'
  | 'f' => some '\x0c'
  | 'r' => some '\r'
  | '"' => some '"'
  | '\\' => some '\\'
  | _ => none

/-- The character with a number, if there is one. -/
def charOfNumber? (n : Nat) : Option Char :=
  if n.isValidChar then some (Char.ofNat n) else none

/-- What one part of a text stands for, and what follows it. -/
abbrev Part := List Char → Option (List Char × List Char)

/-- A character of a basic string, escaped or not. -/
def basicPart : Part
  | '\\' :: 'u' :: s => do
    if s.length < 4 then none
    let c ← charOfNumber? (← Text.hexNumber? (s.take 4))
    some ([c], s.drop 4)
  | '\\' :: 'U' :: s => do
    if s.length < 8 then none
    let c ← charOfNumber? (← Text.hexNumber? (s.take 8))
    some ([c], s.drop 8)
  | '\\' :: c :: s => (simpleEscape? c).map fun e => ([e], s)
  | c :: s => if isPlain c && c != '\\' then some ([c], s) else none
  | [] => none

/-- A character of a literal string. -/
def literalPart : Part
  | c :: s => if isPlain c then some ([c], s) else none
  | [] => none

/-- A line break, or else what `part` reads. -/
def orLineBreak (part : Part) : Part
  | '\n' :: s => some (['\n'], s)
  | '\r' :: '\n' :: s => some (['\n'], s)
  | s => part s

/-- Whether a text begins with a line break. -/
def startsLine : List Char → Bool
  | '\n' :: _ => true
  | '\r' :: '\n' :: _ => true
  | _ => false

/-- The text without the blanks and line breaks at its start. -/
def dropLines : List Char → List Char
  | '\r' :: '\n' :: s => dropLines s
  | c :: s => if isBlank c || c == '\n' then dropLines s else c :: s
  | [] => []

/-- A part of a basic string over several lines: a backslash at the end of a line takes away the
line break and all blanks and line breaks that follow. -/
def multilineBasicPart : Part
  | '\\' :: s =>
    let rest := s.dropWhile isBlank
    if startsLine rest then some ([], dropLines rest) else basicPart ('\\' :: s)
  | s => orLineBreak basicPart s

/-- A closing quote. -/
def closing (quote : Char) : Part
  | c :: s => if c == quote then some ([], s) else none
  | [] => none

/-- Three closing quotes, before which one or two more belong to the string. -/
def tripleClosing (quote : Char) (s : List Char) : Option (List Char × List Char) :=
  let quotes := (s.takeWhile (· == quote)).length
  if quotes < 3 then none
  else some (List.replicate (min quotes 5 - 3) quote, s.drop (min quotes 5))

/-- The parts of a string up to where it closes; `fuel` bounds their number. -/
def partsUntil (close part : Part) : Nat → Part
  | 0, _ => none
  | fuel + 1, s =>
    match close s with
    | some closed => some closed
    | none => do
      let (chars, s) ← part s
      let (more, s) ← partsUntil close part fuel s
      some (chars ++ more, s)

/-- The rest of a string after what opens it. Each part takes at least one character. -/
def stringRest (close part : Part) (s : List Char) : Option (String × List Char) :=
  (partsUntil close part (s.length + 1) s).map fun p => (String.ofList p.1, p.2)

/-- The text without the line break at its start. -/
def dropLineBreak : List Char → List Char
  | '\n' :: s => s
  | '\r' :: '\n' :: s => s
  | s => s

/-- A string on one line. -/
def lineString? : List Char → Option (String × List Char)
  | '"' :: s => stringRest (closing '"') basicPart s
  | '\x27' :: s => stringRest (closing '\x27') literalPart s
  | _ => none

/-- A string. The line break after three opening quotes does not belong to it. -/
def string? : List Char → Option (String × List Char)
  | '"' :: '"' :: '"' :: s => stringRest (tripleClosing '"') multilineBasicPart (dropLineBreak s)
  | '\x27' :: '\x27' :: '\x27' :: s =>
    stringRest (tripleClosing '\x27') (orLineBreak literalPart) (dropLineBreak s)
  | s => lineString? s

/-! ## Numbers -/

/-- The digits at the start of a text that follow a digit; underscores may stand between. -/
def moreDigits (isDigit : Char → Bool) : List Char → List Char × List Char
  | '_' :: c :: s =>
    if isDigit c then
      let p := moreDigits isDigit s
      (c :: p.1, p.2)
    else ([], '_' :: c :: s)
  | c :: s =>
    if isDigit c then
      let p := moreDigits isDigit s
      (c :: p.1, p.2)
    else ([], c :: s)
  | [] => ([], [])

/-- Digits at the start of a text, underscores between them left out. -/
def digits? (isDigit : Char → Bool) : Part
  | c :: s =>
    if isDigit c then
      let p := moreDigits isDigit s
      some (c :: p.1, p.2)
    else none
  | [] => none

/-- The digits of a whole number, which has no zero in front. -/
def whole? : Part
  | '0' :: s => some (['0'], s)
  | s => digits? Char.isDigit s

/-- The fraction of a number, point included, or nothing. -/
def fraction? : Part
  | '.' :: s => (digits? Char.isDigit s).map fun p => ('.' :: p.1, p.2)
  | s => some ([], s)

/-- A plus or minus sign, or nothing. -/
def sign : List Char → List Char × List Char
  | '+' :: s => (['+'], s)
  | '-' :: s => (['-'], s)
  | s => ([], s)

/-- The exponent of a number, or nothing. -/
def exponent? : Part
  | c :: s =>
    if c == 'e' || c == 'E' then
      let (mark, s) := sign s
      (digits? Char.isDigit s).map fun p => ('e' :: (mark ++ p.1), p.2)
    else some ([], c :: s)
  | [] => some ([], [])

/-- An integer if it has 64 bits. -/
def int64? (n : Int) : Option Toml := if Decimal.IsInt64 n then some (int n) else none

/-- An integer or a float in decimal digits. -/
def decimal? (s : List Char) : Option (Toml × List Char) := do
  let (mark, s) := sign s
  let (whole, s) ← whole? s
  let (frac, s) ← fraction? s
  let (exp, s) ← exponent? s
  if frac.isEmpty && exp.isEmpty then
    let n : Int := Nat.ofDigitChars 10 whole 0
    some (← int64? (if mark = ['-'] then -n else n), s)
  else
    let f ← Decimal.float? (mark ++ whole ++ frac ++ exp)
    if f == 1.0 / 0.0 then none
    some (float f, s)

/-- The value of digits to a base of at most 16. -/
def numberIn (base : Nat) (s : List Char) : Nat :=
  s.foldl (fun n c => base * n + (Text.hexValue? c).getD 0) 0

/-- An integer to another base. -/
def based? (base : Nat) (s : List Char) : Option (Toml × List Char) := do
  let isDigit (c : Char) : Bool := (Text.hexValue? c).any (· < base)
  let (digits, s) ← digits? isDigit s
  some (← int64? (numberIn base digits), s)

/-- What follows the word, if the text begins with it. -/
def keyword? (word : String) (value : Toml) (s : List Char) : Option (Toml × List Char) :=
  (word.toList.isPrefixOf? s).map fun rest => (value, rest)

/-- A number. -/
def number? (s : List Char) : Option (Toml × List Char) :=
  match s with
  | '0' :: 'x' :: r => based? 16 r
  | '0' :: 'o' :: r => based? 8 r
  | '0' :: 'b' :: r => based? 2 r
  | s =>
    let (mark, r) := sign s
    let infinity : Float := 1.0 / 0.0
    keyword? "inf" (float (if mark = ['-'] then -infinity else infinity)) r
      <|> keyword? "nan" (float (0.0 / 0.0)) r <|> decimal? s

/-! ## Dates and times

A date or a time stands for its text in one form: a `T` between date and time, at most nine digits
of a fraction and no zeros at its end, a `Z` in upper case, and no offset of minus zero. -/

/-- A number of so many digits below a bound, as its digits. -/
def fixed? (width bound : Nat) (s : List Char) : Option (List Char × List Char) :=
  let digits := s.take width
  if digits.length = width && digits.all Char.isDigit && Nat.ofDigitChars 10 digits 0 < bound then
    some (digits, s.drop width)
  else none

/-- What follows a character. -/
def after? (c : Char) : List Char → Option (List Char)
  | x :: s => if x = c then some s else none
  | [] => none

/-- A date. -/
def date? (s : List Char) : Option (List Char × List Char) := do
  let (year, s) ← fixed? 4 10000 s
  let (month, s) ← fixed? 2 13 (← after? '-' s)
  let (day, s) ← fixed? 2 32 (← after? '-' s)
  let number (digits : List Char) : Nat := Nat.ofDigitChars 10 digits 0
  if 1 ≤ number day ∧ number day ≤ Calendar.daysInMonth (number year) (number month) then
    some (year ++ '-' :: month ++ '-' :: day, s)
  else none

/-- An hour and a minute. -/
def minute? (s : List Char) : Option (List Char × List Char) := do
  let (hour, s) ← fixed? 2 24 s
  let (minute, s) ← fixed? 2 60 (← after? ':' s)
  some (hour ++ ':' :: minute, s)

/-- The fraction of a second, point included, or nothing. -/
def secondFraction? : Part
  | '.' :: s =>
    let digits := s.takeWhile Char.isDigit
    let kept := ((digits.take 9).reverse.dropWhile (· == '0')).reverse
    if digits.isEmpty then none
    else some (if kept.isEmpty then [] else '.' :: kept, s.drop digits.length)
  | s => some ([], s)

/-- A time of day. Seconds may be leap seconds and may have a fraction. -/
def time? (s : List Char) : Option (List Char × List Char) := do
  let (minute, s) ← minute? s
  let (second, s) ← fixed? 2 61 (← after? ':' s)
  let (fraction, s) ← secondFraction? s
  some (minute ++ ':' :: second ++ fraction, s)

/-- The offset of a time, or nothing. -/
def offset? : Part
  | 'Z' :: s | 'z' :: s => some (['Z'], s)
  | '+' :: s => (minute? s).map fun p => ('+' :: p.1, p.2)
  | '-' :: s => (minute? s).map fun p => ((if p.1 = "00:00".toList then '+' else '-') :: p.1, p.2)
  | s => some ([], s)

/-- A time of day with its offset. -/
def offsetTime? (s : List Char) : Option (List Char × List Char) := do
  let (time, s) ← time? s
  let (offset, s) ← offset? s
  some ('T' :: time ++ offset, s)

/-- The time that stands after a date, or nothing. -/
def timeAfterDate? : Part
  | c :: s =>
    if c == 'T' || c == 't' then offsetTime? s
    else if c == ' ' && (time? s).isSome then offsetTime? s
    else some ([], c :: s)
  | [] => some ([], [])

/-- A date, a time, or both. -/
def dateTime? (s : List Char) : Option (Toml × List Char) := do
  let (written, rest) ←
    match date? s with
    | some (date, s) => (timeAfterDate? s).map fun p => (date ++ p.1, p.2)
    | none => time? s
  some (text (String.ofList written), rest)

end EntityQuery.Toml
