import EntityQuery.Decimal.Numeral
import EntityQuery.Text.Character

/-! # Dates

Days of the proleptic Gregorian calendar with astronomical years. A date is written `YYYY-MM-DD`;
years outside 0 to 9999 carry their sign. Reading is looser: blanks may stand before a number, a
month or day may have one digit, and a year without a sign has at most four. -/
namespace EntityQuery.Calendar

/-- Every fourth year is a leap year, except three in four centuries. -/
def isLeapYear (year : Int) : Bool :=
  year % 4 == 0 && (year % 100 != 0 || year % 400 == 0)

/-- The number of days of a month; 0 outside January to December. -/
def daysInMonth (year : Int) (month : Nat) : Nat :=
  match month with
  | 1 | 3 | 5 | 7 | 8 | 10 | 12 => 31
  | 4 | 6 | 9 | 11 => 30
  | 2 => if isLeapYear year then 29 else 28
  | _ => 0

/-- The day exists, and its year lies in the range that dates cover. -/
def ValidDate (year : Int) (month day : Nat) : Prop :=
  -262143 ≤ year ∧ year ≤ 262142 ∧ 1 ≤ day ∧ day ≤ daysInMonth year month

instance (year : Int) (month day : Nat) : Decidable (ValidDate year month day) :=
  inferInstanceAs (Decidable (_ ∧ _ ∧ _ ∧ _))

/-- A day of the calendar. -/
structure Date where
  year : Int
  month : Nat
  day : Nat
  valid : ValidDate year month day
deriving DecidableEq

namespace Date

/-- The day with these numbers, if there is one. -/
def of? (year : Int) (month day : Nat) : Option Date :=
  if h : ValidDate year month day then some ⟨year, month, day, h⟩ else none

/-- The order of time. -/
instance : Ord Date where
  compare a b :=
    (compare a.year b.year).then ((compare a.month b.month).then (compare a.day b.day))

/-- The day after. -/
def next? (d : Date) : Option Date :=
  of? d.year d.month (d.day + 1) <|> of? d.year (d.month + 1) 1 <|> of? (d.year + 1) 1 1

/-- The day before. -/
def previous? (d : Date) : Option Date :=
  of? d.year d.month (d.day - 1)
    <|> of? d.year (d.month - 1) (daysInMonth d.year (d.month - 1))
    <|> of? (d.year - 1) 12 31

/-- A year in at least four digits, with its sign unless it lies in 0 to 9999. -/
def yearText (year : Int) : List Char :=
  if 0 ≤ year && year ≤ 9999 then Decimal.padded 4 year.toNat
  else (if year < 0 then '-' else '+') :: Decimal.padded 4 year.natAbs

/-- The written form. -/
def text (d : Date) : List Char :=
  yearText d.year ++ '-' :: Decimal.padded 2 d.month ++ '-' :: Decimal.padded 2 d.day

end Date

/-! ## Reading numbers in fixed places -/

/-- The number written by the leading digits, at least `least` and at most `most` of them, and what
follows them. -/
def leadingNumber? (least most : Nat) (s : List Char) : Option (Nat × List Char) :=
  let digits := (s.take most).takeWhile Char.isDigit
  if digits.length < least then none
  else some (Nat.ofDigitChars 10 digits 0, s.drop digits.length)

/-- A number of at most `most` digits after any blanks. -/
def spacedNumber? (most : Nat) (s : List Char) : Option (Nat × List Char) :=
  leadingNumber? 1 most (Text.trimStart s)

/-- What follows the character, if the text begins with it. -/
def expect? (c : Char) : List Char → Option (List Char)
  | x :: s => if x = c then some s else none
  | [] => none

namespace Date

/-- A year after any blanks: any number of digits after a sign, at most four without one. -/
def leadingYear? (s : List Char) : Option (Int × List Char) :=
  match Text.trimStart s with
  | '-' :: r => (leadingNumber? 1 r.length r).map fun p => (-(p.1 : Int), p.2)
  | '+' :: r => (leadingNumber? 1 r.length r).map fun p => ((p.1 : Int), p.2)
  | r => (leadingNumber? 1 4 r).map fun p => ((p.1 : Int), p.2)

/-- The date at the start of a text, and what follows it. -/
def leading? (s : List Char) : Option (Date × List Char) := do
  let (year, s) ← leadingYear? s
  let s ← expect? '-' s
  let (month, s) ← spacedNumber? 2 s
  let s ← expect? '-' s
  let (day, s) ← spacedNumber? 2 s
  let date ← of? year month day
  some (date, s)

/-- Reads a whole text as a date. -/
def read? (s : List Char) : Option Date :=
  match leading? s with
  | some (date, []) => some date
  | _ => none

end Date

end EntityQuery.Calendar
