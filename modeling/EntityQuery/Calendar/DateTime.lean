import EntityQuery.Calendar.Date

/-! # Times of day, local date-times and timestamps

A local date-time is a date and a time of day; a timestamp is one in UTC. The second 60 of a minute
is a leap second. Fractions are written with three, six or nine digits, as few as tell the
nanoseconds exactly, and not at all when they are zero. A timestamp is read with an offset from
UTC, or in UTC when it has none. -/
namespace EntityQuery.Calendar

/-- Hours, minutes and seconds are in range; a minute may have a leap second. -/
def ValidTime (hour minute second nanosecond : Nat) : Prop :=
  hour ≤ 23 ∧ minute ≤ 59 ∧ second ≤ 60 ∧ nanosecond < 1000000000

instance (hour minute second nanosecond : Nat) :
    Decidable (ValidTime hour minute second nanosecond) :=
  inferInstanceAs (Decidable (_ ∧ _ ∧ _ ∧ _))

/-- A time of day. -/
structure TimeOfDay where
  hour : Nat
  minute : Nat
  second : Nat
  nanosecond : Nat
  valid : ValidTime hour minute second nanosecond
deriving DecidableEq

namespace TimeOfDay

/-- The time with these numbers, if there is one. -/
def of? (hour minute second nanosecond : Nat) : Option TimeOfDay :=
  if h : ValidTime hour minute second nanosecond then
    some ⟨hour, minute, second, nanosecond, h⟩
  else none

/-- The first moment of a day. -/
def midnight : TimeOfDay := ⟨0, 0, 0, 0, by decide⟩

/-- The order of time. -/
instance : Ord TimeOfDay where
  compare a b :=
    (compare a.hour b.hour).then <| (compare a.minute b.minute).then <|
      (compare a.second b.second).then (compare a.nanosecond b.nanosecond)

/-- The fraction of a second, with the point in front. -/
def fractionText (nanosecond : Nat) : List Char :=
  if nanosecond = 0 then []
  else if nanosecond % 1000000 = 0 then '.' :: Decimal.padded 3 (nanosecond / 1000000)
  else if nanosecond % 1000 = 0 then '.' :: Decimal.padded 6 (nanosecond / 1000)
  else '.' :: Decimal.padded 9 nanosecond

/-- The written form. -/
def text (t : TimeOfDay) : List Char :=
  Decimal.padded 2 t.hour ++ ':' :: Decimal.padded 2 t.minute ++
    ':' :: Decimal.padded 2 t.second ++ fractionText t.nanosecond

/-- An optional fraction of a second: digits beyond the ninth are dropped. -/
def leadingFraction? : List Char → Option (Nat × List Char)
  | '.' :: s =>
    let digits := (s.take 9).takeWhile Char.isDigit
    if digits.isEmpty then none
    else
      some (Nat.ofDigitChars 10 digits 0 * Nat.pow 10 (9 - digits.length),
        s.dropWhile Char.isDigit)
  | s => some (0, s)

/-- A time at the start of a text, to the second or, if `seconds` is false, to the minute. -/
def leading? (seconds : Bool) (s : List Char) : Option (TimeOfDay × List Char) := do
  let (hour, s) ← spacedNumber? 2 s
  let s ← expect? ':' s
  let (minute, s) ← spacedNumber? 2 s
  if seconds then
    let s ← expect? ':' s
    let (second, s) ← spacedNumber? 2 s
    let (nanosecond, s) ← leadingFraction? s
    let time ← of? hour minute second nanosecond
    some (time, s)
  else
    let time ← of? hour minute 0 0
    some (time, s)

end TimeOfDay

/-- A date with a time of day, in no particular zone. -/
structure DateTime where
  date : Date
  time : TimeOfDay
deriving DecidableEq

namespace DateTime

/-- The order of time. -/
instance : Ord DateTime where
  compare a b := (compare a.date b.date).then (compare a.time b.time)

/-- The written form. -/
def text (t : DateTime) : List Char := t.date.text ++ 'T' :: t.time.text

/-- What may stand between the date and the time. -/
inductive Separator where
  | letterT
  | blanks

/-- What follows the separator. -/
def Separator.drop? : Separator → List Char → Option (List Char)
  | .letterT, s => expect? 'T' s
  | .blanks, s => some (Text.trimStart s)

/-- Reads a whole text in one of the four layouts. -/
def readAs? (separator : Separator) (seconds : Bool) (s : List Char) : Option DateTime := do
  let (date, s) ← Date.leading? s
  let s ← separator.drop? s
  let (time, s) ← TimeOfDay.leading? seconds s
  if s.isEmpty then some ⟨date, time⟩ else none

/-- Reads a whole text as a date-time, to the second or to the minute. -/
def read? (s : List Char) : Option DateTime :=
  readAs? .letterT true s <|> readAs? .blanks true s <|>
    readAs? .letterT false s <|> readAs? .blanks false s

/-- The date-time `minutes` earlier, where `minutes` is less than a day either way. -/
def minusMinutes? (t : DateTime) (minutes : Int) : Option DateTime := do
  let total : Int := t.time.hour * 60 + t.time.minute - minutes
  let date ←
    if total < 0 then t.date.previous? else if 1440 ≤ total then t.date.next? else some t.date
  let ofDay := (total % 1440).toNat
  let time ← TimeOfDay.of? (ofDay / 60) (ofDay % 60) t.time.second t.time.nanosecond
  some ⟨date, time⟩

end DateTime

/-- A moment, as its date-time in UTC. -/
structure Timestamp where
  utc : DateTime
deriving DecidableEq

namespace Timestamp

/-- The order of time. -/
instance : Ord Timestamp where
  compare a b := compare a.utc b.utc

/-- The written form, with the offset of UTC. -/
def text (t : Timestamp) : List Char := t.utc.text ++ ['+', '0', '0', ':', '0', '0']

/-- An offset from UTC in minutes: `Z`, or hours and minutes after a sign; a typographic minus sign
counts as one. -/
def offset? : List Char → Option Int
  | ['Z'] | ['z'] => some 0
  | sign :: s => do
    let negative ← match sign with
      | '+' => some false
      | '-' | '−' => some true
      | _ => none
    let (hours, s) ← leadingNumber? 2 2 s
    let s ← expect? ':' s
    let (minutes, s) ← leadingNumber? 2 2 s
    if s.isEmpty && hours ≤ 23 && minutes ≤ 59 then
      let total : Int := hours * 60 + minutes
      some (if negative then -total else total)
    else none
  | [] => none

/-- Reads a whole text with all digits in their places and an offset at the end. -/
def readWithOffset? (s : List Char) : Option Timestamp := do
  let (year, s) ← leadingNumber? 4 4 s
  let s ← expect? '-' s
  let (month, s) ← leadingNumber? 2 2 s
  let s ← expect? '-' s
  let (day, s) ← leadingNumber? 2 2 s
  let s ← expect? 'T' s <|> expect? 't' s <|> expect? ' ' s
  let (hour, s) ← leadingNumber? 2 2 s
  let s ← expect? ':' s
  let (minute, s) ← leadingNumber? 2 2 s
  let s ← expect? ':' s
  let (second, s) ← leadingNumber? 2 2 s
  let (nanosecond, s) ← TimeOfDay.leadingFraction? s
  let offset ← offset? s
  let date ← Date.of? year month day
  let time ← TimeOfDay.of? hour minute second nanosecond
  let utc ← DateTime.minusMinutes? ⟨date, time⟩ offset
  some ⟨utc⟩

/-- Reads a whole text: with an offset, or as a date-time or a date in UTC. -/
def read? (s : List Char) : Option Timestamp :=
  readWithOffset? s <|> (DateTime.read? s).map Timestamp.mk <|>
    (Date.read? s).map fun date => ⟨⟨date, .midnight⟩⟩

end Timestamp

end EntityQuery.Calendar
