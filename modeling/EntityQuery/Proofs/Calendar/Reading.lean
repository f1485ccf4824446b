import EntityQuery.Calendar.DateTime
import EntityQuery.Proofs.Text.Trimming
import Mathlib.Algebra.Group.Nat.Defs

/-!
# Reading moments back

**Dates, times of day and local date-times are read back from their written form, in any year that
they cover** (`Date.read?_text`, `DateTime.read?_text`). A timestamp is read with its offset only
when its year has four digits and no sign (`Timestamp.HasPlainYear`), and otherwise neither as a
date-time nor as a date, as the offset is left over: so **the written form of a timestamp in any
other year is not read at all** (`Timestamp.read?_text`), although such timestamps are told apart by
it (`Timestamp.text_injective`).

Readers take as many digits from the front of a text as they are allowed to, so each lemma about a
part says what may come next. A number is read back if it takes up its places or is followed by
something that `Stops` it (`leadingNumber?_padded`); dates and times of day are read back at the
start of any text that does not go on with them.
-/

namespace EntityQuery

namespace Decimal

theorem padded_ne_nil (width n : Nat) : padded width n ≠ [] := by
  simp [padded, text]

theorem le_length_padded (width n : Nat) : width ≤ (padded width n).length := by
  rw [padded, List.length_append, List.length_replicate]
  omega

/-- A number that fits takes up exactly the width. -/
theorem length_padded {width n : Nat} (pos : 0 < width) (fits : n < 10 ^ width) :
    (padded width n).length = width := by
  have short : (text n).length ≤ width := (Nat.length_toDigits_le_iff (by decide) pos).mpr fits
  rw [padded, List.length_append, List.length_replicate]
  omega

theorem ofDigitChars_padded (width n : Nat) : Nat.ofDigitChars 10 (padded width n) 0 = n := by
  simp [padded, text, Nat.ofDigitChars_append, Nat.ofDigitChars_replicate_zero]

/-- A number starts with a digit. -/
theorem isDigit_of_padded_append {width n : Nat} {rest s : List Char} {c : Char}
    (h : padded width n ++ rest = c :: s) : c.isDigit = true := by
  obtain ⟨d, digits, cons⟩ := List.exists_cons_of_ne_nil (padded_ne_nil width n)
  rw [cons] at h
  cases h
  exact isDigit_of_mem_padded (cons ▸ List.mem_cons_self)

theorem solid_padded (width n : Nat) : Text.Solid (padded width n) :=
  Text.solid_of_isDigit fun _ => isDigit_of_mem_padded

end Decimal

namespace Calendar

open Decimal (padded)

/-! ## Numbers in fixed places -/

/-- A number does not go on in the text. -/
def Stops (s : List Char) : Prop := ∀ c ∈ s.head?, c.isDigit = false ∧ c ≠ '.'

@[simp] theorem stops_nil : Stops [] := by simp [Stops]

@[simp] theorem stops_cons {c : Char} {s : List Char} :
    Stops (c :: s) ↔ c.isDigit = false ∧ c ≠ '.' := by
  simp [Stops]

/-- The digits in front are read as far as they are asked for. -/
theorem takeWhile_isDigit {most : Nat} {digits rest : List Char}
    (all : ∀ c ∈ digits, c.isDigit = true)
    (stop : digits.length = most ∨ digits.length ≤ most ∧ Stops rest) :
    ((digits ++ rest).take most).takeWhile Char.isDigit = digits := by
  rcases stop with full | ⟨short, stop⟩
  · rw [List.take_left' full]
    exact List.takeWhile_eq_self_iff.mpr all
  · rw [List.take_append, List.take_of_length_le short, List.takeWhile_append_of_pos all]
    cases rest with
    | nil => simp
    | cons c rest =>
      cases most - digits.length with
      | zero => simp
      | succ k => simp [(stops_cons.mp stop).1]

theorem leadingNumber?_append {least most : Nat} {digits rest : List Char}
    (all : ∀ c ∈ digits, c.isDigit = true) (enough : least ≤ digits.length)
    (stop : digits.length = most ∨ digits.length ≤ most ∧ Stops rest) :
    leadingNumber? least most (digits ++ rest) = some (Nat.ofDigitChars 10 digits 0, rest) := by
  simp [leadingNumber?, takeWhile_isDigit all stop, Nat.not_lt.mpr enough]

/-- A number is read back from the places that it takes up, whatever comes next. -/
theorem leadingNumber?_padded {least width n : Nat} (rest : List Char) (enough : least ≤ width)
    (pos : 0 < width) (fits : n < 10 ^ width) :
    leadingNumber? least width (padded width n ++ rest) = some (n, rest) := by
  have full := Decimal.length_padded pos fits
  rw [leadingNumber?_append (fun _ => Decimal.isDigit_of_mem_padded) (by omega) (.inl full),
    Decimal.ofDigitChars_padded]

/-- No number is read where there is no digit. -/
theorem leadingNumber?_of_not_isDigit {least most : Nat} {c : Char} {s : List Char}
    (digit : c.isDigit = false) (pos : 0 < least) : leadingNumber? least most (c :: s) = none := by
  cases most with
  | zero => simp [leadingNumber?, pos]
  | succ most => simp [leadingNumber?, digit, pos]

theorem trimStart_padded (width n : Nat) (rest : List Char) :
    Text.trimStart (padded width n ++ rest) = padded width n ++ rest := by
  have first : ∀ c ∈ (padded width n ++ rest).head?, Text.isBlank c = false := by
    intro c hc
    rw [List.head?_append_of_ne_nil _ (Decimal.padded_ne_nil width n)] at hc
    exact Decimal.solid_padded width n c (List.mem_of_mem_head? hc)
  exact Text.trimStart_append Text.blanks_nil first

theorem spacedNumber?_padded {n : Nat} (rest : List Char) (fits : n < 100) :
    spacedNumber? 2 (padded 2 n ++ rest) = some (n, rest) := by
  rw [spacedNumber?, trimStart_padded]
  exact leadingNumber?_padded rest (by decide) (by decide) fits

@[simp] theorem expect?_cons (c : Char) (s : List Char) : expect? c (c :: s) = some s := if_pos rfl

/-! ## Dates -/

namespace Date

theorem of?_self (d : Date) : of? d.year d.month d.day = some d := by
  rw [of?, dif_pos d.valid]

theorem day_lt (d : Date) : d.day < 100 := by
  have last : daysInMonth d.year d.month ≤ 31 := by
    unfold daysInMonth
    split <;> first | omega | split <;> omega
  have := d.valid.2.2.2
  omega

theorem month_lt (d : Date) : d.month < 100 := by
  have first := d.valid.2.2.1
  have last := d.valid.2.2.2
  unfold daysInMonth at last
  split at last <;> omega

theorem leadingYear?_minus (s : List Char) :
    leadingYear? ('-' :: s) = (leadingNumber? 1 s.length s).map fun p => (-(p.1 : Int), p.2) := by
  rw [leadingYear?, Text.trimStart, List.dropWhile_cons_of_neg (by decide)]
  rfl

theorem leadingYear?_plus (s : List Char) :
    leadingYear? ('+' :: s) = (leadingNumber? 1 s.length s).map fun p => ((p.1 : Int), p.2) := by
  rw [leadingYear?, Text.trimStart, List.dropWhile_cons_of_neg (by decide)]
  rfl

/-- A year is read back, with or without a sign. -/
theorem leadingYear?_yearText (year : Int) {rest : List Char} (stop : Stops rest) :
    leadingYear? (yearText year ++ rest) = some (year, rest) := by
  unfold yearText
  split
  · next plain =>
    have range : 0 ≤ year ∧ year ≤ 9999 := by simpa using plain
    have read : leadingNumber? 1 4 (padded 4 year.toNat ++ rest) = some (year.toNat, rest) :=
      leadingNumber?_padded rest (by decide) (by decide) (by omega)
    rw [leadingYear?, trimStart_padded]
    split
    · next sign => exact absurd (Decimal.isDigit_of_padded_append sign) (by decide)
    · next sign => exact absurd (Decimal.isDigit_of_padded_append sign) (by decide)
    · rw [read, Option.map_some, Int.toNat_of_nonneg range.1]
  · have signed : leadingNumber? 1 (padded 4 year.natAbs ++ rest).length
        (padded 4 year.natAbs ++ rest) = some (year.natAbs, rest) := by
      have wide := Decimal.le_length_padded 4 year.natAbs
      have length : (padded 4 year.natAbs ++ rest).length = _ := List.length_append
      rw [leadingNumber?_append (fun _ => Decimal.isDigit_of_mem_padded) (by omega)
        (.inr ⟨by omega, stop⟩), Decimal.ofDigitChars_padded]
    split
    · next negative =>
      rw [List.cons_append, leadingYear?_minus, signed, Option.map_some,
        show -(year.natAbs : Int) = year by omega]
    · next positive =>
      rw [List.cons_append, leadingYear?_plus, signed, Option.map_some,
        show (year.natAbs : Int) = year by omega]

/-- In front of a year that is not plain there is a sign. -/
theorem exists_sign {year : Int} (h : ¬ (0 ≤ year ∧ year ≤ 9999)) :
    ∃ c s, yearText year = c :: s ∧ c.isDigit = false := by
  refine ⟨if year < 0 then '-' else '+', padded 4 year.natAbs, ?_, by split <;> decide⟩
  rw [yearText, if_neg (by simpa using h)]

/-- A date at the start of a text is read back, whatever comes next. -/
theorem leading?_text (d : Date) (rest : List Char) :
    leading? (d.text ++ rest) = some (d, rest) := by
  have year (s : List Char) :
      leadingYear? (yearText d.year ++ '-' :: s) = some (d.year, '-' :: s) :=
    leadingYear?_yearText d.year (stops_cons.mpr (by decide))
  have month (s : List Char) := spacedNumber?_padded s d.month_lt
  have day (s : List Char) := spacedNumber?_padded s d.day_lt
  simp [leading?, text, year, month, day, of?_self]

theorem read?_text (d : Date) : read? d.text = some d := by
  have read := leading?_text d []
  rw [List.append_nil] at read
  rw [read?, read]

theorem solid_text (d : Date) : Text.Solid d.text := by
  have sign : Text.isBlank '-' = false ∧ Text.isBlank '+' = false := by decide
  have year : Text.Solid (yearText d.year) := by
    unfold yearText
    split_ifs <;> simp [sign, Decimal.solid_padded]
  simp [text, year, sign, Decimal.solid_padded]

end Date

/-! ## Times of day -/

namespace TimeOfDay

theorem of?_self (t : TimeOfDay) : of? t.hour t.minute t.second t.nanosecond = some t := by
  rw [of?, dif_pos t.valid]

theorem hour_lt (t : TimeOfDay) : t.hour < 100 := by
  have := t.valid.1
  omega

theorem minute_lt (t : TimeOfDay) : t.minute < 100 := by
  have := t.valid.2.1
  omega

theorem second_lt (t : TimeOfDay) : t.second < 100 := by
  have := t.valid.2.2.1
  omega

theorem leadingFraction?_point {width n : Nat} {rest : List Char} (pos : 0 < width)
    (short : width ≤ 9) (fits : n < 10 ^ width) (stop : Stops rest) :
    leadingFraction? ('.' :: padded width n ++ rest) = some (n * 10 ^ (9 - width), rest) := by
  have length := Decimal.length_padded pos fits
  have digits : ((padded width n ++ rest).take 9).takeWhile Char.isDigit = padded width n :=
    takeWhile_isDigit (fun _ => Decimal.isDigit_of_mem_padded) (.inr ⟨by omega, stop⟩)
  have after : (padded width n ++ rest).dropWhile Char.isDigit = rest := by
    rw [List.dropWhile_append_of_pos fun _ => Decimal.isDigit_of_mem_padded]
    cases rest with
    | nil => rfl
    | cons c rest => exact List.dropWhile_cons_of_neg (by simp [(stops_cons.mp stop).1])
  have ne : padded width n ≠ [] := Decimal.padded_ne_nil width n
  simp [leadingFraction?, digits, after, ne, Decimal.ofDigitChars_padded, length]

/-- A fraction of a second is read back from three, six or nine digits, or from none. -/
theorem leadingFraction?_fractionText {n : Nat} {rest : List Char} (fits : n < 1000000000)
    (stop : Stops rest) : leadingFraction? (fractionText n ++ rest) = some (n, rest) := by
  unfold fractionText
  split_ifs with zero
  · unfold leadingFraction?
    split
    · next s point =>
      obtain rfl : rest = '.' :: s := point
      exact absurd rfl (stops_cons.mp stop).2
    · rw [zero]
      rfl
  all_goals
    rw [leadingFraction?_point (by decide) (by decide) (by omega) stop]
    congr
    omega

/-- A time at the start of a text is read back, unless what comes next goes on with it. -/
theorem leading?_text (t : TimeOfDay) {rest : List Char} (stop : Stops rest) :
    leading? true (t.text ++ rest) = some (t, rest) := by
  have hour (s : List Char) := spacedNumber?_padded s t.hour_lt
  have minute (s : List Char) := spacedNumber?_padded s t.minute_lt
  have second (s : List Char) := spacedNumber?_padded s t.second_lt
  have fraction := leadingFraction?_fractionText t.valid.2.2.2 stop
  simp [leading?, text, hour, minute, second, fraction, of?_self]

/-- Up to the minute, the seconds are left over. -/
theorem leading?_minutes (t : TimeOfDay) (rest : List Char) :
    ∃ u s, leading? false (t.text ++ rest) = some (u, ':' :: s) := by
  have hour (s : List Char) := spacedNumber?_padded s t.hour_lt
  have minute (s : List Char) := spacedNumber?_padded s t.minute_lt
  have valid : ValidTime t.hour t.minute 0 0 := ⟨t.valid.1, t.valid.2.1, by decide, by decide⟩
  exact ⟨⟨_, _, _, _, valid⟩, padded 2 t.second ++ fractionText t.nanosecond ++ rest, by
    simp [leading?, text, hour, minute, of?, valid]⟩

theorem solid_text (t : TimeOfDay) : Text.Solid t.text := by
  have mark : Text.isBlank ':' = false ∧ Text.isBlank '.' = false := by decide
  have fraction : Text.Solid (fractionText t.nanosecond) := by
    unfold fractionText
    split_ifs <;> simp [mark, Decimal.solid_padded]
  simp [text, fraction, mark, Decimal.solid_padded]

end TimeOfDay

/-! ## Local date-times -/

namespace DateTime

/-- The separator is a letter, which is no blank in front of a time. -/
theorem readAs?_blanks (t : DateTime) (seconds : Bool) (rest : List Char) :
    readAs? .blanks seconds (t.text ++ rest) = none := by
  have start (s : List Char) : Text.trimStart ('T' :: s) = 'T' :: s :=
    List.dropWhile_cons_of_neg (by decide)
  have hour (s : List Char) : spacedNumber? 2 ('T' :: s) = none := by
    rw [spacedNumber?, start]
    exact leadingNumber?_of_not_isDigit (by decide) (by decide)
  have date (s : List Char) := t.date.leading?_text ('T' :: s)
  simp [readAs?, text, date, Separator.drop?, start, TimeOfDay.leading?, hour]

/-- A date-time is read back, and not read where anything follows it. -/
theorem read?_append (t : DateTime) {rest : List Char} (stop : Stops rest) :
    read? (t.text ++ rest) = if rest = [] then some t else none := by
  have date (s : List Char) := t.date.leading?_text ('T' :: s)
  have time := t.time.leading?_text stop
  obtain ⟨u, s, minutes⟩ := t.time.leading?_minutes rest
  have seconds : readAs? .letterT true (t.text ++ rest) = if rest = [] then some t else none := by
    simp [readAs?, text, date, Separator.drop?, time]
  have minutes : readAs? .letterT false (t.text ++ rest) = none := by
    simp [readAs?, text, date, Separator.drop?, minutes]
  rw [read?, seconds, readAs?_blanks, minutes, readAs?_blanks]
  simp

theorem read?_text (t : DateTime) : read? t.text = some t := by
  simpa using t.read?_append stops_nil

theorem solid_text (t : DateTime) : Text.Solid t.text := by
  have letter : Text.isBlank 'T' = false := by decide
  simp [text, letter, t.date.solid_text, t.time.solid_text]

/-- A moment is where it was with no offset. -/
theorem minusMinutes?_zero (t : DateTime) : t.minusMinutes? 0 = some t := by
  obtain ⟨hour, minute, -, -⟩ := t.time.valid
  have total : (t.time.hour * 60 + t.time.minute : Int) - 0 =
    ((t.time.hour * 60 + t.time.minute : Nat) : Int) := by omega
  have ofDay : ((t.time.hour * 60 + t.time.minute : Nat) % 1440 : Int).toNat =
    t.time.hour * 60 + t.time.minute := by omega
  have hours : (t.time.hour * 60 + t.time.minute) / 60 = t.time.hour := by omega
  have minutes : (t.time.hour * 60 + t.time.minute) % 60 = t.time.minute := by omega
  rw [minusMinutes?, total, if_neg (by omega), if_neg (by omega), ofDay]
  simp [hours, minutes, TimeOfDay.of?_self]

end DateTime

/-! ## Timestamps -/

namespace Timestamp

/-- The year of the moment is written with four digits and no sign. -/
def HasPlainYear (t : Timestamp) : Prop := 0 ≤ t.utc.date.year ∧ t.utc.date.year ≤ 9999

instance (t : Timestamp) : Decidable t.HasPlainYear := inferInstanceAs (Decidable (_ ∧ _))

theorem stops_offset : Stops ['+', '0', '0', ':', '0', '0'] := stops_cons.mpr (by decide)

theorem readWithOffset?_text (t : Timestamp) :
    readWithOffset? t.text = if t.HasPlainYear then some t else none := by
  split
  · next plain =>
    obtain ⟨low, high⟩ := plain
    have year : Date.yearText t.utc.date.year = padded 4 t.utc.date.year.toNat := by
      rw [Date.yearText, if_pos (by simp [low, high])]
    have readYear (s : List Char) : leadingNumber? 4 4 (padded 4 t.utc.date.year.toNat ++ s) =
        some (t.utc.date.year.toNat, s) :=
      leadingNumber?_padded s (by decide) (by decide) (by omega)
    have read {n : Nat} (small : n < 100) (s : List Char) :
        leadingNumber? 2 2 (padded 2 n ++ s) = some (n, s) :=
      leadingNumber?_padded s (by decide) (by decide) small
    have fraction := TimeOfDay.leadingFraction?_fractionText t.utc.time.valid.2.2.2 stops_offset
    have offset : offset? ['+', '0', '0', ':', '0', '0'] = some 0 := by decide
    have first {α : Type} (a : α) (o : Option α) : (some a <|> o) = some a := rfl
    have next {α β : Type} (a : α) (f : α → Option β) : (some a >>= f) = f a := rfl
    simp only [readWithOffset?, text, DateTime.text, Date.text, TimeOfDay.text, year,
      List.append_assoc, List.cons_append, readYear, read t.utc.date.month_lt,
      read t.utc.date.day_lt, read t.utc.time.hour_lt, read t.utc.time.minute_lt,
      read t.utc.time.second_lt, expect?_cons, first, fraction, offset, Int.toNat_of_nonneg low,
      Date.of?_self, TimeOfDay.of?_self, DateTime.minusMinutes?_zero, next]
  · next signed =>
    obtain ⟨c, s, cons, sign⟩ := Date.exists_sign signed
    have first : ∃ rest, t.text = c :: rest := ⟨_, by
      rw [text, DateTime.text, Date.text, cons]
      rfl⟩
    obtain ⟨rest, first⟩ := first
    rw [readWithOffset?, first, leadingNumber?_of_not_isDigit sign (by decide)]
    rfl

/-- A timestamp is read back if its year is plain, and not read at all otherwise: it is no
date-time and no date, as its offset is left over. -/
theorem read?_text (t : Timestamp) :
    read? t.text = if t.HasPlainYear then some t else none := by
  have dateTime : DateTime.read? t.text = none := t.utc.read?_append stops_offset
  have date : Date.read? t.text = none := by
    rw [Date.read?, text, DateTime.text, List.append_assoc, Date.leading?_text]
    rfl
  rw [read?, readWithOffset?_text, dateTime, date]
  split <;> rfl

theorem solid_text (t : Timestamp) : Text.Solid t.text :=
  Text.solid_append.mpr ⟨t.utc.solid_text, by decide⟩

/-- Also timestamps that are not read back are told apart by their written form. -/
theorem text_injective {t u : Timestamp} (same : t.text = u.text) : t = u := by
  have utc : t.utc.text = u.utc.text := List.append_cancel_right same
  have read := congrArg DateTime.read? utc
  rw [DateTime.read?_text, DateTime.read?_text] at read
  exact congrArg mk (Option.some.inj read)

end Timestamp

end Calendar

end EntityQuery
