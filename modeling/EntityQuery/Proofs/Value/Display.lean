import EntityQuery.Proofs.Calendar.Reading
import EntityQuery.Proofs.Filter.Compilation
import EntityQuery.Proofs.Uuid
import EntityQuery.Proofs.Value.Keys
import EntityQuery.Proofs.Value.Order

/-!
# Reading values back

**What is shown of a value is a literal for it, with one exception** (`display_reads_back`): a
timestamp whose year in UTC is not among 0 to 9999 is shown with a signed year and an offset, and no
layout that is read has both. Such timestamps are accepted, as a date-time or a date with a signed
year, or with an offset that leads into another year. Different values of one type are shown
differently in every case (`display_injective`).

`Value.HasPlainYear` is the condition that decides; everything else is read back type by type
(`read?_display`), and coercion adds nothing to reading but the blanks that it trims
(`coerce_display`).
-/

namespace EntityQuery

namespace Decimal

theorem solid_signedText (n : Int) : Text.Solid (signedText n) := by
  have digits (n : Nat) : Text.Solid (text n) :=
    Text.solid_of_isDigit fun _ => isDigit_of_mem_text
  cases n with
  | ofNat n => exact digits n
  | negSucc n => exact Text.solid_cons.mpr ⟨by decide, digits _⟩

/-- An integer of 64 bits is read back from its digits. -/
theorem integer?_signedText {n : Int} (range : IsInt64 n) :
    integer? (signedText n) = some (Int64.ofInt n) := by
  cases n with
  | ofNat n =>
    have first {c : Char} {r : List Char} (h : text n = c :: r) : c.isDigit = true :=
      isDigit_of_mem_text (h ▸ List.mem_cons_self)
    have range : IsInt64 (n : Int) := range
    simp only [integer?, signedText]
    split
    · next sign => exact absurd (first sign) (by decide)
    · next sign => exact absurd (first sign) (by decide)
    · simp [digits?_text, range]
  | negSucc n =>
    simp only [integer?, signedText, digits?_text]
    show ((some (Int.negSucc n)).filter fun n => IsInt64 n).map Int64.ofInt = _
    rw [Option.filter_some, if_pos (by simpa using range), Option.map_some]

end Decimal

namespace Value

/-- The value is no timestamp, or its year is written with four digits and no sign. -/
def HasPlainYear : Value → Prop
  | timestamp t => t.HasPlainYear
  | _ => True

instance : (v : Value) → Decidable v.HasPlainYear
  | timestamp t => inferInstanceAs (Decidable t.HasPlainYear)
  | null | bool _ | int _ | float _ | text _ | date _ | dateTime _ | uuid _ =>
    inferInstanceAs (Decidable True)

variable {type : ScalarType} {v w : Value}

/-- No blanks are shown except in a text. -/
theorem solid_display (notFloat : type ≠ .float) (notText : type ≠ .text)
    (hv : v.type? = some type) : Text.Solid v.display.toList := by
  cases v with
  | null => cases hv
  | float => cases hv; contradiction
  | text => cases hv; contradiction
  | bool b => cases b <;> decide
  | int i => simpa [display] using Decimal.solid_signedText i.toInt
  | date d => simpa [display] using d.solid_text
  | dateTime t => simpa [display] using t.solid_text
  | timestamp t => simpa [display] using t.solid_text
  | uuid u => simpa [display] using u.solid_text

theorem read?_display (notFloat : type ≠ .float) (notText : type ≠ .text)
    (hv : v.type? = some type) :
    type.read? v.display.toList = if v.HasPlainYear then some v else none := by
  cases v <;> cases hv
  case float => contradiction
  case text => contradiction
  case bool b => cases b <;> rfl
  case int i =>
    have range : Decimal.IsInt64 i.toInt := ⟨i.le_toInt, i.toInt_lt⟩
    simp [ScalarType.read?, display, HasPlainYear, Decimal.integer?_signedText range]
  case date d => simp [ScalarType.read?, display, HasPlainYear, Calendar.Date.read?_text]
  case dateTime t => simp [ScalarType.read?, display, HasPlainYear, Calendar.DateTime.read?_text]
  case uuid u => simp [ScalarType.read?, display, HasPlainYear, Uuid.read?_text]
  case timestamp t =>
    by_cases plain : t.HasPlainYear <;>
      simp [ScalarType.read?, display, HasPlainYear, Calendar.Timestamp.read?_text, plain]

/-- Values of one type are told apart by what is shown of them. -/
theorem display_injective (notFloat : type ≠ .float) (hv : v.type? = some type)
    (hw : w.type? = some type) (same : v.display = w.display) : v = w := by
  by_cases moment : type = .text ∨ type = .timestamp
  · rcases moment with rfl | rfl
    · obtain ⟨s, rfl⟩ := exists_eq_of_type? hv
      obtain ⟨t, rfl⟩ := exists_eq_of_type? hw
      exact congrArg text same
    · obtain ⟨t, rfl⟩ := exists_eq_of_type? hv
      obtain ⟨u, rfl⟩ := exists_eq_of_type? hw
      exact congrArg timestamp (Calendar.Timestamp.text_injective (String.ofList_injective same))
  · obtain ⟨notText, notTimestamp⟩ := not_or.mp moment
    have plain {u : Value} (hu : u.type? = some type) : u.HasPlainYear := by
      cases u with
      | timestamp t => cases hu; contradiction
      | null | bool | int | float | text | date | dateTime | uuid => trivial
    have read := congrArg (fun s : String => type.read? s.toList) same
    simp only [read?_display notFloat notText hv, read?_display notFloat notText hw, plain hv,
      plain hw, if_true] at read
    exact Option.some.inj read

end Value

namespace ScalarType

variable {type : ScalarType} {v : Value}

/-- What is shown of a value is a literal for it, unless it is a timestamp in a signed year. -/
theorem coerce_display (notFloat : type ≠ .float) (hv : v.type? = some type) (field : String) :
    type.coerce field v.display =
      if v.HasPlainYear then .ok v else .error (.typeCoercion field v.display type) := by
  by_cases notText : type = .text
  · subst notText
    obtain ⟨s, rfl⟩ := Value.exists_eq_of_type? hv
    rfl
  · have trimmed := (Value.solid_display notFloat notText hv).trim_eq
    have read := Value.read?_display notFloat notText hv
    unfold coerce
    split
    · contradiction
    · rw [trimmed, read]
      by_cases plain : v.HasPlainYear <;> simp [plain]

/-- **What is shown of an accepted literal is accepted as the same value**, unless it is a timestamp
in a signed year, and then it is refused. No two values of a type are shown alike. -/
theorem display_reads_back {field raw : String} (notFloat : type ≠ .float)
    (accepted : type.coerce field raw = .ok v) :
    (∀ field', type.coerce field' v.display =
      if v.HasPlainYear then .ok v else .error (.typeCoercion field' v.display type)) ∧
    ∀ field' raw' w, type.coerce field' raw' = .ok w → w.display = v.display → w = v := by
  have hv := type?_coerce accepted
  exact ⟨coerce_display notFloat hv, fun _ _ _ accepted' same =>
    Value.display_injective notFloat (type?_coerce accepted') hv same⟩

namespace Moments

/-- Half past eight in the morning, in UTC. -/
def morning : Calendar.Timestamp := ⟨⟨⟨2020, 1, 1, by decide⟩, ⟨8, 30, 0, 0, by decide⟩⟩⟩

/-- The first moment of a year of five digits. -/
def distant : Calendar.Timestamp := ⟨⟨⟨10000, 1, 1, by decide⟩, .midnight⟩⟩

theorem accepted :
    timestamp.coerce "at" "2020-01-01T10:30:00+02:00" = .ok (.timestamp morning) := by
  rfl

end Moments

open Moments in
theorem display_reads_back_morning :
    timestamp.coerce "at" "2020-01-01T08:30:00+00:00" = .ok (.timestamp morning) ∧
      ∀ raw w, timestamp.coerce "at" raw = .ok w → w.display = "2020-01-01T08:30:00+00:00" →
        w = .timestamp morning := by
  have shown : (Value.timestamp morning).display = "2020-01-01T08:30:00+00:00" := by decide +kernel
  obtain ⟨read, unique⟩ := display_reads_back (by decide) accepted
  exact ⟨shown ▸ (read "at").trans (if_pos (by decide)),
    fun raw w accepted' same => unique "at" raw w accepted' (same.trans shown.symm)⟩

open Moments in
/-- A timestamp in the year 10000 is accepted, and refused as it is shown. -/
theorem distant_display_is_refused :
    timestamp.coerce "at" "+10000-01-01" = .ok (.timestamp distant) ∧
      (Value.timestamp distant).display = "+10000-01-01T00:00:00+00:00" ∧
      timestamp.coerce "at" "+10000-01-01T00:00:00+00:00" =
        .error (.typeCoercion "at" "+10000-01-01T00:00:00+00:00" .timestamp) :=
  ⟨by rfl, by decide +kernel, by rfl⟩

end ScalarType

end EntityQuery
