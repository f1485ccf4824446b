import EntityQuery.Value

/-!
# Keys

**Null is identified by the text that is shown for it, and so is a text that says the same; no other
value has that key** (`key_eq_null_iff`): a number, a moment and an identifier each show a character
that is not in it (`key_ne_null`). Integers are told apart by their keys (`eq_of_key_eq`). For
floats the shown digits are gone through (`not_mem_floatText`), as their layout depends on their
size.
-/

namespace EntityQuery

namespace Decimal

/-- The digits of a decimal are digits. -/
theorem isDigit_of_mem_shortest {v : Neighbourhood} {c : Char} (h : c ∈ v.shortest.digits) :
    c.isDigit = true := by
  unfold Neighbourhood.shortest at h
  dsimp only at h
  split at h
  · next n _ _ =>
    have digits : c ∈ text n :=
      List.mem_reverse.mp ((List.dropWhile_sublist _).mem (List.mem_reverse.mp h))
    exact isDigit_of_mem_text digits
  · cases h

theorem mem_layout {x : Expansion} {c : Char} (h : c ∈ x.layout .plain) :
    c ∈ x.digits ∨ c = '0' ∨ c = '.' := by
  have shown : FloatFormat.plain.positional x.point = true := rfl
  have whole : FloatFormat.plain.fraction = false := rfl
  unfold Expansion.layout at h
  simp only [shown, whole, if_true] at h
  split at h
  · simp only [List.mem_append, List.mem_cons, List.not_mem_nil, or_false] at h
    rcases h with ((rfl | rfl) | zero) | digit
    · exact .inr (.inl rfl)
    · exact .inr (.inr rfl)
    · exact .inr (.inl (List.eq_of_mem_replicate zero))
    · exact .inl digit
  · split at h
    · simp only [List.mem_append, Bool.false_eq_true, if_false, List.not_mem_nil, or_false] at h
      exact h.imp_right fun zero => .inl (List.eq_of_mem_replicate zero)
    · simp only [List.mem_append, List.mem_cons] at h
      rcases h with digit | rfl | digit
      · exact .inl (List.mem_of_mem_take digit)
      · exact .inr (.inr rfl)
      · exact .inl (List.mem_of_mem_drop digit)

/-- A float shows no capital letter but those of a NaN. -/
theorem not_mem_floatText (f : Float) : 'U' ∉ floatText .plain f := by
  have sign (negative : Bool) : 'U' ∉ (if negative then ['-'] else []) := by
    cases negative <;> decide
  unfold floatText
  split
  · decide
  · next negative _ =>
    exact fun h => (List.mem_append.mp h).elim (sign negative) (by decide)
  · next negative mantissa exponent atPower _ =>
    intro h
    rcases List.mem_append.mp h with h | h
    · exact sign negative h
    · split at h
      · exact absurd h (by decide)
      · rcases mem_layout h with digit | other
        · exact absurd (isDigit_of_mem_shortest digit) (by decide)
        · exact absurd other (by decide)

theorem signedText_injective : Function.Injective signedText := by
  have natural {m n : Nat} (same : text m = text n) : m = n := by
    have read := congrArg digits? same
    rw [digits?_text, digits?_text] at read
    exact Option.some.inj read
  have signed {m n : Nat} : text m ≠ '-' :: text n := by
    intro same
    exact absurd (isDigit_of_mem_text (same ▸ List.mem_cons_self)) (by decide)
  intro m n same
  cases m with
  | ofNat m =>
    cases n with
    | ofNat n => exact congrArg Int.ofNat (natural same)
    | negSucc n => exact absurd same signed
  | negSucc m =>
    cases n with
    | ofNat n => exact absurd same.symm signed
    | negSucc n => exact congrArg Int.negSucc (Nat.succ.inj (natural (List.cons.inj same).2))

end Decimal

namespace Value

theorem eq_null_of_isNull {v : Value} (h : v.isNull = true) : v = null := by
  cases v with
  | null => rfl
  | bool | int | float | text | date | dateTime | timestamp | uuid => cases h

theorem ne_null_of_mem {s : String} {c : Char} (h : c ∈ s.toList) (other : c ∉ "NULL".toList) :
    s ≠ "NULL" := by
  rintro rfl
  exact other h

theorem wholeKey_injective : Function.Injective wholeKey := by
  intro i j same
  have texts := congrArg String.toList same
  simp only [wholeKey, String.toList_append, String.toList_ofList] at texts
  exact Int64.toInt_inj.mp (Decimal.signedText_injective (List.append_cancel_left texts))

theorem wholeKey_ne_null (i : Int64) : wholeKey i ≠ "NULL" :=
  ne_null_of_mem (c := ':') (by simp [wholeKey]) (by decide)

theorem ofList_ne_null {s : List Char} {c : Char} (h : c ∈ s) (other : c ∉ "NULL".toList) :
    String.ofList s ≠ "NULL" :=
  ne_null_of_mem ((String.toList_ofList (l := s)).symm ▸ h) other

/-- A value that is neither null nor a text has another key than null. -/
theorem key_ne_null {v : Value} (notNull : v.isNull = false) (notText : v.text? = none) :
    v.key ≠ "NULL" := by
  cases v with
  | null => cases notNull
  | bool b => cases b <;> decide
  | int i => exact wholeKey_ne_null i
  | float f =>
    unfold key
    dsimp only
    split
    · exact wholeKey_ne_null _
    · intro same
      have chars : Decimal.floatText .plain f = "NULL".toList := by
        rw [← same]
        exact String.toList_ofList.symm
      exact Decimal.not_mem_floatText f (chars ▸ by decide)
  | text s => cases notText
  | date d =>
    have hyphen : '-' ∈ d.text := by simp [Calendar.Date.text]
    exact ofList_ne_null hyphen (by decide)
  | dateTime t =>
    have hyphen : '-' ∈ t.text := by simp [Calendar.DateTime.text, Calendar.Date.text]
    exact ofList_ne_null hyphen (by decide)
  | timestamp t =>
    have plus : '+' ∈ t.text := by simp [Calendar.Timestamp.text]
    exact ofList_ne_null plus (by decide)
  | uuid u =>
    have hyphen : '-' ∈ u.text := by simp [Uuid.text]
    exact ofList_ne_null hyphen (by decide)

/-- Integers and null are told apart by their keys. -/
theorem eq_of_key_eq {v w : Value} (hv : v = null ∨ ∃ i, v = int i)
    (hw : w = null ∨ ∃ i, w = int i) (same : v.key = w.key) : v = w := by
  rcases hv with rfl | ⟨i, rfl⟩ <;> rcases hw with rfl | ⟨j, rfl⟩
  · rfl
  · exact absurd same.symm (wholeKey_ne_null j)
  · exact absurd same (wholeKey_ne_null i)
  · exact congrArg int (wholeKey_injective same)

/-- The key of null is that of the text that says so, and of nothing else. -/
theorem key_eq_null_iff {v : Value} : v.key = "NULL" ↔ v = null ∨ v = text "NULL" := by
  constructor
  · intro same
    cases v with
    | null => exact .inl rfl
    | text s => exact .inr (congrArg text same)
    | bool | int | float | date | dateTime | timestamp | uuid =>
      exact absurd same (key_ne_null rfl rfl)
  · rintro (rfl | rfl) <;> rfl

end Value

end EntityQuery
