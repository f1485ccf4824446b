/-! # Parts of texts

`cut c s` splits a text at the first `c`. Indexes reported to callers count the bytes of the UTF-8
form, so `byteSize` measures a text in bytes. Escapes in texts name characters and bytes by
hexadecimal digits of either case. -/
namespace EntityQuery.Text

/-! ## Cutting -/

/-- What stands before and after the first `c`, or `none` if there is no `c`. -/
def cut (c : Char) : List Char → Option (List Char × List Char)
  | [] => none
  | x :: s => if x = c then some ([], s) else (cut c s).map fun p => (x :: p.1, p.2)

theorem cut_eq_none_iff {c : Char} {s : List Char} : cut c s = none ↔ c ∉ s := by
  induction s with
  | nil => simp [cut]
  | cons x s ih =>
    by_cases h : x = c
    · simp [cut, h]
    · simp [cut, h, ih, Ne.symm h]

theorem cut_append_cons {c : Char} {a b : List Char} (h : c ∉ a) :
    cut c (a ++ c :: b) = some (a, b) := by
  induction a with
  | nil => simp [cut]
  | cons x a ih =>
    simp only [List.mem_cons, not_or] at h
    simp [cut, Ne.symm h.1, ih h.2]

theorem cut_eq_some_iff {c : Char} {s a b : List Char} :
    cut c s = some (a, b) ↔ c ∉ a ∧ s = a ++ c :: b := by
  constructor
  · induction s generalizing a b with
    | nil => simp [cut]
    | cons x s ih =>
      by_cases h : x = c
      · simp only [cut, h, if_true, Option.some.injEq, Prod.mk.injEq]
        rintro ⟨rfl, rfl⟩
        simp
      · simp only [cut, h, if_false, Option.map_eq_some_iff]
        rintro ⟨⟨a', b'⟩, hab, hp⟩
        cases hp
        obtain ⟨ha, hs⟩ := ih hab
        exact ⟨by simp [Ne.symm h, ha], by simp [hs]⟩
  · rintro ⟨h, rfl⟩
    exact cut_append_cons h

/-- What follows `start`, if the text begins with it. -/
def dropStart? (start s : List Char) : Option (List Char) := start.isPrefixOf? s

/-- What precedes `stop`, if the text ends with it. -/
def dropEnd? (stop s : List Char) : Option (List Char) := stop.isSuffixOf? s

/-- The text without the mark of the byte order that may stand before it. -/
def dropMark : List Char → List Char
  | '\uFEFF' :: s => s
  | s => s

/-! ## Sizes -/

/-- The number of bytes of the UTF-8 form. -/
def byteSize : List Char → Nat
  | [] => 0
  | c :: s => c.utf8Size + byteSize s

@[simp] theorem byteSize_nil : byteSize [] = 0 := rfl

@[simp] theorem byteSize_cons (c : Char) (s : List Char) :
    byteSize (c :: s) = c.utf8Size + byteSize s := rfl

@[simp] theorem byteSize_append (s t : List Char) :
    byteSize (s ++ t) = byteSize s + byteSize t := by
  induction s with
  | nil => simp
  | cons c s ih => simp [ih, Nat.add_assoc]

/-! ## Letters and digits of ASCII -/

/-- Lower case of the letters of ASCII, all other characters unchanged. -/
def asciiLower (s : List Char) : List Char := s.map Char.toLower

/-- The value of a hexadecimal digit. -/
def hexValue? (c : Char) : Option Nat :=
  if c.isDigit then some (c.toNat - '0'.toNat)
  else if 'a' ≤ c && c ≤ 'f' then some (c.toNat - 'a'.toNat + 10)
  else if 'A' ≤ c && c ≤ 'F' then some (c.toNat - 'A'.toNat + 10)
  else none

/-- The number that hexadecimal digits write after the digits of `high`. -/
def hexAfter? (high : Nat) : List Char → Option Nat
  | [] => some high
  | c :: s =>
    match hexValue? c with
    | some digit => hexAfter? (16 * high + digit) s
    | none => none

/-- The number written by hexadecimal digits. -/
def hexNumber? (s : List Char) : Option Nat := hexAfter? 0 s

end EntityQuery.Text
