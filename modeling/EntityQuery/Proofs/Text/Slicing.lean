import EntityQuery.Text.Cut
import Mathlib.Data.List.Basic

/-!
# Ranges of bytes

A text can be taken apart at offsets that count bytes. Not every offset will do: it has to stand
between two characters, or at an end (`IsBoundary`). So a range of bytes may be no range of the
text, and then there is nothing that it could stand for: **`slice?` gives what stands between what
its range leaves out** (`slice?_eq_some_iff`), **and nothing exactly where the range is none of the
text** (`isSome_slice?_iff`).

All other facts about slices are read off these two, among them those about what stands behind or
between characters of one byte, at which words of filters are cut (`slice?_after`,
`slice?_enclosed`).
-/

namespace EntityQuery.Text

/-- The offset is one at which a character of the text begins, or that of its end. -/
def IsBoundary (s : List Char) (offset : Nat) : Prop :=
  String.Pos.Raw.IsValid (String.ofList s) ⟨offset⟩

/-- The bytes from `start` up to `stop` are bytes of the text, and of whole characters. -/
structure IsRange (s : List Char) (start stop : Nat) : Prop where
  ordered : start ≤ stop
  within : stop ≤ byteSize s
  opens : IsBoundary s start
  closes : IsBoundary s stop

/-- What stands before and after an offset, if it is one between two characters. -/
def splitAt? : Nat → List Char → Option (List Char × List Char)
  | 0, s => some ([], s)
  | _, [] => none
  | offset, c :: s =>
    if c.utf8Size ≤ offset then
      (splitAt? (offset - c.utf8Size) s).map fun p => (c :: p.1, p.2)
    else none

/-- The characters of a range of bytes, if it is one of the text. -/
def slice? (s : List Char) (start stop : Nat) : Option (List Char) := do
  let (before, _) ← splitAt? stop s
  let (_, inner) ← splitAt? start before
  return inner

/-- The offset of the first `c`. -/
def find? (c : Char) (s : List Char) : Option Nat := (cut c s).map fun p => byteSize p.1

variable {s a b inner : List Char} {start stop offset : Nat}

/-! ## Boundaries -/

theorem utf8ByteSize_ofList (s : List Char) : (String.ofList s).utf8ByteSize = byteSize s := by
  induction s with
  | nil => rfl
  | cons c s ih =>
    rw [String.ofList_cons, String.utf8ByteSize_append, ih, String.utf8ByteSize_singleton,
      byteSize_cons]

/-- A boundary has a part of the text before it, and the rest after it. -/
theorem isBoundary_iff : IsBoundary s offset ↔ ∃ a b, s = a ++ b ∧ byteSize a = offset := by
  unfold IsBoundary
  rw [String.Pos.Raw.isValid_iff_exists_append]
  constructor
  · rintro ⟨a, b, parts, at_end⟩
    refine ⟨a.toList, b.toList, ?_, ?_⟩
    · rw [← String.toList_append, ← parts, String.toList_ofList]
    · rw [← utf8ByteSize_ofList, String.ofList_toList]
      exact (congrArg String.Pos.Raw.byteIdx at_end).symm
  · rintro ⟨a, b, rfl, rfl⟩
    refine ⟨String.ofList a, String.ofList b, String.ofList_append, ?_⟩
    rw [← utf8ByteSize_ofList]
    rfl

theorem IsBoundary.le_byteSize (h : IsBoundary s offset) : offset ≤ byteSize s := by
  obtain ⟨a, b, rfl, rfl⟩ := isBoundary_iff.mp h
  rw [byteSize_append]
  exact Nat.le_add_right _ _

theorem eq_nil_of_byteSize (h : byteSize s = 0) : s = [] := by
  cases s with
  | nil => rfl
  | cons c s =>
    have := c.utf8Size_pos
    rw [byteSize_cons] at h
    omega

theorem splitAt?_eq_some_iff :
    splitAt? offset s = some (a, b) ↔ s = a ++ b ∧ byteSize a = offset := by
  fun_induction splitAt? offset s generalizing a b with
  | case1 s =>
    constructor
    · rintro ⟨⟩
      exact ⟨rfl, rfl⟩
    · rintro ⟨rfl, none_before⟩
      rw [eq_nil_of_byteSize none_before, List.nil_append]
  | case2 offset some_bytes =>
    refine iff_of_false nofun ?_
    rintro ⟨parts, rfl⟩
    rw [(List.nil_eq_append_iff.mp parts).1] at some_bytes
    exact some_bytes rfl
  | case3 offset c s some_bytes fits ih =>
    rw [Option.map_eq_some_iff]
    constructor
    · rintro ⟨⟨a, b⟩, split, ⟨⟩⟩
      obtain ⟨rfl, size⟩ := ih.mp split
      exact ⟨rfl, by rw [byteSize_cons, size]; omega⟩
    · rintro ⟨parts, size⟩
      cases a with
      | nil => exact absurd size.symm some_bytes
      | cons d a =>
        obtain ⟨rfl, rfl⟩ := List.cons.inj parts
        refine ⟨(a, b), ih.mpr ⟨rfl, ?_⟩, rfl⟩
        rw [← size, byteSize_cons]
        omega
  | case4 offset c s some_bytes beyond =>
    refine iff_of_false nofun ?_
    rintro ⟨parts, size⟩
    cases a with
    | nil => exact absurd size.symm some_bytes
    | cons d a =>
      obtain ⟨rfl, rfl⟩ := List.cons.inj parts
      rw [← size, byteSize_cons] at beyond
      omega

/-! ## Slices -/

/-- A slice is what stands between what its range leaves out. -/
theorem slice?_eq_some_iff : slice? s start stop = some inner ↔
    ∃ a b, s = a ++ inner ++ b ∧ byteSize a = start ∧ start + byteSize inner = stop := by
  unfold slice?
  simp only [Option.bind_eq_bind, Option.bind_eq_some_iff, Prod.exists, Option.pure_def,
    Option.some.injEq, splitAt?_eq_some_iff]
  constructor
  · rintro ⟨before, b, ⟨rfl, rfl⟩, a, inner, ⟨rfl, rfl⟩, rfl⟩
    exact ⟨a, b, rfl, rfl, (byteSize_append a inner).symm⟩
  · rintro ⟨a, b, rfl, rfl, rfl⟩
    exact ⟨a ++ inner, b, ⟨rfl, byteSize_append a inner⟩, a, inner, ⟨rfl, rfl⟩, rfl⟩

/-- There is a slice for each range of the text, and for no other one. -/
theorem isSome_slice?_iff : (slice? s start stop).isSome ↔ IsRange s start stop := by
  rw [Option.isSome_iff_exists]
  simp only [slice?_eq_some_iff]
  constructor
  · rintro ⟨inner, a, b, rfl, rfl, rfl⟩
    have closes : IsBoundary (a ++ inner ++ b) (byteSize a + byteSize inner) :=
      isBoundary_iff.mpr ⟨a ++ inner, b, rfl, byteSize_append a inner⟩
    exact {
      ordered := Nat.le_add_right _ _
      within := closes.le_byteSize
      opens := isBoundary_iff.mpr ⟨a, inner ++ b, List.append_assoc .., rfl⟩
      closes := closes }
  · rintro ⟨ordered, _, opens, closes⟩
    obtain ⟨a, rest, rfl, rfl⟩ := isBoundary_iff.mp opens
    obtain ⟨before, b, parts, rfl⟩ := isBoundary_iff.mp closes
    -- Of two parts at the start of the text the one with fewer bytes is at the start of the other.
    rcases List.append_eq_append_iff.mp parts with ⟨inner, rfl, rfl⟩ | ⟨more, rfl, rfl⟩
    · exact ⟨inner, a, b, (List.append_assoc ..).symm, rfl, (byteSize_append a inner).symm⟩
    · rw [byteSize_append] at ordered
      obtain rfl := eq_nil_of_byteSize (s := more) (by omega)
      exact ⟨[], before, rest, by simp, by simp, by simp⟩

/-- The first characters of a text. -/
theorem slice?_left (a b : List Char) : slice? (a ++ b) 0 (byteSize a) = some a :=
  slice?_eq_some_iff.mpr ⟨[], b, rfl, rfl, Nat.zero_add _⟩

/-- The last characters of a text. -/
theorem slice?_right (a b : List Char) :
    slice? (a ++ b) (byteSize a) (byteSize (a ++ b)) = some b :=
  slice?_eq_some_iff.mpr ⟨a, [], (List.append_nil _).symm, rfl, (byteSize_append a b).symm⟩

theorem find?_append_cons {c : Char} (h : c ∉ a) : find? c (a ++ c :: b) = some (byteSize a) := by
  rw [find?, cut_append_cons h]
  rfl

theorem find?_of_not_mem {c : Char} (h : c ∉ s) : find? c s = none := by
  rw [find?, cut_eq_none_iff.mpr h]
  rfl

/-! ## Around characters of one byte -/

/-- What stands behind a character of one byte, to the end. -/
theorem slice?_after {c : Char} (one_byte : c.utf8Size = 1) (a b : List Char) :
    slice? (a ++ c :: b) (byteSize a + 1) (byteSize (a ++ c :: b)) = some b := by
  refine slice?_eq_some_iff.mpr ⟨a ++ [c], [], by simp, ?_, ?_⟩
  · simp [one_byte]
  · simp only [byteSize_append, byteSize_cons, one_byte]
    omega

/-- What stands between a character of one byte and another one at the end. -/
theorem slice?_enclosed {c d : Char} (one_byte : c.utf8Size = 1) (one_byte' : d.utf8Size = 1)
    (a inner : List Char) :
    slice? (a ++ c :: inner ++ [d]) (byteSize a + 1) (byteSize (a ++ c :: inner ++ [d]) - 1) =
      some inner := by
  refine slice?_eq_some_iff.mpr ⟨a ++ [c], [d], by simp, ?_, ?_⟩
  · simp [one_byte]
  · simp only [byteSize_append, byteSize_cons, byteSize_nil, one_byte, one_byte']
    omega

end EntityQuery.Text
