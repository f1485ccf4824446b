import EntityQuery.Text.Character
import Mathlib.Data.List.Basic
import Mathlib.Data.List.TakeWhile

/-!
# Blanks around a text

**Trimming takes away the blanks around a text and nothing else** (`trim_append`), and a text is
what trimming leaves of it with blanks around (`exists_blanks_around`). `Bare` texts neither start
nor end with a blank, `Solid` ones have none at all; letters and digits are no blanks
(`isBlank_of_isAlphanumeric`), so a text of them is left as it stands (`Solid.trim_eq`).
-/

namespace EntityQuery.Text

/-- There are only blanks in the text. -/
def Blanks (s : List Char) : Prop := ∀ c ∈ s, isBlank c = true

theorem blanks_nil : Blanks [] := List.forall_mem_nil _

/-- The text neither starts nor ends with a blank, and is not empty. -/
def Bare (s : List Char) : Prop :=
  s ≠ [] ∧ (∀ c ∈ s.head?, isBlank c = false) ∧ ∀ c ∈ s.getLast?, isBlank c = false

theorem bare_singleton {c : Char} (h : isBlank c = false) : Bare [c] := by
  simpa [Bare] using h

theorem Bare.between {s t : List Char} (hs : Bare s) (m : List Char) (ht : Bare t) :
    Bare (s ++ m ++ t) := by
  obtain ⟨ne, first, _⟩ := hs
  obtain ⟨ne', _, last⟩ := ht
  refine ⟨by simp [ne], ?_, ?_⟩
  · rwa [List.append_assoc, List.head?_append_of_ne_nil _ ne]
  · rwa [List.getLast?_append_of_ne_nil _ ne']

theorem trimStart_append {a s : List Char} (ha : Blanks a)
    (hs : ∀ c ∈ s.head?, isBlank c = false) : trimStart (a ++ s) = s := by
  rw [trimStart, List.dropWhile_append_of_pos ha]
  cases s with
  | nil => rfl
  | cons c s => rw [List.dropWhile_cons_of_neg (by simpa using hs c rfl)]

/-- Trimming takes away the blanks around a text. -/
theorem trim_append {a s b : List Char} (ha : Blanks a) (hs : Bare s) (hb : Blanks b) :
    trim (a ++ s ++ b) = s := by
  obtain ⟨ne, first, last⟩ := hs
  have start : trimStart (a ++ (s ++ b)) = s ++ b := by
    refine trimStart_append ha ?_
    rwa [List.head?_append_of_ne_nil _ ne]
  have stop : trimStart (b.reverse ++ s.reverse) = s.reverse := by
    refine trimStart_append (fun c hc => hb c (List.mem_reverse.mp hc)) ?_
    rwa [List.head?_reverse]
  rw [trim, List.append_assoc, start, trimEnd, List.reverse_append, stop, List.reverse_reverse]

theorem trim_of_blanks {s : List Char} (h : Blanks s) : trim s = [] := by
  have start := trimStart_append (s := []) h (by simp)
  rw [List.append_nil] at start
  rw [trim, start]
  rfl

/-- There are no blanks in the text. -/
def Solid (s : List Char) : Prop := ∀ c ∈ s, isBlank c = false

instance (s : List Char) : Decidable (Solid s) :=
  List.decidableBAll (isBlank · = false) s

section Solid

variable {c : Char} {s t : List Char}

@[simp] theorem solid_nil : Solid [] := List.forall_mem_nil _

@[simp] theorem solid_cons : Solid (c :: s) ↔ isBlank c = false ∧ Solid s := List.forall_mem_cons

@[simp] theorem solid_append : Solid (s ++ t) ↔ Solid s ∧ Solid t := List.forall_mem_append

theorem Solid.bare (h : Solid s) (ne : s ≠ []) : Bare s :=
  ⟨ne, fun c hc => h c (List.mem_of_mem_head? hc), fun c hc => h c (List.mem_of_mem_getLast? hc)⟩

/-- Trimming leaves a text without blanks as it stands. -/
theorem Solid.trim_eq (h : Solid s) : trim s = s := by
  by_cases ne : s = []
  · rw [ne, trim_nil]
  · simpa using trim_append blanks_nil (h.bare ne) blanks_nil

end Solid

/-- A text is what trimming leaves of it, with blanks around it. -/
theorem exists_blanks_around (s : List Char) :
    ∃ a b, s = a ++ trim s ++ b ∧ Blanks a ∧ Blanks b := by
  have blank (s : List Char) : Blanks (s.takeWhile isBlank) := fun _ => List.mem_takeWhile_imp
  refine ⟨s.takeWhile isBlank, ((trimStart s).reverse.takeWhile isBlank).reverse, ?_, blank s, ?_⟩
  · have stop : trim s ++ ((trimStart s).reverse.takeWhile isBlank).reverse = trimStart s := by
      rw [trim, trimEnd, ← List.reverse_append]
      exact List.reverse_eq_iff.mpr List.takeWhile_append_dropWhile
    rw [List.append_assoc, stop]
    exact List.takeWhile_append_dropWhile.symm
  · exact fun c hc => blank _ c (List.mem_reverse.mp hc)

theorem toNat_of_isAlphanum {c : Char} (h : c.isAlphanum = true) :
    0x30 ≤ c.toNat ∧ c.toNat < 0x7b := by
  have within (low high : Char) (h : (low.val ≤ c.val && c.val ≤ high.val) = true) :
      low.toNat ≤ c.toNat ∧ c.toNat ≤ high.toNat :=
    (Bool.and_eq_true_iff.mp h).imp of_decide_eq_true of_decide_eq_true
  have codes : '0'.toNat = 0x30 ∧ '9'.toNat = 0x39 ∧ 'A'.toNat = 0x41 ∧ 'Z'.toNat = 0x5a ∧
      'a'.toNat = 0x61 ∧ 'z'.toNat = 0x7a := by decide
  rcases Bool.or_eq_true_iff.mp h with letter | digit
  · rcases Bool.or_eq_true_iff.mp letter with upper | lower
    · have : 'A'.toNat ≤ c.toNat ∧ c.toNat ≤ 'Z'.toNat := of_decide_eq_true upper
      omega
    · have := within 'a' 'z' lower
      omega
  · have := within '0' '9' digit
    omega

/-- No letter or digit is a blank. -/
theorem isBlank_of_isAlphanumeric {c : Char} (h : isAlphanumeric c = true) :
    isBlank c = false := by
  have apart : ∀ r ∈ alphanumericRanges, ∀ b ∈ blankRanges, r.2 < b.1 ∨ b.2 < r.1 := by
    decide +kernel
  have above : ∀ b ∈ blankRanges, b.2 < 0x30 ∨ 0x7b ≤ b.1 := by decide
  rw [Bool.eq_false_iff]
  intro blank
  obtain ⟨b, hb, low, high⟩ := inRanges_iff.mp blank
  rcases Bool.or_eq_true_iff.mp h with h | h
  · have := toNat_of_isAlphanum h
    have := above b hb
    omega
  · obtain ⟨r, hr, low', high'⟩ := inRanges_iff.mp (Bool.and_eq_true_iff.mp h).2
    have := apart r hr b hb
    omega

theorem isBlank_of_isDigit {c : Char} (h : c.isDigit = true) : isBlank c = false :=
  isBlank_of_isAlphanumeric (isAlphanumeric_of_isAlphanum (by simp [Char.isAlphanum, h]))

theorem solid_of_isDigit {s : List Char} (h : ∀ c ∈ s, c.isDigit = true) : Solid s :=
  fun c hc => isBlank_of_isDigit (h c hc)

end EntityQuery.Text
