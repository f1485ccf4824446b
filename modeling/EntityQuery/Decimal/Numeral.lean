/-! # Decimal numerals

Whole numbers are written in decimal digits, possibly after a sign. A reading fails on any other
character, on a numeral without digits and on a number outside the range asked for. -/
namespace EntityQuery.Decimal

/-- The number written by a non-empty run of ASCII digits. -/
def digits? (s : List Char) : Option Nat :=
  if s.isEmpty || !s.all Char.isDigit then none else some (Nat.ofDigitChars 10 s 0)

/-- The integers that 64 bits with a sign can hold. -/
def IsInt64 (n : Int) : Prop := -0x8000000000000000 ≤ n ∧ n < 0x8000000000000000

instance (n : Int) : Decidable (IsInt64 n) := inferInstanceAs (Decidable (_ ∧ _))

/-- Reads digits, possibly after `+`, as a number below 2⁶⁴. -/
def natural? (s : List Char) : Option Nat :=
  (digits? (match s with | '+' :: r => r | _ => s)).filter (· < UInt64.size)

/-- Reads digits, possibly after `+` or `-`, as a 64-bit signed integer. -/
def integer? (s : List Char) : Option Int64 :=
  let number : Option Int := match s with
    | '-' :: r => (digits? r).map fun n => -(n : Int)
    | '+' :: r => (digits? r).map fun n => (n : Int)
    | _ => (digits? s).map fun n => (n : Int)
  (number.filter fun n => IsInt64 n).map Int64.ofInt

/-- The digits of a number. -/
def text (n : Nat) : List Char := Nat.toDigits 10 n

/-- The digits of a number, with zeros in front up to the given width. -/
def padded (width n : Nat) : List Char :=
  List.replicate (width - (text n).length) '0' ++ text n

/-- The digits of an integer, after `-` if it is negative. -/
def signedText : Int → List Char
  | .ofNat n => text n
  | .negSucc n => '-' :: text (n + 1)

theorem digits?_eq_some {s : List Char} (ne : s ≠ []) (all : ∀ c ∈ s, c.isDigit = true) :
    digits? s = some (Nat.ofDigitChars 10 s 0) := by
  rw [digits?, if_neg]
  simpa [ne] using all

theorem isDigit_of_mem_text {c : Char} {n : Nat} (h : c ∈ text n) : c.isDigit = true :=
  Nat.isDigit_of_mem_toDigits (by decide) (by decide) h

theorem isDigit_of_mem_padded {c : Char} {width n : Nat} (h : c ∈ padded width n) :
    c.isDigit = true := by
  rcases List.mem_append.mp h with h | h
  · rw [List.eq_of_mem_replicate h]
    rfl
  · exact isDigit_of_mem_text h

theorem digits?_text (n : Nat) : digits? (text n) = some n := by
  rw [digits?_eq_some (by simp [text]) fun _ => isDigit_of_mem_text]
  simp [text]

theorem digits?_padded (width n : Nat) : digits? (padded width n) = some n := by
  rw [digits?_eq_some (by simp [padded, text]) fun _ => isDigit_of_mem_padded]
  simp [padded, text, Nat.ofDigitChars_append, Nat.ofDigitChars_replicate_zero]

end EntityQuery.Decimal
