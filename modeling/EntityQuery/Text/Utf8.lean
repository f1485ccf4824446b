/-! # UTF-8

Bytes that come from outside are read as text character by character. The first byte of a character
tells how many bytes follow and bounds the one next, which keeps out overlong forms, surrogates and
numbers beyond the last character. A reading that fails says where the text ends and how many bytes
after that are at fault. -/
namespace EntityQuery.Text

/-- Where bytes cease to be text. -/
structure Utf8Fault where
  /-- How many bytes are text. -/
  index : Nat
  /-- How many bytes after them begin no character; `none` if the bytes end inside a character. -/
  length : Option Nat
deriving DecidableEq

/-- The text of a fault. -/
def Utf8Fault.message : Utf8Fault → String
  | ⟨index, some length⟩ => s!"invalid utf-8 sequence of {length} bytes from index {index}"
  | ⟨index, none⟩ => s!"incomplete utf-8 byte sequence from index {index}"

/-- A character of which some bytes are still to come. -/
structure PartialChar where
  /-- The number that the bytes so far write. -/
  value : Nat
  /-- How many bytes were read. -/
  read : Nat
  /-- How many bytes follow the next one. -/
  owed : Nat
  /-- The least that the next byte can be. -/
  low : Nat
  /-- The most that the next byte can be. -/
  high : Nat

/-- What the first byte of a character of two, three or four bytes begins. -/
def PartialChar.ofFirst? (b : Nat) : Option PartialChar :=
  if 0xC2 ≤ b && b ≤ 0xDF then some ⟨b - 0xC0, 1, 0, 0x80, 0xBF⟩
  else if b == 0xE0 then some ⟨0, 1, 1, 0xA0, 0xBF⟩
  else if b == 0xED then some ⟨b - 0xE0, 1, 1, 0x80, 0x9F⟩
  else if 0xE1 ≤ b && b ≤ 0xEF then some ⟨b - 0xE0, 1, 1, 0x80, 0xBF⟩
  else if b == 0xF0 then some ⟨0, 1, 2, 0x90, 0xBF⟩
  else if 0xF1 ≤ b && b ≤ 0xF3 then some ⟨b - 0xF0, 1, 2, 0x80, 0xBF⟩
  else if b == 0xF4 then some ⟨b - 0xF0, 1, 2, 0x80, 0x8F⟩
  else none

/-- The text of bytes that follow `index` bytes and perhaps the first bytes of a character. -/
def decodeAfter (index : Nat) : Option PartialChar → List UInt8 → Except Utf8Fault (List Char)
  | none, [] => .ok []
  | some _, [] => .error ⟨index, none⟩
  | none, b :: bytes =>
    if b.toNat < 0x80 then (decodeAfter (index + 1) none bytes).map (Char.ofNat b.toNat :: ·)
    else
      match PartialChar.ofFirst? b.toNat with
      | some begun => decodeAfter index (some begun) bytes
      | none => .error ⟨index, some 1⟩
  | some p, b :: bytes =>
    if p.low ≤ b.toNat && b.toNat ≤ p.high then
      let value := 64 * p.value + b.toNat % 64
      match p.owed with
      | 0 => (decodeAfter (index + p.read + 1) none bytes).map (Char.ofNat value :: ·)
      | owed + 1 => decodeAfter index (some ⟨value, p.read + 1, owed, 0x80, 0xBF⟩) bytes
    else .error ⟨index, some p.read⟩

/-- The text that bytes are. -/
def decodeUtf8 (bytes : List UInt8) : Except Utf8Fault String :=
  (decodeAfter 0 none bytes).map String.ofList

end EntityQuery.Text
