import EntityQuery.Text.Cut
import EntityQuery.Text.Utf8

/-! # Percent-encoded parameters

A parameter string is a list of `name=value` pairs between `&` signs. In names and values a percent
sign with two hexadecimal digits after it stands for a byte, and any other percent sign for itself.
The bytes that result must be UTF-8. -/
namespace EntityQuery.Text

/-- The bytes that a percent-encoded text stands for. -/
def percentBytes : List Char → List UInt8
  | '%' :: a :: b :: s =>
    match hexValue? a, hexValue? b with
    | some high, some low => UInt8.ofNat (16 * high + low) :: percentBytes s
    | _, _ => 0x25 :: percentBytes (a :: b :: s)
  | c :: s => String.utf8EncodeChar c ++ percentBytes s
  | [] => []

/-- The text that a percent-encoded text stands for. -/
def percentDecode (s : List Char) : Except Utf8Fault String := decodeUtf8 (percentBytes s)

/-- A pair of a parameter string; without an equals sign the value is empty. -/
def parameter (pair : List Char) : Except Utf8Fault (String × String) := do
  let (name, value) := (cut '=' pair).getD (pair, [])
  return (← percentDecode name, ← percentDecode value)

/-- A pair of a parameter string that is not text once it is decoded. -/
structure ParameterFault where
  pair : String
  fault : Utf8Fault
deriving DecidableEq

/-- The pairs of a parameter string; empty parts are left out. -/
def parameters (s : String) : Except ParameterFault (List (String × String)) :=
  ((s.toList.splitOn '&').filter (!·.isEmpty)).mapM fun pair =>
    (parameter pair).mapError (⟨String.ofList pair, ·⟩)

end EntityQuery.Text
