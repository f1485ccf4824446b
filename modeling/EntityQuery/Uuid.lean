/-! # Universally unique identifiers

A UUID is thirty-two hexadecimal digits. It is written in lower case in groups of 8, 4, 4, 4 and 12
digits with hyphens between, and read in either case: in these groups, also in braces or after
`urn:uuid:`, or as thirty-two digits in a row. -/
namespace EntityQuery

/-- Thirty-two hexadecimal digits. -/
structure Uuid where
  digits : List (Fin 16)
  length_digits : digits.length = 32
deriving DecidableEq

namespace Uuid

/-- The order of the digits, first digit first. -/
instance : Ord Uuid where
  compare a b := compare a.digits b.digits

/-- A digit in lower case. -/
def digitChar (d : Fin 16) : Char := Nat.digitChar d.val

/-- The value of a digit in either case. -/
def digit? (c : Char) : Option (Fin 16) :=
  if c.isDigit then some (Fin.ofNat 16 (c.toNat - '0'.toNat))
  else
    let l := c.toLower
    if 'a' ≤ l && l ≤ 'f' then some (Fin.ofNat 16 (l.toNat - 'a'.toNat + 10)) else none

/-- The written form. -/
def text (u : Uuid) : List Char :=
  let s := u.digits.map digitChar
  s.take 8 ++ '-' :: (s.drop 8).take 4 ++ '-' :: (s.drop 12).take 4 ++ '-' :: (s.drop 16).take 4 ++
    '-' :: s.drop 20

/-- The UUID of thirty-two digits in a row. -/
def ofDigits? (s : List Char) : Option Uuid :=
  match s.mapM digit? with
  | some digits => if h : digits.length = 32 then some ⟨digits, h⟩ else none
  | none => none

/-- The UUID in its five groups. -/
def ofGroups? (s : List Char) : Option Uuid :=
  if s.length = 36 ∧ s[8]? = some '-' ∧ s[13]? = some '-' ∧ s[18]? = some '-' ∧ s[23]? = some '-'
  then
    ofDigits? (s.take 8 ++ (s.drop 9).take 4 ++ (s.drop 14).take 4 ++ (s.drop 19).take 4 ++
      s.drop 24)
  else none

/-- Reads a whole text. -/
def read? (s : List Char) : Option Uuid :=
  let inBraces : Option (List Char) := match s with
    | '{' :: r => if r.getLast? = some '}' then some r.dropLast else none
    | _ => none
  let named : Option (List Char) :=
    if (s.take 9).map Char.toLower = ['u', 'r', 'n', ':', 'u', 'u', 'i', 'd', ':'] then
      some (s.drop 9)
    else none
  ofDigits? s <|> ofGroups? s <|> inBraces.bind ofGroups? <|> named.bind ofGroups?

end Uuid

end EntityQuery
