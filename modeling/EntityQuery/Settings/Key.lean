import EntityQuery.Decimal.Numeral
import EntityQuery.Text.Lowercase

/-! # Keys of settings

A source speaks of a setting under a key, in letters of either case. The key is the name of the
setting, or a path that starts with it and goes on to a member (`max_page_size.x`) or to an item
(`max_page_size[0]`). A text that is no path is the key of no setting. -/
namespace EntityQuery

/-- A step from a setting to one of its parts. -/
inductive KeyStep where
  | member (name : String)
  | item (position : Int64)
deriving DecidableEq

/-- The key under which a source speaks of a setting or of a part of it. -/
structure SettingKey where
  name : String
  steps : List KeyStep
deriving DecidableEq

namespace SettingKey

/-- The characters of names in a key, the blank being one of them. -/
def isNameChar (c : Char) : Bool := c.isAlphanum || c == ' ' || c == '_' || c == '-'

/-- A text without the blanks and tabs at its ends. -/
def trimGaps (s : List Char) : List Char :=
  let trimStart (s : List Char) := s.dropWhile fun c => c == ' ' || c == '\t'
  (trimStart (trimStart s).reverse).reverse

/-- The position between two brackets: digits, after `-` if it counts from the end. -/
def position? (inside : List Char) : Option Int64 :=
  match trimGaps inside with
  | '+' :: _ => none
  | digits => Decimal.integer? digits

/-- The steps that follow a name. -/
def steps? (s : List Char) : Option (List KeyStep) :=
  match s with
  | [] => some []
  | '.' :: r =>
    let name := r.takeWhile isNameChar
    if name.isEmpty then none
    else (steps? (r.dropWhile isNameChar)).map (.member (String.ofList name) :: ·)
  | '[' :: r =>
    let closed := r.dropWhile (· != ']')
    if closed.isEmpty then none
    else
      match position? (r.takeWhile (· != ']')) with
      | none => none
      | some position => (steps? closed.tail).map (.item position :: ·)
  | _ => none
termination_by s.length
decreasing_by
  · exact Nat.lt_succ_of_le (List.dropWhile_sublist isNameChar).length_le
  · have shorter := (List.dropWhile_sublist (· != ']') (l := r)).length_le
    simp only [List.length_cons, List.length_tail]
    omega

/-- Reads a key. -/
def read? (text : String) : Option SettingKey :=
  let s := Text.lowercase text.toList
  let name := s.takeWhile isNameChar
  if name.isEmpty then none
  else (steps? (s.dropWhile isNameChar)).map fun steps => ⟨String.ofList name, steps⟩

end SettingKey

end EntityQuery
