import EntityQuery.Json.Basic
import EntityQuery.Schema.Basic
import EntityQuery.Text.Character
import EntityQuery.Text.Cut

/-! # Sort orders

A sort order is a list of fields, each with a direction. In a page request it is written
`field:direction`, or `field` for ascending and `-field` for descending, with commas between the
entries; entries of blanks do not count. Resolved against an entity, the fields are scalar
attributes. -/
namespace EntityQuery

/-- A direction of sorting. -/
inductive Direction where
  | ascending
  | descending
deriving DecidableEq, Repr

namespace Direction

/-- The direction of this name, in any case of letters. -/
def ofName? (name : List Char) : Option Direction :=
  let lower := Text.asciiLower name
  if lower = "asc".toList then some ascending
  else if lower = "desc".toList then some descending
  else none

/-- The name of the direction. -/
def name : Direction → String
  | ascending => "asc"
  | descending => "desc"

/-- The name of the direction in a statement. -/
def keyword : Direction → String
  | ascending => "ASC"
  | descending => "DESC"

@[simp] theorem ofName?_name (d : Direction) : ofName? d.name.toList = some d := by
  cases d <;> decide

end Direction

/-- A field to sort by. -/
structure SortKey where
  field : String
  direction : Direction
deriving DecidableEq, Repr

/-- A scalar attribute to sort by. -/
structure OrderKey where
  attr : String
  column : String
  direction : Direction
deriving DecidableEq, Repr

namespace SortKey

/-- Reads an entry that is not blank; `raw` is the entry with the blanks around it. -/
def parseEntry (raw entry : List Char) : Except Error SortKey := do
  let (given, entry) :=
    match Text.dropStart? ['-'] entry with
    | some rest => (Direction.descending, rest)
    | none => (Direction.ascending, entry)
  let (direction, field) ←
    match Text.cut ':' entry with
    | none => pure (given, entry)
    | some (field, name) =>
      match Direction.ofName? (Text.trim name) with
      | some direction => pure (direction, Text.trim field)
      | none => throw (.invalidPager (.invalidDirection (String.ofList raw)))
  if field.isEmpty then throw (.invalidPager (.emptySortField (String.ofList raw)))
  return ⟨String.ofList field, direction⟩

/-- Reads a list of entries, leaving out those of blanks. -/
def parseEntries : List (List Char) → Except Error (List SortKey)
  | [] => .ok []
  | raw :: rest =>
    let entry := Text.trim raw
    if entry.isEmpty then parseEntries rest
    else do
      let key ← parseEntry raw entry
      return key :: (← parseEntries rest)

/-- Reads a sort order. -/
def parse (text : String) : Except Error (List SortKey) :=
  parseEntries (text.toList.splitOn ',')

/-- The attribute of `entity` by which the key sorts. -/
def resolve (s : Schema) (entity : String) (key : SortKey) : Except Error OrderKey := do
  let a ← s.attributeOf entity key.field
  match a.scalarType? with
  | some _ => return ⟨a.name, a.column, key.direction⟩
  | none => throw (.invalidPath (.unsortable entity key.field))

/-- The JSON form of a sort key. -/
def json (k : SortKey) : Json :=
  .object [("field", .text k.field), ("direction", .text k.direction.name)]

end SortKey

/-- The attributes of `entity` by which the keys sort. -/
def Schema.resolveOrder (s : Schema) (entity : String) (keys : List SortKey) :
    Except Error (List OrderKey) :=
  keys.mapM (SortKey.resolve s entity)

/-- The JSON form of an order key. -/
def OrderKey.json (k : OrderKey) : Json :=
  .object [("attribute", .text k.attr), ("column", .text k.column),
    ("direction", .text k.direction.name)]

end EntityQuery
