import EntityQuery.Directory

/-! # TOML documents

A document is a table. Tables are written in several ways, and the way decides what may still be
added: a table in braces is complete, a table under a header is written once, a table that only
leads to others can get its header later, and a table made by a dotted key grows by dotted keys.
`put`, `openTable` and `openItem` add to a table and fail where the rules forbid it. -/
namespace EntityQuery

/-- How a table came into a document. -/
inductive Toml.Origin where
  /-- Written in braces. -/
  | inline
  /-- Written under a header of its own. -/
  | header
  /-- On the way to the table of a header. -/
  | implicit
  /-- On the way to the last part of a dotted key. -/
  | dotted
deriving DecidableEq

/-- A value of a document. Dates and times are texts. -/
inductive Toml where
  | text (s : String)
  | int (n : Int)
  | float (f : Float)
  | bool (b : Bool)
  | list (items : List Toml)
  | table (origin : Toml.Origin) (members : List (String × Toml))
  /-- Tables under a header in double brackets, one for each time it is written. -/
  | tables (items : List (List (String × Toml)))

namespace Toml

/-- The members of a table in the order they were written. -/
abbrev Table := Directory Toml

/-- Changes the table to which a path leads, making the tables that are not there. A path of a
dotted key does not enter tables with a header of their own. -/
def descend (dotted : Bool) (change : Origin → Table → Option Table) (origin : Origin) :
    List String → Table → Option Table
  | [], t => change origin t
  | key :: path, t =>
    match t.at? key with
    | none => do
      let origin := if dotted then .dotted else .implicit
      return t.put key (table origin (← descend dotted change origin path []))
    | some (table origin sub) =>
      if origin = .inline || (dotted && origin = .header) then none
      else do return t.put key (table origin (← descend dotted change origin path sub))
    | some (tables items) => do
      let last ← descend dotted change .header path (← items.getLast?)
      return t.put key (tables (items.dropLast ++ [last]))
    | some _ => none

/-- Gives a key that is not there its value; the path is that of a dotted key before its last part.
-/
def put (path : List String) (key : String) (value : Toml) (t : Table) : Option Table :=
  let add (origin : Origin) (t : Table) : Option Table :=
    if (path.isEmpty || origin = .dotted) && (t.at? key).isNone then some (t.put key value)
    else none
  descend true add .header path t

/-- Makes the table of a header. -/
def openTable (path : List String) (key : String) (t : Table) : Option Table :=
  let make (_ : Origin) (t : Table) : Option Table :=
    match t.at? key with
    | none => some (t.put key (table .header []))
    | some (table .implicit sub) => some (t.put key (table .header sub))
    | some _ => none
  descend false make .header path t

/-- Makes one more table of a header in double brackets. -/
def openItem (path : List String) (key : String) (t : Table) : Option Table :=
  let make (_ : Origin) (t : Table) : Option Table :=
    match t.at? key with
    | none => some (t.put key (tables [[]]))
    | some (tables items) => some (t.put key (tables (items ++ [[]])))
    | some _ => none
  descend false make .header path t

/-- Gives a key its value in the table of a header. -/
def putUnder (header path : List String) (key : String) (value : Toml) (t : Table) :
    Option Table :=
  descend false (fun _ t => put path key value t) .header header t

end Toml

end EntityQuery
