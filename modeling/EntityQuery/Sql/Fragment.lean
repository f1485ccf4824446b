import EntityQuery.Path
import EntityQuery.Sql.Bind

/-! # Fragments of statements

A statement is put together from pieces of text and from values that are sent beside it. In the text
a value is a placeholder `$n`, numbered from one in the order of the pieces. A value can also be
sent without standing anywhere in the text. -/
namespace EntityQuery.Sql

/-- A piece of a statement. -/
inductive Piece where
  | text (s : String)
  | placeholder (b : Bind)
  /-- A value that takes a number but does not stand in the text. -/
  | unused (b : Bind)

/-- A sequence of pieces. -/
abbrev Fragment := List Piece

/-- The value of a piece. -/
def Piece.bind? : Piece → Option Bind
  | text _ => none
  | placeholder b | unused b => some b

/-- The piece without its place in the text. -/
def Piece.hidden : Piece → Option Piece
  | text _ => none
  | placeholder b | unused b => some (unused b)

namespace Fragment

/-- The values, in the order of their numbers. -/
def binds (f : Fragment) : List Bind := f.filterMap Piece.bind?

/-- The text where `used` numbers have been given before. -/
def textFrom (used : Nat) : Fragment → String
  | [] => ""
  | .text s :: rest => s ++ textFrom used rest
  | .placeholder _ :: rest =>
    "$" ++ String.ofList (Decimal.text (used + 1)) ++ textFrom (used + 1) rest
  | .unused _ :: rest => textFrom (used + 1) rest

/-- The text of a statement. -/
def text (f : Fragment) : String := textFrom 0 f

/-- The values of a fragment without its text. -/
def hidden (f : Fragment) : Fragment := f.filterMap Piece.hidden

/-- Fragments with a text between them. -/
def joined (separator : String) : List Fragment → Fragment
  | [] => []
  | [f] => f
  | f :: rest => f ++ .text separator :: joined separator rest

@[simp] theorem binds_nil : binds [] = [] := rfl

@[simp] theorem binds_text (s : String) (f : Fragment) : binds (.text s :: f) = binds f := rfl

@[simp] theorem binds_placeholder (b : Bind) (f : Fragment) :
    binds (.placeholder b :: f) = b :: binds f := rfl

@[simp] theorem binds_unused (b : Bind) (f : Fragment) :
    binds (.unused b :: f) = b :: binds f := rfl

@[simp] theorem binds_append (f g : Fragment) : binds (f ++ g) = binds f ++ binds g := by
  simp [binds]

theorem textFrom_append (f g : Fragment) (used : Nat) :
    textFrom used (f ++ g) = textFrom used f ++ textFrom (used + (binds f).length) g := by
  induction f generalizing used with
  | nil => simp [textFrom]
  | cons p f ih =>
    cases p <;> simp [textFrom, ih, String.append_assoc, Nat.add_assoc, Nat.add_comm 1]

end Fragment

/-- A name between double quotes; quotes in the name are doubled. -/
def quoteName (name : String) : String :=
  String.ofList ('"' :: name.toList.flatMap (fun c => if c = '"' then ['"', '"'] else [c]) ++ ['"'])

/-- What a row is called in a statement. -/
inductive Alias where
  | root
  | join (id : Nat)
  /-- The row between a join and its parent. -/
  | between (id : Nat)
  /-- The row between related records and their owners. -/
  | link
deriving DecidableEq, Repr

/-- The text of an alias. -/
def Alias.text : Alias → String
  | root => "r"
  | join id => "j" ++ String.ofList (Decimal.text id)
  | between id => "l" ++ String.ofList (Decimal.text id)
  | link => "l"

/-- What the row of a source is called. -/
def Alias.ofSource : Source → Alias
  | .root => root
  | .join id => join id

/-- A column of a row. -/
structure ColumnRef where
  row : Alias
  column : String
deriving DecidableEq, Repr

/-- The text of a column. -/
def ColumnRef.text (c : ColumnRef) : String := c.row.text ++ "." ++ quoteName c.column

end EntityQuery.Sql
