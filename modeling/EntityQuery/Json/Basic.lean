import EntityQuery.Decimal.FloatText

/-! # JSON values and their text

Schema documents come as JSON, and everything that the library reports leaves as JSON. An object
keeps its members in the order they were given, repetitions included; `Json.render` writes them in
the order of their names. -/
namespace EntityQuery

/-- A JSON value. -/
inductive Json where
  | null
  | bool (b : Bool)
  | int (n : Int)
  | float (f : Float)
  | text (s : String)
  | list (items : List Json)
  | object (members : List (String × Json))

namespace Json

instance : Inhabited Json := ⟨null⟩

/-- Null, or the JSON of what is there. -/
def ofOption {α : Type} (encode : α → Json) : Option α → Json
  | some a => encode a
  | none => null

/-- A list of texts. -/
def texts (l : List String) : Json := list (l.map text)

/-- A natural number. -/
def nat (n : Nat) : Json := int n

/-- Two hexadecimal digits after `\u00`. -/
def escapeControl (c : Char) : List Char :=
  ['\\', 'u', '0', '0', Nat.digitChar (c.toNat / 16), Nat.digitChar (c.toNat % 16)]

/-- A character inside a JSON string. -/
def escapeChar (c : Char) : List Char :=
  match c with
  | '"' => ['\\', '"']
  | '\\' => ['\\', '\\']
  | '\x08' => ['\\', 'b']
  | '\x0c' => ['\\', 'f']
  | '\n' => ['\\', 'n']
  | '\r' => ['\\', 'r']
  | '\t' => ['\\', 't']
  | c => if c.toNat < 0x20 then escapeControl c else [c]

/-- A JSON string. -/
def quoted (s : String) : String := String.ofList ('"' :: s.toList.flatMap escapeChar ++ ['"'])

/-- A line break and the indentation of a nesting depth. -/
def newline (depth : Nat) : String := String.ofList ('\n' :: List.replicate (2 * depth) ' ')

/-- Items between an opening and a closing bracket, one a line. -/
def bracketed (opener closer : String) (depth : Nat) (items : List String) : String :=
  if items.isEmpty then opener ++ closer
  else
    opener ++ newline (depth + 1) ++ String.intercalate ("," ++ newline (depth + 1)) items ++
      newline depth ++ closer

mutual

/-- The text of a value at a nesting depth. -/
def renderAt (depth : Nat) : Json → String
  | null => "null"
  | bool b => if b then "true" else "false"
  | int n => String.ofList (Decimal.signedText n)
  | float f => if f.isFinite then String.ofList (Decimal.floatText .exact f) else "null"
  | text s => quoted s
  | list items => bracketed "[" "]" depth (renderItems (depth + 1) items)
  | object members =>
    let lines := (renderMembers (depth + 1) members).mergeSort fun a b => a.1 ≤ b.1
    bracketed "\x7b" "\x7d" depth (lines.map fun p => p.2)

/-- The texts of the items of a list. -/
def renderItems (depth : Nat) : List Json → List String
  | [] => []
  | item :: rest => renderAt depth item :: renderItems depth rest

/-- The texts of the members of an object, each with its name. -/
def renderMembers (depth : Nat) : List (String × Json) → List (String × String)
  | [] => []
  | (name, value) :: rest =>
    (name, quoted name ++ ": " ++ renderAt depth value) :: renderMembers depth rest

end

/-- The text of a value, one member or item a line. -/
def render (j : Json) : String := renderAt 0 j

end Json

end EntityQuery
