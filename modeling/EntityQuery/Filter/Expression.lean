import EntityQuery.Filter.Operator
import EntityQuery.Filter.Token

/-! # Expressions

A word of a filter is an expression `field`, `field:value` or `field::operator:value`. The
operator may begin with `not_` and end with `_prop`; the latter makes the value a path. A field, and
a value, may be a path inside a function. A value is a list between square brackets, a literal
between single quotes, a function, or else a path or a literal; what stands between double quotes
is always a literal. -/
namespace EntityQuery

/-- The value of an expression. -/
inductive RightSide where
  | literal (s : String)
  | list (items : List String)
  | path (path : String) (function : Option Aggregate)
deriving DecidableEq

/-- What a word of a filter says. -/
structure Expression where
  attr : String
  function : Option Aggregate
  operator : Operator
  negate : Bool
  /-- Whether the value is a path. -/
  propertyCompare : Bool
  right : RightSide
deriving DecidableEq

namespace Expression

/-- The mark between which a literal may stand. -/
def singleQuote : Char := '\x27'

/-- The parts of a word before any of them is looked into. -/
structure Parts where
  field : List Char
  operator : Option (List Char)
  value : Option (List Char)
deriving DecidableEq

/-- Cuts a word at the colons that stand before its first quotation. -/
def parts (w : Word) : Parts :=
  match Text.cut ':' w.bare with
  | none => ⟨w.text, none, none⟩
  | some (field, ':' :: rest) =>
    match Text.cut ':' rest with
    | some (operator, value) => ⟨field, some operator, some (value ++ w.tail)⟩
    | none => ⟨field, some (rest ++ w.tail), none⟩
  | some (field, value) => ⟨field, none, some (value ++ w.tail)⟩

/-- What stands between `start` and `stop`, if the text begins and ends with them. -/
def between? (start stop : Char) (s : List Char) : Option (List Char) :=
  (Text.dropStart? [start] s).bind (Text.dropEnd? [stop])

/-- Whether the character can stand in the name of a function. -/
def isNameChar (c : Char) : Bool := c.isAlphanum || c == '_'

/-- The name and the argument of a function, if the text is of that form. -/
def functionParts? (s : List Char) : Option (List Char × List Char) :=
  match Text.cut '\x7b' s with
  | some (name, rest) =>
    match Text.dropEnd? ['\x7d'] rest with
    | some inner =>
      if !name.isEmpty && name.all isNameChar && !inner.contains '\n' then some (name, inner)
      else none
    | none => none
  | none => none

/-- The function and its argument, if the text is of that form. -/
def function? (s : List Char) : Except Error (Option (Aggregate × String)) :=
  match functionParts? s with
  | none => .ok none
  | some (name, inner) =>
    match Aggregate.ofName? (String.ofList name) with
    | some f => .ok (some (f, String.ofList inner))
    | none => .error (.unknownFunction (String.ofList name))

/-- The items of a list: the pieces between the commas that stand outside single quotes. -/
def pieces (quoted : Bool) : List Char → List (List Char)
  | [] => [[]]
  | c :: s =>
    if c = ',' && !quoted then [] :: pieces quoted s
    else
      match pieces (if c = singleQuote then !quoted else quoted) s with
      | [] => [[c]]
      | first :: rest => (c :: first) :: rest

/-- An item without the blanks and the single quotes around it. -/
def listItem (s : List Char) : List Char :=
  let s := Text.trim s
  (between? singleQuote singleQuote s).getD s

/-- The items of the list whose brackets enclose `inner`; nothing but blanks is no item. -/
def listItems (inner : List Char) : List String :=
  let items := (pieces false inner).map listItem
  if items = [[]] ∧ singleQuote ∉ inner then [] else items.map String.ofList

/-- An operator with its marks. -/
structure OperatorSpec where
  operator : Operator
  negate : Bool
  property : Bool
deriving DecidableEq

/-- Equality, which is meant where no operator is written. -/
def OperatorSpec.default : OperatorSpec := ⟨.eq, false, false⟩

/-- Reads an operator with its marks. -/
def operatorSpec (spec : List Char) : Except Error OperatorSpec :=
  let (negate, name) :=
    match Text.dropStart? "not_".toList spec with
    | some rest => (true, rest)
    | none => (false, spec)
  let (property, name) :=
    match Text.dropEnd? "_prop".toList name with
    | some rest => (true, rest)
    | none => (false, name)
  match Operator.ofName? (String.ofList name) with
  | some operator => .ok ⟨operator, negate, property⟩
  | none => .error (.unknownOperator (.unknown (String.ofList spec)))

/-- Reads a value that is not quoted; in a comparison of properties it is a path. -/
def bareValue (property : Bool) (raw : List Char) : Except Error RightSide := do
  match between? '[' ']' raw with
  | some inner => return .list (listItems inner)
  | none =>
    match between? singleQuote singleQuote raw with
    | some literal => return .literal (String.ofList literal)
    | none =>
      match ← function? raw with
      | some (f, path) => return .path path (some f)
      | none =>
        if property then return .path (String.ofList raw) none
        else return .literal (String.ofList raw)

/-- Reads the value of a word; the truth where there is none. -/
def rightSide (w : Word) (property : Bool) : Option (List Char) → Except Error RightSide
  | none => .ok (.literal "true")
  | some raw =>
    if w.quoted.isSome then .ok (.literal (String.ofList raw)) else bareValue property raw

/-- Whether the right side applies a function. -/
def appliesFunction : RightSide → Bool
  | .path _ (some _) => true
  | _ => false

/-- Whether either side applies a function. -/
def isAggregate (e : Expression) : Bool := e.function.isSome || appliesFunction e.right

/-- Reads a word as an expression. -/
def parse (w : Word) : Except Error Expression := do
  let p := parts w
  if p.field.isEmpty then throw (.invalidPath (.malformed (String.ofList w.text)))
  let spec ← match p.operator with
    | none => pure OperatorSpec.default
    | some spec => operatorSpec spec
  let left ← function? p.field
  let right ← rightSide w spec.property p.value
  return {
    attr := (left.map (·.2)).getD (String.ofList p.field)
    function := left.map (·.1)
    operator := spec.operator
    negate := spec.negate
    propertyCompare := spec.property || appliesFunction right
    right := right }

end Expression

end EntityQuery
