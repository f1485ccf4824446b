import EntityQuery.Json.Source

/-! # Reading JSON

A text is read as exactly one JSON value with blanks around it, by the grammar of the format: no
trailing commas, no leading zeros, and no bare control characters in strings. -/
namespace EntityQuery.Json

/-- The text without the blanks that JSON allows between its parts. -/
def skipBlanks (s : List Char) : List Char :=
  s.dropWhile fun c => c == ' ' || c == '\n' || c == '\t' || c == '\r'

/-- What follows the word, if the text begins with it. -/
def keyword (word : String) (value : Source) (s : List Char) : Option (Source × List Char) :=
  (word.toList.isPrefixOf? s).map fun rest => (value, rest)

/-- The digits at the start of a text, at least one, and what follows them. -/
def digitRun (s : List Char) : Option (List Char × List Char) :=
  let digits := s.takeWhile Char.isDigit
  if digits.isEmpty then none else some (digits, s.drop digits.length)

/-- The fraction of a number, point included, or nothing. -/
def fraction : List Char → Option (List Char × List Char)
  | '.' :: s => (digitRun s).map fun p => ('.' :: p.1, p.2)
  | s => some ([], s)

/-- The exponent of a number, or nothing. -/
def exponent : List Char → Option (List Char × List Char)
  | c :: s =>
    if c == 'e' || c == 'E' then
      match s with
      | '+' :: r => (digitRun r).map fun p => ('e' :: p.1, p.2)
      | '-' :: r => (digitRun r).map fun p => ('e' :: '-' :: p.1, p.2)
      | r => (digitRun r).map fun p => ('e' :: p.1, p.2)
    else some ([], c :: s)
  | [] => some ([], [])

/-- A number at the start of a text. -/
def number (s : List Char) : Option (List Char × List Char) := do
  let (sign, s) := match s with
    | '-' :: r => (['-'], r)
    | r => ([], r)
  let (whole, s) ← digitRun s
  if whole.head? == some '0' && whole.length > 1 then none
  let (frac, s) ← fraction s
  let (exp, s) ← exponent s
  some (sign ++ whole ++ frac ++ exp, s)

/-- The inside of a string after its opening quote, and what follows its closing quote; `done` holds
what was read, last first. -/
def stringRest (done : List Char) : List Char → Option (List Char × List Char)
  | '"' :: s => some (done.reverse, s)
  | '\\' :: 'u' :: a :: b :: c :: d :: s =>
    if (Text.hexNumber? [a, b, c, d]).isSome then
      stringRest (d :: c :: b :: a :: 'u' :: '\\' :: done) s
    else none
  | '\\' :: c :: s => if (simpleEscape? c).isSome then stringRest (c :: '\\' :: done) s else none
  | c :: s => if c.toNat < 0x20 || c == '\\' then none else stringRest (c :: done) s
  | [] => none

mutual

/-- A value after any blanks; `fuel` bounds the nesting and the number of parts. -/
def valueWithin : Nat → List Char → Option (Source × List Char)
  | 0, _ => none
  | fuel + 1, s =>
    match skipBlanks s with
    | 'n' :: r => keyword "null" .null ('n' :: r)
    | 't' :: r => keyword "true" (.bool true) ('t' :: r)
    | 'f' :: r => keyword "false" (.bool false) ('f' :: r)
    | '"' :: r => (stringRest [] r).map fun p => (.text p.1, p.2)
    | '[' :: r =>
      match skipBlanks r with
      | ']' :: r' => some (.list [], r')
      | _ => (itemsWithin fuel r).map fun p => (.list p.1, p.2)
    | '{' :: r =>
      match skipBlanks r with
      | '}' :: r' => some (.object [], r')
      | _ => (membersWithin fuel r).map fun p => (.object p.1, p.2)
    | r => (number r).map fun p => (.number p.1, p.2)

/-- The items of a list up to its closing bracket. -/
def itemsWithin : Nat → List Char → Option (List Source × List Char)
  | 0, _ => none
  | fuel + 1, s => do
    let (item, s) ← valueWithin fuel s
    match skipBlanks s with
    | ',' :: r =>
      let (items, r) ← itemsWithin fuel r
      some (item :: items, r)
    | ']' :: r => some ([item], r)
    | _ => none

/-- The members of an object up to its closing brace. -/
def membersWithin : Nat → List Char → Option (List (List Char × Source) × List Char)
  | 0, _ => none
  | fuel + 1, s => do
    let (name, s) ← match skipBlanks s with
      | '"' :: r => stringRest [] r
      | _ => none
    let s ← match skipBlanks s with
      | ':' :: r => some r
      | _ => none
    let (value, s) ← valueWithin fuel s
    match skipBlanks s with
    | ',' :: r =>
      let (members, r) ← membersWithin fuel r
      some ((name, value) :: members, r)
    | '}' :: r => some ([(name, value)], r)
    | _ => none

end

/-- Reads a whole text as one value. Each value, item and member takes at least one character, so
the length of the text bounds them all. -/
def Source.read? (s : String) : Option Source :=
  let chars := s.toList
  match valueWithin (chars.length + 1) chars with
  | some (value, rest) => if (skipBlanks rest).isEmpty then some value else none
  | none => none

/-- Reads what a whole text stands for. -/
def read? (s : String) : Option Json := (Source.read? s).bind Source.value?

end EntityQuery.Json
