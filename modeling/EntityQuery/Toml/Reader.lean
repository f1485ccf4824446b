import EntityQuery.Text.Cut
import EntityQuery.Toml.Scalar

/-! # Reading TOML

A document is read line by line: a line is empty, gives a key its value, or is a header that says
to which table the lines after it belong. Comments run from `#` to the end of the line. Lists may
stretch over several lines; tables in braces may not. Lists and tables in braces may be nested 79
deep, and a key may have as many parts. -/
namespace EntityQuery.Toml

/-- The text without the blanks, line breaks and comments at its start. -/
def skipGap (inComment : Bool) : List Char → List Char
  | '\r' :: '\n' :: s => skipGap false s
  | c :: s =>
    if c == '\n' then skipGap false s
    else if inComment then if isPlain c then skipGap true s else c :: s
    else if isBlank c then skipGap false s
    else if c == '#' then skipGap true s
    else c :: s
  | [] => []

/-- How deep lists and tables in braces may be nested, and how many parts a key may have. -/
def depthLimit : Nat := 79

/-- The text without the blanks at its start. -/
def skipBlanks (s : List Char) : List Char := s.dropWhile isBlank

/-- What follows the end of a line, which may hold blanks and a comment before it. -/
def lineEnd? (s : List Char) : Option (List Char) :=
  let rest := match skipBlanks s with
    | '#' :: r => r.dropWhile isPlain
    | r => r
  match rest with
  | [] => some []
  | '\n' :: r => some r
  | '\r' :: '\n' :: r => some r
  | _ => none

/-! ## Keys -/

/-- A character of a key without quotes. -/
def isBareKey (c : Char) : Bool := c.isAlphanum || c == '_' || c == '-'

/-- One part of a key. -/
def keyPart? (s : List Char) : Option (String × List Char) :=
  let bare := s.takeWhile isBareKey
  if bare.isEmpty then lineString? s else some (String.ofList bare, s.drop bare.length)

/-- A key with the parts before its last one; blanks may stand around each part, and `count` bounds
the number of parts. -/
def keyWithin : Nat → List Char → Option ((List String × String) × List Char)
  | 0, _ => none
  | count + 1, s => do
    let (part, s) ← keyPart? (skipBlanks s)
    match skipBlanks s with
    | '.' :: r =>
      let ((path, key), r) ← keyWithin count r
      some ((part :: path, key), r)
    | r => some (([], part), r)

/-- A key. -/
def key? (s : List Char) : Option ((List String × String) × List Char) := keyWithin depthLimit s

/-- The key of a line with an equals sign, and what follows that. -/
def keyOfValue? (s : List Char) : Option ((List String × String) × List Char) := do
  let (key, s) ← key? s
  match s with
  | '=' :: r => some (key, skipBlanks r)
  | _ => none

/-! ## Values -/

mutual

/-- A value with lists and tables no deeper than `depth`; `fuel` bounds the number of its parts. -/
def valueWithin : Nat → Nat → List Char → Option (Toml × List Char)
  | 0, _, _ => none
  | fuel + 1, depth, s =>
    match s with
    | '[' :: r =>
      if depth = 0 then none
      else (itemsWithin fuel (depth - 1) (skipGap false r)).map fun p => (list p.1, p.2)
    | '{' :: r =>
      if depth = 0 then none
      else
        match skipBlanks r with
        | '}' :: r' => some (table .inline [], r')
        | r' => (membersWithin fuel (depth - 1) [] r').map fun p => (table .inline p.1, p.2)
    | s =>
      ((string? s).map fun p => (text p.1, p.2)) <|> keyword? "true" (bool true) s
        <|> keyword? "false" (bool false) s <|> dateTime? s <|> number? s

/-- The items of a list up to its closing bracket, a comma after the last one allowed. -/
def itemsWithin : Nat → Nat → List Char → Option (List Toml × List Char)
  | 0, _, _ => none
  | _ + 1, _, ']' :: s => some ([], s)
  | fuel + 1, depth, s => do
    let (item, s) ← valueWithin fuel depth s
    match skipGap false s with
    | ',' :: r =>
      let (items, r) ← itemsWithin fuel depth (skipGap false r)
      some (item :: items, r)
    | ']' :: r => some ([item], r)
    | _ => none

/-- The members of a table up to its closing brace, after those of `t`. -/
def membersWithin : Nat → Nat → Table → List Char → Option (Table × List Char)
  | 0, _, _, _ => none
  | fuel + 1, depth, t, s => do
    let ((path, key), s) ← keyOfValue? s
    let (value, s) ← valueWithin fuel depth s
    let t ← put path key value t
    match skipBlanks s with
    | ',' :: r => membersWithin fuel depth t r
    | '}' :: r => some (t, r)
    | _ => none

end

/-- A value. Each value, item and member takes at least one character. -/
def value? (s : List Char) : Option (Toml × List Char) :=
  valueWithin (2 * s.length + 2) depthLimit s

/-! ## Documents -/

/-- What a line says. -/
inductive Line where
  | value (path : List String) (key : String) (value : Toml)
  | table (path : List String) (key : String)
  | item (path : List String) (key : String)

/-- A line that is not empty, and the lines after it. -/
def line? (s : List Char) : Option (Line × List Char) :=
  match s with
  | '[' :: '[' :: s => do
    let ((path, key), s) ← key? s
    some (.item path key, ← lineEnd? (← after? ']' (← after? ']' s)))
  | '[' :: s => do
    let ((path, key), s) ← key? s
    some (.table path key, ← lineEnd? (← after? ']' s))
  | s => do
    let ((path, key), s) ← keyOfValue? s
    let (value, s) ← value? s
    some (.value path key value, ← lineEnd? s)

/-- The lines of a document; `fuel` bounds their number. -/
def linesWithin : Nat → List Char → Option (List Line)
  | 0, _ => none
  | fuel + 1, s =>
    match skipGap false s with
    | [] => some []
    | s => do
      let (line, s) ← line? s
      some (line :: (← linesWithin fuel s))

/-- The document, and the table to which the next lines belong, after one more line. -/
def Line.addTo (p : Table × List String) : Line → Option (Table × List String)
  | value path key v => (putUnder p.2 path key v p.1).map fun t => (t, p.2)
  | table path key => (openTable path key p.1).map fun t => (t, path ++ [key])
  | item path key => (openItem path key p.1).map fun t => (t, path ++ [key])

/-- Reads a whole document. A mark of the byte order may stand before it. Each line takes at least
one character, so the length of the text bounds their number. -/
def read? (s : String) : Option Table := do
  let chars := Text.dropMark s.toList
  let lines ← linesWithin (chars.length + 1) chars
  let (document, _) ← lines.foldlM Line.addTo ([], [])
  some document

end EntityQuery.Toml
