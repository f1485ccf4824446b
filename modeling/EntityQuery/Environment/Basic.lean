import EntityQuery.Text.Character

/-! # Environments

A program runs in an environment of variables, each of which has a text as its value.

An entry of a file of variables names a variable and gives its value: `NAME=value`, possibly after
`export`. A value is a text in which quotes, escapes and names of other variables have a meaning:
strong quotes keep everything as it is, weak quotes keep blanks, `\n` is a line break, and `$NAME`
or `${NAME}` stands for the value of a variable. -/
namespace EntityQuery

/-- Variables with their values, in the order in which they were set. -/
abbrev Environment := List (String × String)

namespace Environment

/-- The value of a variable, if it is set. -/
def get? (e : Environment) (name : String) : Option String := e.lookup name

/-- The environment in which a variable has a value, the one that it has already if it is set. -/
def offer (e : Environment) (name value : String) : Environment :=
  if (e.get? name).isSome then e else e ++ [(name, value)]

theorem get?_offer_self (e : Environment) (name value : String) :
    (e.offer name value).get? name = some ((e.get? name).getD value) := by
  unfold offer
  cases h : e.get? name with
  | some v => simp [h]
  | none =>
    rw [get?] at h
    simp [get?, List.lookup_append, h]

theorem get?_offer_of_ne {e : Environment} {n name value : String} (h : n ≠ name) :
    (e.offer name value).get? n = e.get? n := by
  unfold offer
  split
  · rfl
  · simp [get?, List.lookup_append, List.lookup_cons, beq_false_of_ne h]

/-! ## Values of assignments -/

/-- Where in a value a character stands; `weak` says whether it is inside weak quotes. -/
inductive ValueState where
  | text (weak : Bool)
  | strong
  | escaped (weak : Bool)
  /-- In the name of a variable, of which these are the characters so far. -/
  | name (weak : Bool) (soFar : List Char)
  /-- In the name of a variable between braces. -/
  | braced (weak : Bool) (soFar : List Char)
  /-- After the value. -/
  | ended
  | comment

/-- The text that the name of a variable stands for: its value, or nothing if it is not set. -/
def substitute (e : Environment) (name : List Char) : List Char :=
  ((e.get? (String.ofList name)).getD "").toList

/-- The character that an escape stands for. -/
def escape? (c : Char) : Option Char :=
  if c = 'n' then some '\n'
  else if c ∈ ['\\', '\x27', '"', '$', ' '] then some c
  else none

/-- What a character adds to a value, and what follows it. A character that ends the name of a
variable belongs to the value as it is. -/
def ValueState.next? (e : Environment) (c : Char) : ValueState → Option (List Char × ValueState)
  | text weak =>
    if c = '$' then some ([], name weak [])
    else if c = '\\' then some ([], escaped weak)
    else if c = '"' then some ([], text !weak)
    else if weak then some ([c], text true)
    else if c = '\x27' then some ([], strong)
    else if c = ' ' || c = '\t' then some ([], ended)
    else some ([c], text false)
  | strong => if c = '\x27' then some ([], text false) else some ([c], strong)
  | escaped weak => (escape? c).map fun c => ([c], text weak)
  | name weak soFar =>
    if Text.isAlphanumeric c then some ([], name weak (soFar ++ [c]))
    else if c = '\x7b' ∧ soFar = [] then some ([], braced weak [])
    else if c = '$' then some (substitute e soFar, name weak [])
    else some (substitute e soFar ++ [c], text weak)
  | braced weak soFar =>
    if c = '\x7d' then some (substitute e soFar, text weak)
    else some ([], braced weak (soFar ++ [c]))
  | ended => if c = ' ' || c = '\t' then some ([], ended) else if c = '#' then some ([], comment)
    else none
  | comment => some ([], comment)

/-- What the end of the text adds to a value. No quote or brace may be open. -/
def ValueState.finish? (e : Environment) : ValueState → Option (List Char)
  | text false | escaped false | ended | comment => some []
  | name false soFar => some (substitute e soFar)
  | _ => none

/-- What the rest of a text adds to a value. -/
def valueFrom? (e : Environment) (state : ValueState) : List Char → Option (List Char)
  | [] => state.finish? e
  | c :: s => do
    let (added, state) ← state.next? e c
    return added ++ (← valueFrom? e state s)

/-- The value that a text stands for. -/
def value? (e : Environment) (s : List Char) : Option String :=
  (valueFrom? e (.text false) s).map String.ofList

/-! ## Names -/

/-- The name of a variable at the start of a text, and what follows it and the blanks after it. -/
def name? (s : List Char) : Option (List Char × List Char) :=
  let isNameChar (c : Char) : Bool := c.isAlphanum || c == '_' || c == '.'
  if s.head?.any fun c => c.isAlpha || c == '_' then
    some (s.takeWhile isNameChar, Text.trimStart (s.dropWhile isNameChar))
  else none

/-- What follows an equals sign and the blanks after it. -/
def afterEquals? : List Char → Option (List Char)
  | '=' :: s => some (Text.trimStart s)
  | _ => none

/-- The name that an entry gives a value, and the text of the value. A variable can itself be named
`export`. -/
def nameAndRest? (s : List Char) : Option (List Char × List Char) := do
  let (name, s) ← name? s
  match afterEquals? s with
  | some rest => some (name, rest)
  | none =>
    if name = "export".toList then
      let (name, s) ← name? s
      some (name, ← afterEquals? s)
    else none

/-! ## Entries -/

/-- Whether there is nothing to read but a comment. -/
def isVoid (s : List Char) : Bool := s.isEmpty || s.head? == some '#'

/-- The environment after an entry, if that can be read. What is set already stays. -/
def addEntry? (e : Environment) (entry : List Char) : Option Environment := do
  let s := Text.trim entry
  if isVoid s then return e
  let (name, rest) ← nameAndRest? s
  let value ← if isVoid rest then some "" else value? e rest
  return e.offer (String.ofList name) value

end Environment

end EntityQuery
