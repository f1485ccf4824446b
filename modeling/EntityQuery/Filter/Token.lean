import EntityQuery.Error
import EntityQuery.Text.Character
import EntityQuery.Text.Cut

/-! # Tokens

A filter is cut into words and parentheses, each with the offset in bytes at which it starts. Blanks
separate words. Between double quotes every character is part of a word, a backslash standing
before one that would not be; between square brackets every character but a double quote is. A
quotation that is not closed runs to the end of the filter. Parentheses outside quotations and
brackets have to be balanced. -/
namespace EntityQuery

/-- A word: what stands before its first quotation, and what follows from there on. -/
structure Word where
  bare : List Char
  quoted : Option (List Char)
deriving DecidableEq

namespace Word

/-- A word without a quotation. -/
def plain (text : String) : Word := ⟨text.toList, none⟩

/-- The characters from the first quotation on. -/
def tail (w : Word) : List Char := w.quoted.getD []

/-- The characters of the word, without its quotation marks. -/
def text (w : Word) : List Char := w.bare ++ w.tail

/-- The offset in bytes of the first quotation in the text of the word. -/
def quotedFrom (w : Word) : Option Nat := w.quoted.map fun _ => Text.byteSize w.bare

end Word

/-- A token of a filter, with the offset of its first character. -/
inductive Token where
  | opening (index : Nat)
  | closing (index : Nat)
  | word (index : Nat) (w : Word)
deriving DecidableEq

/-- The offset of the first character of a token. -/
def Token.index : Token → Nat
  | opening index => index
  | closing index => index
  | word index _ => index

/-- A word of which a part has been read, the last character first. -/
structure OpenWord where
  start : Nat
  bare : List Char
  quoted : Option (List Char)
deriving DecidableEq

namespace OpenWord

/-- The word with one more character. -/
def push (w : OpenWord) (c : Char) : OpenWord :=
  match w.quoted with
  | some q => { w with quoted := some (c :: q) }
  | none => { w with bare := c :: w.bare }

/-- The word in which a quotation has begun. -/
def quote (w : OpenWord) : OpenWord := { w with quoted := some (w.quoted.getD []) }

/-- The word as it stands. -/
def token (w : OpenWord) : Token := .word w.start ⟨w.bare.reverse, w.quoted.map List.reverse⟩

end OpenWord

/-- Whether the next character stands in a quotation. -/
inductive Quotation where
  | outside
  | inside
  /-- After a backslash. -/
  | escaped
deriving DecidableEq

/-- What has to be kept in mind while a filter is cut. -/
structure Scanner where
  word : Option OpenWord
  quotation : Quotation
  /-- The number of square brackets that are open. -/
  brackets : Nat
  /-- The offsets of the parentheses that are open, the innermost first. -/
  groups : List Nat
deriving DecidableEq

namespace Scanner

/-- Before the first character. -/
def start : Scanner := ⟨none, .outside, 0, []⟩

/-- The word that is being read, or one that starts here. -/
def wordAt (s : Scanner) (index : Nat) : OpenWord := s.word.getD ⟨index, [], none⟩

/-- The scanner after a character of a word. -/
def push (s : Scanner) (index : Nat) (c : Char) : Scanner :=
  { s with word := some ((s.wordAt index).push c) }

/-- The token of the word that ends here. -/
def flush (s : Scanner) : List Token := (s.word.map OpenWord.token).toList

/-- A character outside quotations: the scanner after it, and the tokens that end with it. -/
def plainStep (s : Scanner) (index : Nat) (c : Char) : Except Error (Scanner × List Token) :=
  if c = '"' then
    .ok ({ s with word := some (s.wordAt index).quote, quotation := .inside }, [])
  else if c = '[' then .ok ({ s.push index c with brackets := s.brackets + 1 }, [])
  else if c = ']' then .ok ({ s.push index c with brackets := s.brackets - 1 }, [])
  else if s.brackets > 0 then .ok (s.push index c, [])
  else if Text.isBlank c then .ok ({ s with word := none }, s.flush)
  else if c = '(' then
    .ok ({ s with word := none, groups := index :: s.groups }, s.flush ++ [.opening index])
  else if c = ')' then
    match s.groups with
    | [] => .error (.unbalancedGroup index)
    | _ :: outer => .ok ({ s with word := none, groups := outer }, s.flush ++ [.closing index])
  else .ok (s.push index c, [])

/-- Any character: the scanner after it, and the tokens that end with it. -/
def step (s : Scanner) (index : Nat) (c : Char) : Except Error (Scanner × List Token) :=
  match s.quotation with
  | .outside => s.plainStep index c
  | .inside =>
    if c = '\\' then .ok ({ s with quotation := .escaped }, [])
    else if c = '"' then .ok ({ s with quotation := .outside }, [])
    else .ok (s.push index c, [])
  | .escaped => .ok ({ s.push index c with quotation := .inside }, [])

/-- The tokens that end with the filter. -/
def finish (s : Scanner) : Except Error (List Token) :=
  match s.groups.getLast? with
  | some index => .error (.unbalancedGroup index)
  | none => .ok s.flush

/-- The tokens of the rest of a filter, which starts at an offset. -/
def run (s : Scanner) (index : Nat) : List Char → Except Error (List Token)
  | [] => s.finish
  | c :: rest => do
    let (next, tokens) ← s.step index c
    return tokens ++ (← next.run (index + c.utf8Size) rest)

end Scanner

/-- The tokens of a filter. -/
def scan (filter : String) : Except Error (List Token) := Scanner.start.run 0 filter.toList

end EntityQuery
