import EntityQuery.Environment.Basic
import EntityQuery.Files
import EntityQuery.Text.Cut

/-! # Files of variables

A directory can hold a file with variables for the programs that are run in it. What it says adds to
the environment, entry by entry, as far as it can be read.

A file of variables is cut into entries, one a line. Inside quotes and after a backslash an entry
goes on over the end of the line. A comment starts with `#`, either at the start of an entry or
after a blank, and runs to the end of the line, where the entry ends too. -/
namespace EntityQuery.Environment

/-! ## Entries -/

/-- Where in an entry a character stands. Of blanks in a row every other one counts as a gap. -/
inductive EntryState where
  | plain
  | gap
  | escaped
  | weak
  | weakEscaped
  | strong
  | strongEscaped
  | comment
deriving DecidableEq

namespace EntryState

/-- What follows a character that stands outside of quotes. -/
def opened : Char → EntryState
  | '\\' => escaped
  | '"' => weak
  | '\x27' => strong
  | _ => plain

/-- What follows a character. -/
def next (c : Char) : EntryState → EntryState
  | plain => if Text.isBlank c && c != '\n' && c != '\r' then gap else opened c
  | gap => opened c
  | escaped => plain
  | weak => if c = '"' then plain else if c = '\\' then weakEscaped else weak
  | weakEscaped => weak
  | strong => if c = '\x27' then plain else if c = '\\' then strongEscaped else strong
  | strongEscaped => strong
  | comment => comment

end EntryState

/-- The entries of a text after the characters `done` of an entry, the last of which stands first.
An entry that is open at the end of the text is none, nor is what follows. -/
def entriesFrom (state : EntryState) (done : List Char) : List Char → List (List Char)
  | [] => if state = .plain ∨ state = .comment then [done.reverse] else []
  | c :: s =>
    let startsComment := c = '#' ∧ (state = .gap ∨ done.all Text.isBlank)
    let state := if startsComment then .comment else state.next c
    if c = '\n' ∧ (state = .plain ∨ state = .comment) then
      done.reverse :: entriesFrom .plain [] s
    else entriesFrom state (if state = .comment then done else c :: done) s

/-- The entries of a text up to one that does not end. -/
def entries (s : List Char) : List (List Char) := entriesFrom .plain [] s

/-! ## Files -/

/-- The name of the file. -/
def fileName : String := ".env"

/-- The environment after entries, up to one that cannot be read. -/
def addEntries (e : Environment) : List (List Char) → Environment
  | [] => e
  | entry :: entries =>
    match addEntry? e entry with
    | some e => addEntries e entries
    | none => e

/-- The environment with the variables of a file. A mark of the byte order may stand before it. -/
def addFile (e : Environment) (source : String) : Environment :=
  e.addEntries (entries (Text.dropMark source.toList))

/-- The environment with the variables of the directory, if it has any. -/
def inDirectory (e : Environment) (read : FileReader) : Environment :=
  match read fileName with
  | .ok source => e.addFile source
  | .error _ => e

end EntityQuery.Environment
