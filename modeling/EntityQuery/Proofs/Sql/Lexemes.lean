import EntityQuery.Sql.Fragment
import EntityQuery.Text.Cut

/-!
# The lexemes of a statement

A database does not see the tree that a statement was made of, but its text. This module cuts a text
into lexemes, the way a database does before it reads them: `lex` is a machine that goes through the
characters once and holds a `Pending` lexeme, which the next character either extends (`extend?`) or
completes (`flush`). Words are folded to lower case and are keywords or names of rows and functions
(`Lexeme.ofWord`); between double quotes stands a name and between single quotes a text, a quote in
them being doubled and everything else, the backslash too, standing for itself; a dollar sign with
digits is a parameter. A text with any other character outside quotes is not cut at all.

What stands in front of a blank, a parenthesis, a dot or a comma is complete (`step_separator`), so
that the lexemes of a text are those of its parts wherever it is put together from parts of which
the first ends in no open lexeme (`lex_settled`) or the second begins with a separator
(`lex_detached`). The texts of statements are put together in these two ways only. What is written
between the quotes of a name is the name that was quoted, whatever characters are in it
(`lex_quoteName`).
-/

namespace EntityQuery.Sql

open Text (asciiLower)

/-! ## Lexemes -/

/-- The words that have a meaning of their own. -/
inductive Keyword where
  | and | or | not | is | null | false | like | escape | any | distinct
  | select | from' | left | join | on' | where' | in' | group | by' | having
  | as' | order | asc | desc | nulls | last | limit | offset
deriving DecidableEq

namespace Keyword

def text : Keyword → String
  | and => "and" | or => "or" | not => "not" | is => "is" | null => "null" | false => "false"
  | like => "like" | escape => "escape" | any => "any" | distinct => "distinct"
  | select => "select" | from' => "from" | left => "left" | join => "join" | on' => "on"
  | where' => "where" | in' => "in" | group => "group" | by' => "by" | having => "having"
  | as' => "as" | order => "order" | asc => "asc" | desc => "desc" | nulls => "nulls"
  | last => "last" | limit => "limit" | offset => "offset"

def all : List Keyword :=
  [and, or, not, is, null, false, like, escape, any, distinct, select, from', left, join, on',
    where', in', group, by', having, as', order, asc, desc, nulls, last, limit, offset]

end Keyword

/-- What a text is cut into. -/
inductive Lexeme where
  | keyword (k : Keyword)
  /-- A word that is no keyword, in lower case. -/
  | word (s : List Char)
  /-- What stands between double quotes. -/
  | name (s : List Char)
  /-- What stands between single quotes. -/
  | string (s : List Char)
  | parameter (n : Nat)
  | number (n : Nat)
  /-- Characters that make up an operator. -/
  | mark (s : List Char)
  | opening
  | closing
  | dot
  | comma
deriving DecidableEq

/-- The lexeme of a word in lower case. -/
def Lexeme.ofWord (s : List Char) : Lexeme :=
  match Keyword.all.find? fun k => k.text.toList = s with
  | some k => keyword k
  | none => word s

/-- The lexeme that has been begun. -/
inductive Pending where
  | none
  | word (s : List Char)
  | number (digits : List Char)
  | parameter (digits : List Char)
  | mark (s : List Char)
  | name (s : List Char)
  /-- A quote after a name: its end, or the first of two quotes. -/
  | nameQuote (s : List Char)
  | string (s : List Char)
  | stringQuote (s : List Char)
deriving DecidableEq

/-- The characters of operators. -/
def isMark (c : Char) : Bool := c = '=' || c = '<' || c = '>' || c = '|' || c = '*'

/-- The characters at which any other lexeme is complete. -/
def isSeparator (c : Char) : Bool := c = ' ' || c = '(' || c = ')' || c = '.' || c = ','

namespace Pending

/-- The lexeme with another character, if it belongs to it. -/
def extend? : Pending → Char → Option Pending
  | word s, c =>
    if c.isAlpha || c.isDigit || c = '_' || c = '$' then some (word (s ++ [c])) else Option.none
  | number s, c => if c.isDigit then some (number (s ++ [c])) else Option.none
  | parameter s, c => if c.isDigit then some (parameter (s ++ [c])) else Option.none
  | mark s, c => if isMark c then some (mark (s ++ [c])) else Option.none
  | name s, c => some (if c = '"' then nameQuote s else name (s ++ [c]))
  | nameQuote s, c => if c = '"' then some (name (s ++ [c])) else Option.none
  | string s, c => some (if c = '\'' then stringQuote s else string (s ++ [c]))
  | stringQuote s, c => if c = '\'' then some (string (s ++ [c])) else Option.none
  | none, _ => Option.none

/-- What has been begun, as a lexeme; a quotation must have been closed. -/
def flush : Pending → Option (List Lexeme)
  | none => some []
  | word s => some [.ofWord (asciiLower s)]
  | number s => (Decimal.digits? s).map ([.number ·])
  | parameter s => (Decimal.digits? s).map ([.parameter ·])
  | mark s => some [.mark s]
  | nameQuote s => some [.name s]
  | stringQuote s => some [.string s]
  | name _ | string _ => Option.none

/-- What a character begins. -/
def start? (c : Char) : Option (List Lexeme × Pending) :=
  if c.isDigit then some ([], number [c])
  else if c = ' ' then some ([], none)
  else if c = '(' then some ([.opening], none)
  else if c = ')' then some ([.closing], none)
  else if c = '.' then some ([.dot], none)
  else if c = ',' then some ([.comma], none)
  else if c.isAlpha || c = '_' then some ([], word [c])
  else if c = '$' then some ([], parameter [])
  else if c = '"' then some ([], name [])
  else if c = '\'' then some ([], string [])
  else if isMark c then some ([], mark [c])
  else Option.none

/-- One character: the lexemes that are complete, and the one that is begun. -/
def step (q : Pending) (c : Char) : Option (List Lexeme × Pending) :=
  match q.extend? c with
  | some q => some ([], q)
  | Option.none => do
    let done ← q.flush
    let (begun, q) ← start? c
    return (done ++ begun, q)

def run (q : Pending) : List Char → Option (List Lexeme × Pending)
  | [] => some ([], q)
  | c :: s => do
    let (done, q) ← q.step c
    (run q s).map fun p => (done ++ p.1, p.2)

end Pending

/-- The lexemes of a text. -/
def lex (s : String) : Option (List Lexeme) := do
  let (done, q) ← Pending.run .none s.toList
  return done ++ (← q.flush)

/-! ## Texts put together -/

/-- The text has these lexemes, and none is left open at its end. -/
def Settles (s : String) (ls : List Lexeme) : Prop := Pending.run .none s.toList = some (ls, .none)

instance (s : String) (ls : List Lexeme) : Decidable (Settles s ls) :=
  inferInstanceAs (Decidable (_ = _))

/-- Any lexeme before the text is complete where the text begins. -/
def Detached (s : String) : Prop := s.toList.head?.all isSeparator = true

instance (s : String) : Decidable (Detached s) := inferInstanceAs (Decidable (_ = _))

theorem detached_append {a b : String} (ne : a ≠ "") (h : Detached a) : Detached (a ++ b) := by
  unfold Detached at h ⊢
  rw [String.toList_append]
  cases ha : a.toList with
  | nil => exact absurd (String.toList_eq_nil_iff.mp ha) ne
  | cons c s => simpa [ha] using h

theorem Detached.append {a b : String} (ha : Detached a) (hb : Detached b) : Detached (a ++ b) := by
  by_cases ne : a = ""
  · rwa [ne, String.empty_append]
  · exact detached_append ne ha

namespace Pending

@[simp] theorem run_nil (q : Pending) : q.run [] = some ([], q) := rfl

theorem run_cons (q : Pending) (c : Char) (s : List Char) :
    q.run (c :: s) = (q.step c).bind fun p => (p.2.run s).map fun r => (p.1 ++ r.1, r.2) := rfl

theorem run_append (q : Pending) (s t : List Char) :
    q.run (s ++ t) = (q.run s).bind fun p => (p.2.run t).map fun r => (p.1 ++ r.1, r.2) := by
  induction s generalizing q with
  | nil => simp
  | cons c s ih =>
    simp only [List.cons_append, run_cons, ih, Option.bind_assoc]
    simp [Option.map_bind, Option.bind_map, Function.comp_def, List.append_assoc]

/-- A lexeme begun at the beginning of a text. -/
theorem run_start {q q' : Pending} {c : Char} (h : q.step c = some ([], q')) (s : List Char) :
    q.run (c :: s) = q'.run s := by
  simp [run_cons, h]

theorem step_extend {q q' : Pending} {c : Char} (h : q.extend? c = some q') :
    q.step c = some ([], q') := by
  rw [step, h]

theorem run_extend {q q' : Pending} {c : Char} (h : q.extend? c = some q') (s : List Char) :
    q.run (c :: s) = q'.run s := run_start (step_extend h) s

/-- A separator belongs to nothing that is complete. -/
theorem extend?_separator {q : Pending} {done : List Lexeme} {c : Char} (h : q.flush = some done)
    (separates : isSeparator c = true) : q.extend? c = Option.none := by
  have cases : c = ' ' ∨ c = '(' ∨ c = ')' ∨ c = '.' ∨ c = ',' := by
    simpa [isSeparator, or_assoc] using separates
  cases q with
  | name | string => cases h
  | _ => rcases cases with rfl | rfl | rfl | rfl | rfl <;> rfl

theorem step_separator {q : Pending} {done : List Lexeme} {c : Char} (h : q.flush = some done)
    (separates : isSeparator c = true) :
    q.step c = (start? c).map fun p => (done ++ p.1, p.2) := by
  unfold step
  rw [extend?_separator h separates]
  simp only [h, Option.bind_eq_bind, Option.bind_some]
  cases start? c <;> rfl

/-- After something complete, a text that begins with a separator is cut as if it stood alone. -/
theorem run_detached {q : Pending} {done : List Lexeme} (h : q.flush = some done) {t : List Char}
    (detached : t.head?.all isSeparator = true) {ls : List Lexeme} {q' : Pending}
    (ht : run none t = some (ls, q')) (ne : t ≠ []) : q.run t = some (done ++ ls, q') := by
  cases t with
  | nil => exact absurd rfl ne
  | cons c t =>
    have separates : isSeparator c = true := by simpa using detached
    rw [run_cons, step_separator h separates]
    rw [run_cons, step_separator (q := none) rfl separates] at ht
    cases hc : start? c with
    | none => simp [hc] at ht
    | some p =>
      have ht : (run p.2 t).map (fun r => (p.1 ++ r.1, r.2)) = some (ls, q') := by
        simpa [hc] using ht
      obtain ⟨rest, hrest, same⟩ := Option.map_eq_some_iff.mp ht
      cases same
      simp [hrest]

end Pending

theorem lex_eq_some_iff {s : String} {ls : List Lexeme} :
    lex s = some ls ↔ ∃ done q last, Pending.run .none s.toList = some (done, q) ∧
      q.flush = some last ∧ ls = done ++ last := by
  unfold lex
  simp only [Option.bind_eq_bind, Option.bind_eq_some_iff, Option.pure_def, Option.some.injEq,
    Prod.exists]
  grind

/-- A text with no open lexeme at its end, before any other text. -/
theorem lex_settled {a b : String} {x y : List Lexeme} (ha : Settles a x) (hb : lex b = some y) :
    lex (a ++ b) = some (x ++ y) := by
  obtain ⟨done, q, last, hrun, hlast, rfl⟩ := lex_eq_some_iff.mp hb
  refine lex_eq_some_iff.mpr ⟨x ++ done, q, last, ?_, hlast, (List.append_assoc ..).symm⟩
  unfold Settles at ha
  rw [String.toList_append, Pending.run_append, ha]
  simp [hrun]

/-- Any text, before one that begins with a separator. -/
theorem lex_detached {a b : String} {x y : List Lexeme} (ha : lex a = some x) (hb : lex b = some y)
    (detached : Detached b) : lex (a ++ b) = some (x ++ y) := by
  obtain ⟨done, q, last, hrun, hlast, rfl⟩ := lex_eq_some_iff.mp ha
  obtain ⟨done', q', last', hrun', hlast', rfl⟩ := lex_eq_some_iff.mp hb
  by_cases ne : b.toList = []
  · rw [ne] at hrun'
    cases hrun'
    cases hlast'
    rw [String.toList_eq_nil_iff.mp ne, String.append_empty, ha]
    simp
  · refine lex_eq_some_iff.mpr ⟨done ++ (last ++ done'), q', last', ?_, hlast', by simp⟩
    rw [String.toList_append, Pending.run_append, hrun]
    simp [Pending.run_detached hlast detached hrun' ne]

/-! ## Names, numbers and rows -/

theorem run_name (s : List Char) (n rest : List Char) :
    (Pending.name s).run (n.flatMap (fun c => if c = '"' then ['"', '"'] else [c]) ++ rest) =
      (Pending.name (s ++ n)).run rest := by
  induction n generalizing s with
  | nil => simp
  | cons c n ih =>
    have next (rest : List Char) :
        (Pending.name s).run ((if c = '"' then ['"', '"'] else [c]) ++ rest) =
          (Pending.name (s ++ [c])).run rest := by
      by_cases quote : c = '"'
      · subst quote
        exact (Pending.run_extend rfl _).trans (Pending.run_extend rfl _)
      · have same : (Pending.name s).extend? c = some (.name (s ++ [c])) :=
          congrArg some (if_neg quote)
        rw [if_neg quote]
        exact Pending.run_extend same _
    rw [List.flatMap_cons, List.append_assoc, next, ih, List.append_assoc]
    rfl

/-- A quoted name is the name between its quotes, whatever stands in it. -/
theorem lex_quoteName (n : String) : lex (quoteName n) = some [.name n.toList] := by
  refine lex_eq_some_iff.mpr ⟨[], .nameQuote n.toList, _, ?_, rfl, rfl⟩
  rw [quoteName, String.toList_ofList, List.cons_append,
    Pending.run_start (show _ = some ([], .name []) by decide), run_name]
  exact Pending.run_extend rfl []

/-- A lexeme of which all the characters that follow are part. -/
theorem run_extended (q : List Char → Pending) {t : List Char}
    (h : ∀ c ∈ t, ∀ s, (q s).extend? c = some (q (s ++ [c]))) (s : List Char) :
    (q s).run t = some ([], q (s ++ t)) := by
  induction t generalizing s with
  | nil => simp
  | cons c t ih =>
    obtain ⟨hc, ht⟩ := List.forall_mem_cons.mp h
    rw [Pending.run_extend (hc s), ih ht, List.append_assoc]
    rfl

theorem lex_number (n : Nat) : lex (String.ofList (Decimal.text n)) = some [.number n] := by
  refine lex_eq_some_iff.mpr ⟨[], .number (Decimal.text n), [.number n], ?_, ?_, rfl⟩
  · rw [String.toList_ofList]
    have digit : ∀ c ∈ Decimal.text n, c.isDigit = true := fun c => Decimal.isDigit_of_mem_text
    cases ht : Decimal.text n with
    | nil => simp [Decimal.text] at ht
    | cons c t =>
      rw [ht] at digit
      obtain ⟨hc, ht⟩ := List.forall_mem_cons.mp digit
      have begun : Pending.start? c = some ([], .number [c]) := if_pos hc
      have begins : Pending.step .none c = some ([], .number [c]) := by
        show (Pending.start? c).bind _ = _
        rw [begun]
        rfl
      rw [Pending.run_start begins]
      exact run_extended .number (fun c hc s => if_pos (ht c hc)) [c]
  · exact congrArg (Option.map _) (Decimal.digits?_text n)

/-- A placeholder is the parameter with its number. -/
theorem lex_parameter (n : Nat) :
    lex ("$" ++ String.ofList (Decimal.text n)) = some [.parameter n] := by
  refine lex_eq_some_iff.mpr ⟨[], .parameter (Decimal.text n), [.parameter n], ?_, ?_, rfl⟩
  · have chars : ("$" ++ String.ofList (Decimal.text n)).toList = '$' :: Decimal.text n := by simp
    rw [chars, Pending.run_start (show _ = some ([], .parameter []) by decide)]
    exact run_extended .parameter (fun c hc s => if_pos (Decimal.isDigit_of_mem_text hc)) []
  · exact congrArg (Option.map _) (Decimal.digits?_text n)

/-- Keywords are made of letters. -/
theorem Lexeme.ofWord_of_digit {s : List Char} {c : Char} (mem : c ∈ s) (digit : c.isDigit = true) :
    ofWord s = word s := by
  have letters : (Keyword.all.all fun k => k.text.toList.all fun c => !c.isDigit) = true := by
    decide
  unfold ofWord
  rw [List.find?_eq_none.mpr]
  intro k hk same
  have same : k.text.toList = s := by simpa using same
  have letter := List.all_eq_true.mp (List.all_eq_true.mp letters k hk) c (same ▸ mem)
  simp [digit] at letter

theorem toLower_of_isDigit {c : Char} (h : c.isDigit = true) : c.toLower = c := by
  have digit : c.val ≤ '9'.val := (by simpa [Char.isDigit] using h : _ ∧ _).2
  unfold Char.toLower
  rw [dif_neg]
  rintro ⟨upper, -⟩
  exact absurd (UInt32.le_trans upper digit) (by decide)

/-- A letter with a number after it is one word. -/
theorem lex_numbered {letter : String} {c : Char} (single : letter.toList = [c])
    (begins : Pending.step .none c = some ([], .word [c])) (lower : c.toLower = c) (n : Nat) :
    lex (letter ++ String.ofList (Decimal.text n)) =
      some [.word (letter ++ String.ofList (Decimal.text n)).toList] := by
  have chars : (letter ++ String.ofList (Decimal.text n)).toList = c :: Decimal.text n := by
    rw [String.toList_append, single, String.toList_ofList]
    rfl
  have digit : ∀ c ∈ Decimal.text n, c.isDigit = true := fun c => Decimal.isDigit_of_mem_text
  have same : asciiLower (c :: Decimal.text n) = c :: Decimal.text n := by
    refine (List.map_congr_left fun d hd => ?_).trans (List.map_id _)
    rcases List.mem_cons.mp hd with rfl | hd
    · exact lower
    · exact toLower_of_isDigit (digit d hd)
  rw [chars]
  refine lex_eq_some_iff.mpr ⟨[], .word (c :: Decimal.text n), [.word (c :: Decimal.text n)],
    ?_, ?_, rfl⟩
  · rw [chars, Pending.run_start begins]
    exact run_extended .word (fun d hd s => if_pos (by simp [digit d hd])) [c]
  · obtain ⟨d, hd⟩ := List.exists_mem_of_ne_nil (Decimal.text n) (by simp [Decimal.text])
    rw [Pending.flush, same, Lexeme.ofWord_of_digit (List.mem_cons_of_mem _ hd) (digit d hd)]

/-- The alias that a word looks like. -/
def Alias.guess? : List Char → Option Alias
  | ['r'] => some .root
  | ['l'] => some .link
  | 'j' :: digits => (Decimal.digits? digits).map .join
  | 'l' :: digits => (Decimal.digits? digits).map .between
  | _ => none

/-- The alias with this text; with zeros in front of its number it would be another. -/
def Alias.read? (w : List Char) : Option Alias := (guess? w).filter fun a => a.text.toList = w

theorem Alias.guess?_text (a : Alias) : guess? a.text.toList = some a := by
  have numbered (letter : String) (i : Nat) :
      (letter ++ String.ofList (Decimal.text i)).toList = letter.toList ++ Decimal.text i := by
    rw [String.toList_append, String.toList_ofList]
  cases a with
  | root | link => rfl
  | join id =>
    show guess? ("j" ++ String.ofList (Decimal.text id)).toList = _
    rw [numbered]
    show (Decimal.digits? (Decimal.text id)).map join = _
    rw [Decimal.digits?_text]
    rfl
  | between id =>
    show guess? ("l" ++ String.ofList (Decimal.text id)).toList = _
    rw [numbered]
    have digits := Decimal.digits?_text id
    -- Without digits the text would be that of another alias.
    cases h : Decimal.text id with
    | nil =>
      rw [h] at digits
      cases digits
    | cons c rest =>
      rw [h] at digits
      show (Decimal.digits? (c :: rest)).map between = _
      rw [digits]
      rfl

theorem Alias.read?_text (a : Alias) : read? a.text.toList = some a := by
  rw [read?, guess?_text]
  simp

/-- The text of an alias is one word. -/
theorem lex_alias (a : Alias) : lex a.text = some [.word a.text.toList] := by
  cases a with
  | root | link => decide
  | join id => exact lex_numbered (c := 'j') (by rfl) (by decide) (by decide) id
  | between id => exact lex_numbered (c := 'l') (by rfl) (by decide) (by decide) id

/-- A column is the word of its row and a name, with a dot between them. -/
theorem lex_column (c : ColumnRef) :
    lex c.text = some [.word c.row.text.toList, .dot, .name c.column.toList] := by
  have column : lex ("." ++ quoteName c.column) = some [.dot, .name c.column.toList] :=
    lex_settled (x := [.dot]) (by decide) (lex_quoteName c.column)
  unfold ColumnRef.text
  rw [String.append_assoc]
  exact lex_detached (lex_alias c.row) column (detached_append (by decide) (by decide))

end EntityQuery.Sql
