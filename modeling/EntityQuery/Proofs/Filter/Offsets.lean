import EntityQuery.Proofs.Filter.Places
import EntityQuery.Proofs.Filter.Ranges

/-!
# Filters cut by offsets

A filter can be cut at a position that is moved on by the size of each character (`MarkedScanner`).
The word that is being read is one text then, and where its first quotation begins is the size that
it has just there. A scanner of this kind does what one does that keeps the two parts of a word
(`Mirrors.perform` for a step, `Mirrors.run` for a run): at each character it is at the same place,
and its text is what the parts are together. So **a filter is cut by offsets into its tokens**
(`markedTokens_eq`); no filter leads the scanner to a position within a character, or makes it mark
a word at one, and none of the ranges by which its words are read is out of its text
(`ranges_stay_within`).
-/

namespace EntityQuery

/-! ## Tokens -/

/-- A token of which the word is kept as one text. -/
inductive MarkedToken where
  | opening (index : Nat)
  | closing (index : Nat)
  | word (index : Nat) (w : MarkedWord)
deriving DecidableEq

/-- The token with the parts of its word put together. -/
def Token.marked : Token → MarkedToken
  | opening index => .opening index
  | closing index => .closing index
  | word index w => .word index w.marked

namespace MarkedWord

/-- Before the first character of a word. -/
def empty : MarkedWord := ⟨[], none⟩

/-- Whether there is nothing of a word, neither a character nor a quotation. -/
def isEmpty (w : MarkedWord) : Bool := w.text.isEmpty && w.quotedFrom.isNone

/-- The word with one more character. -/
def push (w : MarkedWord) (c : Char) : MarkedWord := { w with text := w.text ++ [c] }

/-- The word in which a quotation has begun. Only the first one is marked. -/
def quote (w : MarkedWord) : MarkedWord :=
  { w with quotedFrom := some (w.quotedFrom.getD (Text.byteSize w.text)) }

end MarkedWord

/-- The word that is being read, if there is anything of it, and where it starts. -/
structure WordBuffer where
  start : Nat
  word : MarkedWord

namespace WordBuffer

/-- Where the word starts that the character here belongs to: here, if there was nothing of it. -/
def startAt (b : WordBuffer) (index : Nat) : Nat := if b.word.isEmpty then index else b.start

/-- The buffer with one more character. -/
def push (b : WordBuffer) (index : Nat) (c : Char) : WordBuffer := ⟨b.startAt index, b.word.push c⟩

/-- The buffer after a quotation has begun. -/
def quote (b : WordBuffer) (index : Nat) : WordBuffer := ⟨b.startAt index, b.word.quote⟩

/-- The token of the word that ends here. -/
def flush (b : WordBuffer) : List MarkedToken :=
  if b.word.isEmpty then [] else [.word b.start b.word]

/-- The buffer after its word has ended. -/
def cleared (b : WordBuffer) : WordBuffer := { b with word := .empty }

end WordBuffer

/-- What has to be kept in mind while a filter is cut by offsets. -/
structure MarkedScanner where
  buffer : WordBuffer
  place : Place
  groups : List Nat

namespace MarkedScanner

/-- Before the first character. -/
def start : MarkedScanner := ⟨⟨0, .empty⟩, .outside, []⟩

/-- The scanner after a character, with what that has made of its word and its groups. -/
def moved (s : MarkedScanner) (c : Char) (buffer : WordBuffer) (groups : List Nat) :
    MarkedScanner :=
  ⟨buffer, s.place.next c, groups⟩

/-- The scanner after a character with the effect, and the tokens that end with it. -/
def perform (s : MarkedScanner) (index : Nat) (c : Char) :
    Place.Effect → Except Error (MarkedScanner × List MarkedToken)
  | .push => .ok (s.moved c (s.buffer.push index c) s.groups, [])
  | .quote => .ok (s.moved c (s.buffer.quote index) s.groups, [])
  | .mark => .ok (s.moved c s.buffer s.groups, [])
  | .blank => .ok (s.moved c s.buffer.cleared s.groups, s.buffer.flush)
  | .opening => .ok (s.moved c s.buffer.cleared (index :: s.groups),
      s.buffer.flush ++ [.opening index])
  | .closing =>
    match s.groups with
    | [] => .error (.unbalancedGroup index)
    | _ :: outer => .ok (s.moved c s.buffer.cleared outer, s.buffer.flush ++ [.closing index])

/-- The tokens that end with the filter. -/
def finish (s : MarkedScanner) : Except Error (List MarkedToken) :=
  match s.groups.getLast? with
  | some index => .error (.unbalancedGroup index)
  | none => .ok s.buffer.flush

/-- The tokens from a position of the filter on. Each character is the first one of what the filter
has from its position to the end. -/
def run (filter : List Char) (s : MarkedScanner) (position : Nat) : Slicing (List MarkedToken) :=
  match _ : Text.slice? filter position (Text.byteSize filter) with
  | none => ExceptT.mk none
  | some [] => .within s.finish
  | some (c :: _) => do
    let (next, tokens) ← Slicing.within (s.perform position c (s.place.effect c))
    return tokens ++ (← next.run filter (position + c.utf8Size))
termination_by Text.byteSize filter - position
decreasing_by
  obtain ⟨_, _, _, _, size⟩ := Text.slice?_eq_some_iff.mp ‹_›
  have := c.utf8Size_pos
  rw [Text.byteSize_cons] at size
  omega

end MarkedScanner

/-- The tokens of a filter, cut by offsets. -/
def markedTokens (filter : String) : Slicing (List MarkedToken) :=
  MarkedScanner.start.run filter.toList 0

/-! ### The scanners side by side -/

namespace OpenWord

/-- The word of which a part has been read, as it stands. -/
def word (w : OpenWord) : Word := ⟨w.bare.reverse, w.quoted.map List.reverse⟩

/-- There is something of the word. -/
def Begun (w : OpenWord) : Prop := w.bare ≠ [] ∨ w.quoted.isSome

variable {w : OpenWord}

theorem begun_push (w : OpenWord) (c : Char) : (w.push c).Begun := by
  obtain ⟨start, bare, quoted⟩ := w
  cases quoted with
  | none => exact .inl (List.cons_ne_nil c bare)
  | some q => exact .inr rfl

theorem begun_quote (w : OpenWord) : w.quote.Begun := .inr rfl

theorem start_push (w : OpenWord) (c : Char) : (w.push c).start = w.start := by
  obtain ⟨start, bare, quoted⟩ := w
  cases quoted <;> rfl

theorem marked_push (w : OpenWord) (c : Char) : (w.push c).word.marked = w.word.marked.push c := by
  obtain ⟨start, bare, quoted⟩ := w
  cases quoted <;>
    simp [push, word, Word.marked, Word.text, Word.tail, Word.quotedFrom, MarkedWord.push]

/-- The parts of a word are cut where its text ends when the first quotation begins. -/
theorem marked_quote (w : OpenWord) : w.quote.word.marked = w.word.marked.quote := by
  obtain ⟨start, bare, quoted⟩ := w
  cases quoted <;>
    simp [quote, word, Word.marked, Word.text, Word.tail, Word.quotedFrom, MarkedWord.quote]

theorem Begun.isEmpty (begun : w.Begun) : w.word.marked.isEmpty = false := by
  obtain ⟨start, bare, quoted⟩ := w
  cases quoted with
  | some => simp [MarkedWord.isEmpty, word, Word.marked, Word.quotedFrom]
  | none =>
    have some_bare : bare ≠ [] := by simpa [Begun] using begun
    simp [MarkedWord.isEmpty, word, Word.marked, Word.text, some_bare]

end OpenWord

namespace WordBuffer

/-- The buffer has the word that is being read, if there is one, its parts put together. -/
inductive Holds : WordBuffer → Option OpenWord → Prop
  | absent (start : Nat) : Holds ⟨start, .empty⟩ none
  | present {w : OpenWord} (begun : w.Begun) : Holds ⟨w.start, w.word.marked⟩ (some w)

variable {b : WordBuffer} {word : Option OpenWord}

theorem holds_cleared (b : WordBuffer) : b.cleared.Holds none := .absent b.start

theorem Holds.flush (h : b.Holds word) :
    b.flush = (word.map OpenWord.token).toList.map Token.marked := by
  cases h with
  | absent => rfl
  | present begun =>
    rw [WordBuffer.flush, begun.isEmpty]
    rfl

theorem Holds.push (h : b.Holds word) (index : Nat) (c : Char) :
    (b.push index c).Holds (some ((word.getD ⟨index, [], none⟩).push c)) := by
  cases h with
  | absent => exact .present (OpenWord.begun_push ⟨index, [], none⟩ c)
  | @present w begun =>
    have pushed := Holds.present (w.begun_push c)
    rw [OpenWord.marked_push, OpenWord.start_push] at pushed
    rw [WordBuffer.push, startAt, begun.isEmpty]
    exact pushed

theorem Holds.quote (h : b.Holds word) (index : Nat) :
    (b.quote index).Holds (some (word.getD ⟨index, [], none⟩).quote) := by
  cases h with
  | absent => exact .present (OpenWord.begun_quote ⟨index, [], none⟩)
  | @present w begun =>
    have quoted := Holds.present w.begun_quote
    rw [OpenWord.marked_quote] at quoted
    rw [WordBuffer.quote, startAt, begun.isEmpty]
    exact quoted

end WordBuffer

namespace MarkedScanner

/-- The two scanners are at the same place, with the same word and the same groups. -/
structure Mirrors (m : MarkedScanner) (s : Scanner) : Prop where
  word : m.buffer.Holds s.word
  place : m.place = s.place
  groups : m.groups = s.groups

/-- Of two steps either both fail in the same way, or both have the same tokens. -/
inductive Agrees : Except Error (MarkedScanner × List MarkedToken) →
    Except Error (Scanner × List Token) → Prop
  | error (e : Error) : Agrees (.error e) (.error e)
  | ok {m : MarkedScanner} {s : Scanner} (mirrors : m.Mirrors s) (tokens : List Token) :
    Agrees (.ok (m, tokens.map Token.marked)) (.ok (s, tokens))

variable {m : MarkedScanner} {s : Scanner}

theorem Mirrors.moved (h : m.Mirrors s) (c : Char) {buffer : WordBuffer} {word : Option OpenWord}
    (holds : buffer.Holds word) (groups : List Nat) :
    (m.moved c buffer groups).Mirrors (s.moved c word groups) where
  word := holds
  place := congrArg (Place.next · c) h.place
  groups := rfl

theorem Mirrors.flush (h : m.Mirrors s) : m.buffer.flush = s.flush.map Token.marked := h.word.flush

theorem Mirrors.perform (h : m.Mirrors s) (index : Nat) (c : Char) (effect : Place.Effect) :
    Agrees (m.perform index c effect) (s.perform index c effect) := by
  unfold MarkedScanner.perform Scanner.perform
  rw [h.groups, h.flush]
  have cleared := m.buffer.holds_cleared
  cases effect with
  | push => exact .ok (h.moved c (h.word.push index c) _) []
  | quote => exact .ok (h.moved c (h.word.quote index) _) []
  | mark => exact .ok (h.moved c h.word _) []
  | blank => exact .ok (h.moved c cleared _) s.flush
  | opening =>
    have opened := Agrees.ok (h.moved c cleared (index :: s.groups)) (s.flush ++ [.opening index])
    rwa [List.map_append] at opened
  | closing =>
    cases s.groups with
    | nil => exact .error _
    | cons _ outer =>
      have closed := Agrees.ok (h.moved c cleared outer) (s.flush ++ [.closing index])
      rwa [List.map_append] at closed

theorem Mirrors.finish (h : m.Mirrors s) :
    m.finish = s.finish.map (List.map Token.marked) := by
  unfold MarkedScanner.finish Scanner.finish
  rw [h.groups]
  cases s.groups.getLast? with
  | some index => rfl
  | none => exact congrArg _ h.word.flush

theorem run_end (m : MarkedScanner) (before : List Char) :
    m.run before (Text.byteSize before) = .within m.finish := by
  have left := Text.slice?_right before []
  rw [List.append_nil] at left
  unfold MarkedScanner.run
  split
  · next outside => cases left.symm.trans outside
  · rfl
  · next sliced => cases left.symm.trans sliced

theorem run_cons (m : MarkedScanner) (before : List Char) (c : Char) (rest : List Char) :
    m.run (before ++ c :: rest) (Text.byteSize before) = (do
      let (next, tokens) ←
        Slicing.within (m.perform (Text.byteSize before) c (m.place.effect c))
      return tokens ++
        (← next.run (before ++ c :: rest) (Text.byteSize before + c.utf8Size))) := by
  have left := Text.slice?_right before (c :: rest)
  rw [MarkedScanner.run]
  split
  · next outside => cases left.symm.trans outside
  · next ended => cases left.symm.trans ended
  · next sliced =>
    cases left.symm.trans sliced
    rfl

/-- What is left of the filter is read by its offsets as it is read character by character. -/
theorem Mirrors.run {rest : List Char} (h : m.Mirrors s) (before : List Char) :
    m.run (before ++ rest) (Text.byteSize before) =
      .within ((s.run (Text.byteSize before) rest).map (List.map Token.marked)) := by
  induction rest generalizing m s before with
  | nil =>
    rw [List.append_nil, run_end, h.finish]
    rfl
  | cons c rest ih =>
    rw [run_cons, Scanner.run, Scanner.step_eq, h.place]
    have agree := h.perform (Text.byteSize before) c (s.place.effect c)
    generalize m.perform (Text.byteSize before) c (s.place.effect c) = step at agree ⊢
    generalize s.perform (Text.byteSize before) c (s.place.effect c) = step' at agree ⊢
    cases agree with
    | error => rfl
    | @ok next next' mirrors tokens =>
      have further := ih mirrors (before ++ [c])
      rw [List.append_assoc, Text.byteSize_append, Text.byteSize_cons, Text.byteSize_nil,
        Nat.add_zero] at further
      show (next.run (before ++ ([c] ++ rest)) (Text.byteSize before + c.utf8Size) >>= fun us =>
        pure (tokens.map Token.marked ++ us)) = .within ((next'.run (Text.byteSize before +
          c.utf8Size) rest >>= fun us => pure (tokens ++ us)).map (List.map Token.marked))
      rw [further]
      cases next'.run (Text.byteSize before + c.utf8Size) rest with
      | error => rfl
      | ok us => exact congrArg (fun ts => Slicing.within (.ok ts)) List.map_append.symm

end MarkedScanner

/-- A filter is cut by offsets into the tokens into which it is cut. -/
theorem markedTokens_eq (filter : String) :
    markedTokens filter = .within ((scan filter).map (List.map Token.marked)) := by
  have start : MarkedScanner.start.Mirrors Scanner.start := ⟨.absent 0, rfl, rfl⟩
  exact start.run []

/-- The offset of the first quotation stands in the text of the word, between two characters. -/
theorem Word.isBoundary_quotedFrom {w : Word} {offset : Nat}
    (quoted : w.marked.quotedFrom = some offset) : Text.IsBoundary w.marked.text offset := by
  obtain ⟨_, _, rfl⟩ := Option.map_eq_some_iff.mp quoted
  exact Text.isBoundary_iff.mpr ⟨w.bare, w.tail, rfl, rfl⟩

/-- **Only a range of its text can be read, and no filter makes a reading take another one.**
Cutting the filter by offsets gives its tokens, or the error that it has. Of each of the words the
quotation begins at an offset of its text that stands between two characters, and reading the word
by ranges gives its expression, or the error that it has. -/
theorem ranges_stay_within :
    (∀ s start stop, (Text.slice? s start stop).isSome ↔ Text.IsRange s start stop) ∧
    ∀ filter, (markedTokens filter).run = some ((scan filter).map (List.map Token.marked)) ∧
      ∀ tokens, scan filter = .ok tokens → ∀ index w, .word index w ∈ tokens →
        (∀ offset, w.marked.quotedFrom = some offset →
          offset ≤ Text.byteSize w.marked.text ∧ Text.IsBoundary w.marked.text offset) ∧
        w.marked.parse.run = some (Expression.parse w) := by
  refine ⟨fun _ _ _ => Text.isSome_slice?_iff, fun filter => ⟨?_, ?_⟩⟩
  · rw [markedTokens_eq]
    rfl
  · intro tokens _ index w _
    refine ⟨fun offset quoted => ?_, ?_⟩
    · have boundary := Word.isBoundary_quotedFrom quoted
      exact ⟨boundary.le_byteSize, boundary⟩
    · rw [MarkedWord.parse_marked]
      rfl

namespace Umlauts

/-- A filter with characters of two and three bytes on both sides of all that it is cut at. -/
def filter : String := "größe::not_in:['ä, €', ö] (max\x7bmaße.é\x7d:\"€ \"ü)"

def listed : Word := .plain "größe::not_in:['ä, €', ö]"

def quoted : Word := ⟨"max\x7bmaße.é\x7d:".toList, some "€ ü".toList⟩

end Umlauts

open Umlauts in
theorem ranges_stay_within_umlauts :
    (markedTokens filter).run = some (.ok [.word 0 ⟨listed.text, none⟩, .opening 32,
      .word 33 ⟨quoted.text, some 14⟩, .closing 55]) ∧
    (14 ≤ Text.byteSize quoted.text ∧ Text.IsBoundary quoted.text 14) ∧
    listed.marked.parse.run =
      some (.ok ⟨"größe", none, .isIn, true, false, .list ["ä, €", "ö"]⟩) ∧
    quoted.marked.parse.run =
      some (.ok ⟨"maße.é", some .max, .eq, false, false, .literal "€ ü"⟩) := by
  have scanned : scan filter = .ok [.word 0 listed, .opening 32, .word 33 quoted, .closing 55] := by
    decide +kernel
  obtain ⟨cut, words⟩ := ranges_stay_within.2 filter
  obtain ⟨_, read⟩ := words _ scanned 0 listed (by simp)
  obtain ⟨begins, read'⟩ := words _ scanned 33 quoted (by simp)
  refine ⟨?_, begins 14 (by decide +kernel), ?_, ?_⟩
  · rw [cut, scanned]
    rfl
  · rw [read]
    exact congrArg some (by decide +kernel)
  · rw [read']
    exact congrArg some (by decide +kernel)

end EntityQuery
