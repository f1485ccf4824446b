import EntityQuery.Proofs.Filter.Words
import EntityQuery.Proofs.Text.Slicing
import Mathlib.Data.List.TakeWhile

/-!
# Words read by ranges

A word can be kept as one text with the offset at which its first quotation begins (`MarkedWord`).
What is read of it is then a range of bytes: of the word, of what stands before its quotation, of a
field or a value. Offsets are found in one text and used in another, and one is added or taken away
for each mark that encloses something. Still every range is one of its text: what comes before it
are whole characters each time, and the marks are characters of one byte. So **a word is read by
ranges as the expression as which it is read by its parts** (`parse_marked`).

`Slicing` is a reading that ends altogether at a range out of its text, so that each function that
takes ranges has one equation that also says that it takes none of these: `function_eq`,
`literal_eq`, `list_eq`, `parts_marked`, `rightSide_marked`.
-/

namespace EntityQuery

/-! ## Readings by ranges -/

/-- A reading by ranges of bytes: nothing if one of them is no range of its text, else a value or an
error. -/
abbrev Slicing := ExceptT Error Option

namespace Slicing

variable {α β : Type}

/-- A reading all of whose ranges are ranges of their texts. -/
def within (x : Except Error α) : Slicing α := ExceptT.mk (some x)

/-- A range of its text is read, and the reading goes on with it. -/
theorem slice_bind {x : Option α} {a : α} (h : x = some a) (f : α → Slicing β) :
    ((x : Slicing α) >>= f) = f a := by
  rw [h]
  rfl

theorem within_bind {x : Except Error α} {f : α → Except Error β} {g : α → Slicing β}
    (h : ∀ a, g a = within (f a)) : (within x >>= g) = within (x >>= f) := by
  cases x with
  | error e => rfl
  | ok a => exact h a

/-! ## Fields and values -/

open Expression

/-- Whether a text has the form of a function: a name, and then something on one line in braces. -/
def isFunction (s : List Char) : Bool :=
  let name := s.takeWhile isNameChar
  match s.dropWhile isNameChar with
  | '\x7b' :: rest =>
    !name.isEmpty && rest.getLast? = some '\x7d' && !rest.dropLast.contains '\n'
  | _ => false

/-- The function and its argument, if the text is of that form. -/
def function (s : List Char) : Slicing (Option (Aggregate × String)) := do
  if !isFunction s then return none
  let brace := (Text.find? '\x7b' s).getD 0
  let name ← Text.slice? s 0 brace
  let inner ← Text.slice? s (brace + 1) (Text.byteSize s - 1)
  match Aggregate.ofName? (String.ofList name) with
  | some f => return some (f, String.ofList inner)
  | none => throw (.unknownFunction (String.ofList name))

/-- What stands between single quotes, if the text begins and ends with them. -/
def literal (s : List Char) : Option (Option (List Char)) :=
  if 2 ≤ Text.byteSize s ∧ s.head? = some singleQuote ∧ s.getLast? = some singleQuote then
    (Text.slice? s 1 (Text.byteSize s - 1)).map some
  else some none

/-- The items of the list whose brackets enclose `inner`. -/
def list (inner : List Char) : Option (List String) := do
  let items ← (pieces false inner).mapM fun piece => do
    return (← literal (Text.trim piece)).getD (Text.trim piece)
  return if items = [[]] ∧ singleQuote ∉ inner then [] else items.map String.ofList

variable {s : List Char}

theorem isFunction_iff : isFunction s = true ↔
    ∃ name inner, s = name ++ '\x7b' :: inner ++ ['\x7d'] ∧ IsName name ∧ '\n' ∉ inner := by
  unfold isFunction
  constructor
  · intro form
    split at form
    · next rest brace =>
      simp only [Bool.and_eq_true, Bool.not_eq_true', List.isEmpty_eq_false_iff, decide_eq_true_eq,
        List.contains_eq_mem, decide_eq_false_iff_not] at form
      obtain ⟨⟨ne, closed⟩, line⟩ := form
      obtain ⟨inner, rfl⟩ := List.getLast?_eq_some_iff.mp closed
      rw [List.dropLast_concat] at line
      refine ⟨s.takeWhile isNameChar, inner, ?_, ⟨ne, fun c hc => List.mem_takeWhile_imp hc⟩, line⟩
      rw [List.append_assoc, List.cons_append, ← brace, List.takeWhile_append_dropWhile]
    · cases form
  · rintro ⟨name, inner, rfl, ⟨ne, named⟩, line⟩
    have stops : isNameChar '\x7b' = false := by decide
    simp [List.takeWhile_append_of_pos named, List.dropWhile_append_of_pos named, stops, ne, line]

theorem function_eq (s : List Char) : function s = within (function? s) := by
  unfold function function?
  cases form : functionParts? s with
  | none =>
    have no_function : isFunction s = false := by
      rw [Bool.eq_false_iff]
      intro h
      obtain ⟨name, inner, h⟩ := isFunction_iff.mp h
      rw [functionParts?_eq_some_iff.mpr h] at form
      cases form
    rw [no_function]
    rfl
  | some p =>
    obtain ⟨name, inner⟩ := p
    have shape := functionParts?_eq_some_iff.mp form
    rw [isFunction_iff.mpr ⟨name, inner, shape⟩]
    obtain ⟨rfl, ⟨_, named⟩, _⟩ := shape
    -- No name has a brace in it, so that the first one is the one behind the name.
    have brace : '\x7b' ∉ name := fun h => absurd (named _ h) (by decide)
    have found : Text.find? '\x7b' (name ++ '\x7b' :: inner ++ ['\x7d']) =
        some (Text.byteSize name) := by
      rw [List.append_assoc]
      exact Text.find?_append_cons brace
    have before : Text.slice? (name ++ '\x7b' :: inner ++ ['\x7d']) 0 (Text.byteSize name) =
        some name := by
      rw [List.append_assoc]
      exact Text.slice?_left name _
    have between := Text.slice?_enclosed (c := '\x7b') (d := '\x7d') rfl rfl name inner
    simp only [found, Option.getD_some, slice_bind before, slice_bind between]
    cases Aggregate.ofName? (String.ofList name) <;> rfl

theorem isEnclosed_iff : (2 ≤ Text.byteSize s ∧ s.head? = some singleQuote ∧
    s.getLast? = some singleQuote) ↔ ∃ inner, s = singleQuote :: inner ++ [singleQuote] := by
  have one_byte : singleQuote.utf8Size = 1 := rfl
  constructor
  · rintro ⟨size, first, last⟩
    obtain ⟨rest, rfl⟩ := List.head?_eq_some_iff.mp first
    cases rest with
    | nil =>
      rw [Text.byteSize_cons, Text.byteSize_nil, one_byte] at size
      omega
    | cons c rest =>
      rw [List.getLast?_cons_cons] at last
      obtain ⟨inner, closed⟩ := List.getLast?_eq_some_iff.mp last
      exact ⟨inner, congrArg _ closed⟩
  · rintro ⟨inner, rfl⟩
    refine ⟨?_, rfl, List.getLast?_concat⟩
    simp only [Text.byteSize_append, Text.byteSize_cons, one_byte]
    omega

theorem literal_eq (s : List Char) : literal s = some (between? singleQuote singleQuote s) := by
  unfold literal
  split
  · next enclosed =>
    obtain ⟨inner, rfl⟩ := isEnclosed_iff.mp enclosed
    have inside := Text.slice?_enclosed (c := singleQuote) (d := singleQuote) rfl rfl [] inner
    rw [between?_eq_some_iff.mpr rfl]
    exact congrArg (Option.map some) inside
  · next not_enclosed =>
    rw [between?_eq_none_iff.mpr (not_exists.mp (mt isEnclosed_iff.mpr not_enclosed))]

theorem list_eq (inner : List Char) : list inner = some (listItems inner) := by
  have items : ((pieces false inner).mapM fun piece => do
      return (← literal (Text.trim piece)).getD (Text.trim piece)) =
      some ((pieces false inner).map listItem) := by
    simp only [literal_eq]
    exact List.mapM_pure
  unfold list listItems
  rw [items]
  rfl

end Slicing

/-! ## Words -/

/-- A word as one text, with the offset at which its first quotation begins. -/
structure MarkedWord where
  text : List Char
  quotedFrom : Option Nat
deriving DecidableEq

/-- The word with its two parts put together. -/
def Word.marked (w : Word) : MarkedWord := ⟨w.text, w.quotedFrom⟩

namespace MarkedWord

open Expression

/-- What stands before the first quotation. -/
def bare (w : MarkedWord) : Option (List Char) :=
  match w.quotedFrom with
  | some offset => Text.slice? w.text 0 offset
  | none => some w.text

/-- Whether the first quotation begins at the offset or later. -/
def quotedSince (w : MarkedWord) (offset : Nat) : Bool := w.quotedFrom.any (offset ≤ ·)

/-- The parts of a word, the value by its offset. -/
structure Parts where
  field : List Char
  operator : Option (List Char)
  valueFrom : Option Nat

/-- Cuts a word at the colons that stand before its first quotation. -/
def parts (w : MarkedWord) : Option Parts := do
  let bare ← w.bare
  match Text.find? ':' bare with
  | none => return ⟨w.text, none, none⟩
  | some colon =>
    if (← Text.slice? bare (colon + 1) (Text.byteSize bare)).head? = some ':' then
      let start := colon + 2
      match Text.find? ':' (← Text.slice? bare start (Text.byteSize bare)) with
      | some length =>
        let field ← Text.slice? w.text 0 colon
        let operator ← Text.slice? w.text start (start + length)
        return ⟨field, some operator, some (start + length + 1)⟩
      | none =>
        let field ← Text.slice? w.text 0 colon
        let operator ← Text.slice? w.text start (Text.byteSize w.text)
        return ⟨field, some operator, none⟩
    else
      let field ← Text.slice? w.text 0 colon
      return ⟨field, none, some (colon + 1)⟩

/-- Reads the value of a word; the truth where there is none. -/
def rightSide (w : MarkedWord) (property : Bool) : Option Nat → Slicing RightSide
  | none => return .literal "true"
  | some offset => do
    let raw ← Text.slice? w.text offset (Text.byteSize w.text)
    if w.quotedSince offset then return .literal (String.ofList raw)
    match between? '[' ']' raw with
    | some inner => return .list (← Slicing.list inner)
    | none =>
      match ← Slicing.literal raw with
      | some literal => return .literal (String.ofList literal)
      | none =>
        match ← Slicing.function raw with
        | some (f, path) => return .path path (some f)
        | none =>
          if property then return .path (String.ofList raw) none
          else return .literal (String.ofList raw)

/-- Reads a word as an expression. -/
def parse (w : MarkedWord) : Slicing Expression := do
  let p ← w.parts
  if p.field.isEmpty then throw (.invalidPath (.malformed (String.ofList w.text)))
  let spec ← Slicing.within (operatorOf p.operator)
  let left ← Slicing.function p.field
  let right ← w.rightSide spec.property p.valueFrom
  return ofSides p.field spec left right

variable {w : Word}

/-- A word has its value where a part of what stands before the quotation ends. -/
inductive HasValueFrom (w : Word) : Option Nat → Option (List Char) → Prop
  | absent : HasValueFrom w none none
  | present {before value : List Char} (bare : w.bare = before ++ value) :
    HasValueFrom w (some (Text.byteSize before)) (some (value ++ w.tail))

theorem bare_marked (w : Word) : w.marked.bare = some w.bare := by
  obtain ⟨bare, quoted⟩ := w
  cases quoted with
  | none => exact congrArg some (List.append_nil bare)
  | some q => exact Text.slice?_left bare q

/-- The value begins before the quotation, so a word with one has it in its value. -/
theorem quotedSince_marked {before value : List Char} (bare : w.bare = before ++ value) :
    w.marked.quotedSince (Text.byteSize before) = w.quoted.isSome := by
  obtain ⟨_, quoted⟩ := w
  cases quoted with
  | none => rfl
  | some q =>
    show decide (Text.byteSize before ≤ Text.byteSize _) = true
    rw [decide_eq_true_eq, bare, Text.byteSize_append]
    exact Nat.le_add_right _ _

/-! ### Ranges before the quotation and up to the end -/

section

variable {part rest : List Char} {start stop : Nat}

theorem slice?_marked (before : List Char) (bare : w.bare = before ++ part ++ rest)
    (starts : Text.byteSize before = start) (stops : start + Text.byteSize part = stop) :
    Text.slice? w.marked.text start stop = some part := by
  refine Text.slice?_eq_some_iff.mpr ⟨before, rest ++ w.tail, ?_, starts, stops⟩
  rw [← List.append_assoc, ← bare]
  rfl

theorem slice?_marked_start (bare : w.bare = part ++ rest) :
    Text.slice? w.marked.text 0 (Text.byteSize part) = some part :=
  slice?_marked [] bare rfl (Nat.zero_add _)

theorem slice?_marked_end (before : List Char) (bare : w.bare = before ++ rest)
    (starts : Text.byteSize before = start) :
    Text.slice? w.marked.text start (Text.byteSize w.marked.text) = some (rest ++ w.tail) := by
  have text : w.marked.text = before ++ (rest ++ w.tail) := by
    rw [← List.append_assoc, ← bare]
    rfl
  rw [text, ← starts]
  exact Text.slice?_right before _

end

/-! ### Parts -/

section

variable {field operator rest value : List Char}

theorem parts_marked_plain (colonless : ':' ∉ w.bare) :
    w.marked.parts = some ⟨w.text, none, none⟩ := by
  unfold parts
  rw [bare_marked]
  simp only [Option.bind_eq_bind, Option.bind_some, Text.find?_of_not_mem colonless]
  rfl

theorem parts_marked_short (colonless : ':' ∉ field) (single : value.head? ≠ some ':')
    (bare : w.bare = field ++ ':' :: value) :
    w.marked.parts = some ⟨field, none, some (Text.byteSize field + 1)⟩ := by
  have after := Text.slice?_after (c := ':') rfl field value
  have sliced_field := slice?_marked_start bare
  unfold parts
  rw [bare_marked]
  simp only [Option.bind_eq_bind, Option.bind_some, bare, Text.find?_append_cons colonless, after,
    single, if_false, sliced_field]
  rfl

/-- What stands behind two colons. -/
theorem slice?_after_two (field rest : List Char) :
    Text.slice? (field ++ ':' :: ':' :: rest) (Text.byteSize field + 2)
      (Text.byteSize (field ++ ':' :: ':' :: rest)) = some rest := by
  have after := Text.slice?_after (c := ':') rfl (field ++ [':']) rest
  rwa [Text.byteSize_append, List.append_assoc] at after

theorem parts_marked_long (colonless : ':' ∉ field) (colonless' : ':' ∉ operator)
    (bare : w.bare = field ++ ':' :: ':' :: (operator ++ ':' :: value)) :
    w.marked.parts = some ⟨field, some operator,
      some (Text.byteSize field + 2 + Text.byteSize operator + 1)⟩ := by
  have after := Text.slice?_after (c := ':') rfl field (':' :: (operator ++ ':' :: value))
  have after_two := slice?_after_two field (operator ++ ':' :: value)
  have sliced_field := slice?_marked_start bare
  have sliced_operator : Text.slice? w.marked.text (Text.byteSize field + 2)
      (Text.byteSize field + 2 + Text.byteSize operator) = some operator :=
    slice?_marked (field ++ [':', ':']) (by simpa using bare)
      (Text.byteSize_append field _) rfl
  unfold parts
  rw [bare_marked]
  simp only [Option.bind_eq_bind, Option.bind_some, bare, Text.find?_append_cons colonless, after,
    List.head?_cons, if_true, after_two, Text.find?_append_cons colonless', sliced_field,
    sliced_operator]
  rfl

/-- Without a colon behind it the operator goes on to the end of the word. -/
theorem parts_marked_unfinished (colonless : ':' ∉ field) (colonless' : ':' ∉ rest)
    (bare : w.bare = field ++ ':' :: ':' :: rest) :
    w.marked.parts = some ⟨field, some (rest ++ w.tail), none⟩ := by
  have after := Text.slice?_after (c := ':') rfl field (':' :: rest)
  have sliced_field := slice?_marked_start bare
  have sliced_operator : Text.slice? w.marked.text (Text.byteSize field + 2)
      (Text.byteSize w.marked.text) = some (rest ++ w.tail) :=
    slice?_marked_end (field ++ [':', ':']) (by simpa using bare)
      (Text.byteSize_append field _)
  unfold parts
  rw [bare_marked]
  simp only [Option.bind_eq_bind, Option.bind_some, bare, Text.find?_append_cons colonless, after,
    List.head?_cons, if_true, slice?_after_two field rest, Text.find?_of_not_mem colonless',
    sliced_field, sliced_operator]
  rfl

end

/-- The parts are those of the word, and its value begins where the offset says. -/
theorem parts_marked (w : Word) : ∃ valueFrom,
    w.marked.parts = some ⟨(Expression.parts w).field, (Expression.parts w).operator, valueFrom⟩ ∧
      HasValueFrom w valueFrom (Expression.parts w).value := by
  unfold Expression.parts
  split
  · next no_colon =>
    exact ⟨none, parts_marked_plain (Text.cut_eq_none_iff.mp no_colon), .absent⟩
  · next field rest first =>
    obtain ⟨colonless, bare⟩ := Text.cut_eq_some_iff.mp first
    split
    · next operator value second =>
      obtain ⟨colonless', rfl⟩ := Text.cut_eq_some_iff.mp second
      have value_bare : w.bare = (field ++ [':', ':'] ++ operator ++ [':']) ++ value := by
        simp [bare]
      refine ⟨_, parts_marked_long colonless colonless' bare, ?_⟩
      have value_at := HasValueFrom.present value_bare
      rwa [Text.byteSize_append, Text.byteSize_append, Text.byteSize_append] at value_at
    · next unfinished =>
      exact ⟨none, parts_marked_unfinished colonless (Text.cut_eq_none_iff.mp unfinished) bare,
        .absent⟩
  · next field value single first =>
    obtain ⟨colonless, bare⟩ := Text.cut_eq_some_iff.mp first
    have not_double : value.head? ≠ some ':' := by
      intro double
      obtain ⟨rest, rfl⟩ := List.head?_eq_some_iff.mp double
      exact single rest rfl
    have value_bare : w.bare = (field ++ [':']) ++ value := by simp [bare]
    refine ⟨_, parts_marked_short colonless not_double bare, ?_⟩
    have value_at := HasValueFrom.present value_bare
    rwa [Text.byteSize_append] at value_at

theorem rightSide_marked {property : Bool} {valueFrom : Option Nat} {value : Option (List Char)}
    (h : HasValueFrom w valueFrom value) :
    w.marked.rightSide property valueFrom = .within (Expression.rightSide w property value) := by
  cases h with
  | absent => rfl
  | @present before value bare =>
    unfold rightSide Expression.rightSide
    simp only [Slicing.slice_bind (slice?_marked_end before bare rfl), quotedSince_marked bare]
    cases w.quoted with
    | some => rfl
    | none =>
      unfold bareValue
      simp only [Option.isSome_none]
      cases between? '[' ']' (value ++ w.tail) with
      | some inner => exact Slicing.slice_bind (Slicing.list_eq inner) _
      | none =>
        simp only [Slicing.slice_bind (Slicing.literal_eq _), Slicing.function_eq]
        cases between? singleQuote singleQuote (value ++ w.tail) with
        | some literal => rfl
        | none =>
          refine Slicing.within_bind fun function => ?_
          rcases function with _ | ⟨f, path⟩
          · cases property <;> rfl
          · rfl

/-- A word is read by its offsets as it is by its parts. -/
theorem parse_marked (w : Word) : w.marked.parse = .within (Expression.parse w) := by
  obtain ⟨valueFrom, split, value⟩ := parts_marked w
  unfold parse
  rw [Slicing.slice_bind split]
  by_cases no_field : (Expression.parts w).field = []
  · rw [parse_nil no_field]
    simp only [no_field]
    rfl
  · rw [parse_eq no_field]
    have present : (Expression.parts w).field.isEmpty = false := by simpa using no_field
    simp only [present, Bool.false_eq_true, if_false]
    refine Slicing.within_bind fun spec => ?_
    rw [Slicing.function_eq]
    refine Slicing.within_bind fun left => ?_
    rw [rightSide_marked value]
    exact Slicing.within_bind fun right => rfl

end MarkedWord

end EntityQuery
