import EntityQuery.Filter.Combination
import EntityQuery.Filter.Expression
import EntityQuery.Proofs.Filter.Scanning
import EntityQuery.Proofs.Filter.Words

/-!
# Quoted values

Whatever stands between double quotes, with the quotes and the backslashes in it escaped, is one
part of one word: **a filter written down item by item is cut into these items again**
(`scan_filter`), **and the value of a word that ends in a quotation is the quoted text itself**
(`quoted_value_stays_literal`). What can be written down so is `Writable`: there is something of the
word, and nothing unquoted needs quotes.

Between two items the scanner is always in the same state, up to the parentheses that are open; that
is what is carried through a filter here, from characters (`reads_plain`, `reads_quoted`) to words
(`reads_word`), and from words to items (`reads_item`, `reads_items`).
-/

namespace EntityQuery

/-! ## Filters written down -/

/-- A text as it is written between double quotes. -/
def escapeQuoted (v : List Char) : List Char :=
  v.flatMap fun c => if c = '\\' ∨ c = '"' then ['\\', c] else [c]

namespace Word

/-- The characters of a word with those of its quotation, if it has one, between double quotes. -/
def written (w : Word) : List Char :=
  w.bare ++ (w.quoted.map fun v => '"' :: escapeQuoted v ++ ['"']).getD []

/-- Whether the character stands for itself in a word without being quoted. -/
def IsPlain (c : Char) : Prop := Text.isBlank c = false ∧ c ∉ ['"', '(', ')', '[', ']']

instance (c : Char) : Decidable (IsPlain c) := inferInstanceAs (Decidable (_ ∧ _))

/-- The word can be written down: there is something of it, and nothing unquoted needs quotes. -/
structure Writable (w : Word) : Prop where
  plain : ∀ c ∈ w.bare, IsPlain c
  present : w.bare ≠ [] ∨ w.quoted.isSome

instance (w : Word) : Decidable w.Writable :=
  decidable_of_iff
    (w.bare.all (fun c => decide (IsPlain c)) = true ∧ (w.bare ≠ [] ∨ w.quoted.isSome = true))
    ⟨fun ⟨plain, present⟩ =>
        ⟨fun c hc => of_decide_eq_true (List.all_eq_true.mp plain c hc), present⟩,
      fun ⟨plain, present⟩ =>
        ⟨List.all_eq_true.mpr fun c hc => decide_eq_true (plain c hc), present⟩⟩

end Word

/-- What a filter is written down of. -/
inductive Item where
  | opening
  | closing
  | word (w : Word)

namespace Item

/-- The characters of an item. -/
def written : Item → List Char
  | opening => ['(']
  | closing => [')']
  | word w => w.written

/-- The token of an item that is written at an offset. -/
def token (index : Nat) : Item → Token
  | opening => .opening index
  | closing => .closing index
  | word w => .word index w

/-- The filter that consists of these items, with a blank between two of them. -/
def filter (items : List Item) : String :=
  String.intercalate " " (items.map fun i => String.ofList i.written)

/-- The tokens of items that are written from an offset on, with a blank after each. -/
def tokensFrom (index : Nat) : List Item → List Token
  | [] => []
  | i :: items => i.token index :: tokensFrom (index + Text.byteSize i.written + 1) items

/-- Whether the parentheses among the items are balanced where so many are open around them. -/
def balanced (depth : Nat) : List Item → Bool
  | [] => depth = 0
  | opening :: items => balanced (depth + 1) items
  | closing :: items => 0 < depth && balanced (depth - 1) items
  | word _ :: items => balanced depth items

end Item

namespace Scanner

theorem Reads.one {s next : Scanner} {index : Nat} {c : Char} {ts : List Token}
    (h : s.step index c = .ok (next, ts)) :
    Reads s index [c] ts next (index + Text.byteSize [c]) := by
  have whole := Reads.step h (.done next (index + c.utf8Size))
  rwa [List.append_nil] at whole

/-! ## Words -/

variable {groups : List Nat}

theorem step_plain {brackets : Nat} {c : Char} (plain : Word.IsPlain c) (word : Option OpenWord)
    (index : Nat) : step ⟨word, .outside, brackets, groups⟩ index c =
      .ok (push ⟨word, .outside, brackets, groups⟩ index c, []) := by
  obtain ⟨blank, special⟩ := plain
  simp only [List.mem_cons, List.not_mem_nil, or_false, not_or] at special
  obtain ⟨quote, openGroup, closeGroup, openList, closeList⟩ := special
  simp [step, plainStep, quote, openGroup, closeGroup, openList, closeList, blank]

section

variable (groups)

/-- Characters that each are added to the word that is being read are all added to it. -/
theorem reads_pushed {brackets : Nat} {cs : List Char}
    (pushed : ∀ c ∈ cs, ∀ w index, step ⟨some w, .outside, brackets, groups⟩ index c =
      .ok (⟨some (w.push c), .outside, brackets, groups⟩, [])) (w : OpenWord) (index : Nat) :
    Reads ⟨some w, .outside, brackets, groups⟩ index cs []
      ⟨some (cs.foldl OpenWord.push w), .outside, brackets, groups⟩
      (index + Text.byteSize cs) := by
  induction cs generalizing w index with
  | nil => exact .done _ _
  | cons c cs ih =>
    have rest := ih (fun d hd => pushed d (List.mem_cons_of_mem c hd)) (w.push c)
      (index + c.utf8Size)
    rw [Nat.add_assoc] at rest
    exact .step (pushed c List.mem_cons_self w index) rest

/-- Plain characters are added to the word that is being read, also between square brackets. -/
theorem reads_plain (brackets : Nat) {cs : List Char} (plain : ∀ c ∈ cs, Word.IsPlain c)
    (w : OpenWord) (index : Nat) : Reads ⟨some w, .outside, brackets, groups⟩ index cs []
      ⟨some (cs.foldl OpenWord.push w), .outside, brackets, groups⟩
      (index + Text.byteSize cs) :=
  reads_pushed groups (fun c hc w index => step_plain (plain c hc) (some w) index) w index

/-- Between double quotes every character, escaped or not, is added to the word. -/
theorem reads_quoted (brackets : Nat) (v : List Char) (w : OpenWord) (index : Nat) :
    Reads ⟨some w, .inside, brackets, groups⟩ index (escapeQuoted v) []
      ⟨some (v.foldl OpenWord.push w), .inside, brackets, groups⟩
      (index + Text.byteSize (escapeQuoted v)) := by
  induction v generalizing w index with
  | nil => exact .done _ _
  | cons c v ih =>
    have character : Reads ⟨some w, .inside, brackets, groups⟩ index
        (if c = '\\' ∨ c = '"' then ['\\', c] else [c]) []
        ⟨some (w.push c), .inside, brackets, groups⟩
        (index + Text.byteSize (if c = '\\' ∨ c = '"' then ['\\', c] else [c])) := by
      by_cases special : c = '\\' ∨ c = '"'
      · rw [if_pos special]
        have backslash : step ⟨some w, .inside, brackets, groups⟩ index '\\' =
            .ok (⟨some w, .escaped, brackets, groups⟩, []) := rfl
        have itself : step ⟨some w, .escaped, brackets, groups⟩ (index + '\\'.utf8Size) c =
            .ok (⟨some (w.push c), .inside, brackets, groups⟩, []) := rfl
        have both := Reads.step backslash (.one itself)
        rwa [Nat.add_assoc] at both
      · rw [if_neg special]
        rw [not_or] at special
        have itself : step ⟨some w, .inside, brackets, groups⟩ index c =
            .ok (⟨some (w.push c), .inside, brackets, groups⟩, []) := by
          simp [step, special, push, wordAt]
        exact .one itself
    have whole := character.append (ih (w.push c) _)
    rwa [List.nil_append, Nat.add_assoc, ← Text.byteSize_append] at whole

theorem foldl_push_bare (start : Nat) (bare cs : List Char) :
    cs.foldl OpenWord.push ⟨start, bare, none⟩ = ⟨start, cs.reverse ++ bare, none⟩ := by
  induction cs generalizing bare with
  | nil => rfl
  | cons c cs ih =>
    rw [List.foldl_cons, OpenWord.push, ih, List.reverse_cons, List.append_assoc]
    rfl

theorem foldl_push_quoted (start : Nat) (bare quoted v : List Char) :
    v.foldl OpenWord.push ⟨start, bare, some quoted⟩ =
      ⟨start, bare, some (v.reverse ++ quoted)⟩ := by
  induction v generalizing quoted with
  | nil => rfl
  | cons c v ih =>
    rw [List.foldl_cons, OpenWord.push, ih, List.reverse_cons, List.append_assoc]
    rfl

/-- What has been read of a word without a quotation. -/
theorem reads_bare {bare : List Char} (plain : ∀ c ∈ bare, Word.IsPlain c) (index : Nat) :
    Reads ⟨none, .outside, 0, groups⟩ index bare []
      ⟨if bare = [] then none else some ⟨index, bare.reverse, none⟩, .outside, 0, groups⟩
      (index + Text.byteSize bare) := by
  cases bare with
  | nil => exact .done _ _
  | cons c cs =>
    have rest := reads_plain groups 0
      (fun d hd => plain d (List.mem_cons_of_mem c hd)) ⟨index, [c], none⟩ (index + c.utf8Size)
    rw [foldl_push_bare, Nat.add_assoc] at rest
    rw [if_neg (List.cons_ne_nil c cs), List.reverse_cons]
    exact .step (step_plain (plain c List.mem_cons_self) none index) rest

theorem reads_word {w : Word} (writable : w.Writable) (index : Nat) :
    ∃ o, Reads ⟨none, .outside, 0, groups⟩ index w.written [] ⟨some o, .outside, 0, groups⟩
      (index + Text.byteSize w.written) ∧ o.token = .word index w := by
  obtain ⟨bare, quoted⟩ := w
  have first := reads_bare groups writable.plain index
  cases quoted with
  | none =>
    have some_bare : bare ≠ [] := by simpa using writable.present
    rw [if_neg some_bare] at first
    refine ⟨⟨index, bare.reverse, none⟩, ?_, by simp [OpenWord.token]⟩
    simpa [Word.written] using first
  | some v =>
    refine ⟨⟨index, bare.reverse, some v.reverse⟩, ?_, by simp [OpenWord.token]⟩
    -- The quotation begins in the word so far, or begins the word.
    have opens (at' : Nat) : step ⟨if bare = [] then none else some ⟨index, bare.reverse, none⟩,
        .outside, 0, groups⟩ at' '"' = .ok (⟨some ⟨if bare = [] then at' else index,
          bare.reverse, some []⟩, .inside, 0, groups⟩, []) := by
      by_cases empty : bare = []
      · subst empty
        rfl
      · rw [if_neg empty, if_neg empty]
        rfl
    have same : (if bare = [] then index + Text.byteSize bare else index) = index := by
      split
      · next empty => rw [empty]; rfl
      · rfl
    have inner := reads_quoted groups 0 v ⟨index, bare.reverse, some []⟩
      (index + Text.byteSize bare + 1)
    rw [foldl_push_quoted, List.append_nil] at inner
    have closes (at' : Nat) : Reads ⟨some ⟨index, bare.reverse, some v.reverse⟩, .inside, 0, groups⟩
        at' ['"'] [] ⟨some ⟨index, bare.reverse, some v.reverse⟩, .outside, 0, groups⟩
        (at' + Text.byteSize ['"']) := .one rfl
    have begun := opens (index + Text.byteSize bare)
    rw [same] at begun
    have whole := first.append (.step begun (inner.append (closes _)))
    simpa [Word.written, Nat.add_assoc, show '"'.utf8Size = 1 from rfl] using whole

end

/-! ## Items -/

/-- After an item the scanner is in the state before it again, but for the parentheses that are
open, and for a word that ends with the next blank. -/
theorem reads_item {i : Item} (writable : ∀ w, i = .word w → w.Writable) {items : List Item}
    (balanced : Item.balanced groups.length (i :: items) = true) (index : Nat) :
    ∃ word ts groups', Reads ⟨none, .outside, 0, groups⟩ index i.written ts
        ⟨word, .outside, 0, groups'⟩ (index + Text.byteSize i.written) ∧
      ts ++ flush ⟨word, .outside, 0, groups'⟩ = [i.token index] ∧
      Item.balanced groups'.length items = true := by
  cases i with
  | opening => exact ⟨none, [.opening index], index :: groups, .one rfl, rfl, balanced⟩
  | closing =>
    cases groups with
    | nil => cases balanced
    | cons first outer =>
      refine ⟨none, [.closing index], outer, .one rfl, rfl, ?_⟩
      simpa [Item.balanced] using balanced
  | word w =>
    obtain ⟨o, reads, token⟩ := reads_word groups (writable w rfl) index
    exact ⟨some o, [], groups, reads, congrArg (fun t => [t]) token, balanced⟩

theorem reads_items {items : List Item} (writable : ∀ w, .word w ∈ items → w.Writable)
    (balanced : Item.balanced groups.length items = true) (index : Nat) :
    ∃ ts s' index', Reads ⟨none, .outside, 0, groups⟩ index
        (List.intercalate [' '] (items.map Item.written)) ts s' index' ∧
      s'.groups = [] ∧ ts ++ s'.flush = Item.tokensFrom index items := by
  induction items generalizing groups index with
  | nil =>
    have none_open : groups = [] := by simpa [Item.balanced] using balanced
    exact ⟨[], _, index, .done _ _, none_open, rfl⟩
  | cons i items ih =>
    obtain ⟨word, ts, groups', reads, token, balanced'⟩ :=
      reads_item (fun w hw => writable w (hw ▸ List.mem_cons_self)) balanced index
    have writable' : ∀ w, .word w ∈ items → w.Writable :=
      fun w hw => writable w (List.mem_cons_of_mem i hw)
    cases items with
    | nil =>
      have none_open : groups' = [] := by simpa [Item.balanced] using balanced'
      refine ⟨ts, _, index + Text.byteSize i.written, ?_, none_open, token⟩
      rwa [List.map_singleton, List.intercalate_singleton]
    | cons j items =>
      have blank : step ⟨word, .outside, 0, groups'⟩ (index + Text.byteSize i.written) ' ' =
          .ok (⟨none, .outside, 0, groups'⟩, flush ⟨word, .outside, 0, groups'⟩) := rfl
      obtain ⟨us, s', index', rest, none_open, tokens⟩ := ih writable' balanced'
        (index + Text.byteSize i.written + 1)
      have whole := (reads.append (.one blank)).append rest
      rw [token] at whole
      refine ⟨[i.token index] ++ us, s', index', ?_, none_open, congrArg (_ :: ·) tokens⟩
      rw [List.map_cons, List.map_cons, List.intercalate_cons_cons]
      exact whole

/-- A filter that is written down of items is cut into their tokens. -/
theorem scan_filter {items : List Item} (writable : ∀ w, .word w ∈ items → w.Writable)
    (balanced : Item.balanced 0 items = true) :
    scan (Item.filter items) = .ok (Item.tokensFrom 0 items) := by
  have text : (Item.filter items).toList = List.intercalate [' '] (items.map Item.written) := by
    simp [Item.filter, String.toList_intercalate, Function.comp_def]
  have closed : Item.balanced ([] : List Nat).length items = true := balanced
  obtain ⟨ts, s', index', reads, none_open, tokens⟩ := reads_items writable closed 0
  unfold scan
  rw [text, run_eq_ok_iff]
  refine ⟨ts, s'.flush, s', index', reads, ?_, tokens.symm⟩
  unfold finish
  rw [none_open]
  rfl

end Scanner

/-! ## Quoted values -/

namespace Expression

/-- How an operator with its marks is written. -/
def OperatorSpec.written (spec : OperatorSpec) : List Char :=
  (if spec.negate then "not_".toList else []) ++ spec.operator.name.toList ++
    (if spec.property then "_prop".toList else [])

theorem name_of_ofName? {s : String} {o : Operator} (h : Operator.ofName? s = some o) :
    s = o.name := by
  unfold Operator.ofName? at h
  split at h
  all_goals
    cases h
  all_goals
    rfl

theorem written_of_named {name : List Char} {operator : Operator} (negate property : Bool)
    (h : Operator.ofName? (String.ofList name) = some operator) :
    (OperatorSpec.mk operator negate property).written =
      (if negate then "not_".toList else []) ++ name ++
        (if property then "_prop".toList else []) := by
  rw [OperatorSpec.written, ← name_of_ofName? h, @String.toList_ofList name]

/-- Only what is written for an operator with its marks is read as one. -/
theorem written_of_operatorSpec {op : List Char} {spec : OperatorSpec}
    (h : operatorSpec op = .ok spec) : op = spec.written := by
  unfold operatorSpec at h
  -- What is left when the marks are taken off is the name of the operator.
  cases hstart : Text.dropStart? "not_".toList op with
  | none =>
    cases hend : Text.dropEnd? "_prop".toList op with
    | none =>
      simp only [hstart, hend] at h
      split at h
      · next operator named =>
        cases h
        rw [written_of_named false false named]
        simp
      · cases h
    | some rest =>
      simp only [hstart, hend] at h
      split at h
      · next operator named =>
        cases h
        rw [written_of_named false true named, ← List.isSuffixOf?_eq_some_iff_append_eq.mp hend]
        simp
      · cases h
  | some marked =>
    rw [← List.isPrefixOf?_eq_some_iff_append_eq.mp hstart]
    cases hend : Text.dropEnd? "_prop".toList marked with
    | none =>
      simp only [hstart, hend] at h
      split at h
      · next operator named =>
        cases h
        rw [written_of_named true false named]
        simp
      · cases h
    | some rest =>
      simp only [hstart, hend] at h
      split at h
      · next operator named =>
        cases h
        rw [written_of_named true true named, ← List.isSuffixOf?_eq_some_iff_append_eq.mp hend]
        simp
      · cases h

theorem colon_not_mem_written (spec : OperatorSpec) : ':' ∉ spec.written := by
  obtain ⟨operator, negate, property⟩ := spec
  cases operator <;> cases negate <;> cases property <;> decide

/-- A quoted value of a field is a literal, whatever stands in it. -/
theorem parse_quoted {w : Word} {v f : List Char} (quoted : w.quoted = some v) (some_field : f ≠ [])
    (colon : ':' ∉ f) (plain : functionParts? f = none) (bare : w.bare = f ++ [':']) :
    parse w = .ok ⟨String.ofList f, none, .eq, false, false, .literal (String.ofList v)⟩ := by
  have split := parts_short (w := w) colon (by simp) bare
  rw [parse_eq (by rw [split]; exact some_field), split]
  simp [operatorOf, ofSides, function?, plain, rightSide, quoted, Word.tail, OperatorSpec.default,
    appliesFunction]

/-- A quoted value that is compared by an operator is a literal, even if the operator asks for a
path. -/
theorem parse_quoted_operator {w : Word} {v f op : List Char} {spec : OperatorSpec}
    (quoted : w.quoted = some v) (some_field : f ≠ []) (colon : ':' ∉ f)
    (plain : functionParts? f = none) (valid : operatorSpec op = .ok spec)
    (bare : w.bare = f ++ "::".toList ++ op ++ [':']) :
    parse w = .ok ⟨String.ofList f, none, spec.operator, spec.negate, spec.property,
      .literal (String.ofList v)⟩ := by
  have colonless : ':' ∉ op := written_of_operatorSpec valid ▸ colon_not_mem_written spec
  have split := parts_long (w := w) colon colonless bare
  rw [parse_eq (by rw [split]; exact some_field), split]
  simp [operatorOf, valid, ofSides, function?, plain, rightSide, quoted, Word.tail,
    appliesFunction]

/-- A word with a quotation joins nothing. -/
theorem logical?_quoted {w : Word} {v : List Char} (quoted : w.quoted = some v) :
    w.logical? = none := by
  simp [Word.logical?, quoted]

/-- **A quoted value is a literal, whatever stands in it.** A filter written down item by item is
cut into just these items. A word of it that has a quotation joins nothing, and if it compares a
field, by itself or by an operator, it compares it with the quoted text as a literal. -/
theorem quoted_value_stays_literal {items : List Item}
    (writable : ∀ w, .word w ∈ items → w.Writable) (balanced : Item.balanced 0 items = true) :
    scan (Item.filter items) = .ok (Item.tokensFrom 0 items) ∧
    ∀ w v, .word w ∈ items → w.quoted = some v → w.logical? = none ∧
      ∀ f, f ≠ [] → ':' ∉ f → functionParts? f = none →
        (w.bare = f ++ [':'] →
          parse w = .ok ⟨String.ofList f, none, .eq, false, false, .literal (String.ofList v)⟩) ∧
        ∀ op spec, operatorSpec op = .ok spec → w.bare = f ++ "::".toList ++ op ++ [':'] →
          parse w = .ok ⟨String.ofList f, none, spec.operator, spec.negate, spec.property,
            .literal (String.ofList v)⟩ := by
  refine ⟨Scanner.scan_filter writable balanced, fun w v _ quoted => ?_⟩
  refine ⟨logical?_quoted quoted, fun f some_field colon plain => ⟨?_, ?_⟩⟩
  · exact parse_quoted quoted some_field colon plain
  · intro op spec valid
    exact parse_quoted_operator quoted some_field colon plain valid

namespace Breakout

/-- A value with everything in it that means something outside quotes. -/
def value : List Char := "\" or (x:1) [é] and not 'y' \\".toList

def named : Word := ⟨"name:".toList, some value⟩

def matched : Word := ⟨"näme::not_in_prop:".toList, some value⟩

def items : List Item := [.opening, .word named, .word (.plain "or"), .word matched, .closing]

end Breakout

open Breakout in
theorem quoted_value_stays_literal_breakout :
    scan (Item.filter items) = .ok [.opening 0, .word 2 named, .word 41 (.plain "or"),
      .word 44 matched, .closing 97] ∧
    parse named = .ok ⟨"name", none, .eq, false, false, .literal (String.ofList value)⟩ ∧
    parse matched = .ok ⟨"näme", none, .isIn, true, true, .literal (String.ofList value)⟩ := by
  have writable : ∀ w, .word w ∈ items → w.Writable := by
    intro w hw
    simp only [items, List.mem_cons, Item.word.injEq, reduceCtorEq, List.not_mem_nil, or_false,
      false_or] at hw
    rcases hw with rfl | rfl | rfl
    all_goals decide +kernel
  obtain ⟨scanned, values⟩ := quoted_value_stays_literal writable (by decide)
  refine ⟨?_, ?_, ?_⟩
  · exact scanned
  · have h := values named value (by simp [items]) rfl
    exact (h.2 "name".toList (by decide) (by decide) (by decide +kernel)).1 rfl
  · have h := values matched value (by simp [items]) rfl
    exact (h.2 "näme".toList (by decide) (by decide) (by decide +kernel)).2 "not_in_prop".toList
      ⟨.isIn, true, true⟩ (by decide +kernel) rfl

end Expression

end EntityQuery
