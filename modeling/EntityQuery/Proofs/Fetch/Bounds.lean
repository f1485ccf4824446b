import EntityQuery.Fetch.PlanText
import EntityQuery.Proofs.Outcome
import EntityQuery.Proofs.Text.Trimming

/-!
# The text of a bounded fetch

A bounded fetch asks for the targets between two positions, counted from one, either of which can be
left out (`Asks`). Reading its text turns the positions into an offset and a number of targets
without leaving the range of 64 bits: **what is read as a part of the targets is what the text asks
for, and nothing else is** (`bounds_eq_ok_iff`, with `Spans` for what an offset and a number stand
for).

The name in front is read up to the first character that does not belong to it (`fetch_named`), and
a sort order up to its closing parenthesis (`bracketed_order`), so that neither depends on what
follows.
-/

namespace EntityQuery

/-! ## Numerals -/

namespace Decimal

/-- A numeral is made of digits, possibly after a plus sign. -/
theorem mem_of_natural? {s : List Char} {n : Nat} (h : natural? s = some n) :
    s ≠ [] ∧ n < UInt64.size ∧ ∀ c ∈ s, c = '+' ∨ c.isDigit = true := by
  obtain ⟨h, small⟩ := Option.filter_eq_some_iff.mp h
  have digits {t : List Char} (h : digits? t = some n) :
      t ≠ [] ∧ ∀ c ∈ t, c.isDigit = true := by
    unfold digits? at h
    split at h
    · cases h
    · next hd => simpa using hd
  split at h
  · next r =>
    refine ⟨List.cons_ne_nil _ _, of_decide_eq_true small, fun c hc => ?_⟩
    rcases List.mem_cons.mp hc with rfl | hc
    · exact .inl rfl
    · exact .inr ((digits h).2 c hc)
  · exact ⟨(digits h).1, of_decide_eq_true small, fun c hc => .inr ((digits h).2 c hc)⟩

/-- The digits of a number are a numeral for it. -/
theorem natural?_text {n : Nat} (h : n < UInt64.size) : natural? (text n) = some n := by
  have first : ∀ r, text n ≠ '+' :: r := by
    intro r hr
    have digit : '+'.isDigit = true := isDigit_of_mem_text (n := n) (by rw [hr]; simp)
    revert digit
    decide
  unfold natural?
  split
  · next r hr => exact absurd hr (first r)
  · rw [digits?_text, Option.filter_some, if_pos (by simpa using h)]

theorem solid_of_natural? {s : List Char} {n : Nat} (h : natural? s = some n) :
    Text.Solid s := by
  intro c hc
  rcases (mem_of_natural? h).2.2 c hc with rfl | digit
  · decide
  · exact Text.isBlank_of_isDigit digit

end Decimal

namespace Fetch

/-! ## The positions -/

/-- The text is a numeral for a position, with blanks around it. -/
def IsPosition (t : List Char) (n : Nat) : Prop :=
  ∃ a w b, t = a ++ w ++ b ∧ Text.Blanks a ∧ Text.Blanks b ∧ Decimal.natural? w = some n ∧ 1 ≤ n

theorem isPosition_text {n : Nat} (hn : 1 ≤ n) (small : n < UInt64.size) :
    IsPosition (Decimal.text n) n :=
  ⟨[], Decimal.text n, [], by simp, by simp [Text.Blanks], by simp [Text.Blanks],
    Decimal.natural?_text small, hn⟩

/-- The text between square brackets asks for the targets from a first position to a last one, or to
the end. -/
inductive Asks : List Char → Nat → Option Nat → Prop
  | one {t : List Char} {n : Nat} (position : IsPosition t n) : Asks t n (some n)
  | span {t u : List Char} {a b : Nat} (first : IsPosition t a) (last : IsPosition u b)
      (ordered : a ≤ b) : Asks (t ++ ':' :: u) a (some b)
  | onward {t u : List Char} {a : Nat} (first : IsPosition t a) (blank : Text.Blanks u) :
      Asks (t ++ ':' :: u) a none
  | upTo {t u : List Char} {b : Nat} (blank : Text.Blanks t) (last : IsPosition u b) :
      Asks (t ++ ':' :: u) 1 (some b)

/-- From this offset on, this many targets are those from the first position to the last one, and
the positions have 64 bits. -/
def Spans (first : Nat) (last : Option Nat) (offset : Nat) (limit : Option Nat) : Prop :=
  offset + 1 = first ∧ limit.map (offset + ·) = last ∧
    first < UInt64.size ∧ ∀ n ∈ last, n < UInt64.size

theorem position_of_blanks {t : List Char} (h : Text.Blanks t) : position t = .ok none := by
  simp [position, Text.trim_of_blanks h]

section

variable {a w b : List Char} {n : Nat} (ha : Text.Blanks a) (hb : Text.Blanks b)
  (hw : Decimal.natural? w = some n)

include hw

theorem bare_of_natural? : Text.Bare w :=
  (Decimal.solid_of_natural? hw).bare (Decimal.mem_of_natural? hw).1

include ha hb

theorem position_of_natural? (hn : 1 ≤ n) : position (a ++ w ++ b) = .ok (some n) := by
  have bare := bare_of_natural? hw
  obtain ⟨m, rfl⟩ := Nat.exists_eq_add_of_le' hn
  simp only [position, Text.trim_append ha bare hb, List.isEmpty_iff, bare.1, if_false, hw]

/-- A character that is neither a blank nor part of a numeral does not stand in a position. -/
theorem not_mem_position {c : Char} (blank : Text.isBlank c = false) (plus : c ≠ '+')
    (digit : c.isDigit = false) : c ∉ a ++ w ++ b := by
  simp only [List.mem_append, not_or]
  refine ⟨⟨fun h => ?_, fun h => ?_⟩, fun h => ?_⟩
  · simp [ha c h] at blank
  · simpa [plus, digit] using (Decimal.mem_of_natural? hw).2.2 c h
  · simp [hb c h] at blank

end

/-- The text between square brackets is read as what it asks for. -/
theorem bounds_of_asks {body : List Char} {first : Nat} {last : Option Nat}
    (h : Asks body first last) :
    ∃ offset limit, bounds body = .ok (some (offset, limit)) ∧ Spans first last offset limit := by
  have nothing : Text.Blanks [] := by simp [Text.Blanks]
  have colon : Text.Bare [':'] := Text.bare_singleton (by decide)
  have apart {a w b : List Char} {n : Nat} (ha : Text.Blanks a) (hb : Text.Blanks b)
      (hw : Decimal.natural? w = some n) : ':' ∉ a ++ w ++ b :=
    not_mem_position ha hb hw (by decide) (by decide) (by decide)
  -- The blanks around the whole text are trimmed first, then those on either side of the colon.
  cases h with
  | one position =>
    obtain ⟨a, w, b, rfl, ha, hb, hw, hn⟩ := position
    have small := (Decimal.mem_of_natural? hw).2.1
    have uncut := Text.cut_eq_none_iff.mpr (apart nothing nothing hw)
    have read := position_of_natural? nothing nothing hw hn
    rw [List.nil_append, List.append_nil] at uncut read
    refine ⟨first - 1, some 1, ?_, by omega, ?_, small, by simpa using small⟩
    · simp only [bounds, Text.trim_append ha (bare_of_natural? hw) hb, uncut, read, ok_bind]
      rfl
    · simp only [Option.map_some, Option.some.injEq]
      omega
  | @span _ _ _ last position position' ordered =>
    obtain ⟨a, w, b, rfl, ha, hb, hw, hn⟩ := position
    obtain ⟨a', w', b', rfl, ha', hb', hw', hm⟩ := position'
    have small := (Decimal.mem_of_natural? hw).2.1
    have small' := (Decimal.mem_of_natural? hw').2.1
    have trimmed : Text.trim (a ++ w ++ b ++ ':' :: (a' ++ w' ++ b')) =
        w ++ b ++ ':' :: (a' ++ w') := by
      have bare := (bare_of_natural? hw).between (b ++ ':' :: a') (bare_of_natural? hw')
      simpa using Text.trim_append ha bare hb'
    have cut := Text.cut_append_cons (b := a' ++ w') (apart nothing hb hw)
    have read := position_of_natural? nothing hb hw hn
    have read' := position_of_natural? ha' nothing hw' hm
    rw [List.nil_append] at cut read
    rw [List.append_nil] at read'
    refine ⟨first - 1, some (last - first + 1), ?_, by omega, ?_, small, by simpa using small'⟩
    · simp only [bounds, trimmed, cut, read, read', ok_bind, Option.getD_some,
        if_neg (Nat.not_lt.mpr ordered)]
      rfl
    · simp only [Option.map_some, Option.some.injEq]
      omega
  | @onward _ u _ position blank =>
    obtain ⟨a, w, b, rfl, ha, hb, hw, hn⟩ := position
    have small := (Decimal.mem_of_natural? hw).2.1
    have trimmed : Text.trim (a ++ w ++ b ++ ':' :: u) = w ++ b ++ [':'] := by
      simpa using Text.trim_append ha ((bare_of_natural? hw).between b colon) blank
    have cut := Text.cut_append_cons (b := []) (apart nothing hb hw)
    have read := position_of_natural? nothing hb hw hn
    rw [List.nil_append] at cut read
    refine ⟨first - 1, none, ?_, by omega, rfl, small, by simp⟩
    simp only [bounds, trimmed, cut, read, position_of_blanks nothing, ok_bind]
    rfl
  | @upTo t _ last blank position =>
    obtain ⟨a', w', b', rfl, ha', hb', hw', hm⟩ := position
    have small := (Decimal.mem_of_natural? hw').2.1
    have trimmed : Text.trim (t ++ ':' :: (a' ++ w' ++ b')) = ':' :: (a' ++ w') := by
      simpa using Text.trim_append blank (colon.between a' (bare_of_natural? hw')) hb'
    have cut := Text.cut_append_cons (a := []) (c := ':') (b := a' ++ w') (by simp)
    have read := position_of_natural? ha' nothing hw' hm
    rw [List.append_nil] at read
    rw [List.nil_append] at cut
    refine ⟨0, some last, ?_, rfl, by simp, by decide, by simpa using small⟩
    simp only [bounds, trimmed, cut, read, position_of_blanks nothing, ok_bind, Option.getD_none,
      if_neg (Nat.not_lt.mpr hm)]
    rw [Nat.sub_add_cancel hm]
    rfl

theorem IsPosition.between {a t b : List Char} {n : Nat} (ha : Text.Blanks a) (h : IsPosition t n)
    (hb : Text.Blanks b) : IsPosition (a ++ t ++ b) n := by
  obtain ⟨a', w, b', rfl, ha', hb', hw, hn⟩ := h
  refine ⟨a ++ a', w, b' ++ b, by simp, ?_, ?_, hw, hn⟩
  · exact List.forall_mem_append.mpr ⟨ha, ha'⟩
  · exact List.forall_mem_append.mpr ⟨hb', hb⟩

theorem position_eq_ok {t : List Char} {n : Option Nat} (h : position t = .ok n) :
    (n = none ∧ Text.Blanks t) ∨ ∃ m, n = some m ∧ IsPosition t m := by
  obtain ⟨a, b, around, ha, hb⟩ := Text.exists_blanks_around t
  unfold position at h
  dsimp only at h
  split at h
  · next empty =>
    cases h
    rw [List.isEmpty_iff.mp empty, List.append_nil] at around
    exact .inl ⟨rfl, around ▸ List.forall_mem_append.mpr ⟨ha, hb⟩⟩
  · split at h
    · cases h
    · next m positive hm =>
      cases h
      exact .inr ⟨m, rfl, a, _, b, around, ha, hb, hm, Nat.pos_of_ne_zero positive⟩
    · cases h

/-- What is read as a part of the targets asks for one. -/
theorem exists_asks_of_bounds {body : List Char} {part : Nat × Option Nat}
    (h : bounds body = .ok (some part)) : ∃ first last, Asks body first last := by
  obtain ⟨a, b, around, ha, hb⟩ := Text.exists_blanks_around body
  unfold bounds at h
  dsimp only at h
  split at h
  · obtain ⟨n, hn, h⟩ := bind_eq_ok.mp h
    rcases position_eq_ok hn with ⟨rfl, -⟩ | ⟨n, rfl, position⟩
    · cases h
    · exact ⟨n, some n, .one (around ▸ position.between ha hb)⟩
  · next t u cut =>
    obtain ⟨-, parts⟩ := Text.cut_eq_some_iff.mp cut
    obtain ⟨m, hm, h⟩ := bind_eq_ok.mp h
    obtain ⟨n, hn, h⟩ := bind_eq_ok.mp h
    have whole : body = (a ++ t) ++ ':' :: (u ++ b) := by
      rw [around, parts]
      simp
    have nothing : Text.Blanks [] := by simp [Text.Blanks]
    rw [whole]
    rcases position_eq_ok hm with ⟨rfl, blank⟩ | ⟨m, rfl, first⟩ <;>
      rcases position_eq_ok hn with ⟨rfl, blank'⟩ | ⟨n, rfl, last⟩
    · cases h
    · have last := last.between nothing hb
      exact ⟨1, some n, .upTo (List.forall_mem_append.mpr ⟨ha, blank⟩) last⟩
    · have first := first.between ha nothing
      rw [List.append_nil] at first
      exact ⟨m, none, .onward first (List.forall_mem_append.mpr ⟨blank', hb⟩)⟩
    · have first := first.between ha nothing
      have last := last.between nothing hb
      rw [List.append_nil] at first
      dsimp only at h
      split at h
      · cases h
      · next ordered => exact ⟨m, some n, .span first last (Nat.not_lt.mp ordered)⟩

/-- What is read as a part of the targets is what the text asks for, and nothing else is. -/
theorem bounds_eq_ok_iff {body : List Char} {offset : Nat} {limit : Option Nat} :
    bounds body = .ok (some (offset, limit)) ↔
      ∃ first last, Asks body first last ∧ Spans first last offset limit := by
  constructor
  · intro h
    obtain ⟨first, last, asks⟩ := exists_asks_of_bounds h
    obtain ⟨offset', limit', read, spans⟩ := bounds_of_asks asks
    cases read.symm.trans h
    exact ⟨first, last, asks, spans⟩
  · rintro ⟨first, last, asks, spans⟩
    obtain ⟨offset', limit', read, spans'⟩ := bounds_of_asks asks
    obtain rfl : offset = offset' := Nat.succ.inj (spans.1.trans spans'.1.symm)
    have same := spans.2.1.trans spans'.2.1.symm
    rw [Option.map_injective (fun _ _ => Nat.add_left_cancel) same]
    exact read

/-- No square bracket is closed between those of the fetch. -/
theorem not_mem_of_asks {body : List Char} {first : Nat} {last : Option Nat}
    (h : Asks body first last) : ']' ∉ body := by
  have inPosition {t : List Char} {n : Nat} (h : IsPosition t n) : ']' ∉ t := by
    obtain ⟨a, w, b, rfl, ha, hb, hw, _⟩ := h
    exact not_mem_position ha hb hw (by decide) (by decide) (by decide)
  have inBlanks {t : List Char} (h : Text.Blanks t) : ']' ∉ t := by
    intro bracket
    have blank := h ']' bracket
    revert blank
    decide
  cases h with
  | one position => exact inPosition position
  | span position position' _ => simp [inPosition position, inPosition position']
  | onward position blank => simp [inPosition position, inBlanks blank]
  | upTo blank position => simp [inPosition position, inBlanks blank]

/-! ## The sort order -/

/-- The text is a field and a direction around a colon, with blanks around each. -/
def IsSortEntry (item : List Char) (key : SortKey) : Prop :=
  ∃ a b c d name, item = a ++ key.field.toList ++ b ++ ':' :: (c ++ name ++ d) ∧
    (Text.Blanks a ∧ Text.Blanks b ∧ Text.Blanks c ∧ Text.Blanks d) ∧
    (Text.Bare key.field.toList ∧ ':' ∉ key.field.toList) ∧
    Text.Bare name ∧ Direction.ofName? name = some key.direction

/-- The text after the square brackets asks for a sort order, if there is any. -/
inductive AsksForOrder : List Char → List SortKey → Prop
  | absent : AsksForOrder [] []
  | given {entries : List (List Char)} {sorting : List SortKey} (ne : entries ≠ [])
      (read : List.Forall₂ IsSortEntry entries sorting)
      (plain : ∀ item ∈ entries, ',' ∉ item ∧ ')' ∉ item) :
      AsksForOrder ('(' :: ([','].intercalate entries ++ [')'])) sorting

/-- Without the blanks around it an entry is cut at the colon after the field. -/
theorem IsSortEntry.trim_eq {item : List Char} {key : SortKey} (h : IsSortEntry item key) :
    ∃ b name, Text.trim item = key.field.toList ++ b ++ ':' :: name ∧
      ':' ∉ key.field.toList ++ b ∧ Text.trim (key.field.toList ++ b) = key.field.toList ∧
      Direction.ofName? (Text.trim name) = some key.direction := by
  obtain ⟨a, b, c, d, name, rfl, ⟨ha, hb, hc, hd⟩, ⟨field, colon⟩, bare, direction⟩ := h
  have nothing : Text.Blanks [] := by simp [Text.Blanks]
  refine ⟨b, c ++ name, ?_, ?_, ?_, ?_⟩
  · simpa using Text.trim_append ha (field.between (b ++ ':' :: c) bare) hd
  · rw [List.mem_append, not_or]
    refine ⟨colon, fun blank => ?_⟩
    have blank := hb ':' blank
    revert blank
    decide
  · simpa using Text.trim_append nothing field hb
  · have trimmed := Text.trim_append hc bare nothing
    rw [List.append_nil] at trimmed
    rw [trimmed, direction]

theorem sortEntry_of_isSortEntry {item : List Char} {key : SortKey} (h : IsSortEntry item key) :
    sortEntry item = .ok key := by
  obtain ⟨b, name, trimmed, colon, field, direction⟩ := h.trim_eq
  obtain ⟨_, _, _, _, _, _, _, ⟨⟨ne, _⟩, _⟩, _⟩ := h
  simp only [sortEntry, trimmed, Text.cut_append_cons colon, direction, field, List.isEmpty_iff,
    ne, if_false, String.ofList_toList]

theorem sortOrder_intercalate {entries : List (List Char)} {sorting : List SortKey}
    (ne : entries ≠ []) (read : List.Forall₂ IsSortEntry entries sorting)
    (plain : ∀ item ∈ entries, ',' ∉ item) :
    sortOrder ([','].intercalate entries) = .ok sorting := by
  rw [sortOrder, List.splitOn_intercalate ',' plain ne]
  exact mapM_eq_ok.mpr (read.imp fun _ _ => sortEntry_of_isSortEntry)

/-! ## The whole text -/

/-- The text is the name of an association, the positions between square brackets and the sort
order, if there is any. -/
def IsBounded (text name : String) (first : Nat) (last : Option Nat) (sorting : List SortKey) :
    Prop :=
  ∃ body order, text.toList = name.toList ++ '[' :: (body ++ ']' :: order) ∧
    (name ≠ "" ∧ ∀ c ∈ name.toList, FetchPlan.isNameChar c = true) ∧
    Asks body first last ∧ AsksForOrder order sorting

end Fetch

namespace FetchPlan

open Fetch (AsksForOrder)

theorem isBlank_of_isNameChar {c : Char} (h : isNameChar c = true) : Text.isBlank c = false := by
  rcases Bool.or_eq_true_iff.mp h with h | h
  · exact Text.isBlank_of_isAlphanumeric h
  · rw [eq_of_beq h]
    decide

theorem isNameChar_of_braces : ∀ c ∈ ['[', '\x7b', '\x7d'], isNameChar c = false := by
  simp only [List.forall_mem_cons, List.not_mem_nil, false_implies, implies_true, and_true]
  decide +kernel

theorem mem_of_mem_intercalate {c : Char} {sep : List Char} {items : List (List Char)}
    (h : c ∈ sep.intercalate items) : c ∈ sep ∨ ∃ item ∈ items, c ∈ item := by
  induction items with
  | nil => simp at h
  | cons item items ih =>
    cases items with
    | nil => exact .inr ⟨item, List.mem_singleton_self _, by simpa using h⟩
    | cons next items =>
      rw [List.intercalate_cons_cons, List.mem_append, List.mem_append] at h
      rcases h with (h | h) | h
      · exact .inr ⟨item, List.mem_cons_self, h⟩
      · exact .inl h
      · rcases ih h with h | ⟨other, hother, h⟩
        · exact .inl h
        · exact .inr ⟨other, List.mem_cons_of_mem _ hother, h⟩

theorem bracketed_of_head {size : Nat} {opener closer : Char} {s : List Char}
    (h : ∀ c ∈ s.head?, c ≠ opener) : bracketed size opener closer s = .ok (none, s) := by
  cases s with
  | nil => rfl
  | cons c s => rw [bracketed, if_neg (h c rfl)]

theorem bracketed_cons {opener closer : Char} {body : List Char} (size : Nat)
    (h : closer ∉ body) (rest : List Char) :
    bracketed size opener closer (opener :: (body ++ closer :: rest)) = .ok (some body, rest) := by
  rw [bracketed, if_pos rfl, Text.cut_append_cons h]

/-- A sort order is read up to its closing parenthesis. -/
theorem bracketed_order (size : Nat) {order rest : List Char} {sorting : List SortKey}
    (h : AsksForOrder order sorting) (ends : sorting = [] → ∀ c ∈ rest.head?, c ≠ '(') :
    (bracketed size '(' ')' (order ++ rest) = .ok (none, rest) ∧ sorting = []) ∨
      ∃ body, bracketed size '(' ')' (order ++ rest) = .ok (some body, rest) ∧
        Fetch.sortOrder body = .ok sorting ∧ sorting ≠ [] := by
  cases h with
  | absent => exact .inl ⟨bracketed_of_head (ends rfl), rfl⟩
  | @given entries _ ne read plain =>
    have closed : ')' ∉ [','].intercalate entries := by
      intro mem
      rcases mem_of_mem_intercalate mem with comma | ⟨item, hi, mem⟩
      · cases List.mem_singleton.mp comma
      · exact (plain item hi).2 mem
    refine .inr ⟨[','].intercalate entries, ?_,
      Fetch.sortOrder_intercalate ne read fun item hi => (plain item hi).1, ?_⟩
    · rw [List.cons_append, List.append_assoc]
      exact bracketed_cons size closed rest
    · rintro rfl
      exact ne (List.forall₂_nil_right_iff.mp read)

/-- The name of a fetch is read up to the first character that does not belong to it. -/
theorem fetch_named (size : Nat) {name : String} {s : List Char}
    (named : name ≠ "" ∧ ∀ c ∈ name.toList, isNameChar c = true)
    (ends : ∀ c ∈ s.head?, isNameChar c = false) :
    fetch size (name.toList ++ s) = (do
      let (body, afterBounds) ← bracketed size '[' ']' s
      let bounds ← located size s (body.mapM Fetch.bounds)
      let (body, rest) ← bracketed size '(' ')' afterBounds
      match body with
      | none => return (bounded name bounds, rest)
      | some body =>
        let sorting ← located size afterBounds (Fetch.sortOrder body)
        return (← (bounded name bounds).withSort sorting, rest)) := by
  obtain ⟨ne, chars⟩ := named
  have before : (name.toList ++ s).takeWhile isNameChar = name.toList := by
    rw [List.takeWhile_append_of_pos chars]
    cases s with
    | nil => simp
    | cons c s => rw [List.takeWhile_cons_of_neg (by simp [ends c rfl]), List.append_nil]
  have after : (name.toList ++ s).dropWhile isNameChar = s := by
    rw [List.dropWhile_append_of_pos chars]
    cases s with
    | nil => rfl
    | cons c s => rw [List.dropWhile_cons_of_neg (by simp [ends c rfl])]
  have nonempty : ¬ name.toList.isEmpty = true := by simpa using ne
  unfold fetch
  rw [before, after]
  dsimp only
  rw [String.ofList_toList]
  exact if_neg nonempty

end FetchPlan
end EntityQuery
