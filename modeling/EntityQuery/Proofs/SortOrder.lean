import EntityQuery.Proofs.Fetch.Spelling

/-!
# Sort orders read back

A sort order is written in two places, in a request for a page and after a bounded fetch. A request
takes an entry with the name of its direction, in any case of letters, as well as a field alone or
after a hyphen, and passes over entries of blanks; a fetch takes entries of the first kind only.
**An order whose fields are words is read back from all of these spellings, and entries that both
places take are read as the same order** (`sort_orders_read_back`).

The spellings are a grammar: `Named` and `Writes` for one entry, `WritesAll` for the entries of an
order. Each of the two readers is followed along this grammar, entry by entry
(`Writes.parseEntry_trim`, `WritesAll.parse_eq` for requests, `fetch_ordered` for fetches).
-/

namespace EntityQuery

open FetchPlan (IsWord)
open Text (Blanks blanks_nil)

/-! ## Directions -/

namespace Direction

variable {name : List Char} {d : Direction}

theorem ofName?_of_asciiLower (h : Text.asciiLower name = d.name.toList) :
    ofName? name = some d := by
  unfold ofName?
  rw [h]
  cases d <;> rfl

/-- In any case of letters the name of a direction is a word. -/
theorem isWord_of_asciiLower (h : Text.asciiLower name = d.name.toList) :
    IsWord (String.ofList name) := by
  have letters : ∀ c ∈ d.name.toList, c.isAlpha = true :=
    List.all_eq_true.mp (by cases d <;> decide +kernel)
  constructor
  · intro none
    rw [String.ofList_eq_empty_iff.mp none] at h
    cases d <;> cases h
  · intro c hc
    rw [String.toList_ofList] at hc
    have lower : c.toLower.isAlpha = true := letters _ (h ▸ List.mem_map_of_mem hc)
    have letter : c.isAlpha = true := by
      by_cases capital : c.isUpper = true
      · exact Bool.or_eq_true_iff.mpr (.inl capital)
      · unfold Char.toLower at lower
        rwa [dif_neg (by simpa [Char.isUpper] using capital)] at lower
    have alphanumeric : c.isAlphanum = true := Bool.or_eq_true_iff.mpr (.inl letter)
    exact Bool.or_eq_true_iff.mpr (.inl (Text.isAlphanumeric_of_isAlphanum alphanumeric))

end Direction

namespace SortKey

/-! ## Entries -/

/-- The entry is a field and the name of a direction around a colon, with blanks around each. -/
def Named (item : List Char) (key : SortKey) : Prop :=
  ∃ a b c d name, item = a ++ key.field.toList ++ b ++ ':' :: (c ++ name ++ d) ∧
    (Blanks a ∧ Blanks b ∧ Blanks c ∧ Blanks d) ∧
    Text.asciiLower name = key.direction.name.toList

/-- The entry says the key: with a name, or as the field alone, or after a hyphen. -/
inductive Writes : List Char → SortKey → Prop
  | named {item : List Char} {key : SortKey} (entry : Named item key) : Writes item key
  | ascending {a b : List Char} {field : String} (before : Blanks a) (after : Blanks b) :
      Writes (a ++ field.toList ++ b) ⟨field, .ascending⟩
  | descending {a b : List Char} {field : String} (before : Blanks a) (after : Blanks b) :
      Writes (a ++ '-' :: field.toList ++ b) ⟨field, .descending⟩

/-- The entries say the keys, in order, with entries of blanks among them. -/
inductive WritesAll : List (List Char) → List SortKey → Prop
  | nil : WritesAll [] []
  | blank {item : List Char} {items : List (List Char)} {keys : List SortKey}
      (blanks : Blanks item) (rest : WritesAll items keys) : WritesAll (item :: items) keys
  | entry {item : List Char} {items : List (List Char)} {key : SortKey} {keys : List SortKey}
      (first : Writes item key) (rest : WritesAll items keys) :
      WritesAll (item :: items) (key :: keys)

variable {item : List Char} {items : List (List Char)} {key : SortKey} {keys : List SortKey}

theorem Named.isSortEntry (word : IsWord key.field) (h : Named item key) :
    Fetch.IsSortEntry item key := by
  obtain ⟨a, b, c, d, name, rfl, blanks, lower⟩ := h
  have colon : FetchPlan.isNameChar ':' = false := by decide +kernel
  have direction := (Direction.isWord_of_asciiLower lower).bare
  rw [String.toList_ofList] at direction
  exact ⟨a, b, c, d, name, rfl, blanks, ⟨word.bare, word.not_mem colon⟩, direction,
    Direction.ofName?_of_asciiLower lower⟩

theorem not_mem_blanks {w : List Char} {c : Char} (h : Blanks w) (solid : Text.isBlank c = false) :
    c ∉ w := by
  intro hc
  rw [h c hc] at solid
  cases solid

/-- A mark does not stand in an entry, unless it is the colon. -/
theorem Named.not_mem (word : IsWord key.field) (h : Named item key) {c : Char}
    (mark : FetchPlan.isNameChar c = false) (solid : Text.isBlank c = false) (other : c ≠ ':') :
    c ∉ item := by
  obtain ⟨a, b, a', b', name, rfl, ⟨ha, hb, ha', hb'⟩, lower⟩ := h
  have direction := (Direction.isWord_of_asciiLower lower).not_mem mark
  rw [String.toList_ofList] at direction
  simp [not_mem_blanks ha solid, not_mem_blanks hb solid, not_mem_blanks ha' solid,
    not_mem_blanks hb' solid, word.not_mem mark, direction, other]

theorem Writes.not_mem_comma (word : IsWord key.field) (h : Writes item key) : ',' ∉ item := by
  have mark : FetchPlan.isNameChar ',' = false := by decide +kernel
  have solid : Text.isBlank ',' = false := by decide
  cases h with
  | named entry => exact entry.not_mem word mark solid (by decide)
  | ascending before after =>
    simp [not_mem_blanks before solid, not_mem_blanks after solid, word.not_mem mark]
  | descending before after =>
    simp [not_mem_blanks before solid, not_mem_blanks after solid, word.not_mem mark]

/-! ## Requests -/

/-- A word does not begin with a hyphen. -/
theorem dropStart?_hyphen {field : String} (word : IsWord field) (rest : List Char) :
    Text.dropStart? ['-'] (field.toList ++ rest) = none := by
  have hyphen : FetchPlan.isNameChar '-' = false := by decide +kernel
  cases chars : field.toList with
  | nil => exact absurd chars (by simpa using word.1)
  | cons c s =>
    have other : ('-' == c) = false := by
      rw [beq_eq_false_iff_ne]
      rintro rfl
      exact word.not_mem hyphen (chars ▸ List.mem_cons_self)
    simp [Text.dropStart?, List.isPrefixOf?, other]

/-- An entry is read as its key. -/
theorem Writes.parseEntry_trim (word : IsWord key.field) (h : Writes item key) :
    Text.trim item ≠ [] ∧ parseEntry item (Text.trim item) = .ok key := by
  have mark : FetchPlan.isNameChar ':' = false := by decide +kernel
  cases h with
  | named entry =>
    obtain ⟨b, name, trimmed, colon, field, direction⟩ := (entry.isSortEntry word).trim_eq
    have ne : key.field.toList ≠ [] := word.bare.1
    have hyphen := dropStart?_hyphen word (b ++ ':' :: name)
    rw [← List.append_assoc] at hyphen
    refine ⟨by simp [trimmed], ?_⟩
    simp only [parseEntry, trimmed, hyphen, Text.cut_append_cons colon, direction, field, pure_bind,
      List.isEmpty_iff, ne, if_false, String.ofList_toList]
    rfl
  | @ascending a b field before after =>
    have ne : field.toList ≠ [] := word.bare.1
    have trimmed : Text.trim (a ++ field.toList ++ b) = field.toList :=
      Text.trim_append before word.bare after
    have hyphen := dropStart?_hyphen word []
    rw [List.append_nil] at hyphen
    have uncut : Text.cut ':' field.toList = none := Text.cut_eq_none_iff.mpr (word.not_mem mark)
    refine ⟨fun none => ne (trimmed.symm.trans none), ?_⟩
    simp only [parseEntry, trimmed, hyphen, uncut, pure_bind, List.isEmpty_iff, ne, if_false,
      String.ofList_toList]
    rfl
  | @descending a b field before after =>
    have ne : field.toList ≠ [] := word.bare.1
    have trimmed : Text.trim (a ++ '-' :: field.toList ++ b) = '-' :: field.toList :=
      Text.trim_append before ((Text.bare_singleton (by decide)).between [] word.bare) after
    have hyphen : Text.dropStart? ['-'] ('-' :: field.toList) = some field.toList := by
      simp [Text.dropStart?, List.isPrefixOf?]
    have uncut : Text.cut ':' field.toList = none := Text.cut_eq_none_iff.mpr (word.not_mem mark)
    refine ⟨fun none => List.cons_ne_nil _ _ (trimmed.symm.trans none), ?_⟩
    simp only [parseEntry, trimmed, hyphen, uncut, pure_bind, List.isEmpty_iff, ne, if_false,
      String.ofList_toList]
    rfl

theorem WritesAll.parseEntries_eq (words : ∀ key ∈ keys, IsWord key.field)
    (h : WritesAll items keys) : parseEntries items = .ok keys := by
  induction h with
  | nil => rfl
  | blank blanks rest ih =>
    rw [parseEntries, Text.trim_of_blanks blanks]
    exact ih words
  | entry first rest ih =>
    obtain ⟨word, words⟩ := List.forall_mem_cons.mp words
    obtain ⟨ne, read⟩ := first.parseEntry_trim word
    rw [parseEntries, if_neg (by simpa using ne), read, ih words]
    rfl

theorem WritesAll.not_mem_comma (words : ∀ key ∈ keys, IsWord key.field)
    (h : WritesAll items keys) : ∀ item ∈ items, ',' ∉ item := by
  induction h with
  | nil => exact List.forall_mem_nil _
  | blank blanks rest ih =>
    exact List.forall_mem_cons.mpr ⟨not_mem_blanks blanks (by decide), ih words⟩
  | entry first rest ih =>
    obtain ⟨word, words⟩ := List.forall_mem_cons.mp words
    exact List.forall_mem_cons.mpr ⟨first.not_mem_comma word, ih words⟩

/-- The entries between commas are read as the keys. -/
theorem WritesAll.parse_eq (words : ∀ key ∈ keys, IsWord key.field) (h : WritesAll items keys) :
    parse (String.ofList ([','].intercalate items)) = .ok keys := by
  unfold parse
  rw [String.toList_ofList]
  by_cases none : items = []
  · subst none
    cases h
    rfl
  · rw [List.splitOn_intercalate ',' (h.not_mem_comma words) none]
    exact h.parseEntries_eq words

/-! ## Fetches -/

/-- Entries with names say the same in both places. -/
theorem WritesAll.of_named (h : List.Forall₂ Named items keys) : WritesAll items keys := by
  induction h with
  | nil => exact .nil
  | cons first _ ih => exact .entry (.named first) ih

/-- Entries with names between parentheses are an order of a fetch. -/
theorem asksForOrder_of_named (words : ∀ key ∈ keys, IsWord key.field) (ne : keys ≠ [])
    (h : List.Forall₂ Named items keys) :
    Fetch.AsksForOrder ('(' :: ([','].intercalate items ++ [')'])) keys := by
  have marks : FetchPlan.isNameChar ',' = false ∧ FetchPlan.isNameChar ')' = false := by
    decide +kernel
  have entries : List.Forall₂ (fun item key => IsWord key.field ∧ Named item key) items keys :=
    ((List.forall₂_and_left keys items).mpr ⟨words, h.flip⟩).flip
  have plain : List.Forall₂ (fun item key => (',' ∉ item ∧ ')' ∉ item) ∧ Named item key)
      items keys := by
    refine entries.imp fun item key ⟨word, named⟩ => ⟨⟨?_, ?_⟩, named⟩
    · exact named.not_mem word marks.1 (by decide) (by decide)
    · exact named.not_mem word marks.2 (by decide) (by decide)
  refine .given ?_ (entries.imp fun _ _ entry => entry.2.isSortEntry entry.1)
    ((List.forall₂_and_left items keys).mp plain).1
  rintro rfl
  exact ne (List.forall₂_nil_left_iff.mp h)

end SortKey

namespace FetchPlan

open Fetch (Asks Spans AsksForOrder)

/-- A bounded fetch with an order is read up to the end of the order, whatever comes next. -/
theorem fetch_ordered {name : String} {body order : List Char} {first offset : Nat}
    {last limit : Option Nat} {keys : List SortKey} (word : IsWord name)
    (asks : Asks body first last) (spans : Spans first last offset limit)
    (ordered : AsksForOrder order keys) (ne : keys ≠ []) (size : Nat) (rest : List Char) :
    fetch size (name.toList ++ ('[' :: (body ++ [']']) ++ (order ++ rest))) =
      .ok (⟨name, .query offset limit keys⟩, rest) := by
  obtain ⟨offset', limit', read, spans'⟩ := Fetch.bounds_of_asks asks
  obtain ⟨rfl, rfl⟩ := eq_of_spans asks spans
  obtain ⟨rfl, rfl⟩ := eq_of_spans asks spans'
  have bracket : isNameChar '[' = false := isNameChar_of_braces '[' (by simp)
  have marked : bracketed size '[' ']' ('[' :: (body ++ [']']) ++ (order ++ rest)) =
      .ok (some body, order ++ rest) := by
    simpa using bracketed_cons size (Fetch.not_mem_of_asks asks) (order ++ rest)
  have ends : keys = [] → ∀ c ∈ rest.head?, c ≠ '(' := fun none => absurd none ne
  rw [fetch_named size word (by simpa using bracket)]
  obtain ⟨_, none⟩ | ⟨inner, given, sorted, _⟩ := bracketed_order size ordered ends
  · exact absurd none ne
  · simp only [marked, ok_bind, Option.mapM_some, read, located, given, sorted]
    rfl

/-- The text of a bounded fetch with entries for its order. -/
def orderedText (name : String) (body : List Char) (items : List (List Char)) : List Char :=
  name.toList ++ ('[' :: (body ++ [']']) ++ ('(' :: ([','].intercalate items ++ [')'])))

end FetchPlan

/-- **Sort orders are read back from each of their spellings.** An order whose fields are words is
read back in a request from entries of every kind, with entries of blanks among them. From entries
with names a bounded fetch reads the same order, wherever it stands in a plan. -/
theorem sort_orders_read_back {keys : List SortKey} (words : ∀ key ∈ keys, IsWord key.field) :
    (∀ items, SortKey.WritesAll items keys →
      SortKey.parse (String.ofList ([','].intercalate items)) = .ok keys) ∧
    ∀ items, List.Forall₂ SortKey.Named items keys → keys ≠ [] →
      SortKey.parse (String.ofList ([','].intercalate items)) = .ok keys ∧
      ∀ name body first last, IsWord name → Fetch.Asks body first last →
        ∃ offset limit, Fetch.Spans first last offset limit ∧
          FetchPlan.parse (String.ofList (FetchPlan.orderedText name body items)) =
            .ok ⟨[("", ⟨name, .query offset limit keys⟩)]⟩ ∧
          ∀ size rest, FetchPlan.fetch size (FetchPlan.orderedText name body items ++ rest) =
            .ok (⟨name, .query offset limit keys⟩, rest) := by
  refine ⟨fun items written => written.parse_eq words, fun items named ne => ?_⟩
  refine ⟨(SortKey.WritesAll.of_named named).parse_eq words, ?_⟩
  intro name body first last word asks
  have ordered := SortKey.asksForOrder_of_named words ne named
  have bounded : Fetch.IsBounded (String.ofList (FetchPlan.orderedText name body items)) name first
      last keys :=
    ⟨body, _, by simp [FetchPlan.orderedText], word, asks, ordered⟩
  obtain ⟨offset, limit, spans, parsed⟩ := FetchPlan.parse_of_isBounded bounded
  refine ⟨offset, limit, spans, parsed, fun size rest => ?_⟩
  rw [FetchPlan.orderedText, List.append_assoc, List.append_assoc]
  exact FetchPlan.fetch_ordered word asks spans ordered ne size rest

namespace SortKey

/-- By name, then the last created first. -/
def newestOfName : List SortKey := [⟨"name", .ascending⟩, ⟨"created_at", .descending⟩]

theorem words_newestOfName : ∀ key ∈ newestOfName, IsWord key.field := by
  have word {name : String} (ne : name ≠ "") (h : name.toList.all FetchPlan.isNameChar = true) :
      IsWord name := ⟨ne, List.all_eq_true.mp h⟩
  exact List.forall_mem_cons.mpr ⟨word (by decide) (by decide +kernel),
    List.forall_mem_singleton.mpr (word (by decide) (by decide +kernel))⟩

/-- One entry alone, one after a hyphen, and nothing between them. -/
def mixedEntries : List (List Char) :=
  [[' '] ++ "name".toList ++ [], [], [' '] ++ '-' :: "created_at".toList ++ []]

def namedEntries : List (List Char) :=
  [[' '] ++ "name".toList ++ [' '] ++ ':' :: ([' '] ++ "ASC".toList ++ []),
    [] ++ "created_at".toList ++ [] ++ ':' :: ([] ++ "Desc".toList ++ [])]

end SortKey

open SortKey in
theorem sort_orders_read_back_newestOfName :
    parse " name,, -created_at" = .ok newestOfName ∧
    parse " name : ASC,created_at:Desc" = .ok newestOfName ∧
    FetchPlan.parse "orders[2:5]( name : ASC,created_at:Desc)" =
      .ok ⟨[("", ⟨"orders", .query 1 (some 4) newestOfName⟩)]⟩ := by
  have space : Blanks [' '] := List.forall_mem_singleton.mpr (by decide)
  have mixed : WritesAll mixedEntries newestOfName :=
    .entry (.ascending space blanks_nil) (.blank blanks_nil
      (.entry (.descending space blanks_nil) .nil))
  have named : List.Forall₂ Named namedEntries newestOfName :=
    .cons ⟨_, _, _, _, _, rfl, ⟨space, space, space, blanks_nil⟩, by decide +kernel⟩
      (.cons ⟨_, _, _, _, _, rfl, ⟨blanks_nil, blanks_nil, blanks_nil, blanks_nil⟩,
        by decide +kernel⟩ .nil)
  have orders : IsWord "orders" := ⟨by decide, List.all_eq_true.mp (by decide +kernel)⟩
  have asks : Fetch.Asks (Decimal.text 2 ++ ':' :: Decimal.text 5) 2 (some 5) :=
    .span (Fetch.isPosition_text (by decide) (by decide))
      (Fetch.isPosition_text (by decide) (by decide)) (by decide)
  have texts : String.ofList ([','].intercalate mixedEntries) = " name,, -created_at" ∧
      String.ofList ([','].intercalate namedEntries) = " name : ASC,created_at:Desc" ∧
      String.ofList (FetchPlan.orderedText "orders" (Decimal.text 2 ++ ':' :: Decimal.text 5)
        namedEntries) = "orders[2:5]( name : ASC,created_at:Desc)" := by decide +kernel
  obtain ⟨requests, both⟩ := sort_orders_read_back words_newestOfName
  obtain ⟨read, bounded⟩ := both namedEntries named (by decide)
  obtain ⟨offset, limit, spans, parsed, -⟩ := bounded "orders" _ 2 (some 5) orders asks
  obtain ⟨rfl, rfl⟩ := FetchPlan.eq_of_spans asks spans
  exact ⟨texts.1 ▸ requests mixedEntries mixed, texts.2.1 ▸ read, texts.2.2 ▸ parsed⟩

end EntityQuery
