import EntityQuery.Proofs.Fetch.Bounds
import EntityQuery.Proofs.Fetch.Forest

/-!
# The text of a forest

A forest is written as its fields with blanks between them, the fields below a field between braces
after it (`Forest.Spells`). Reading enters the fields one after the other; the braces still open
tell the path of the field whose fields are being read, so that each is entered under the names
above it (`outcome_spelled`). **Whatever the blanks, the text of a forest is read as the plan of the
forest** (`parse_eq_ok_iff`), **and it is refused exactly if two fields beside one another have the
same name or an order is asked for of all targets** (`forest_round_trips`). Every forest has such a
text (`Forest.spells_text`).

`Lays` says what the plan of a forest is without regard to how it is entered: its fetches under each
path are the fields that stand there, and its paths come after what leads to them.
-/

namespace EntityQuery.FetchPlan

open EntityQuery.Path (IsSegment ofSegments steps)
open EntityQuery.Text (Blanks blanks_nil isBlank)
open EntityQuery.Fetch (Asks AsksForOrder Spans)

/-! ## Writing -/

/-- A name is made of letters, digits and underscores. -/
def IsWord (name : String) : Prop := name ≠ "" ∧ ∀ c ∈ name.toList, isNameChar c = true

/-- What is written between square brackets. -/
inductive Mark.Spells : Mark → List Char → Prop
  | plain : Spells .plain []
  | collection {body : List Char} (blank : Blanks body) :
      Spells .collection ('[' :: (body ++ [']']))
  | whole {t u : List Char} (before : Blanks t) (after : Blanks u) :
      Spells .collection ('[' :: (t ++ ':' :: u ++ [']']))
  | bounded {body : List Char} {first : Nat} {last : Option Nat} (asks : Asks body first last) :
      Spells (.bounded first last) ('[' :: (body ++ [']']))

/-- The name, what is between brackets and the order follow one another without blanks. -/
def Field.Spells (f : Field) (text : List Char) : Prop :=
  IsWord f.name ∧ ∃ mark order, text = f.name.toList ++ (mark ++ order) ∧ f.mark.Spells mark ∧
    AsksForOrder order f.sorting

/-- The fields of a forest with blanks between them, those below a field between braces. -/
inductive Forest.Spells : Forest → List Char → Prop
  | nil {w : List Char} (blank : Blanks w) : Spells .nil w
  | leaf {f : Field} {rest : Forest} {w t u : List Char} (blank : Blanks w) (field : f.Spells t)
      (beside : Spells rest u) (apart : rest = .nil ∨ ∃ c ∈ u.head?, isBlank c = true) :
      Spells (.cons f .nil rest) (w ++ (t ++ u))
  | branch {f : Field} {inner rest : Forest} {w t w' v u : List Char} (blank : Blanks w)
      (field : f.Spells t) (gap : Blanks w') (ne : inner ≠ .nil) (inside : Spells inner v)
      (beside : Spells rest u) :
      Spells (.cons f inner rest) (w ++ (t ++ (w' ++ '\x7b' :: (v ++ '\x7d' :: u))))

theorem IsWord.isSegment {name : String} (h : IsWord name) : IsSegment name := by
  refine ⟨h.1, fun dot => ?_⟩
  have word := h.2 '.' dot
  revert word
  decide +kernel

theorem Forest.Spells.named {F : Forest} {text : List Char} (h : F.Spells text) :
    F.All fun f => IsSegment f.name := by
  induction h with
  | nil => trivial
  | leaf _ field _ _ ih => exact ⟨field.1.isSegment, trivial, ih⟩
  | branch _ field _ _ _ _ ihInner ihRest => exact ⟨field.1.isSegment, ihInner, ihRest⟩

/-! ## Reading a field -/

theorem isNameChar_of_isBlank {c : Char} (h : isBlank c = true) : isNameChar c = false := by
  rw [Bool.eq_false_iff]
  intro word
  rw [isBlank_of_isNameChar word] at h
  cases h

theorem le_of_asks {body : List Char} {first : Nat} {last : Option Nat}
    (h : Asks body first last) : ∀ n ∈ last, first ≤ n := by
  cases h with
  | one => simp
  | span _ _ ordered => simpa using ordered
  | onward => nofun
  | upTo _ position =>
    obtain ⟨_, _, _, _, _, _, _, positive⟩ := position
    simpa using positive

/-- Positions turn into an offset and a number of targets. -/
theorem eq_of_spans {body : List Char} {first offset : Nat} {last limit : Option Nat}
    (asks : Asks body first last) (spans : Spans first last offset limit) :
    offset = first - 1 ∧ limit = last.map (· - first + 1) := by
  obtain ⟨rfl, rfl, _, _⟩ := spans
  refine ⟨rfl, ?_⟩
  cases limit with
  | none => rfl
  | some n =>
    have ordered : offset + 1 ≤ offset + n := le_of_asks asks (offset + n) rfl
    simp only [Option.map_some, Option.some.injEq]
    omega

/-- What is between the brackets is read as what it says. -/
theorem bracketed_mark (size : Nat) {mark : Mark} {t rest : List Char} (h : mark.Spells t)
    (ends : ∀ c ∈ rest.head?, c ≠ '[') :
    ∃ body bounds, bracketed size '[' ']' (t ++ rest) = .ok (body, rest) ∧
      body.mapM Fetch.bounds = .ok bounds ∧
      ∀ name, bounded name bounds = (Field.mk name mark []).fetch := by
  have closed {body : List Char} (h : ']' ∉ body) :
      bracketed size '[' ']' ('[' :: (body ++ [']']) ++ rest) = .ok (some body, rest) := by
    simpa using bracketed_cons size h rest
  have inBlanks {w : List Char} (h : Blanks w) : ']' ∉ w := by
    intro bracket
    have blank := h ']' bracket
    revert blank
    decide
  cases h with
  | plain => exact ⟨none, none, bracketed_of_head ends, rfl, fun _ => rfl⟩
  | @collection body blank =>
    have read : Fetch.bounds body = .ok none := by
      simp only [Fetch.bounds, Text.trim_of_blanks blank]
      rfl
    exact ⟨some body, some none, closed (inBlanks blank), by simp [read], fun _ => rfl⟩
  | @whole t u before after =>
    have read : Fetch.bounds (t ++ ':' :: u) = .ok none := by
      have colon : Text.Bare [':'] := Text.bare_singleton (by decide)
      have trimmed := Text.trim_append before colon after
      rw [List.append_assoc, List.singleton_append] at trimmed
      simp only [Fetch.bounds, trimmed]
      rfl
    refine ⟨some (t ++ ':' :: u), some none, closed ?_, by simp [read], fun _ => rfl⟩
    simp [inBlanks before, inBlanks after]
  | @bounded body first last asks =>
    obtain ⟨offset, limit, read, spans⟩ := Fetch.bounds_of_asks asks
    obtain ⟨rfl, rfl⟩ := eq_of_spans asks spans
    exact ⟨some body, some (some (_, _)), closed (Fetch.not_mem_of_asks asks), by simp [read],
      fun _ => rfl⟩

/-- A field is read whole where nothing follows that could belong to it. -/
theorem fetch_spelled (size : Nat) {f : Field} {t rest : List Char} (h : f.Spells t)
    (ends : ∀ c ∈ rest.head?, isNameChar c = false ∧ c ≠ '[' ∧ c ≠ '(') :
    (fetch size (t ++ rest)).toOption = if f.Sortable then some (f.fetch, rest) else none := by
  obtain ⟨word, mark, order, rfl, marked, ordered⟩ := h
  obtain ⟨name, m, sorting⟩ := f
  dsimp only at word marked ordered
  have parenthesis : isNameChar '(' = false := by decide +kernel
  have afterMark : ∀ c ∈ (order ++ rest).head?, isNameChar c = false ∧ c ≠ '[' := by
    cases ordered with
    | absent => exact fun c hc => ⟨(ends c hc).1, (ends c hc).2.1⟩
    | given => simpa using parenthesis
  have afterName : ∀ c ∈ (mark ++ (order ++ rest)).head?, isNameChar c = false := by
    cases marked with
    | plain => exact fun c hc => (afterMark c hc).1
    | _ => simp [isNameChar_of_braces '[' (by simp)]
  obtain ⟨body, bounds, bracket, read, fetched⟩ :=
    bracketed_mark size marked fun c hc => (afterMark c hc).2
  rw [List.append_assoc, List.append_assoc, fetch_named size word afterName]
  simp only [bracket, read, located, ok_bind, fetched]
  rcases bracketed_order size ordered fun _ c hc => (ends c hc).2.2 with
    ⟨none, rfl⟩ | ⟨inner, given, sorted, ne⟩
  · simp only [none, ok_bind]
    rw [if_pos (.inr rfl)]
    rfl
  · simp only [given, sorted, ok_bind]
    -- An order is kept by a query fetch and refused by a join fetch.
    cases m with
    | plain | collection =>
      rw [if_neg (by simp [Field.Sortable, Field.isBounded, ne])]
      rfl
    | bounded first last =>
      rw [if_pos (.inl rfl)]
      rfl

/-! ## Reading item by item -/

theorem itemsOf_eq (size : Nat) (s : List Char) :
    itemsOf size s = match Text.trimStart s with
      | [] => ([], none)
      | c :: rest =>
        if c = '\x7b' then
          (.opening (offset size (c :: rest)) :: (itemsOf size rest).1, (itemsOf size rest).2)
        else if c = '\x7d' then
          (.closing (offset size (c :: rest)) :: (itemsOf size rest).1, (itemsOf size rest).2)
        else
          match fetch size (c :: rest) with
          | .error e => ([], some e)
          | .ok (f, after) =>
            (.fetch (offset size (c :: rest)) f :: (itemsOf size after).1,
              (itemsOf size after).2) := by
  rw [itemsOf]
  split
  · next h => rw [h]
  · next c rest h =>
    rw [h]
    dsimp only
    split
    · rfl
    split
    · rfl
    split
    · next hf => rw [hf]
    · next hf => rw [hf]

/-- The plan that reading a text adds up to, if it can be read to its end. -/
def outcome (size : Nat) (s : List Char) (b : Builder) : Option FetchPlan :=
  ((itemsOf size s).1.foldlM Builder.read b >>= fun b =>
    match (itemsOf size s).2 with
    | some e => .error e
    | none => b.finish).toOption

theorem toOption_parse (text : String) :
    (parse text).toOption = outcome (Text.byteSize text.toList) text.toList .start := rfl

section

variable {size : Nat} {s : List Char} {b : Builder}

theorem outcome_step {after : List Char} {item : Item}
    (h : itemsOf size s = (item :: (itemsOf size after).1, (itemsOf size after).2)) :
    outcome size s b = (b.read item).toOption.bind (outcome size after) := by
  unfold outcome
  rw [h, List.foldlM_cons, bind_assoc, toOption_bind]

theorem outcome_blanks {w : List Char} (h : Blanks w) :
    outcome size (w ++ s) b = outcome size s b := by
  have start : Text.trimStart (w ++ s) = Text.trimStart s := List.dropWhile_append_of_pos h
  have items : itemsOf size (w ++ s) = itemsOf size s := by
    rw [itemsOf_eq, itemsOf_eq size s, start]
  unfold outcome
  rw [items]

theorem outcome_opening {path : String} (last : b.last = some path) :
    ∃ index, outcome size ('\x7b' :: s) b =
      outcome size s { b with opened := (path, index) :: b.opened, last := none } := by
  have item : itemsOf size ('\x7b' :: s) =
      (.opening (offset size ('\x7b' :: s)) :: (itemsOf size s).1, (itemsOf size s).2) := by
    rw [itemsOf_eq]
    rfl
  refine ⟨offset size ('\x7b' :: s), ?_⟩
  rw [outcome_step item, Builder.read, last]
  rfl

theorem outcome_closing {brace : String × Nat} {outer : List (String × Nat)}
    (opened : b.opened = brace :: outer) :
    outcome size ('\x7d' :: s) b = outcome size s { b with opened := outer, last := none } := by
  have item : itemsOf size ('\x7d' :: s) =
      (.closing (offset size ('\x7d' :: s)) :: (itemsOf size s).1, (itemsOf size s).2) := by
    rw [itemsOf_eq]
    rfl
  rw [outcome_step item, Builder.read, opened]
  rfl

theorem toOption_read_fetch (b : Builder) (index : Nat) (f : Fetch) :
    (b.read (.fetch index f)).toOption = (b.plan.add b.parent f).toOption.map fun plan =>
      { b with plan := plan, last := some (Path.extend b.parent f.name) } := by
  rw [Builder.read]
  split
  · next added =>
    rw [added]
    rfl
  · next refused =>
    rw [refused]
    rfl
  · next _ refused =>
    rw [refused]
    rfl

theorem outcome_fetch {c : Char} (name : isNameChar c = true) :
    outcome size (c :: s) b = (fetch size (c :: s)).toOption.bind fun p =>
      (b.plan.add b.parent p.1).toOption.bind fun plan =>
        outcome size p.2
          { b with plan := plan, last := some (Path.extend b.parent p.1.name) } := by
  have start : Text.trimStart (c :: s) = c :: s :=
    List.dropWhile_cons_of_neg (by simp [isBlank_of_isNameChar name])
  have brace : c ≠ '\x7b' ∧ c ≠ '\x7d' := by
    constructor <;> rintro rfl <;> simp [isNameChar_of_braces] at name
  have items := itemsOf_eq size (c :: s)
  rw [start] at items
  dsimp only at items
  rw [if_neg brace.1, if_neg brace.2] at items
  cases read : fetch size (c :: s) with
  | error e =>
    rw [read] at items
    unfold outcome
    rw [items]
    rfl
  | ok p =>
    rw [read] at items
    rw [outcome_step items, toOption_read_fetch, Option.bind_map]
    rfl

theorem itemsOf_nil : itemsOf size [] = ([], none) := by
  rw [itemsOf_eq]
  rfl

/-- What has just been read does not matter where the text or a brace ends. -/
theorem outcome_last (closes : s = [] ∨ ∃ r, s = '\x7d' :: r) (plan : FetchPlan)
    (opened : List (String × Nat)) (last last' : Option String) :
    outcome size s ⟨plan, opened, last⟩ = outcome size s ⟨plan, opened, last'⟩ := by
  rcases closes with rfl | ⟨r, rfl⟩
  · unfold outcome
    rw [itemsOf_nil]
    rfl
  · have item : itemsOf size ('\x7d' :: r) =
        (.closing (offset size ('\x7d' :: r)) :: (itemsOf size r).1, (itemsOf size r).2) := by
      rw [itemsOf_eq]
      rfl
    rw [outcome_step item, outcome_step item]
    rfl

/-- A field is entered under the names of the braces that are open. -/
theorem outcome_field {f : Field} {t : List Char} (h : f.Spells t)
    (ends : ∀ c ∈ s.head?, isNameChar c = false ∧ c ≠ '[' ∧ c ≠ '(') :
    outcome size (t ++ s) b =
      if f.Sortable then
        (b.plan.add b.parent f.fetch).toOption.bind fun plan =>
          outcome size s { b with plan := plan, last := some (Path.extend b.parent f.name) }
      else none := by
  have read := fetch_spelled size h ends
  obtain ⟨⟨ne, word⟩, mark, order, rfl, _⟩ := h
  obtain ⟨c, name, hname⟩ := List.exists_cons_of_ne_nil (l := f.name.toList) (by simpa using ne)
  rw [hname] at read word ⊢
  simp only [List.cons_append] at read ⊢
  rw [outcome_fetch (word c List.mem_cons_self), read]
  split
  · rw [Option.bind_some, Field.name_fetch]
  · rfl

theorem ends_of_isBlank {c : Char} (h : isBlank c = true) :
    isNameChar c = false ∧ c ≠ '[' ∧ c ≠ '(' := by
  refine ⟨isNameChar_of_isBlank h, ?_, ?_⟩ <;>
  · rintro rfl
    revert h
    decide

theorem ends_of_closes (closes : s = [] ∨ ∃ r, s = '\x7d' :: r) :
    ∀ c ∈ s.head?, isNameChar c = false ∧ c ≠ '[' ∧ c ≠ '(' := by
  rcases closes with rfl | ⟨r, rfl⟩
  · nofun
  · have brace : isNameChar '\x7d' = false := isNameChar_of_braces _ (by simp)
    simpa using brace

theorem ends_after_blanks {w : List Char} (h : Blanks w)
    (ends : ∀ c ∈ s.head?, isNameChar c = false ∧ c ≠ '[' ∧ c ≠ '(') :
    ∀ c ∈ (w ++ s).head?, isNameChar c = false ∧ c ≠ '[' ∧ c ≠ '(' := by
  cases w with
  | nil => exact ends
  | cons d w =>
    rintro c hc
    cases hc
    exact ends_of_isBlank (h d List.mem_cons_self)

/-- Reading the text of a forest enters its fields, whatever has been entered before and whatever
follows the end of the text or the brace that closes it. -/
theorem outcome_spelled {F : Forest} {t : List Char} (h : F.Spells t)
    (closes : s = [] ∨ ∃ r, s = '\x7d' :: r) :
    outcome size (t ++ s) b = (F.enter b.parent b.plan).bind fun plan =>
      outcome size s { b with plan := plan } := by
  induction h generalizing s b with
  | nil blank => exact outcome_blanks blank
  | @leaf f rest w t u blank field beside apart ih =>
    have ends : ∀ c ∈ (u ++ s).head?, isNameChar c = false ∧ c ≠ '[' ∧ c ≠ '(' := by
      rcases apart with rfl | ⟨c, hc, blank⟩
      · cases beside with
        | nil blank => exact ends_after_blanks blank (ends_of_closes closes)
      · rw [List.head?_append, Option.mem_def.mp hc]
        rintro d hd
        cases hd
        exact ends_of_isBlank blank
    rw [List.append_assoc, List.append_assoc, outcome_blanks blank, outcome_field field ends,
      Forest.enter]
    split
    · cases (b.plan.add b.parent f.fetch).toOption with
      | none => rfl
      | some plan =>
        -- The rest does not depend on the field before it, and nor does what follows the rest.
        refine (ih closes).trans (congrArg _ (funext fun plan => ?_))
        exact outcome_last closes plan b.opened _ _
    · rfl
  | @branch f inner rest w t w' v u blank field gap ne inside beside ihInner ihRest =>
    have brace : ∀ c ∈ ('\x7b' :: (v ++ '\x7d' :: (u ++ s))).head?,
        isNameChar c = false ∧ c ≠ '[' ∧ c ≠ '(' := by
      have name : isNameChar '\x7b' = false := isNameChar_of_braces _ (by simp)
      simpa using name
    simp only [List.append_assoc, List.cons_append]
    rw [outcome_blanks blank, outcome_field field (ends_after_blanks gap brace), Forest.enter]
    split
    · cases (b.plan.add b.parent f.fetch).toOption with
      | none => rfl
      | some plan =>
        let path := Path.extend b.parent f.name
        obtain ⟨index, opening⟩ : ∃ index,
            outcome size ('\x7b' :: (v ++ '\x7d' :: (u ++ s))) ⟨plan, b.opened, some path⟩ =
              outcome size (v ++ '\x7d' :: (u ++ s)) ⟨plan, (path, index) :: b.opened, none⟩ :=
          outcome_opening rfl
        have inside : outcome size (v ++ '\x7d' :: (u ++ s))
              ⟨plan, (path, index) :: b.opened, none⟩ =
            (inner.enter path plan).bind fun plan =>
              outcome size ('\x7d' :: (u ++ s)) ⟨plan, (path, index) :: b.opened, none⟩ :=
          ihInner (.inr ⟨u ++ s, rfl⟩)
        have closing (plan : FetchPlan) : outcome size ('\x7d' :: (u ++ s))
              ⟨plan, (path, index) :: b.opened, none⟩ =
            outcome size (u ++ s) ⟨plan, b.opened, none⟩ := outcome_closing rfl
        have beside (plan : FetchPlan) : outcome size (u ++ s) ⟨plan, b.opened, none⟩ =
            (rest.enter b.parent plan).bind fun plan => outcome size s ⟨plan, b.opened, none⟩ :=
          ihRest closes
        calc outcome size (w' ++ '\x7b' :: (v ++ '\x7d' :: (u ++ s))) ⟨plan, b.opened, some path⟩
          _ = (inner.enter path plan).bind fun plan => (rest.enter b.parent plan).bind fun plan =>
              outcome size s ⟨plan, b.opened, none⟩ := by
            rw [outcome_blanks gap, opening, inside]
            simp only [closing, beside]
          _ = ((inner.enter path plan).bind (rest.enter b.parent)).bind fun plan =>
              outcome size s { b with plan := plan } := by
            rw [Option.bind_assoc]
            exact congrArg _ (funext fun plan => congrArg _ (funext fun plan =>
              outcome_last closes plan b.opened _ _))
    · rfl

end

/-! ## A text for every forest -/

def Mark.text : Mark → List Char
  | .plain => []
  | .collection => ['[', ']']
  | .bounded first last => '[' :: (Decimal.text first ++ ':' :: last.elim [] Decimal.text ++ [']'])

/-- The order between parentheses, if there is any. -/
def orderText (sorting : List SortKey) : List Char :=
  if sorting = [] then []
  else
    '(' :: ([','].intercalate (sorting.map fun key =>
      key.field.toList ++ ':' :: key.direction.name.toList) ++ [')'])

def Field.text (f : Field) : List Char := f.name.toList ++ (f.mark.text ++ orderText f.sorting)

/-- The text of a forest with as few blanks as there can be. -/
def Forest.text : Forest → List Char
  | nil => []
  | cons f inner rest =>
    f.text ++ ((if inner = nil then [] else '\x7b' :: (inner.text ++ ['\x7d'])) ++
      if rest = nil then [] else ' ' :: rest.text)

/-- Names are made of letters, digits and underscores, and positions are counted from one and have
64 bits. -/
structure Field.Proper (f : Field) : Prop where
  name : IsWord f.name
  bounds : ∀ first last, f.mark = .bounded first last →
    1 ≤ first ∧ first < UInt64.size ∧ ∀ n ∈ last, first ≤ n ∧ n < UInt64.size
  sorting : ∀ key ∈ f.sorting, IsWord key.field

theorem IsWord.bare {name : String} (h : IsWord name) : Text.Bare name.toList :=
  have solid : Text.Solid name.toList := fun c hc => isBlank_of_isNameChar (h.2 c hc)
  solid.bare (by simpa using h.1)

theorem IsWord.not_mem {name : String} (h : IsWord name) {c : Char}
    (other : isNameChar c = false) : c ∉ name.toList := by
  intro hc
  rw [h.2 c hc] at other
  cases other

theorem Mark.spells_text {mark : Mark} (h : ∀ first last, mark = .bounded first last →
    1 ≤ first ∧ first < UInt64.size ∧ ∀ n ∈ last, first ≤ n ∧ n < UInt64.size) :
    mark.Spells mark.text := by
  cases mark with
  | plain => exact .plain
  | collection => exact .collection blanks_nil
  | bounded first last =>
    obtain ⟨positive, small, ordered⟩ := h first last rfl
    have start : Fetch.IsPosition (Decimal.text first) first :=
      Fetch.isPosition_text positive small
    cases last with
    | none => exact .bounded (.onward start blanks_nil)
    | some n =>
      obtain ⟨le, small⟩ := ordered n rfl
      exact .bounded (.span start (Fetch.isPosition_text (positive.trans le) small) le)

theorem asksForOrder_orderText {sorting : List SortKey} (h : ∀ key ∈ sorting, IsWord key.field) :
    AsksForOrder (orderText sorting) sorting := by
  unfold orderText
  split
  · next none =>
    subst none
    exact .absent
  · next ne =>
    have other : isNameChar ':' = false ∧ isNameChar ',' = false ∧ isNameChar ')' = false := by
      decide +kernel
    have named (d : Direction) : IsWord d.name := by
      have word : d.name.toList.all isNameChar = true := by cases d <;> decide +kernel
      exact ⟨by cases d <;> decide, List.all_eq_true.mp word⟩
    refine .given (by simpa using ne) ?read ?plain
    case read =>
      refine List.forall₂_map_left_iff.mpr (List.forall₂_same.mpr fun key hkey => ?_)
      have word := h key hkey
      exact ⟨[], [], [], [], key.direction.name.toList, by simp,
        ⟨blanks_nil, blanks_nil, blanks_nil, blanks_nil⟩, ⟨word.bare, word.not_mem other.1⟩,
        (named key.direction).bare, Direction.ofName?_name key.direction⟩
    case plain =>
      rintro item hitem
      obtain ⟨key, hkey, rfl⟩ := List.mem_map.mp hitem
      have word := h key hkey
      have direction := named key.direction
      simp [word.not_mem other.2.1, word.not_mem other.2.2, direction.not_mem other.2.1,
        direction.not_mem other.2.2]

theorem Field.Proper.spells_text {f : Field} (h : f.Proper) : f.Spells f.text :=
  ⟨h.name, f.mark.text, orderText f.sorting, rfl, Mark.spells_text h.bounds,
    asksForOrder_orderText h.sorting⟩

theorem Forest.Spells.after_blanks {F : Forest} {w t : List Char} (blank : Blanks w)
    (h : F.Spells t) : F.Spells (w ++ t) := by
  have both {w' : List Char} (blank' : Blanks w') : Blanks (w ++ w') :=
    List.forall_mem_append.mpr ⟨blank, blank'⟩
  cases h with
  | nil blank' => exact .nil (both blank')
  | leaf blank' field beside apart =>
    rw [← List.append_assoc]
    exact .leaf (both blank') field beside apart
  | branch blank' field gap ne inside beside =>
    rw [← List.append_assoc]
    exact .branch (both blank') field gap ne inside beside

theorem Forest.spells_text {F : Forest} (h : F.All Field.Proper) : F.Spells F.text := by
  induction F with
  | nil => exact .nil blanks_nil
  | cons f inner rest ihInner ihRest =>
    obtain ⟨proper, hinner, hrest⟩ := h
    have space : Blanks [' '] := List.forall_mem_singleton.mpr (by decide)
    -- The rest stands after a blank, unless there is nothing.
    have beside : rest.Spells (if rest = nil then [] else ' ' :: rest.text) := by
      split
      · next none => exact none ▸ .nil blanks_nil
      · exact (ihRest hrest).after_blanks space
    rw [text]
    split
    · next none =>
      subst none
      have apart : rest = nil ∨
          ∃ c ∈ (if rest = nil then [] else ' ' :: rest.text).head?, isBlank c = true := by
        by_cases none : rest = nil
        · exact .inl none
        · rw [if_neg none]
          exact .inr ⟨' ', rfl, by decide⟩
      have whole := Spells.leaf blanks_nil proper.spells_text beside apart
      exact whole
    · next ne =>
      have whole :=
        Spells.branch blanks_nil proper.spells_text blanks_nil ne (ihInner hinner) beside
      simpa using whole

/-! ## The plan of a text -/

/-- The plan has the fields of the forest under the paths of the fields above them, and its paths
are those, each after what leads to it. -/
structure Lays (p : FetchPlan) (F : Forest) : Prop where
  joins : ∀ path, p.joinsAt path =
    ((F.under (steps path)).fields.filter (!·.isBounded)).map Field.fetch
  queries : ∀ path, p.queriesAt path =
    ((F.under (steps path)).fields.filter (·.isBounded)).map Field.fetch
  nodup : p.paths.Nodup
  mem_paths : ∀ path, path ∈ p.paths ↔ (F.under (steps path)).fields ≠ []
  before : ∀ before path after, p.paths = before ++ path :: after →
    ∀ init, init <+: steps path → init ≠ steps path → ofSegments init ∈ before

theorem Forest.lays_plan {F : Forest} (named : F.All fun f => IsSegment f.name)
    (distinct : F.Distinct) : F.plan.Lays F where
  joins path := (fetchesAt_plan named distinct false path).trans (by simp)
  queries path := (fetchesAt_plan named distinct true path).trans (by simp)
  nodup := nodup_paths F.plan
  mem_paths _ := mem_paths_plan named distinct
  before _ _ _ split _ := mem_before_of_paths_eq named distinct split

/-- A text of a forest is read as the plan of the forest, or refused. -/
theorem toOption_parse_spelled {F : Forest} {text : String} (h : F.Spells text.toList) :
    (parse text).toOption = F.enter "" .empty := by
  let size := Text.byteSize text.toList
  have read : outcome size (text.toList ++ []) .start =
      (F.enter "" .empty).bind fun plan => outcome size [] { Builder.start with plan := plan } :=
    outcome_spelled h (.inl rfl)
  have finished (plan : FetchPlan) : outcome size [] { Builder.start with plan := plan } =
      some plan := by
    unfold outcome
    rw [itemsOf_nil]
    rfl
  simp only [finished, List.append_nil] at read
  rw [toOption_parse, read]
  exact Option.bind_fun_some _

/-- Whatever the blanks, the text of a forest is read as its plan if it is read at all. -/
theorem parse_eq_ok_iff {F : Forest} {text : String} {p : FetchPlan} (h : F.Spells text.toList) :
    parse text = .ok p ↔ F.All Field.Sortable ∧ F.Distinct ∧ p = F.plan := by
  rw [← Forest.enter_empty_iff h.named, ← toOption_parse_spelled h]
  cases parse text <;> simp [Except.toOption]

/-- The text of one bounded fetch is the text of a forest of one field. -/
theorem parse_of_isBounded {text name : String} {first : Nat} {last : Option Nat}
    {sorting : List SortKey} (h : Fetch.IsBounded text name first last sorting) :
    ∃ offset limit, Spans first last offset limit ∧
      parse text = .ok ⟨[("", ⟨name, .query offset limit sorting⟩)]⟩ := by
  obtain ⟨body, order, htext, named, positions, sorted⟩ := h
  obtain ⟨offset, limit, _, spans⟩ := Fetch.bounds_of_asks positions
  let f : Field := ⟨name, .bounded first last, sorting⟩
  have field : f.Spells text.toList :=
    ⟨named, '[' :: (body ++ [']']), order, by simp [htext, f], .bounded positions, sorted⟩
  have spelled : (Forest.cons f .nil .nil).Spells text.toList := by
    simpa using Forest.Spells.leaf blanks_nil field (.nil blanks_nil) (.inl rfl)
  refine ⟨offset, limit, spans, (parse_eq_ok_iff spelled).mpr ⟨?_, ?_, ?_⟩⟩
  · exact ⟨.inl rfl, trivial, trivial⟩
  · exact ⟨List.not_mem_nil, trivial, trivial⟩
  · obtain ⟨rfl, rfl⟩ := eq_of_spans positions spans
    rfl

/-- **Plans are read back from their text.** Every forest has a text, and each of its texts is read
as the plan that has the fields of the forest where they stand, unless an order is asked for of all
targets or two fields beside one another have the same name: then it is refused. -/
theorem forest_round_trips {F : Forest} (proper : F.All Field.Proper) :
    F.Spells F.text ∧ ∀ text : String, F.Spells text.toList →
      (F.All Field.Sortable → F.Distinct → ∃ p, parse text = .ok p ∧ p.Lays F) ∧
      (¬ (F.All Field.Sortable ∧ F.Distinct) → ∃ e, parse text = .error e) := by
  refine ⟨Forest.spells_text proper, fun text h => ?_⟩
  constructor
  · intro sortable distinct
    exact ⟨F.plan, (parse_eq_ok_iff h).mpr ⟨sortable, distinct, rfl⟩,
      Forest.lays_plan h.named distinct⟩
  · intro refused
    cases hp : parse text with
    | error e => exact ⟨e, rfl⟩
    | ok p =>
      obtain ⟨sortable, distinct, _⟩ := (parse_eq_ok_iff h).mp hp
      exact absurd ⟨sortable, distinct⟩ refused

/-- The address of each customer, and the last placed of the lines with their products. -/
def customersAndLines : Forest :=
  .cons ⟨"customer", .plain, []⟩ (.cons ⟨"address", .plain, []⟩ .nil .nil)
    (.cons ⟨"lines", .bounded 1 (some 5), [⟨"placed", .descending⟩]⟩
      (.cons ⟨"product", .collection, []⟩ .nil .nil) .nil)

theorem forest_round_trips_customers :
    customersAndLines.All Field.Proper ∧
    ∃ p, parse "customer\x7baddress\x7d lines[1:5](placed:desc)\x7bproduct[]\x7d" = .ok p ∧
      p.Lays customersAndLines := by
  have word {name : String} (ne : name ≠ "") (h : name.toList.all isNameChar = true) :
      IsWord name := ⟨ne, List.all_eq_true.mp h⟩
  have unbounded {name : String} {mark : Mark} (h : IsWord name)
      (plain : ∀ first last, mark ≠ .bounded first last) : (Field.mk name mark []).Proper :=
    ⟨h, fun first last same => absurd same (plain first last), nofun⟩
  have proper : customersAndLines.All Field.Proper := by
    refine ⟨unbounded (word (by decide) (by decide +kernel)) nofun,
      ⟨unbounded (word (by decide) (by decide +kernel)) nofun, trivial, trivial⟩, ?_,
      ⟨unbounded (word (by decide) (by decide +kernel)) nofun, trivial, trivial⟩, trivial⟩
    refine ⟨word (by decide) (by decide +kernel), ?_, ?_⟩
    · rintro _ _ ⟨⟩
      exact ⟨by decide, by decide, by rintro _ ⟨⟩; exact ⟨by decide, by decide⟩⟩
    · exact List.forall_mem_singleton.mpr (word (by decide) (by decide +kernel))
  have sortable : customersAndLines.All Field.Sortable :=
    ⟨.inr rfl, ⟨.inr rfl, trivial, trivial⟩, .inl rfl, ⟨.inr rfl, trivial, trivial⟩, trivial⟩
  have distinct : customersAndLines.Distinct :=
    ⟨by decide, ⟨by decide, trivial, trivial⟩, by decide, ⟨by decide, trivial, trivial⟩, trivial⟩
  obtain ⟨spelled, reads⟩ := forest_round_trips proper
  have text : customersAndLines.text =
      "customer\x7baddress\x7d lines[1:5](placed:desc)\x7bproduct[]\x7d".toList := by decide +kernel
  exact ⟨proper, (reads _ (text ▸ spelled)).1 sortable distinct⟩

end EntityQuery.FetchPlan
