import EntityQuery.Proofs.Filter.Quotation
import EntityQuery.Proofs.Filter.Words
import EntityQuery.Proofs.Text.Trimming

/-!
# Expressions written down

An expression is written with its operator spelled out: its field, the operator with its marks, and
its value, with colons between them; a literal, and each item of a list, stands in single quotes.
**What is written so is read back as the same expression** (`parse_written`). The forms of values
are tried one after the other, so the question for each of them is whether one that is tried before
takes its text for its own; `Writable` says of a value and of an expression that none does.

Items of a list keep their commas and blanks because a text in single quotes is kept together when
the list is cut into pieces (`isPiece_quotedItem`, `listItems_listText`).
-/

namespace EntityQuery

namespace Expression

/-! ## Fields -/

/-- A path as it is written, inside a function or by itself. -/
def called (function : Option Aggregate) (path : List Char) : List Char :=
  match function with
  | none => path
  | some f => f.name.toList ++ '\x7b' :: path ++ ['\x7d']

/-- The text has the form of a function. -/
def IsCall (s : List Char) : Prop :=
  ∃ name inner, IsName name ∧ s = name ++ '\x7b' :: inner ++ ['\x7d']

theorem isName_name (f : Aggregate) : IsName f.name.toList := by
  cases f <;> decide

theorem colon_not_mem_name (f : Aggregate) : ':' ∉ f.name.toList := by
  cases f <;> decide

theorem function?_called (f : Aggregate) {path : List Char} (line : '\n' ∉ path) :
    function? (called (some f) path) = .ok (some (f, String.ofList path)) := by
  have taken : functionParts? (called (some f) path) = some (f.name.toList, path) :=
    functionParts?_eq_some_iff.mpr ⟨rfl, isName_name f, line⟩
  unfold function?
  rw [taken]
  simp

theorem function?_of_not_isCall {s : List Char} (h : ¬ IsCall s) : function? s = .ok none := by
  have none_ : functionParts? s = none := by
    rw [Option.eq_none_iff_forall_ne_some]
    rintro ⟨name, inner⟩ taken
    obtain ⟨rfl, named, _⟩ := functionParts?_eq_some_iff.mp taken
    exact h ⟨name, inner, named, rfl⟩
  unfold function?
  rw [none_]

theorem operatorSpec_written (spec : OperatorSpec) : operatorSpec spec.written = .ok spec := by
  obtain ⟨operator, negate, property⟩ := spec
  cases operator <;> cases negate <;> cases property <;> rfl

/-! ## Lists -/

/-- The text is kept together when a list is cut into pieces: what follows is cut as by itself. -/
def IsPiece (p : List Char) : Prop :=
  ∀ s first rest, pieces false s = first :: rest → pieces false (p ++ s) = (p ++ first) :: rest

theorem pieces_kept {c : Char} {quoted : Bool} (kept : c = ',' → quoted = true)
    {s first : List Char}
    {rest : List (List Char)}
    (h : pieces (if c = singleQuote then !quoted else quoted) s = first :: rest) :
    pieces quoted (c :: s) = (c :: first) :: rest := by
  have no_cut : ¬ (c = ',' && !quoted) = true := by
    intro h
    obtain ⟨comma, outside⟩ := Bool.and_eq_true_iff.mp h
    rw [kept (of_decide_eq_true comma)] at outside
    cases outside
  rw [pieces, if_neg no_cut, h]

theorem isPiece_of_blanks {p : List Char} (h : Text.Blanks p) : IsPiece p := by
  intro s first rest cut
  induction p with
  | nil => exact cut
  | cons c p ih =>
    obtain ⟨blank, blanks⟩ := List.forall_mem_cons.mp h
    have comma : c ≠ ',' := by
      rintro rfl
      exact absurd blank (by decide)
    have quote : c ≠ singleQuote := by
      rintro rfl
      exact absurd blank (by decide)
    refine pieces_kept (fun h => absurd h comma) ?_
    rw [if_neg quote]
    exact ih blanks

/-- A text without single quotes as an item of a list. -/
def quotedItem (t : List Char) : List Char := singleQuote :: t ++ [singleQuote]

theorem isPiece_quotedItem {t : List Char} (h : singleQuote ∉ t) : IsPiece (quotedItem t) := by
  intro s first rest cut
  have inside : pieces true (t ++ singleQuote :: s) = (t ++ singleQuote :: first) :: rest := by
    induction t with
    | nil =>
      refine pieces_kept (fun _ => rfl) ?_
      rwa [if_pos rfl]
    | cons c t ih =>
      obtain ⟨other, others⟩ := not_or.mp (List.mem_cons.not.mp h)
      refine pieces_kept (fun _ => rfl) ?_
      rw [if_neg (Ne.symm other)]
      exact ih others
  have opened : pieces false (singleQuote :: (t ++ singleQuote :: s)) =
      (singleQuote :: (t ++ singleQuote :: first)) :: rest := by
    refine pieces_kept (fun comma => absurd comma (by decide)) ?_
    rwa [if_pos rfl]
  simpa [quotedItem] using opened

/-- The items of a list as they are written, with blanks after the commas between them. -/
def listText (gap : List Char) (items : List (List Char)) : List Char :=
  List.intercalate (',' :: gap) (items.map quotedItem)

section

variable {gap : List Char}

theorem pieces_listText (blanks : Text.Blanks gap) {t : List Char} {items : List (List Char)}
    (h : ∀ u ∈ t :: items, singleQuote ∉ u) :
    pieces false (listText gap (t :: items)) =
      quotedItem t :: items.map fun u => gap ++ quotedItem u := by
  induction items generalizing t with
  | nil =>
    have whole := isPiece_quotedItem (h t List.mem_cons_self) [] [] [] rfl
    simpa [listText] using whole
  | cons u items ih =>
    obtain ⟨ht, hu⟩ := List.forall_mem_cons.mp h
    have after : pieces false (',' :: (gap ++ listText gap (u :: items))) =
        [] :: (gap ++ quotedItem u) :: items.map fun v => gap ++ quotedItem v := by
      rw [← isPiece_of_blanks blanks _ _ _ (ih hu)]
      rfl
    have whole := isPiece_quotedItem ht _ _ _ after
    rw [List.append_nil] at whole
    simpa [listText] using whole

theorem listItem_quotedItem (blanks : Text.Blanks gap) (t : List Char) :
    listItem (gap ++ quotedItem t) = t := by
  have mark : Text.Bare [singleQuote] := Text.bare_singleton (by decide)
  have trimmed : Text.trim (gap ++ quotedItem t) = quotedItem t := by
    simpa [quotedItem] using Text.trim_append blanks (mark.between t mark) Text.blanks_nil
  have inner : between? singleQuote singleQuote (quotedItem t) = some t :=
    between?_eq_some_iff.mpr rfl
  unfold listItem
  simp only [trimmed, inner, Option.getD_some]

/-- Items in single quotes are read as they are, whatever stands in them. -/
theorem listItems_listText (blanks : Text.Blanks gap) {items : List (List Char)}
    (h : ∀ t ∈ items, singleQuote ∉ t) :
    listItems (listText gap items) = items.map String.ofList := by
  cases items with
  | nil => rfl
  | cons t items =>
    have first := listItem_quotedItem Text.blanks_nil t
    have read : (pieces false (listText gap (t :: items))).map listItem = t :: items := by
      rw [pieces_listText blanks h, List.map_cons, List.map_map]
      refine congrArg₂ List.cons first ?_
      exact List.map_id'' (fun u => listItem_quotedItem blanks u) items
    have marked : singleQuote ∈ listText gap (t :: items) := by
      cases items <;> simp [listText, quotedItem]
    unfold listItems
    rw [read]
    exact if_neg fun none_ => none_.2 marked

end

end Expression

/-! ## Values -/

namespace RightSide

open Expression

/-- A value as it is written: literals and the items of lists in single quotes, paths by
themselves. -/
def written (gap : List Char) : RightSide → List Char
  | literal s => quotedItem s.toList
  | list items => '[' :: listText gap (items.map String.toList) ++ [']']
  | path p function => called function p.toList

/-- The value can be written where properties are compared, or where they are not: what would be
taken for a value of another kind cannot, and paths only where properties are compared. -/
inductive Writable : Bool → RightSide → Prop
  | literal (property : Bool) (s : String) : Writable property (.literal s)
  | list (property : Bool) {items : List String} (unquoted : ∀ t ∈ items, singleQuote ∉ t.toList) :
    Writable property (.list items)
  | path {path : String} (no_list : ∀ inner, path.toList ≠ '[' :: inner ++ [']'])
      (no_literal : ∀ inner, path.toList ≠ singleQuote :: inner ++ [singleQuote])
      (no_call : ¬ IsCall path.toList) : Writable true (.path path none)
  | called (f : Aggregate) {path : String} (line : '\n' ∉ path.toList) :
    Writable true (.path path (some f))

end RightSide

namespace Expression

variable {gap : List Char} {property : Bool} {right : RightSide}

theorem bareValue_written (blanks : Text.Blanks gap) (h : right.Writable property) :
    bareValue property (right.written gap) = .ok right := by
  cases h with
  | literal s =>
    rw [RightSide.written, quotedItem, bareValue_literal, String.ofList_toList]
  | @list _ items unquoted =>
    have texts : ∀ t ∈ items.map String.toList, singleQuote ∉ t := by
      simpa using unquoted
    have same : items.map (String.ofList ∘ String.toList) = items :=
      List.map_id'' (fun t => String.ofList_toList) items
    rw [RightSide.written, bareValue_list, listItems_listText blanks texts, List.map_map, same]
  | @path path no_list no_literal no_call =>
    rw [RightSide.written, called, bareValue_plain no_list no_literal,
      function?_of_not_isCall no_call, ok_bind]
    simp
    rfl
  | @called f path line =>
    have ends (start stop : Char) (inner : List Char) (h : '\x7d' ≠ stop) :
        called (some f) path.toList ≠ start :: inner ++ [stop] := fun same => by
      have last := congrArg List.getLast? same
      simp only [called, List.getLast?_concat] at last
      exact h (Option.some.inj last)
    rw [RightSide.written, bareValue_plain (fun inner => ends '[' ']' inner (by decide))
      (fun inner => ends singleQuote singleQuote inner (by decide)), function?_called f line,
      ok_bind]
    simp
    rfl

/-- A function is applied only where properties are compared. -/
theorem compares_of_writable (h : right.Writable property) :
    (property || appliesFunction right) = property := by
  cases h <;> simp [appliesFunction]

/-! ## Whole expressions -/

variable {e : Expression}

/-- The operator of an expression with its marks. -/
def spec (e : Expression) : OperatorSpec := ⟨e.operator, e.negate, e.propertyCompare⟩

/-- An expression as it is written: its field, its operator with its marks, and its value. -/
def written (gap : List Char) (e : Expression) : String :=
  String.ofList (called e.function e.attr.toList ++ "::".toList ++ e.spec.written ++
    ':' :: e.right.written gap)

/-- The expression can be written down: its field is there, has no colon and is of one line, it
would not be taken for a function, and its value can be written. -/
structure Writable (e : Expression) : Prop where
  present : e.attr ≠ ""
  colon : ':' ∉ e.attr.toList
  line : '\n' ∉ e.attr.toList
  no_call : e.function = none → ¬ IsCall e.attr.toList
  right : e.right.Writable e.propertyCompare

theorem colon_not_mem_called (function : Option Aggregate) {path : List Char} (h : ':' ∉ path) :
    ':' ∉ called function path := by
  cases function with
  | none => exact h
  | some f => simp [called, colon_not_mem_name f, h]

theorem called_ne_nil (function : Option Aggregate) {path : List Char} (h : path ≠ []) :
    called function path ≠ [] := by
  cases function with
  | none => exact h
  | some f => simp [called]

/-- The field of an expression is read as its function and its path. -/
theorem exists_function?_field (h : e.Writable) :
    ∃ left, function? (called e.function e.attr.toList) = .ok left ∧ left.map (·.1) = e.function ∧
      (left.map (·.2)).getD (String.ofList (called e.function e.attr.toList)) = e.attr := by
  cases function : e.function with
  | none => exact ⟨none, function?_of_not_isCall (h.no_call function), rfl, String.ofList_toList⟩
  | some f =>
    exact ⟨some (f, String.ofList e.attr.toList), function?_called f h.line, rfl,
      String.ofList_toList⟩

/-- **What is written for an expression is read as this expression.** -/
theorem parse_written (blanks : Text.Blanks gap) (h : e.Writable) :
    parse (.plain (e.written gap)) = .ok e := by
  have bare : (Word.plain (e.written gap)).bare = called e.function e.attr.toList ++ "::".toList ++
      e.spec.written ++ ':' :: e.right.written gap := String.toList_ofList
  have parted := parts_long (colon_not_mem_called e.function h.colon)
    (colon_not_mem_written e.spec) bare
  have value : e.right.written gap ++ (Word.plain (e.written gap)).tail = e.right.written gap :=
    List.append_nil _
  rw [value] at parted
  have present : e.attr.toList ≠ [] := fun empty => h.present (String.toList_eq_nil_iff.mp empty)
  obtain ⟨left, hleft, function, attr⟩ := exists_function?_field h
  rw [parse_eq_ok_iff, parted]
  refine ⟨called_ne_nil e.function present, e.spec, left, e.right, operatorSpec_written e.spec,
    hleft, ?_, ?_⟩
  · exact (rightSide_bare rfl).trans (bareValue_written blanks h.right)
  · have compares : (e.propertyCompare || appliesFunction e.right) = e.propertyCompare :=
      compares_of_writable h.right
    simp only [ofSides, function, attr, spec, compares]

namespace Sampled

/-- Items with everything in them that means something in a list. -/
def listed : Expression :=
  ⟨"näme", some .count, .startsWith, true, true, .list ["a, b", "]", "", "\x7d "]⟩

/-- A path that would be taken for a list if it stood by itself. -/
def summed : Expression := ⟨"total", none, .lt, false, true, .path "[a]::b]" (some .sum)⟩

end Sampled

open Sampled in
theorem parse_written_sampled :
    parse (.plain "count\x7bnäme\x7d::not_startswith_prop:['a, b', ']', '', '\x7d ']") =
        .ok listed ∧
      parse (.plain "total::lt_prop:sum\x7b[a]::b]\x7d") = .ok summed := by
  have listed_text : listed.written [' '] =
      "count\x7bnäme\x7d::not_startswith_prop:['a, b', ']', '', '\x7d ']" := by decide +kernel
  have summed_text : summed.written [' '] = "total::lt_prop:sum\x7b[a]::b]\x7d" := by decide +kernel
  have blanks : Text.Blanks [' '] := by simp [Text.Blanks, show Text.isBlank ' ' = true by decide]
  rw [← listed_text, ← summed_text]
  constructor
  · have h : listed.Writable :=
      ⟨by decide, by decide +kernel, by decide +kernel, nofun, .list true (by decide +kernel)⟩
    exact parse_written blanks h
  · have no_call : ¬ IsCall "total".toList := by
      rintro ⟨name, inner, _, same⟩
      have last := congrArg List.getLast? same
      rw [List.getLast?_concat] at last
      exact absurd last (by decide)
    have h : summed.Writable :=
      ⟨by decide, by decide, by decide, fun _ => no_call, .called .sum (by decide)⟩
    exact parse_written blanks h

end Expression

end EntityQuery
