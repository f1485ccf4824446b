import EntityQuery.Filter.Expression
import EntityQuery.Proofs.Outcome
import Mathlib.Data.List.Basic

/-!
# Words taken apart

What a word is taken apart into is read off how it is written: its field and its value, or its
field, its operator and its value, with the colons between them (`parts_short`, `parts_long`); a
function with its braces (`functionParts?_eq_some_iff`); a list or a literal with what encloses it
(`between?_eq_some_iff`). A word is read in the order of its parts (`parse_eq`).

Of a value that is read it decides first how it is written: **it is a path only where nothing in its
writing makes it a literal or a list** (`Word.Unmarked`), **and only there does it count whether
properties are compared** (`path_iff_compares_plain_value`).
-/

namespace EntityQuery

/-- The word has a value: what follows the colon after its field, or the one after its operator. -/
inductive Word.HasValue (w : Word) : List Char → Prop
  | short {field value : List Char} (hfield : ':' ∉ field) (hvalue : value.head? ≠ some ':')
      (bare : w.bare = field ++ ':' :: value) : HasValue w (value ++ w.tail)
  | long {field operator value : List Char} (hfield : ':' ∉ field) (hoperator : ':' ∉ operator)
      (bare : w.bare = field ++ "::".toList ++ operator ++ ':' :: value) :
    HasValue w (value ++ w.tail)

namespace Expression

/-! ## Fields, operators and values -/

section

variable {w : Word} {field operator value : List Char}

theorem parts_short (hfield : ':' ∉ field) (hvalue : value.head? ≠ some ':')
    (bare : w.bare = field ++ ':' :: value) :
    parts w = ⟨field, none, some (value ++ w.tail)⟩ := by
  unfold parts
  rw [bare, Text.cut_append_cons hfield]
  split
  · contradiction
  · next h =>
    cases h
    exact absurd rfl hvalue
  · next h =>
    cases h
    rfl

theorem parts_long (hfield : ':' ∉ field) (hoperator : ':' ∉ operator)
    (bare : w.bare = field ++ "::".toList ++ operator ++ ':' :: value) :
    parts w = ⟨field, some operator, some (value ++ w.tail)⟩ := by
  have first : Text.cut ':' w.bare = some (field, ':' :: (operator ++ ':' :: value)) := by
    rw [bare, List.append_assoc, List.append_assoc]
    exact Text.cut_append_cons hfield
  unfold parts
  simp only [first, Text.cut_append_cons hoperator]

theorem parts_value_iff {v : List Char} : (parts w).value = some v ↔ w.HasValue v := by
  constructor
  · unfold parts
    intro h
    split at h
    · cases h
    · next field rest cut =>
      obtain ⟨hfield, bare⟩ := Text.cut_eq_some_iff.mp cut
      split at h
      · next operator value cut =>
        obtain ⟨hoperator, rfl⟩ := Text.cut_eq_some_iff.mp cut
        cases h
        exact .long hfield hoperator (by simp [bare])
      · cases h
    · next field value single cut =>
      obtain ⟨hfield, bare⟩ := Text.cut_eq_some_iff.mp cut
      cases h
      refine .short hfield (fun double => ?_) bare
      obtain ⟨rest, rfl⟩ := List.head?_eq_some_iff.mp double
      exact single rest rfl
  · rintro (⟨hfield, hvalue, bare⟩ | ⟨hfield, hoperator, bare⟩)
    · rw [parts_short hfield hvalue bare]
    · rw [parts_long hfield hoperator bare]

end

/-! ## Enclosed texts -/

theorem between?_eq_some_iff {start stop : Char} {s inner : List Char} :
    between? start stop s = some inner ↔ s = start :: inner ++ [stop] := by
  unfold between? Text.dropStart? Text.dropEnd?
  rw [Option.bind_eq_some_iff]
  simp only [List.isPrefixOf?_eq_some_iff_append_eq, List.isSuffixOf?_eq_some_iff_append_eq]
  constructor
  · rintro ⟨rest, rfl, rfl⟩
    rfl
  · rintro rfl
    exact ⟨inner ++ [stop], rfl, rfl⟩

theorem between?_eq_none_iff {start stop : Char} {s : List Char} :
    between? start stop s = none ↔ ∀ inner, s ≠ start :: inner ++ [stop] := by
  rw [Option.eq_none_iff_forall_ne_some]
  exact forall_congr' fun inner => not_congr between?_eq_some_iff

/-- The characters can be the name of a function. -/
def IsName (name : List Char) : Prop := name ≠ [] ∧ ∀ c ∈ name, isNameChar c = true

instance (name : List Char) : Decidable (IsName name) :=
  decidable_of_iff (name.isEmpty = false ∧ name.all isNameChar = true) (by simp [IsName])

theorem functionParts?_eq_some_iff {s name inner : List Char} :
    functionParts? s = some (name, inner) ↔
      s = name ++ '\x7b' :: inner ++ ['\x7d'] ∧ IsName name ∧ '\n' ∉ inner := by
  unfold functionParts?
  constructor
  · intro h
    split at h
    · next name' rest cut =>
      obtain ⟨_, rfl⟩ := Text.cut_eq_some_iff.mp cut
      split at h
      · next inner' closed =>
        split at h
        · next shape =>
          cases h
          have rest_eq := List.isSuffixOf?_eq_some_iff_append_eq.mp closed
          simp only [Bool.and_eq_true, Bool.not_eq_true', List.isEmpty_eq_false_iff,
            List.all_eq_true, List.contains_eq_mem, decide_eq_false_iff_not] at shape
          exact ⟨by simp [← rest_eq], shape.1, shape.2⟩
        · cases h
      · cases h
    · cases h
  · rintro ⟨rfl, ⟨ne, named⟩, line⟩
    have brace : '\x7b' ∉ name := fun h => absurd (named _ h) (by decide)
    have cut : Text.cut '\x7b' (name ++ '\x7b' :: inner ++ ['\x7d']) =
        some (name, inner ++ ['\x7d']) := by
      simpa using Text.cut_append_cons (b := inner ++ ['\x7d']) brace
    have closed : Text.dropEnd? ['\x7d'] (inner ++ ['\x7d']) = some inner :=
      List.isSuffixOf?_eq_some_iff_append_eq.mpr rfl
    have shape : (!name.isEmpty && name.all isNameChar && !inner.contains '\n') = true := by
      simpa [ne, line] using named
    simp only [cut, closed, shape, if_true]

/-! ## Values -/

section

variable {property : Bool} {v inner : List Char}

theorem bareValue_list :
    bareValue property ('[' :: inner ++ [']']) = .ok (.list (listItems inner)) := by
  unfold bareValue
  rw [between?_eq_some_iff.mpr rfl]
  rfl

theorem bareValue_literal : bareValue property (singleQuote :: inner ++ [singleQuote]) =
    .ok (.literal (String.ofList inner)) := by
  have no_list : between? '[' ']' (singleQuote :: inner ++ [singleQuote]) = none :=
    between?_eq_none_iff.mpr fun inner' h => by
      have first : singleQuote = '[' := (List.cons.inj h).1
      exact absurd first (by decide)
  unfold bareValue
  rw [no_list, between?_eq_some_iff.mpr rfl]
  rfl

theorem bareValue_plain (no_list : ∀ inner, v ≠ '[' :: inner ++ [']'])
    (no_literal : ∀ inner, v ≠ singleQuote :: inner ++ [singleQuote]) :
    bareValue property v = do
      match ← function? v with
      | some (f, path) => return .path path (some f)
      | none =>
        return if property then .path (String.ofList v) none else .literal (String.ofList v) := by
  unfold bareValue
  rw [between?_eq_none_iff.mpr no_list, between?_eq_none_iff.mpr no_literal]
  cases function? v with
  | error e => rfl
  | ok function =>
    cases function with
    | some => rfl
    | none => cases property <;> rfl

end

/-! ## Reading a word -/

/-- Reads the operator of a word; equality where there is none. -/
def operatorOf : Option (List Char) → Except Error OperatorSpec
  | none => .ok .default
  | some spec => operatorSpec spec

/-- The expression of a field and a value that have been read. -/
def ofSides (field : List Char) (spec : OperatorSpec) (left : Option (Aggregate × String))
    (right : RightSide) : Expression where
  attr := (left.map (·.2)).getD (String.ofList field)
  function := left.map (·.1)
  operator := spec.operator
  negate := spec.negate
  propertyCompare := spec.property || appliesFunction right
  right := right

/-- A word with a field is read in the order of its parts, and with no other part of it known. -/
theorem parse_eq {w : Word} (some_field : (parts w).field ≠ []) :
    parse w = do
      let spec ← operatorOf (parts w).operator
      let left ← function? (parts w).field
      let right ← rightSide w spec.property (parts w).value
      return ofSides (parts w).field spec left right := by
  have present : (parts w).field.isEmpty = false := by simpa using some_field
  unfold parse
  simp only [present]
  cases (parts w).operator <;> rfl

theorem parse_nil {w : Word} (no_field : (parts w).field = []) :
    parse w = .error (.invalidPath (.malformed (String.ofList w.text))) := by
  unfold parse
  simp only [no_field]
  rfl

theorem parse_eq_ok_iff {w : Word} {e : Expression} :
    parse w = .ok e ↔ (parts w).field ≠ [] ∧ ∃ spec left right,
      operatorOf (parts w).operator = .ok spec ∧ function? (parts w).field = .ok left ∧
      rightSide w spec.property (parts w).value = .ok right ∧
      e = ofSides (parts w).field spec left right := by
  by_cases no_field : (parts w).field = []
  · simp [parse_nil no_field, no_field]
  · rw [parse_eq no_field]
    simp only [bind_eq_ok, pure_eq_ok]
    constructor
    · rintro ⟨spec, hspec, left, hleft, right, hright, rfl⟩
      exact ⟨no_field, spec, left, right, hspec, hleft, hright, rfl⟩
    · rintro ⟨_, spec, left, right, hspec, hleft, hright, rfl⟩
      exact ⟨spec, hspec, left, hleft, right, hright, rfl⟩

end Expression

/-! ## Values that are paths -/

/-- The value is a path. -/
def RightSide.IsPath (r : RightSide) : Prop := ∃ path function, r = .path path function

/-- Nothing in the writing of the value makes it a literal or a list: no quotation, no brackets
around it, no single quotes around it. -/
structure Word.Unmarked (w : Word) (v : List Char) : Prop where
  quoted : w.quoted = none
  list : ∀ inner, v ≠ '[' :: inner ++ [']']
  literal : ∀ inner, v ≠ Expression.singleQuote :: inner ++ [Expression.singleQuote]

namespace Expression

variable {w : Word}

theorem bareValue_isPath_iff {property : Bool} {v : List Char} {right : RightSide}
    (no_list : ∀ inner, v ≠ '[' :: inner ++ [']'])
    (no_literal : ∀ inner, v ≠ singleQuote :: inner ++ [singleQuote])
    (h : bareValue property v = .ok right) :
    right.IsPath ↔ (property || appliesFunction right) = true := by
  rw [bareValue_plain no_list no_literal] at h
  obtain ⟨function, _, h⟩ := bind_eq_ok.mp h
  rcases function with _ | ⟨f, path⟩
  · cases property <;> cases h <;> simp [RightSide.IsPath, appliesFunction]
  · cases h
    simp [RightSide.IsPath, appliesFunction]

theorem rightSide_quoted {property : Bool} {v : List Char} (quoted : w.quoted.isSome = true) :
    rightSide w property (some v) = .ok (.literal (String.ofList v)) := if_pos quoted

theorem rightSide_bare {property : Bool} {v : List Char} (quoted : w.quoted = none) :
    rightSide w property (some v) = bareValue property v := by
  rw [rightSide, if_neg (by simp [quoted])]

/-- A value that is marked is no path, whether or not properties are compared. -/
theorem rightSide_isPath_iff {property : Bool} {v : List Char} {right : RightSide}
    (h : rightSide w property (some v) = .ok right) :
    right.IsPath ↔ (property || appliesFunction right) = true ∧ w.Unmarked v := by
  have marked (no_path : ¬ right.IsPath) (mark : ¬ w.Unmarked v) :
      right.IsPath ↔ (property || appliesFunction right) = true ∧ w.Unmarked v :=
    iff_of_false no_path fun both => mark both.2
  by_cases quoted : w.quoted = none
  · rw [rightSide_bare quoted] at h
    by_cases list : ∃ inner, v = '[' :: inner ++ [']']
    · obtain ⟨inner, rfl⟩ := list
      cases bareValue_list.symm.trans h
      exact marked (by simp [RightSide.IsPath]) fun plain => plain.list inner rfl
    by_cases literal : ∃ inner, v = singleQuote :: inner ++ [singleQuote]
    · obtain ⟨inner, rfl⟩ := literal
      cases bareValue_literal.symm.trans h
      exact marked (by simp [RightSide.IsPath]) fun plain => plain.literal inner rfl
    rw [not_exists] at list literal
    rw [bareValue_isPath_iff list literal h, and_iff_left ⟨quoted, list, literal⟩]
  · cases (rightSide_quoted (Option.isSome_iff_ne_none.mpr quoted)).symm.trans h
    exact marked (by simp [RightSide.IsPath]) fun plain => quoted plain.quoted

/-- **The right side of an expression is a path exactly if properties are compared and its value is
written plainly.** Where a word has no value, the right side is the truth; a quoted value is a
literal, a value in brackets is a list and one in single quotes a literal, also where properties are
compared. -/
theorem path_iff_compares_plain_value {e : Expression} (parsed : parse w = .ok e) :
    (e.right.IsPath ↔ e.propertyCompare = true ∧ ∃ v, w.HasValue v ∧ w.Unmarked v) ∧
    ((∀ v, ¬ w.HasValue v) → e.right = .literal "true") ∧
    ∀ v, w.HasValue v →
      (w.quoted.isSome = true → e.right = .literal (String.ofList v)) ∧
      (w.quoted = none → ∀ inner,
        (v = '[' :: inner ++ [']'] → e.right = .list (listItems inner)) ∧
        (v = singleQuote :: inner ++ [singleQuote] →
          e.right = .literal (String.ofList inner))) := by
  obtain ⟨_, spec, left, right, _, _, read, rfl⟩ := parse_eq_ok_iff.mp parsed
  dsimp only [ofSides]
  cases value : (parts w).value with
  | none =>
    have no_value : ∀ v, ¬ w.HasValue v := fun v h => by
      rw [parts_value_iff.mpr h] at value
      cases value
    rw [value] at read
    cases read
    refine ⟨?_, fun _ => rfl, fun v h => absurd h (no_value v)⟩
    exact iff_of_false (by simp [RightSide.IsPath]) fun ⟨_, v, h, _⟩ => no_value v h
  | some v =>
    have has_value : w.HasValue v := parts_value_iff.mp value
    have same (v' : List Char) (h : w.HasValue v') : v' = v :=
      Option.some.inj ((parts_value_iff.mpr h).symm.trans value)
    rw [value] at read
    refine ⟨?_, fun none_ => absurd has_value (none_ v), fun v' h => ?_⟩
    · rw [rightSide_isPath_iff read]
      refine and_congr_right fun _ => ⟨fun plain => ⟨v, has_value, plain⟩, ?_⟩
      rintro ⟨v', h, plain⟩
      exact same v' h ▸ plain
    · obtain rfl := same v' h
      refine ⟨fun quoted => ?_, fun quoted inner => ⟨?_, ?_⟩⟩
      · cases (rightSide_quoted quoted).symm.trans read
        rfl
      · rintro rfl
        rw [rightSide_bare quoted, bareValue_list] at read
        cases read
        rfl
      · rintro rfl
        rw [rightSide_bare quoted, bareValue_literal] at read
        cases read
        rfl

theorem path_iff_compares_plain_value_created :
    parse (.plain "created::not_gt_prop:updated") =
        .ok ⟨"created", none, .gt, true, true, .path "updated" none⟩ ∧
      (RightSide.path "updated" none).IsPath ∧
      parse (.plain "note::eq_prop:'sum\x7bx\x7d'") =
        .ok ⟨"note", none, .eq, false, true, .literal "sum\x7bx\x7d"⟩ ∧
      ¬ (RightSide.literal "sum\x7bx\x7d").IsPath := by
  have created : parse (.plain "created::not_gt_prop:updated") =
      .ok ⟨"created", none, .gt, true, true, .path "updated" none⟩ := by decide +kernel
  have note : parse (.plain "note::eq_prop:'sum\x7bx\x7d'") =
      .ok ⟨"note", none, .eq, false, true, .literal "sum\x7bx\x7d"⟩ := by decide +kernel
  refine ⟨created, ?_, note, ?_⟩
  · have value : (parts (.plain "created::not_gt_prop:updated")).value = some "updated".toList := by
      decide +kernel
    have plain : (Word.plain "created::not_gt_prop:updated").Unmarked "updated".toList :=
      ⟨rfl, between?_eq_none_iff.mp (by decide), between?_eq_none_iff.mp (by decide)⟩
    exact (path_iff_compares_plain_value created).1.mpr ⟨rfl, _, parts_value_iff.mp value, plain⟩
  · intro path
    obtain ⟨_, v, has_value, plain⟩ := (path_iff_compares_plain_value note).1.mp path
    have value : (parts (.plain "note::eq_prop:'sum\x7bx\x7d'")).value =
        some "'sum\x7bx\x7d'".toList := by decide +kernel
    obtain rfl := Option.some.inj ((parts_value_iff.mpr has_value).symm.trans value)
    exact plain.literal "sum\x7bx\x7d".toList (by decide)

/-- Properties are compared, and still the right side is no path. -/
theorem compares_quoted_value :
    ¬ ∀ (w : Word) (e : Expression), parse w = .ok e →
      (e.right.IsPath ↔ e.propertyCompare = true) := by
  intro h
  have parsed :
      parse (.plain "a::eq_prop:'b'") = .ok ⟨"a", none, .eq, false, true, .literal "b"⟩ := by
    decide +kernel
  obtain ⟨_, _, path⟩ := (h _ _ parsed).mpr rfl
  cases path

end Expression

end EntityQuery
