import EntityQuery.Dataset.Evaluation
import EntityQuery.Proofs.Text.Lowercase
import EntityQuery.Sql.Condition
import Mathlib.Data.List.Infix

/-!
# Patterns of texts

What a pattern matches, and that **the pattern made of a literal matches exactly the texts in which
the literal is found as it stands** (`matchesItems_literalItems`). In a pattern a percent sign
stands for any characters, an underscore for one, and a backslash makes the character after it stand
for itself; `Likes` says so character by character, and reading a pattern item by item comes to the
same (`likes_iff`).

Since a backslash is put before each of these three, a pattern is lower-cased by lower-casing the
text it is made of (`lowercase_escaped`): none of the three is a letter, and none is passed over
where the end of a word is looked for.
-/

namespace EntityQuery.Sql

/-- What a pattern asks for. -/
inductive PatternItem where
  /-- Any characters. -/
  | run
  /-- One character. -/
  | single
  | char (c : Char)

/-- What a character of a pattern asks for. -/
def PatternItem.ofChar (c : Char) : PatternItem :=
  if c = '%' then run else if c = '_' then single else char c

/-- The items of a pattern; a backslash must have a character after it. -/
def patternItems? : List Char → Option (List PatternItem)
  | [] => some []
  | ['\\'] => none
  | '\\' :: c :: p => (patternItems? p).map (.char c :: ·)
  | c :: p => (patternItems? p).map (.ofChar c :: ·)

/-- Whether a text matches the items of a pattern. -/
def matchesItems : List PatternItem → List Char → Bool
  | [], s => s.isEmpty
  | .run :: p, s => s.tails.any (matchesItems p)
  | .single :: p, s => match s with
    | [] => false
    | _ :: s => matchesItems p s
  | .char c :: p, s => match s with
    | [] => false
    | d :: s => c = d && matchesItems p s

/-- The character stands for itself in a pattern. -/
def Unmarked (c : Char) : Prop := c ≠ '\\' ∧ c ≠ '%' ∧ c ≠ '_'

instance (c : Char) : Decidable (Unmarked c) := inferInstanceAs (Decidable (_ ∧ _ ∧ _))

/-! ## Items -/

@[simp] theorem patternItems?_escape (c : Char) (p : List Char) :
    patternItems? (escapePatternChar c ++ p) = (patternItems? p).map (.char c :: ·) := by
  unfold escapePatternChar
  split
  · simp [patternItems?]
  · next h =>
    simp only [not_or] at h
    simp [patternItems?, PatternItem.ofChar, h]

theorem patternItems?_escaped (needle p : List Char) :
    patternItems? (needle.flatMap escapePatternChar ++ p) =
      (patternItems? p).map (needle.map .char ++ ·) := by
  induction needle with
  | nil => simp
  | cons c needle ih =>
    rw [List.flatMap_cons, List.append_assoc, patternItems?_escape, ih, Option.map_map]
    rfl

@[simp] theorem patternItems?_percent (p : List Char) :
    patternItems? ('%' :: p) = (patternItems? p).map (.run :: ·) := by
  cases p <;> simp [patternItems?, PatternItem.ofChar]

@[simp] theorem patternItems?_underscore (p : List Char) :
    patternItems? ('_' :: p) = (patternItems? p).map (.single :: ·) := by
  cases p <;> simp [patternItems?, PatternItem.ofChar]

theorem escapePatternChar_eq_singleton_iff {c : Char} : escapePatternChar c = [c] ↔ Unmarked c := by
  unfold escapePatternChar Unmarked
  split
  · next h => simp; tauto
  · next h => simpa using h

theorem patternItems?_unmarked {c : Char} (h : Unmarked c) (p : List Char) :
    patternItems? (c :: p) = (patternItems? p).map (.char c :: ·) := by
  have escape := patternItems?_escape c p
  rwa [escapePatternChar_eq_singleton_iff.mpr h] at escape

/-- How the items of a pattern are written. -/
inductive Spells : List PatternItem → List Char → Prop
  | nil : Spells [] []
  | escaped {items : List PatternItem} {p : List Char} (c : Char) (h : Spells items p) :
      Spells (.char c :: items) ('\\' :: c :: p)
  | run {items : List PatternItem} {p : List Char} (h : Spells items p) :
      Spells (.run :: items) ('%' :: p)
  | single {items : List PatternItem} {p : List Char} (h : Spells items p) :
      Spells (.single :: items) ('_' :: p)
  | char {items : List PatternItem} {p : List Char} {c : Char} (unmarked : Unmarked c)
      (h : Spells items p) : Spells (.char c :: items) (c :: p)

theorem spells_of_patternItems? {p : List Char} {items : List PatternItem}
    (read : patternItems? p = some items) : Spells items p := by
  induction p using patternItems?.induct generalizing items with
  | case1 =>
    cases read
    exact .nil
  | case2 => cases read
  | case3 c p ih =>
    obtain ⟨items, rest, rfl⟩ := Option.map_eq_some_iff.mp read
    exact .escaped c (ih rest)
  | case4 c p last escapes ih =>
    have notBackslash : c ≠ '\\' := by
      rintro rfl
      cases p with
      | nil => exact last rfl rfl
      | cons d p => exact escapes d p rfl rfl
    by_cases percent : c = '%'
    · subst percent
      rw [patternItems?_percent, Option.map_eq_some_iff] at read
      obtain ⟨items, rest, rfl⟩ := read
      exact .run (ih rest)
    by_cases underscore : c = '_'
    · subst underscore
      rw [patternItems?_underscore, Option.map_eq_some_iff] at read
      obtain ⟨items, rest, rfl⟩ := read
      exact .single (ih rest)
    · have unmarked : Unmarked c := ⟨notBackslash, percent, underscore⟩
      rw [patternItems?_unmarked unmarked, Option.map_eq_some_iff] at read
      obtain ⟨items, rest, rfl⟩ := read
      exact .char unmarked (ih rest)

/-! ## Matching -/

theorem matchesItems_run_iff {p : List PatternItem} {s : List Char} :
    matchesItems (.run :: p) s = true ↔ ∃ t, t <:+ s ∧ matchesItems p t = true := by
  simp [matchesItems]

theorem matchesItems_chars_iff {needle s : List Char} {p : List PatternItem} :
    matchesItems (needle.map .char ++ p) s = true ↔
      ∃ t, needle ++ t = s ∧ matchesItems p t = true := by
  induction needle generalizing s with
  | nil => simp
  | cons c needle ih =>
    cases s with
    | nil => simp [matchesItems]
    | cons d s =>
      simp only [List.map_cons, List.cons_append, matchesItems, Bool.and_eq_true,
        decide_eq_true_eq, ih, List.cons.injEq]
      constructor
      · rintro ⟨rfl, t, rfl, h⟩
        exact ⟨t, ⟨rfl, rfl⟩, h⟩
      · rintro ⟨t, ⟨rfl, rfl⟩, h⟩
        exact ⟨rfl, t, rfl, h⟩

/-- Characters that are matched with a run can be taken one by one. -/
theorem matchesItems_run_append (p : List PatternItem) (l : List Char) {s : List Char}
    (h : matchesItems (.run :: p) s = true) : matchesItems (.run :: p) (l ++ s) = true := by
  obtain ⟨t, ht, h⟩ := matchesItems_run_iff.mp h
  exact matchesItems_run_iff.mpr ⟨t, ht.trans (List.suffix_append l s), h⟩

theorem matchesItems_nil_iff {s : List Char} : matchesItems [] s = true ↔ s = [] := by
  simp [matchesItems]

theorem matchesItems_only_run (s : List Char) : matchesItems [.run] s = true :=
  matchesItems_run_iff.mpr ⟨[], List.nil_suffix, rfl⟩

theorem occursIn_iff {needle s : List Char} : occursIn needle s = true ↔ needle <:+: s := by
  induction s with
  | nil => simp [occursIn]
  | cons c s ih =>
    rw [occursIn, Bool.or_eq_true, ih, List.isPrefixOf_iff_prefix, List.infix_cons_iff]

/-- Characters before and after a text that is to be found make the three tests of texts. -/
theorem matchesItems_found_iff {before after : Bool} {needle s : List Char} :
    matchesItems ((if before then [.run] else []) ++ needle.map .char ++
        (if after then [.run] else [])) s = true ↔
      ∃ l r, l ++ needle ++ r = s ∧ (before = false → l = []) ∧ (after = false → r = []) := by
  have tail {s : List Char} : matchesItems (if after then [.run] else []) s = true ↔
      (after = false → s = []) := by
    cases after with
    | false => simp [matchesItems_nil_iff]
    | true => simp [matchesItems_only_run]
  -- A run in front leaves open where the needle begins.
  cases before with
  | false =>
    simp only [Bool.false_eq_true, if_false, List.nil_append, matchesItems_chars_iff, tail]
    constructor
    · rintro ⟨r, rfl, h⟩
      exact ⟨[], r, rfl, fun _ => rfl, h⟩
    · rintro ⟨l, r, rfl, hl, h⟩
      rw [hl trivial]
      exact ⟨r, rfl, h⟩
  | true =>
    simp only [if_true, List.cons_append, List.nil_append, matchesItems_run_iff,
      matchesItems_chars_iff, tail]
    constructor
    · rintro ⟨t, ⟨l, rfl⟩, r, rfl, h⟩
      exact ⟨l, r, by simp, by simp, h⟩
    · rintro ⟨l, r, rfl, _, h⟩
      exact ⟨needle ++ r, ⟨l, by simp⟩, r, rfl, h⟩

/-! ## Patterns as they are written -/

/-- What matches a pattern, said of its characters: a percent sign takes any characters, an
underscore takes one, and what follows a backslash takes itself, as every other character does. -/
inductive Likes : List Char → List Char → Prop
  | nil : Likes [] []
  | skip {p s : List Char} (h : Likes p s) : Likes ('%' :: p) s
  | take {p s : List Char} (c : Char) (h : Likes ('%' :: p) s) : Likes ('%' :: p) (c :: s)
  | single {p s : List Char} (c : Char) (h : Likes p s) : Likes ('_' :: p) (c :: s)
  | escaped {p s : List Char} (c : Char) (h : Likes p s) : Likes ('\\' :: c :: p) (c :: s)
  | char {p s : List Char} {c : Char} (unmarked : Unmarked c) (h : Likes p s) :
      Likes (c :: p) (c :: s)

theorem Likes.takeAll {p s : List Char} (l : List Char) (h : Likes p s) :
    Likes ('%' :: p) (l ++ s) := by
  induction l with
  | nil => exact .skip h
  | cons c l ih => exact .take c ih

/-- Reading a pattern item by item is matching it character by character. -/
theorem likes_iff {p s : List Char} :
    Likes p s ↔ ∃ items, patternItems? p = some items ∧ matchesItems items s = true := by
  constructor
  · intro h
    induction h with
    | nil => exact ⟨[], rfl, rfl⟩
    | skip _ ih =>
      obtain ⟨items, read, found⟩ := ih
      have here := matchesItems_run_iff.mpr ⟨_, List.suffix_refl _, found⟩
      exact ⟨.run :: items, by simp [read], here⟩
    | @take p s c _ ih =>
      obtain ⟨items, read, found⟩ := ih
      rw [patternItems?_percent, Option.map_eq_some_iff] at read
      obtain ⟨items, read, rfl⟩ := read
      exact ⟨.run :: items, by simp [read], matchesItems_run_append items [c] found⟩
    | @single p s c _ ih =>
      obtain ⟨items, read, found⟩ := ih
      exact ⟨.single :: items, by simp [read], found⟩
    | escaped c _ ih =>
      obtain ⟨items, read, found⟩ := ih
      exact ⟨.char c :: items, by simp [patternItems?, read], by simp [matchesItems, found]⟩
    | @char p s c unmarked _ ih =>
      obtain ⟨items, read, found⟩ := ih
      exact ⟨.char c :: items, by rw [patternItems?_unmarked unmarked, read]; rfl,
        by simp [matchesItems, found]⟩
  · rintro ⟨items, read, found⟩
    have spelled := spells_of_patternItems? read
    clear read
    induction spelled generalizing s with
    | nil =>
      rw [matchesItems_nil_iff.mp found]
      exact .nil
    | run _ ih =>
      obtain ⟨t, ⟨l, rfl⟩, rest⟩ := matchesItems_run_iff.mp found
      exact (ih rest).takeAll l
    | single _ ih =>
      cases s with
      | nil => cases found
      | cons d s => exact .single d (ih found)
    | escaped c _ ih =>
      obtain ⟨t, rfl, rest⟩ := (@matchesItems_chars_iff [c] _ _).mp found
      exact .escaped c (ih rest)
    | @char _ _ c unmarked _ ih =>
      obtain ⟨t, rfl, rest⟩ := (@matchesItems_chars_iff [c] _ _).mp found
      exact .char unmarked (ih rest)

/-! ## Lower case of an escaped text -/

open Text in
theorem escapePatternChar_eq_or (c : Char) :
    escapePatternChar c = [c] ∨
      escapePatternChar c = ['\\', c] ∧ isCased c = false ∧ isCaseIgnorable c = false ∧
        lowerChar c = [c] ∧ c ≠ 'Σ' := by
  unfold escapePatternChar
  split
  · next h =>
    refine .inr ⟨rfl, ?_⟩
    rcases h with rfl | rfl | rfl <;> decide +kernel
  · exact .inl rfl

open Text in
theorem startsCased_escaped (s : List Char) :
    startsCased (s.flatMap escapePatternChar) = startsCased s := by
  have backslash : isCased '\\' = false ∧ isCaseIgnorable '\\' = false := by decide +kernel
  induction s with
  | nil => rfl
  | cons c s ih =>
    unfold startsCased at ih ⊢
    rw [List.flatMap_cons]
    rcases escapePatternChar_eq_or c with h | ⟨h, cased, ignorable, _⟩
    · rw [h, List.singleton_append, List.dropWhile_cons, List.dropWhile_cons]
      split
      · exact ih
      · rfl
    · simp [h, backslash, cased, ignorable]

open Text in
/-- What stands before a character, nearest first, and how it is escaped. -/
theorem startsCased_escaped_reverse (s : List Char) :
    startsCased (s.flatMap fun c => (escapePatternChar c).reverse) = startsCased s := by
  induction s with
  | nil => rfl
  | cons c s ih =>
    unfold startsCased at ih ⊢
    rw [List.flatMap_cons]
    rcases escapePatternChar_eq_or c with h | ⟨h, cased, ignorable, _⟩
    · rw [h, List.reverse_singleton, List.singleton_append, List.dropWhile_cons,
        List.dropWhile_cons]
      split
      · exact ih
      · rfl
    · simp [h, cased, ignorable]

/-- The characters that are escaped come before the small letters. -/
theorem escapePatternChar_ofNat {n : Nat} (h : 0x5f < n) :
    escapePatternChar (Char.ofNat n) = [Char.ofNat n] := by
  by_cases valid : n.isValidChar
  · have code : (Char.ofNat n).toNat = n := by
      rw [Char.ofNat, dif_pos valid]
      rfl
    unfold escapePatternChar
    rw [if_neg]
    rintro (he | he | he) <;> rw [he] at code <;> subst code <;> exact absurd h (by decide)
  · rw [Char.ofNat, dif_neg valid]
    decide +kernel

open Text in
/-- Lower case makes none of the characters that are escaped. -/
theorem escapePatternChar_of_mem_lowerChar {c d : Char} (hc : escapePatternChar c = [c])
    (hd : d ∈ lowerChar c) : escapePatternChar d = [d] := by
  generalize hl : lowerChar c = l at hd
  cases hl ▸ lowers_lowerChar c with
  | ascii small =>
    have all : ∀ n : Fin 0x80, escapePatternChar (Char.ofNat n) = [Char.ofNat n] →
        escapePatternChar (Char.ofNat n).toLower = [(Char.ofNat n).toLower] := by decide +kernel
    have := all ⟨c.toNat, small⟩
    rw [Char.ofNat_toNat] at this
    rw [List.mem_singleton.mp hd]
    exact this hc
  | dotted =>
    simp only [List.mem_cons, List.not_mem_nil, or_false] at hd
    rcases hd with rfl | rfl <;> decide +kernel
  | @moved r run moves =>
    have targets : ∀ r ∈ lowercaseRuns, (0x5f : Int) < r.first + r.shift := by decide +kernel
    have target := targets r run
    obtain ⟨low, _, _⟩ := moves
    rw [List.mem_singleton.mp hd]
    refine escapePatternChar_ofNat ?_
    unfold CaseRun.target
    omega
  | unmoved =>
    rw [List.mem_singleton.mp hd]
    exact hc

open Text in
theorem lowerAfter_escaped (before s : List Char) :
    lowerAfter (before.flatMap fun c => (escapePatternChar c).reverse)
        (s.flatMap escapePatternChar) =
      (lowerAfter before s).flatMap escapePatternChar := by
  induction s generalizing before with
  | nil => rfl
  | cons c s ih =>
    have ih := ih (c :: before)
    rw [List.flatMap_cons] at ih ⊢
    rcases escapePatternChar_eq_or c with h | ⟨h, _, _, lower, sigma⟩
    · rw [h] at ih ⊢
      rw [List.singleton_append, lowerAfter, lowerAfter, List.flatMap_append, startsCased_escaped,
        startsCased_escaped_reverse]
      rw [List.reverse_singleton, List.singleton_append] at ih
      rw [ih]
      congr 1
      split
      · split <;> decide +kernel
      · rw [List.flatMap_congr fun d hd => escapePatternChar_of_mem_lowerChar h hd]
        simp
    · rw [h] at ih ⊢
      have backslash : lowerChar '\\' = ['\\'] := by decide +kernel
      simp only [List.reverse_cons, List.reverse_nil, List.nil_append, List.cons_append] at ih ⊢
      rw [lowerAfter, lowerAfter, lowerAfter, ih]
      simp [sigma, lower, backslash, h]

/-- An escaped text is lower-cased by escaping the lower-cased text. -/
theorem lowercase_escaped (s : List Char) :
    Text.lowercase (s.flatMap escapePatternChar) =
      (Text.lowercase s).flatMap escapePatternChar := lowerAfter_escaped [] s

/-! ## Literals -/

/-- A text as an operator compares it. -/
def folded (operator : Operator) (s : List Char) : List Char :=
  if operator.ignoresCase then Text.lowercase s else s

theorem toList_literalPattern (operator : Operator) (needle : String) :
    (literalPattern operator needle).toList =
      (if anyBefore operator then ['%'] else []) ++
        (folded operator needle.toList).flatMap escapePatternChar ++
        (if anyAfter operator then ['%'] else []) := by
  have before : (if anyBefore operator then "%" else "").toList =
      if anyBefore operator then ['%'] else [] := by split <;> rfl
  have after : (if anyAfter operator then "%" else "").toList =
      if anyAfter operator then ['%'] else [] := by split <;> rfl
  simp only [literalPattern, String.toList_append, before, after]
  congr 2
  unfold folded
  split
  · simp [escapePattern, Text.lowercaseString, lowercase_escaped]
  · simp [escapePattern]

/-- The items of the pattern that is made of a literal. -/
def literalItems (operator : Operator) (needle : String) : List PatternItem :=
  (if anyBefore operator then [.run] else []) ++ (folded operator needle.toList).map .char ++
    (if anyAfter operator then [.run] else [])

theorem patternItems?_literalPattern (operator : Operator) (needle : String) :
    patternItems? (literalPattern operator needle).toList =
      some (literalItems operator needle) := by
  have after : patternItems? (if anyAfter operator then ['%'] else []) =
      some (if anyAfter operator then [.run] else []) := by
    split <;> simp [patternItems?]
  rw [toList_literalPattern, literalItems]
  cases anyBefore operator <;> simp [patternItems?_escaped, after]

/-- A text matches the pattern that is made of a literal if the literal is found in it. -/
theorem matchesItems_literalItems {operator : Operator} (pattern : operator.isPattern = true)
    (haystack needle : String) :
    matchesItems (literalItems operator needle) (folded operator haystack.toList) =
      operator.findsText haystack needle := by
  rw [Bool.eq_iff_iff, literalItems, matchesItems_found_iff]
  cases operator with
  | eq | isNull | gt | lt | gte | lte | isIn => cases pattern
  | contains | iContains =>
    show _ ↔ occursIn _ _ = true
    rw [occursIn_iff]
    constructor
    · rintro ⟨l, r, h, _, _⟩
      exact ⟨l, r, h⟩
    · rintro ⟨l, r, h⟩
      exact ⟨l, r, h, nofun, nofun⟩
  | startsWith | iStartsWith =>
    show _ ↔ List.isPrefixOf _ _ = true
    rw [List.isPrefixOf_iff_prefix]
    constructor
    · rintro ⟨l, r, h, hl, _⟩
      rw [hl rfl] at h
      exact ⟨r, h⟩
    · rintro ⟨r, h⟩
      exact ⟨[], r, h, fun _ => rfl, nofun⟩
  | endsWith | iEndsWith =>
    show _ ↔ List.isSuffixOf _ _ = true
    rw [List.isSuffixOf_iff_suffix]
    constructor
    · rintro ⟨l, r, h, _, hr⟩
      rw [hr rfl, List.append_nil] at h
      exact ⟨l, h⟩
    · rintro ⟨l, h⟩
      exact ⟨l, [], by rw [List.append_nil]; exact h, nofun, fun _ => rfl⟩

end EntityQuery.Sql
