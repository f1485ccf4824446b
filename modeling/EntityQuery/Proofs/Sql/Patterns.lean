import EntityQuery.Proofs.Filter.Operands
import EntityQuery.Proofs.Sql.Refinement

/-!
# Looking for a text

An operator that looks for a text puts it into a pattern. A literal is escaped before it is put
there, so **the pattern matches exactly the texts in which the operator finds the literal**
(`literal_pattern_finds_text`). A text that is read of a row is put there by the database as it
stands (`joinedPattern`): its percent signs, underscores and backslashes are part of the pattern.
**A text without any of them is looked for as it stands; for every other text there is one in which
the database and the operator disagree whether it is found**, if the database answers at all
(`attribute_pattern_literal_iff`).

That one is what the pattern matches with nothing in the place of its runs (`sample`): it has fewer
backslashes than the text that is looked for, or else none of the other two characters
(`not_infix_sample`). A percent sign is misread in `attribute_pattern_misreads_percent`.
-/

namespace EntityQuery

theorem Operator.ne_of_isPattern {o : Operator} (h : o.isPattern = true) :
    o ≠ .isNull ∧ o ≠ .isIn ∧ o ≠ .eq := by
  refine ⟨?_, ?_, ?_⟩ <;> (rintro rfl; cases h)

namespace Sql

open Text (Lowered)

theorem matches_text_iff {db : Database} {ignoreCase : Bool} {t p : String} {truth : Logic} :
    Matches db ignoreCase (.text t) (some p) truth ↔
      ∃ items, patternItems? p.toList = some items ∧
        truth = some (matchesItems items (if ignoreCase then db.lower t else t).toList) := by
  constructor
  · intro h
    cases h with
    | text read => exact ⟨_, read, rfl⟩
    | noText h => cases h
  · rintro ⟨items, read, rfl⟩
    exact .text read

namespace Condition

variable {db : Database} {scope : Scope} {s : Schema} {joins : Joins} {c : Comparison}

/-- The condition of a comparison that looks for a text. -/
theorem ofPositive_of_isPattern (pattern : c.operator.isPattern = true) :
    ofPositive s joins c = do
      let left ← Term.ofOperand s joins c.left
      return .like c.operator.ignoresCase left (← Pattern.ofOperand s joins c.operator c.right) := by
  obtain ⟨notNull, notIn, notEq⟩ := Operator.ne_of_isPattern pattern
  rw [ofPositive_of_ne notNull notIn]
  simp [notEq, pattern]

/-- A condition on a text is whether the text matches. -/
theorem like_evaluates_iff {ignoreCase : Bool} {t : Term} {pattern : Pattern} {v : Value}
    {p : Option String} {truth : Logic} (ht : t.Denotes db scope v)
    (hp : pattern.Denotes db scope ignoreCase p) :
    (like ignoreCase t pattern).Evaluates db scope truth ↔ Matches db ignoreCase v p truth := by
  constructor
  · intro h
    cases h with
    | like ht' hp' found =>
      cases ht.unique ht'
      cases hp.unique hp'
      exact found
  · exact .like ht hp

end Condition

/-! ## Literals -/

namespace Nicknames

/-- Persons with nicknames. -/
def schema : Schema :=
  ⟨[⟨"Person", "person", "id",
      [⟨"id", "id", false, .scalar .integer⟩, ⟨"name", "name", true, .scalar .text⟩,
        ⟨"nickname", "nickname", true, .scalar .text⟩]⟩]⟩

def name : AttrRef := ⟨.root, .attribute "name" "name"⟩

def nickname : AttrRef := ⟨.root, .attribute "nickname" "nickname"⟩

end Nicknames

/-- **The pattern of a literal finds the literal.** It is sent as a value and matches the texts in
which the literal is found. -/
theorem literal_pattern_finds_text {s : Schema} {joins : Joins} {c : Comparison} {needle : String}
    {left : Term} (pattern : c.operator.isPattern = true)
    (literal : c.right = .literal (.text needle))
    (hleft : Term.ofOperand s joins c.left = .ok left) :
    Condition.ofPositive s joins c =
        .ok (.like c.operator.ignoresCase left (.text (literalPattern c.operator needle))) ∧
      ∀ db : Database, db.LowersFor c.operator → ∀ haystack : String,
        (Likes (literalPattern c.operator needle).toList
            (if c.operator.ignoresCase then db.lower haystack else haystack).toList ↔
          c.operator.findsText haystack needle = true) ∧
        ∀ scope, left.Denotes db scope (.text haystack) → ∀ truth,
          (Condition.like c.operator.ignoresCase left
              (.text (literalPattern c.operator needle))).Evaluates db scope truth ↔
            truth = some (c.operator.findsText haystack needle) := by
  refine ⟨?_, fun db lowers haystack => ⟨?_, fun scope denotes truth => ?_⟩⟩
  · rw [Condition.ofPositive_of_isPattern pattern, hleft, literal]
    rfl
  · rw [likes_iff, patternItems?_literalPattern, ← matchesItems_literalItems pattern,
      lowers.toList_eq]
    simp only [Option.some.injEq, exists_eq_left']
  · have found := Database.matches_literal lowers pattern haystack needle
    rw [Condition.like_evaluates_iff denotes (.text _)]
    constructor
    · exact fun h => h.unique found
    · rintro rfl
      exact found

open Nicknames in
theorem literal_pattern_finds_text_nicknames :
    ∃ p, Condition.ofPositive schema []
        ⟨.attr name, .iContains, false, false, .literal (.text "5%_Σ")⟩ =
          .ok (.like true (.column ⟨.root, "name"⟩) (.text p)) ∧
      p = "%5\\%\\_σ%" ∧
      (∀ t, (Condition.like true (.column ⟨.root, "name"⟩) (.text p)).Evaluates .standard
        (.row fun _ => .text "MINUS 5%_ΣΑ") t ↔ t = some true) ∧
      ∀ t, (Condition.like true (.column ⟨.root, "name"⟩) (.text p)).Evaluates .standard
        (.row fun _ => .text "MINUS 5%%ΣΑ") t ↔ t = some false := by
  obtain ⟨made, found⟩ := @literal_pattern_finds_text schema []
    ⟨.attr name, .iContains, false, false, .literal (.text "5%_Σ")⟩ "5%_Σ" _ rfl rfl rfl
  refine ⟨_, made, by decide +kernel, fun t => ?_, fun t => ?_⟩
  · refine ((found .standard (fun _ _ => rfl) "MINUS 5%_ΣΑ").2 _ (.cell _ _) t).trans ?_
    rw [show Operator.findsText .iContains "MINUS 5%_ΣΑ" "5%_Σ" = true by decide +kernel]
  · refine ((found .standard (fun _ _ => rfl) "MINUS 5%%ΣΑ").2 _ (.cell _ _) t).trans ?_
    rw [show Operator.findsText .iContains "MINUS 5%%ΣΑ" "5%_Σ" = false by decide +kernel]

/-! ## Texts that are read of a row -/

/-- The pattern that a database makes of a text that is read of a row. -/
def joinedPattern (db : Database) (operator : Operator) (needle : String) : String :=
  (if anyBefore operator then "%" else "") ++
    (if operator.ignoresCase then db.lower needle else needle) ++
    (if anyAfter operator then "%" else "")

/-- A text that the items of a pattern match. -/
def sample (items : List PatternItem) : List Char :=
  items.filterMap fun
    | .run => none
    | .single => some 'a'
    | .char c => some c

theorem matchesItems_sample (items : List PatternItem) :
    matchesItems items (sample items) = true := by
  induction items with
  | nil => rfl
  | cons item items ih =>
    cases item with
    | run => exact matchesItems_run_iff.mpr ⟨_, List.suffix_refl _, ih⟩
    | single => exact ih
    | char c => simpa [sample, matchesItems] using ih

theorem mem_of_mem_sample {items : List PatternItem} {p : List Char} (h : Spells items p) {c : Char}
    (hc : c ∈ sample items) : c ∈ p ∨ c = 'a' := by
  induction h with
  | nil => cases hc
  | run _ ih => exact (ih hc).imp_left (List.mem_cons_of_mem _)
  | single _ ih =>
    rcases List.mem_cons.mp hc with rfl | hc
    · exact .inr rfl
    · exact (ih hc).imp_left (List.mem_cons_of_mem _)
  | escaped d _ ih =>
    rcases List.mem_cons.mp hc with rfl | hc
    · exact .inl (by simp)
    · exact (ih hc).imp_left fun h => by simp [h]
  | char _ _ ih =>
    rcases List.mem_cons.mp hc with rfl | hc
    · exact .inl List.mem_cons_self
    · exact (ih hc).imp_left (List.mem_cons_of_mem _)

/-- A backslash that makes another character stand for itself is gone. -/
theorem count_sample {items : List PatternItem} {p : List Char} (h : Spells items p) :
    (sample items).count '\\' + (if '\\' ∈ p then 1 else 0) ≤ p.count '\\' := by
  induction h with
  | nil => simp [sample]
  | run _ ih => simpa [sample] using ih
  | single _ ih => simpa [sample] using ih
  | @escaped items p c _ ih =>
    have first : (sample (.char c :: items)).count '\\' =
        (sample items).count '\\' + if c = '\\' then 1 else 0 := by
      simp [sample, List.count_cons]
    simp only [first, List.count_cons, List.mem_cons, true_or, if_true, beq_iff_eq]
    split at ih <;> omega
  | @char items p c unmarked _ ih =>
    have other : c ≠ '\\' := unmarked.1
    simpa [sample, List.count_cons, other, other.symm] using ih

theorem sample_of_not_mem {items : List PatternItem} {p : List Char} (h : Spells items p)
    (plain : '\\' ∉ p) : ∀ c ∈ sample items, Unmarked c := by
  induction h with
  | nil => nofun
  | run _ ih => exact ih (List.not_mem_of_not_mem_cons plain)
  | single _ ih =>
    exact List.forall_mem_cons.mpr ⟨by decide, ih (List.not_mem_of_not_mem_cons plain)⟩
  | escaped => exact absurd List.mem_cons_self plain
  | char unmarked _ ih =>
    exact List.forall_mem_cons.mpr ⟨unmarked, ih (List.not_mem_of_not_mem_cons plain)⟩

/-- What a marked text means as a part of a pattern does not contain the text. -/
theorem not_infix_sample {items : List PatternItem} {n rest : List Char}
    (h : Spells items (n ++ rest)) (plain : '\\' ∉ rest) (marked : ¬ ∀ c ∈ n, Unmarked c) :
    ¬ n <:+: sample items := by
  intro inside
  by_cases backslash : '\\' ∈ n
  · have fewer := count_sample h
    have most := inside.sublist.count_le '\\'
    rw [if_pos (List.mem_append_left _ backslash), List.count_append,
      List.count_eq_zero_of_not_mem plain] at fewer
    omega
  · have unmarked := sample_of_not_mem h (by simp [backslash, plain])
    exact marked fun c hc => unmarked c (inside.subset hc)

section

variable {db : Database} {operator : Operator} (lowers : db.LowersFor operator)
  (pattern : operator.isPattern = true) {needle : String}

theorem infix_of_findsText {haystack : String} (pattern : operator.isPattern = true)
    (h : operator.findsText haystack needle = true) :
    folded operator needle.toList <:+: folded operator haystack.toList := by
  rw [← matchesItems_literalItems pattern, literalItems, matchesItems_found_iff] at h
  obtain ⟨l, r, h, _, _⟩ := h
  exact ⟨l, r, h⟩

/-- Lower case neither makes nor takes away a mark. -/
theorem unmarked_folded_iff :
    (∀ c ∈ folded operator needle.toList, Unmarked c) ↔ ∀ c ∈ needle.toList, Unmarked c := by
  unfold folded
  split
  · constructor
    · intro h c hc
      by_contra marked
      have lowered : Lowered c := by
        rcases escapePatternChar_eq_or c with plain | ⟨_, _, _, lower, notSigma⟩
        · exact absurd (escapePatternChar_eq_singleton_iff.mp plain) marked
        · exact ⟨lower, notSigma⟩
      exact marked (h c (Text.mem_lowercase hc lowered))
    · intro h d hd
      rcases Text.exists_of_mem_lowerAfter hd with rfl | rfl | ⟨c, hc, hd⟩
      · decide
      · decide
      · have plain := escapePatternChar_eq_singleton_iff.mpr (h c hc)
        exact escapePatternChar_eq_singleton_iff.mp (escapePatternChar_of_mem_lowerChar plain hd)
  · rfl

theorem escapePattern_of_unmarked (unmarked : ∀ c ∈ needle.toList, Unmarked c) :
    escapePattern needle = needle := by
  rw [escapePattern, List.flatMap_congr fun c hc =>
    escapePatternChar_eq_singleton_iff.mpr (unmarked c hc)]
  simp

include lowers in
theorem toList_joinedPattern : (joinedPattern db operator needle).toList =
    (if anyBefore operator then ['%'] else []) ++ (folded operator needle.toList ++
      (if anyAfter operator then ['%'] else [])) := by
  rw [joinedPattern, String.toList_append, String.toList_append, lowers.toList_eq]
  cases anyBefore operator <;> cases anyAfter operator <;> simp

include lowers pattern in
/-- A text without marks is found as it stands. -/
theorem matches_joined_of_unmarked (unmarked : ∀ c ∈ needle.toList, Unmarked c)
    (haystack : String) :
    Matches db operator.ignoresCase (.text haystack) (some (joinedPattern db operator needle))
      (some (operator.findsText haystack needle)) := by
  have small : (if operator.ignoresCase then db.lower needle else needle) =
      if operator.ignoresCase then Text.lowercaseString needle else needle := by
    split
    · next ignores => exact lowers ignores needle
    · rfl
  have same : joinedPattern db operator needle = literalPattern operator needle := by
    rw [joinedPattern, small, literalPattern, escapePattern_of_unmarked unmarked]
  rw [same]
  exact Database.matches_literal lowers pattern haystack needle

/-- Where case does not count, a text that a lower-cased pattern matches is in lower case. -/
theorem folded_sample {items : List PatternItem}
    (h : Spells items (folded operator needle.toList ++ (if anyAfter operator then ['%'] else []))) :
    folded operator (sample items) = sample items := by
  unfold folded at h ⊢
  split
  · next ignores =>
    rw [if_pos ignores] at h
    refine Text.lowercase_eq_self fun c hc => ?_
    rcases mem_of_mem_sample h hc with hc | rfl
    · rcases List.mem_append.mp hc with hc | hc
      · exact Text.lowered_of_mem_lowercase hc
      · split at hc
        · rw [List.mem_singleton.mp hc]
          decide +kernel
        · cases hc
    · decide +kernel
  · rfl

include lowers pattern in
/-- A text with marks is looked for as something else. -/
theorem exists_not_matches_joined (marked : ¬ ∀ c ∈ needle.toList, Unmarked c) :
    ∃ haystack, ¬ Matches db operator.ignoresCase (.text haystack)
      (some (joinedPattern db operator needle)) (some (operator.findsText haystack needle)) := by
  rw [← @unmarked_folded_iff operator] at marked
  have read : patternItems? (joinedPattern db operator needle).toList =
      (patternItems? (folded operator needle.toList ++ (if anyAfter operator then ['%'] else []))).map
        ((if anyBefore operator then [.run] else []) ++ ·) := by
    rw [toList_joinedPattern lowers]
    cases anyBefore operator <;> simp
  simp only [matches_text_iff, read]
  cases hitems : patternItems? (folded operator needle.toList ++
      (if anyAfter operator then ['%'] else [])) with
  -- The pattern ends with a backslash, and the database does not answer.
  | none => exact ⟨"", by simp⟩
  | some items =>
    have spelled := spells_of_patternItems? hitems
    have same := folded_sample spelled
    have found : matchesItems ((if anyBefore operator then [.run] else []) ++ items)
        (sample items) = true := by
      cases anyBefore operator with
      | false => exact matchesItems_sample items
      | true => exact matchesItems_run_iff.mpr ⟨_, List.suffix_refl _, matchesItems_sample items⟩
    have seen : (if operator.ignoresCase then db.lower (String.ofList (sample items))
        else String.ofList (sample items)).toList = sample items := by
      rw [lowers.toList_eq, String.toList_ofList, same]
    refine ⟨String.ofList (sample items), ?_⟩
    rintro ⟨_, ⟨rfl⟩, truth⟩
    rw [seen, found, Option.some.injEq] at truth
    have inside := infix_of_findsText pattern truth
    rw [String.toList_ofList, same] at inside
    refine not_infix_sample spelled ?_ marked inside
    split <;> decide

end

theorem Logic.not_injective : Function.Injective Logic.not := by
  intro a b h
  cases a with
  | none => cases b with
    | none => rfl
    | some => cases h
  | some a => cases b with
    | none => cases h
    | some b => rw [Bool.not_inj (Option.some.inj h)]

namespace Condition

variable {db : Database} {scope : Scope} {s : Schema} {joins : Joins} {c : Comparison}

theorem not_evaluates_iff {cond : Condition} {t : Logic} :
    (Condition.not cond).Evaluates db scope t.not ↔ cond.Evaluates db scope t := by
  constructor
  · intro h
    generalize ht : t.not = u at h
    cases h with
    | not h => exact Logic.not_injective ht ▸ h
  · exact .not

/-- The condition agrees with the comparison where the pattern of the database agrees with the
operator. -/
theorem joined_evaluates_iff {a : AttrRef} {cond : Condition} {haystack needle : String}
    (pattern : c.operator.isPattern = true) (reads : c.right.reads? = some a)
    (hcond : ofComparison s joins c = .ok cond)
    (left : Shown db scope s joins c.left (.text haystack))
    (right : Shown db scope s joins c.right (.text needle)) :
    cond.Evaluates db scope (c.truth (.one (.text haystack)) (.one (.text needle))).known? ↔
      Matches db c.operator.ignoresCase (.text haystack)
        (some (joinedPattern db c.operator needle))
        (some (c.operator.findsText haystack needle)) := by
  obtain ⟨tl, htl, hleft⟩ := left
  obtain ⟨tr, htr, hright⟩ := right
  have joined : Pattern.ofOperand s joins c.operator c.right =
      .ok (.term tr (anyBefore c.operator) (anyAfter c.operator)) := by
    unfold Pattern.ofOperand
    split
    · next h => rw [h] at reads; cases reads
    · rw [htr]; rfl
  have positive : c.positive (.text haystack) (.one (.text needle)) =
      .ofBool (c.operator.findsText haystack needle) := by
    obtain ⟨notNull, notIn, notEq⟩ := Operator.ne_of_isPattern pattern
    have one : c.positive (.text haystack) (.one (.text needle)) =
        c.compareOne (.text haystack) (.text needle) := by
      unfold Comparison.positive
      split <;> simp_all
    rw [one]
    simp [Comparison.compareOne, notEq, pattern, Value.text?]
  have like : (Condition.like c.operator.ignoresCase tl
      (.term tr (anyBefore c.operator) (anyAfter c.operator))).Evaluates db scope
        (some (c.operator.findsText haystack needle)) ↔ _ :=
    like_evaluates_iff hleft (.term _ _ hright)
  rw [ofComparison, ofPositive_of_isPattern pattern, htl, joined] at hcond
  cases hcond
  unfold Comparison.truth
  dsimp only
  rw [positive]
  split
  · rw [Truth.known?_not, Truth.known?_ofBool, not_evaluates_iff]
    exact like
  · rw [Truth.known?_ofBool]
    exact like

end Condition

/-- **A text that is read of a row is found as it stands exactly if it has no marks.** In a compiled
filter, for a comparison that looks for such a text: the condition has the truth value of the
comparison wherever that text has no marks, and for every text with marks there is one that it is
looked for in with another outcome. -/
theorem attribute_pattern_literal_iff {s : Schema} {nullSafe : Bool} {filter name : String}
    {f : CompiledFilter} {p : Predicate} {c : Comparison} {a : AttrRef} {db : Database}
    (compiled : s.compileFilter nullSafe filter name = .ok f) (hp : f.predicate = some p)
    (hc : c ∈ p.leaves) (pattern : c.operator.isPattern = true) (reads : c.right.reads? = some a)
    (lowers : db.LowersFor c.operator) :
    ∃ cond, Condition.ofComparison s f.joins c = .ok cond ∧ ∀ needle : String,
      ((∀ d ∈ needle.toList, Unmarked d) → ∀ scope haystack,
        Shown db scope s f.joins c.left (.text haystack) →
        Shown db scope s f.joins c.right (.text needle) →
          ∀ t, cond.Evaluates db scope t ↔
            t = (c.truth (.one (.text haystack)) (.one (.text needle))).known?) ∧
      ((∃ d ∈ needle.toList, ¬ Unmarked d) → ∃ haystack, ∀ scope,
        Shown db scope s f.joins c.left (.text haystack) →
        Shown db scope s f.joins c.right (.text needle) →
          ¬ cond.Evaluates db scope
            (c.truth (.one (.text haystack)) (.one (.text needle))).known?) := by
  obtain ⟨entity, hroot, form⟩ := Schema.compileFilter_compiled compiled
  have hroot : s.entity entity.name = .ok entity := by
    rwa [Schema.name_of_entity hroot]
  obtain ⟨cond, hcond⟩ := Condition.succeeds_ofComparison hroot form.joins (form.leaves p hp c hc)
  refine ⟨cond, hcond, fun needle =>
    ⟨fun unmarked scope haystack left right t => ?_, fun marked => ?_⟩⟩
  · have evaluates := (Condition.joined_evaluates_iff pattern reads hcond left right).mpr
      (matches_joined_of_unmarked lowers pattern unmarked haystack)
    constructor
    · exact fun h => h.unique evaluates
    · rintro rfl
      exact evaluates
  · obtain ⟨d, hd, marked⟩ := marked
    obtain ⟨haystack, differ⟩ :=
      exists_not_matches_joined lowers pattern fun unmarked => marked (unmarked d hd)
    refine ⟨haystack, fun scope left right evaluates => ?_⟩
    exact differ ((Condition.joined_evaluates_iff pattern reads hcond left right).mp evaluates)

namespace Nicknames

/-- The name contains the nickname. -/
def comparison : Comparison := ⟨.attr name, .contains, false, false, .attr nickname⟩

def filter : CompiledFilter := ⟨some (.leaf comparison), [], false, []⟩

/-- The row of a person. -/
def cells (name nickname : String) : Cells := fun c =>
  if c.column = "name" then .text name else .text nickname

def person (name nickname : String) : Record :=
  ⟨"Person", .int 1, [("id", .int 1), ("name", .text name), ("nickname", .text nickname)], [], []⟩

theorem shown_name (name nickname : String) :
    Shown .standard (.row (cells name nickname)) schema [] comparison.left (.text name) :=
  ⟨.column ⟨.root, "name"⟩, rfl, .cell _ _⟩

theorem shown_nickname (name nickname : String) :
    Shown .standard (.row (cells name nickname)) schema [] comparison.right (.text nickname) :=
  ⟨.column ⟨.root, "nickname"⟩, rfl, .cell _ _⟩

def text : String := "name::contains_prop:nickname"

theorem compiled : schema.compileFilter true text "Person" = .ok filter := by
  have scanned : scan text = .ok [.word 0 (.plain text)] := by rfl
  have words : Formula.ofWords [.word 0 (.plain text)] = .ok (some (.leaf (.plain text))) := by rfl
  have parsed : Expression.parse (.plain text) =
      .ok ⟨"name", none, .contains, false, true, .path "nickname" none⟩ := by rfl
  have left : schema.resolve "Person" "name" [] = (.ok ⟨name, .text, false⟩, []) := by
    unfold Schema.resolve
    rw [show Path.segments "name" = ["name"] by rfl]
    rfl
  have right : schema.resolve "Person" "nickname" [] = (.ok ⟨nickname, .text, false⟩, []) := by
    unfold Schema.resolve
    rw [show Path.segments "nickname" = ["nickname"] by rfl]
    rfl
  refine Schema.compileFilter_word rfl scanned words (Schema.compileWord_eq_ok parsed ?_)
  refine Resolving.bind_eq_ok.mpr ⟨_, _, Resolving.bind_eq_ok.mpr ⟨_, _, left, rfl⟩, ?_⟩
  refine Resolving.guard_eq_ok.mpr ⟨by decide, ?_⟩
  refine Resolving.bind_eq_ok.mpr ⟨(.attr nickname, false), [], ?_, rfl⟩
  refine Resolving.bind_eq_ok.mpr ⟨_, _, Resolving.bind_eq_ok.mpr ⟨_, _, right, rfl⟩, ?_⟩
  exact Resolving.guard_eq_ok.mpr ⟨by decide, Resolving.guard_eq_ok.mpr ⟨by decide, rfl⟩⟩

end Nicknames

open Nicknames in
theorem attribute_pattern_literal_iff_nicknames :
    ∃ cond, Condition.ofComparison schema filter.joins comparison = .ok cond ∧
      (∀ t, cond.Evaluates .standard (.row (cells "Annabel" "Anna")) t ↔ t = some true) ∧
      ∃ haystack, ¬ cond.Evaluates .standard (.row (cells haystack "A%"))
        (comparison.truth (.one (.text haystack)) (.one (.text "A%"))).known? := by
  have lowers : Database.standard.LowersFor .contains := fun _ _ => rfl
  obtain ⟨cond, hcond, reads⟩ := attribute_pattern_literal_iff compiled rfl
    (List.mem_singleton.mpr rfl) rfl rfl lowers
  have unmarked : ∀ d ∈ "Anna".toList, Unmarked d := by
    simp [Unmarked]
  refine ⟨cond, hcond, fun t => ?_, ?_⟩
  · refine ((reads "Anna").1 unmarked _ _ (shown_name _ _) (shown_nickname _ _) t).trans ?_
    rw [show comparison.truth (.one (.text "Annabel")) (.one (.text "Anna")) = .holds by
      decide +kernel]
    rfl
  · obtain ⟨haystack, differ⟩ := (reads "A%").2 ⟨'%', by simp, by decide⟩
    exact ⟨haystack, differ _ (shown_name _ _) (shown_nickname _ _)⟩

open Nicknames in
/-- A percent sign in the text that is looked for stands for any characters. -/
theorem attribute_pattern_misreads_percent :
    ∃ cond, schema.compileFilter true text "Person" = .ok filter ∧
      Condition.ofComparison schema filter.joins comparison = .ok cond ∧
      cond.Evaluates .standard (.row (cells "Anna" "A%a")) (some true) ∧
      Evaluator.rowTruth (person "Anna" "A%a") [] (.leaf comparison) = .fails := by
  refine ⟨_, compiled, rfl, ?_, by decide +kernel⟩
  refine (Condition.like_evaluates_iff (.cell _ _) (.term _ _ (.cell _ _))).mpr ?_
  exact matches_text_iff.mpr ⟨_, rfl, rfl⟩

end Sql

end EntityQuery
