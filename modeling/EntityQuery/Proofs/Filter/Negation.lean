import EntityQuery.Proofs.Filter.Agreement
import EntityQuery.Proofs.Filter.Compilation
import EntityQuery.Proofs.Filter.Grammar
import EntityQuery.Proofs.Filter.Insertion
import EntityQuery.Proofs.Filter.Writing
import EntityQuery.Proofs.Preparation

/-!
# Two ways to negate

A comparison is negated by the mark of its operator or by the word `not` before it. The mark becomes
part of the comparison, the word a formula around it; both have the same truth, so **in a filter
either of them can stand for the other** (`negation_spelled_either_way`). A `not` that waits already
is taken back by the word and not by the mark, which makes no difference to the truth, but to the
conditions of statements (`statements_differ_after_empty_group`).

The two filters are compared in four steps: with the mark a word is read as the negated expression
(`parse_marked`), and compiled to the negated comparison (`compile_negated`); the two lists of
tokens differ in one place, around which reading goes the same way (`ofTokens_between`), unless a
`not` waits there (`Waits`); and the texts are cut into these tokens (`exists_scan_negated`).
-/

namespace EntityQuery

namespace Formula

/-! ## Where a negation waits -/

/-- A `not` waits for its term after the tokens: it is the last of them when all empty groups and
all pairs of `not` are deleted. -/
def Waits (ts : List Token) : Prop :=
  ∃ us i w, ReducesTo ts (us ++ [.word i w]) ∧ w.logical? = some .not

theorem Nesting.Same.readWords {n n' m : Nesting Word} (same : n.Same n') {ts : List Token}
    (read : ts.foldlM Formula.readWord n = .ok m) :
    ∃ m', ts.foldlM Formula.readWord n' = .ok m' ∧ m.Same m' := by
  induction ts generalizing n n' with
  | nil =>
    cases read
    exact ⟨n', rfl, same⟩
  | cons token ts ih =>
    rw [List.foldlM_cons] at read ⊢
    obtain ⟨n₁, first, rest⟩ := bind_eq_ok.mp read
    obtain ⟨n₁', first', same'⟩ := same.readWord first
    obtain ⟨m', rest', same''⟩ := ih same' rest
    exact ⟨m', bind_eq_ok.mpr ⟨n₁', first', rest'⟩, same''⟩

theorem Deletes.readWords {ts us : List Token} (h : Deletes ts us) {n m : Nesting Word}
    (read : ts.foldlM readWord n = .ok m) : ∃ m', us.foldlM readWord n = .ok m' ∧ m.Same m' := by
  obtain @⟨before, after, a, b, pair⟩ := h
  rw [List.foldlM_append] at read ⊢
  obtain ⟨n₁, first, rest⟩ := bind_eq_ok.mp read
  obtain ⟨_, n₂, step, step', same⟩ := exists_readWord_of_cancels pair n₁
  simp only [List.foldlM_cons, step, step', ok_bind] at rest
  obtain ⟨m', rest', same'⟩ := same.symm.readWords rest
  exact ⟨m', bind_eq_ok.mpr ⟨n₁, first, rest'⟩, same'⟩

/-- A negation that a level keeps is that of a `not` that waits. -/
theorem waits_of_negation {ts : List Token} {n : Nesting Word}
    (read : ts.foldlM readWord .start = .ok n) (kept : n.level.negation.isSome = true) :
    Waits ts := by
  obtain ⟨us, reduces⟩ := exists_reducesTo ts
  obtain ⟨m, read', same⟩ : ∃ m, us.foldlM readWord .start = .ok m ∧
      m.level.negation.isSome = n.level.negation.isSome := by
    obtain ⟨steps, -⟩ := reduces
    induction steps with
    | refl => exact ⟨n, read, rfl⟩
    | tail _ deletes ih =>
      obtain ⟨m, read, kept⟩ := ih
      obtain ⟨m', read', same⟩ := deletes.readWords read
      exact ⟨m', read', same.level.negation.trans kept⟩
  have reducedUs : Reduced ([] ++ us) := reduces.2
  obtain ⟨before, within, _, level, rfl⟩ := Nesting.readAs_start.run reducedUs read'
  rw [← same] at kept
  obtain ⟨l, outer⟩ := m
  cases level with
  | empty | terms | pending => cases kept
  | @negated l within h none_ index w hw =>
    exact ⟨before ++ within, index, w, by simpa using reduces, hw⟩

end Formula

namespace Expression

/-! ## The two words -/

section

variable {field x : List Char} {quoted : Option (List Char)}

/-- The operator of a word can be written longer. -/
theorem exists_parts (colonless : ':' ∉ field) (x : List Char) (quoted : Option (List Char)) :
    ∃ op value, op <+: x ++ quoted.getD [] ∧ ∀ m, ':' ∉ m →
      parts ⟨field ++ "::".toList ++ m ++ x, quoted⟩ = ⟨field, some (m ++ op), value⟩ := by
  have first (m : List Char) : Text.cut ':' (field ++ "::".toList ++ m ++ x) =
      some (field, ':' :: (m ++ x)) := by
    rw [List.append_assoc, List.append_assoc]
    exact Text.cut_append_cons colonless
  cases second : Text.cut ':' x with
  | none =>
    refine ⟨x ++ quoted.getD [], none, List.prefix_rfl, fun m hm => ?_⟩
    have whole : Text.cut ':' (m ++ x) = none := by
      rw [Text.cut_eq_none_iff, List.mem_append, not_or]
      exact ⟨hm, Text.cut_eq_none_iff.mp second⟩
    unfold parts
    simp only [first, whole, Word.tail]
    rw [List.append_assoc]
  | some cut =>
    obtain ⟨op, value⟩ := cut
    obtain ⟨hop, rfl⟩ := Text.cut_eq_some_iff.mp second
    refine ⟨op, some (value ++ quoted.getD []), ?_, fun m hm => ?_⟩
    · rw [List.append_assoc]
      exact List.prefix_append ..
    · have whole : Text.cut ':' (m ++ (op ++ ':' :: value)) = some (m ++ op, value) := by
        rw [← List.append_assoc]
        exact Text.cut_append_cons (by simp [hm, hop])
      unfold parts
      simp only [first, whole, Word.tail]

theorem operatorSpec_eq_ok_iff {op : List Char} {spec : OperatorSpec} :
    operatorSpec op = .ok spec ↔ op = spec.written :=
  ⟨written_of_operatorSpec, fun h => h ▸ operatorSpec_written spec⟩

/-- The operator is marked as negated. -/
def OperatorSpec.marked (spec : OperatorSpec) : OperatorSpec := { spec with negate := true }

theorem OperatorSpec.written_marked {spec : OperatorSpec} (plain : spec.negate = false) :
    spec.marked.written = "not_".toList ++ spec.written := by
  have marked : spec.marked.written =
      "not_".toList ++ spec.operator.name.toList ++ if spec.property then "_prop".toList else [] :=
    rfl
  rw [marked, written, plain, List.append_assoc]
  rfl

theorem OperatorSpec.mark_of_written {spec : OperatorSpec} :
    "not_".toList <+: spec.written ↔ spec.negate = true := by
  obtain ⟨operator, negate, property⟩ := spec
  cases operator <;> cases negate <;> cases property <;> decide

section

variable {op : List Char} {spec : OperatorSpec} (unmarked : ¬ "not_".toList <+: op)

include unmarked

theorem operatorSpec_plain (read : operatorSpec op = .ok spec) : spec.negate = false := by
  rw [operatorSpec_eq_ok_iff.mp read, OperatorSpec.mark_of_written] at unmarked
  simpa using unmarked

/-- With the mark an operator is read as the negated one. -/
theorem operatorSpec_marked : operatorSpec ("not_".toList ++ op) = .ok spec ↔
    ∃ plain, operatorSpec op = .ok plain ∧ spec = plain.marked := by
  constructor
  · intro read
    have written := operatorSpec_eq_ok_iff.mp read
    have negate : spec.negate = true :=
      OperatorSpec.mark_of_written.mp (written ▸ List.prefix_append ..)
    have same : spec = OperatorSpec.marked { spec with negate := false } := by
      rw [OperatorSpec.marked, ← negate]
    refine ⟨{ spec with negate := false }, operatorSpec_eq_ok_iff.mpr ?_, same⟩
    rw [same, OperatorSpec.written_marked rfl] at written
    exact List.append_cancel_left written
  · rintro ⟨plain, read, rfl⟩
    rw [operatorSpec_eq_ok_iff, OperatorSpec.written_marked (operatorSpec_plain unmarked read),
      ← operatorSpec_eq_ok_iff.mp read]

end

/-- The expression that is negated where this one is not. -/
def negated (e : Expression) : Expression := { e with negate := !e.negate }

section

variable (present : field ≠ []) (colonless : ':' ∉ field)
  (unmarked : ¬ "not_".toList <+: x ++ quoted.getD []) {e : Expression}

include unmarked colonless

theorem negate_of_parse (read : parse ⟨field ++ "::".toList ++ x, quoted⟩ = .ok e) :
    e.negate = false := by
  obtain ⟨op, value, part, split⟩ := exists_parts colonless x quoted
  have plain := split [] (by simp)
  rw [List.append_nil, List.nil_append] at plain
  rw [parse_eq_ok_iff, plain] at read
  obtain ⟨_, spec, _, _, hspec, _, _, rfl⟩ := read
  exact operatorSpec_plain (fun mark => unmarked (mark.trans part)) hspec

include present

/-- With the mark a word is read as the negated expression. -/
theorem parse_marked : parse ⟨field ++ "::not_".toList ++ x, quoted⟩ = .ok e ↔
    ∃ plain, parse ⟨field ++ "::".toList ++ x, quoted⟩ = .ok plain ∧ e = plain.negated := by
  obtain ⟨op, value, part, split⟩ := exists_parts colonless x quoted
  have unmarkedOp : ¬ "not_".toList <+: op := fun mark => unmarked (mark.trans part)
  have plain := split [] (by simp)
  rw [List.append_nil, List.nil_append] at plain
  have marked := split "not_".toList (by decide)
  rw [List.append_assoc field] at marked
  rw [show "::not_".toList = "::".toList ++ "not_".toList from rfl, parse_eq_ok_iff, marked]
  simp only [parse_eq_ok_iff, plain, operatorOf, operatorSpec_marked unmarkedOp]
  constructor
  · rintro ⟨_, _, left, right, ⟨spec, hspec, rfl⟩, hleft, hright, rfl⟩
    refine ⟨_, ⟨present, spec, left, right, hspec, hleft, hright, rfl⟩, ?_⟩
    simp [ofSides, negated, OperatorSpec.marked, operatorSpec_plain unmarkedOp hspec]
  · rintro ⟨_, ⟨_, spec, left, right, hspec, hleft, hright, rfl⟩, rfl⟩
    refine ⟨present, _, left, right, ⟨spec, hspec, rfl⟩, hleft, hright, ?_⟩
    simp [ofSides, negated, OperatorSpec.marked, operatorSpec_plain unmarkedOp hspec]

end

end

/-! ## The two comparisons -/

section

variable {s : Schema} {name : String} {nullSafe : Bool} {joins joins' : Joins} {e : Expression}
  {c : Comparison}

theorem rightOperand_negated (type : ScalarType) : rightOperand s name type e.negated =
    (do
      let (right, negate) ← rightOperand s name type e
      return (right, !negate)) := by
  have unsupported : e.negated.unsupported = e.unsupported := rfl
  unfold rightOperand
  rw [unsupported]
  dsimp only [negated]
  split
  · simp only [bind_assoc, pure_bind]
    have flipped (v : Value) :
        ((v == .bool true) == !e.negate) = !((v == .bool true) == e.negate) := by
      cases v == .bool true <;> cases e.negate <;> rfl
    simp only [flipped]
  · rfl
  · simp only [bind_assoc, pure_bind]
  · simp only [bind_assoc, pure_bind]
  · rfl
  · rfl
  · simp only [bind_assoc, pure_bind]
  · rw [bind_assoc]
    refine bind_congr fun ⟨right, rightType⟩ => ?_
    dsimp only
    split
    · rfl
    · split <;> rfl

/-- A negated expression makes the negated comparison. -/
theorem compile_negated : e.negated.compile s name nullSafe =
    (do return (← e.compile s name nullSafe).negated) := by
  have operator : e.negated.operator = e.operator := rfl
  have unsupported : e.negated.unsupported = e.unsupported := rfl
  unfold compile
  rw [bind_assoc]
  refine bind_congr fun ⟨left, type⟩ => ?_
  simp only [operator, unsupported, rightOperand_negated]
  split
  · rfl
  · simp only [bind_assoc, pure_bind]
    rfl

/-- The expression asks for what is not null, by a test for null with a value. -/
def AsksNotNull (e : Expression) : Prop :=
  e.operator = .isNull ∧ ∃ raw, e.right = .literal raw ∧
    ScalarType.boolean.coerce e.attr raw = .ok (.bool false)

theorem negate_of_rightOperand {type : ScalarType} {o : Operand} {negate : Bool}
    (made : rightOperand s name type e joins = (.ok (o, negate), joins'))
    (plain : e.negate = false) (asks : ¬ e.AsksNotNull) : negate = false := by
  have kept {α : Type} {x : Resolving α} {f : α → Operand}
      (made : (do return (f (← x), e.negate)) joins = (.ok (o, negate), joins')) :
      negate = e.negate := by
    obtain ⟨_, _, _, made⟩ := Resolving.bind_eq_ok.mp made
    obtain ⟨made, rfl⟩ := Resolving.pure_eq_ok.mp made
    cases made
    rfl
  generalize hx : rightOperand s name type e = x at made
  unfold rightOperand at hx
  split at hx <;> subst hx
  -- A test for null is negated by its value.
  · next raw operator right =>
    obtain ⟨wanted, _, read, made⟩ := Resolving.bind_eq_ok.mp made
    obtain ⟨coerced, rfl⟩ := Resolving.lift_eq_ok.mp read
    obtain ⟨made, rfl⟩ := Resolving.pure_eq_ok.mp made
    cases made
    cases wanted with
    | bool b =>
      cases b with
      | true => rw [plain]; rfl
      | false => exact absurd ⟨operator, raw, right, coerced⟩ asks
    | _ => exact absurd (ScalarType.type?_coerce coerced) nofun
  · exact absurd made Resolving.throw_ne_ok
  · exact (kept made).trans plain
  · exact (kept made).trans plain
  · exact absurd made Resolving.throw_ne_ok
  · exact absurd made Resolving.throw_ne_ok
  · exact (kept made).trans plain
  · obtain ⟨_, _, _, made⟩ := Resolving.bind_eq_ok.mp made
    obtain ⟨_, made⟩ := Resolving.guard_eq_ok.mp made
    obtain ⟨_, made⟩ := Resolving.guard_eq_ok.mp made
    obtain ⟨made, rfl⟩ := Resolving.pure_eq_ok.mp made
    cases made
    exact plain

/-- A comparison is negated only if its expression is, or asks for what is not null. -/
theorem negate_of_compile (made : e.compile s name nullSafe joins = (.ok c, joins'))
    (plain : e.negate = false) (asks : ¬ e.AsksNotNull) : c.negate = false := by
  obtain ⟨⟨left, type⟩, joins₁, -, made⟩ := Resolving.bind_eq_ok.mp made
  obtain ⟨-, made⟩ := Resolving.guard_eq_ok.mp made
  obtain ⟨⟨right, negate⟩, joins₂, hright, made⟩ := Resolving.bind_eq_ok.mp made
  obtain ⟨rfl, rfl⟩ := Resolving.pure_eq_ok.mp made
  exact negate_of_rightOperand hright plain asks

end

end Expression

section

variable {s : Schema} {name : String} {nullSafe : Bool} {joins joins' : Joins} {c : Comparison}
  {field x : List Char} {quoted : Option (List Char)} (colonless : ':' ∉ field)
  (unmarked : ¬ "not_".toList <+: x ++ quoted.getD [])

include colonless unmarked

/-- With the mark a word makes the negated comparison. -/
theorem Schema.compileWord_marked (present : field ≠ []) :
    s.compileWord name nullSafe ⟨field ++ "::not_".toList ++ x, quoted⟩ joins = (.ok c, joins') ↔
      ∃ plain, s.compileWord name nullSafe ⟨field ++ "::".toList ++ x, quoted⟩ joins =
        (.ok plain, joins') ∧ c = plain.negated := by
  simp only [compileWord_eq_ok_iff, Expression.parse_marked present colonless unmarked]
  constructor
  · rintro ⟨_, ⟨e, parsed, rfl⟩, made⟩
    rw [Expression.compile_negated] at made
    obtain ⟨plain, _, compiled, done⟩ := Resolving.bind_eq_ok.mp made
    obtain ⟨rfl, rfl⟩ := Resolving.pure_eq_ok.mp done
    exact ⟨plain, ⟨e, parsed, compiled⟩, rfl⟩
  · rintro ⟨plain, ⟨e, parsed, made⟩, rfl⟩
    refine ⟨e.negated, ⟨e, parsed, rfl⟩, ?_⟩
    rw [Expression.compile_negated]
    exact Resolving.bind_eq_ok.mpr ⟨plain, _, made, rfl⟩

theorem Schema.negate_of_compileWord
    (made : s.compileWord name nullSafe ⟨field ++ "::".toList ++ x, quoted⟩ joins =
      (.ok c, joins'))
    (asks : ∀ e, Expression.parse ⟨field ++ "::".toList ++ x, quoted⟩ = .ok e → ¬ e.AsksNotNull) :
    c.negate = false := by
  obtain ⟨e, parsed, made⟩ := compileWord_eq_ok_iff.mp made
  exact Expression.negate_of_compile made (Expression.negate_of_parse colonless unmarked parsed)
    (asks e parsed)

end

/-! ## The two readings -/

namespace Formula

variable {σ α : Type} {E : Formula α → Formula α → Prop}

/-- A term after a `not` is put where it would be put without, and as what is negated there. -/
theorem Level.like_negated (congr : IsCongruence E) (l : Level α) (index : Nat) {t t' : Formula α}
    (terms : E (if l.negation.isSome then t.not else t)
      (if l.negation.isSome then t' else t'.not)) :
    (l.term t).Like E ((l.negate index).term t') := by
  refine like_term congr (Like.refl congr l).tree rfl ?_
  cases negation : l.negation <;> simpa [negate, negation] using terms

section

variable {leaf : Word → ExceptT Error (StateM σ) α} {w : Word} {n : Nesting α} {index : Nat}

theorem readTokens_term (term : w.logical? = none) :
    [.word index w].foldlM (readToken leaf) n = (do return n.term (.leaf (← leaf w))) := by
  simp only [List.foldlM_cons, List.foldlM_nil, readToken, term, bind_pure]

theorem readTokens_negated {u : Word} {index' : Nat} (isNot : u.logical? = some .not)
    (term : w.logical? = none) : [.word index' u, .word index w].foldlM (readToken leaf) n =
      (do return Nesting.term { n with level := n.level.negate index' } (.leaf (← leaf w))) := by
  have negate : readToken leaf n (.word index' u) =
      pure { n with level := n.level.negate index' } := by
    simp only [readToken, isNot]
    rfl
  rw [List.foldlM_cons, negate, pure_bind, readTokens_term term]

theorem waits_of_readTokens {ts : List Token} {s s' : σ}
    (read : ts.foldlM (readToken leaf) .start s = (.ok n, s'))
    (kept : n.level.negation.isSome = true) : Waits ts := by
  rw [← pure_bind Nesting.start fun n => ts.foldlM (readToken leaf) n,
    ← Nesting.mapM_start] at read
  obtain ⟨m, words, made⟩ := mapM_readWords.mp read
  have alike := Nesting.alike_of_mapM made
  exact waits_of_negation words (alike.negation ▸ kept)

/-- Other tokens between the same ones make a related formula, if they are read to nestings that
are like each other. -/
theorem ofTokens_between (congr : IsCongruence E) {ts us us' : List Token} (as bs : List Token)
    (between : ∀ n : Nesting α, (n.level.negation.isSome = true → Waits ts) →
      Simulates (Nesting.Like E) (as.foldlM (readToken leaf) n) (bs.foldlM (readToken leaf) n))
    (same : Token.SameWords us us') :
    Simulates (Option.Rel E) (ofTokens leaf (ts ++ (as ++ us)))
      (ofTokens leaf (ts ++ (bs ++ us'))) := by
  have leaves : ∀ (_ : Nat) (w w' : Word), w' = w → w'.logical? = w.logical? ∧
      Simulates (fun a a' => E (.leaf a) (.leaf a')) (leaf w) (leaf w') := by
    rintro _ w _ rfl
    exact ⟨rfl, fun s a s' made => ⟨a, made, congr.refl _⟩⟩
  have before : Simulates (fun n n' => n' = n ∧ (n.level.negation.isSome = true → Waits ts))
      (ts.foldlM (readToken leaf) .start) (ts.foldlM (readToken leaf) .start) :=
    fun s n s' read => ⟨n, read, rfl, waits_of_readTokens read⟩
  simp only [ofTokens, List.foldlM_append, bind_assoc]
  refine before.bind ?_
  rintro n n' ⟨rfl, waits⟩
  refine (between n' waits).bind fun m m' like => ?_
  exact (readTokens_like congr leaves like same).bind fun _ _ like =>
    .ofExcept fun _ done => like.finish done

end

end Formula

/-! ## Filters -/

namespace Schema

section

variable {s : Schema} {entity : String} {nullSafe : Bool} {field x : List Char}
  {quoted : Option (List Char)} (present : field ≠ []) (colonless : ':' ∉ field)
  (unmarked : ¬ "not_".toList <+: x ++ quoted.getD []) {ts us us' : List Token} {i j k : Nat}
  (same : Token.SameWords us us')

include present colonless unmarked same

/-- The formula of the filter with the mark agrees with that of the filter with the word, and sets
the same conditions unless a `not` waits or what is not null is asked for. -/
theorem ofTokens_marked : Simulates
    (Option.Rel fun p p' => Predicate.Agrees p p' ∧ (¬ Formula.Waits ts ∧
      (∀ e, Expression.parse ⟨field ++ "::".toList ++ x, quoted⟩ = .ok e → ¬ e.AsksNotNull) →
        Predicate.SameConditions p p'))
    (Formula.ofTokens (s.compileWord entity nullSafe)
      (ts ++ .word i ⟨field ++ "::not_".toList ++ x, quoted⟩ :: us))
    (Formula.ofTokens (s.compileWord entity nullSafe)
      (ts ++ .word j (.plain "not") :: .word k ⟨field ++ "::".toList ++ x, quoted⟩ :: us')) := by
  have marked : Word.logical? ⟨field ++ "::not_".toList ++ x, quoted⟩ = none :=
    Word.logical?_of_colon (by simp)
  have plain : Word.logical? ⟨field ++ "::".toList ++ x, quoted⟩ = none :=
    Word.logical?_of_colon (by simp)
  have congr := Predicate.isCongruence_agrees.and_of Predicate.isCongruence_sameConditions
    (¬ Formula.Waits ts ∧
      ∀ e, Expression.parse ⟨field ++ "::".toList ++ x, quoted⟩ = .ok e → ¬ e.AsksNotNull)
  refine Formula.ofTokens_between congr [_] [_, _] (fun n waits => ?_) same
  rw [Formula.readTokens_term marked, Formula.readTokens_negated rfl plain]
  refine Simulates.bind (R := fun c' c => c' = c.negated ∧
    ((∀ e, Expression.parse ⟨field ++ "::".toList ++ x, quoted⟩ = .ok e → ¬ e.AsksNotNull) →
      c.negate = false)) ?_ ?_
  · intro joins c' joins' made
    obtain ⟨c, plain, rfl⟩ := (compileWord_marked colonless unmarked present).mp made
    exact ⟨c, plain, rfl, negate_of_compileWord colonless unmarked plain⟩
  · rintro _ c ⟨rfl, plain⟩
    refine .pure ⟨Formula.Level.like_negated congr n.level j ?_,
      (Formula.Nesting.Like.refl congr n).outer⟩
    cases waiting : n.level.negation.isSome with
    | false =>
      exact ⟨Predicate.agrees_negated c, fun h => Predicate.sameConditions_negated (plain h.2)⟩
    | true =>
      exact ⟨Predicate.agrees_not_negated c, fun h => absurd (waits waiting) h.1⟩

/-- Where the filter with the word has a formula, so has the filter with the mark. -/
theorem ofTokens_of_marked : Simulates (Option.Rel fun _ _ => True)
    (Formula.ofTokens (s.compileWord entity nullSafe)
      (ts ++ .word j (.plain "not") :: .word k ⟨field ++ "::".toList ++ x, quoted⟩ :: us'))
    (Formula.ofTokens (s.compileWord entity nullSafe)
      (ts ++ .word i ⟨field ++ "::not_".toList ++ x, quoted⟩ :: us)) := by
  have marked : Word.logical? ⟨field ++ "::not_".toList ++ x, quoted⟩ = none :=
    Word.logical?_of_colon (by simp)
  have plain : Word.logical? ⟨field ++ "::".toList ++ x, quoted⟩ = none :=
    Word.logical?_of_colon (by simp)
  have congr : Formula.IsCongruence fun _ _ : Predicate => True := Formula.isCongruence_true
  refine Formula.ofTokens_between congr [_, _] [_] (fun n _ => ?_) same.symm
  rw [Formula.readTokens_term marked, Formula.readTokens_negated rfl plain]
  refine Simulates.bind (R := fun _ _ => True) (fun joins c joins' made => ?_) fun c c' _ => ?_
  · exact ⟨_, (compileWord_marked colonless unmarked present).mpr ⟨c, made, rfl⟩, trivial⟩
  · refine .pure ⟨?_, (Formula.Nesting.Like.refl congr n).outer⟩
    exact Formula.Level.like_term congr (Formula.Level.Like.refl congr n.level).tree rfl trivial

end

end Schema

theorem CompiledFilter.groupBy_of_agrees {predicate predicate' : Option Predicate}
    (agrees : Option.Rel Predicate.Agrees predicate predicate') (joins : Joins) :
    (ofPredicate predicate' joins).aggregate = (ofPredicate predicate joins).aggregate ∧
      (ofPredicate predicate' joins).groupBy = (ofPredicate predicate joins).groupBy := by
  cases agrees with
  | none => exact ⟨rfl, rfl⟩
  | some h =>
    unfold ofPredicate
    simp only [Option.any_some, h.isAggregate, Predicate.groupingAttributes_of_sides h.sides,
      and_self]

/-- In the place of the mark in an operator, the word `not` can stand before the term. -/
theorem exists_scan_negated {filter : String} {field x : List Char} {quoted : Option (List Char)}
    {tokens : List Token} {index : Nat} (present : field ≠ []) (cut : scan filter = .ok tokens)
    (mem : .word index ⟨field ++ "::not_".toList ++ x, quoted⟩ ∈ tokens) :
    ∃ before after ts us us' k, filter.toList = before ++ field ++ "::not_".toList ++ after ∧
      Text.byteSize before = index ∧
      tokens = ts ++ .word index ⟨field ++ "::not_".toList ++ x, quoted⟩ :: us ∧
      scan (String.ofList (before ++ "not ".toList ++ field ++ "::".toList ++ after)) =
        .ok (ts ++ .word index (.plain "not") ::
          .word k ⟨field ++ "::".toList ++ x, quoted⟩ :: us') ∧
      Token.SameWords us us' := by
  have plainMark : ∀ c ∈ "::not_".toList, Word.IsPlain c := by
    rw [← List.forall_iff_forall_mem]
    decide
  have plainColons : ∀ c ∈ "::".toList, Word.IsPlain c := by
    rw [← List.forall_iff_forall_mem]
    decide
  have word : Scanner.ReadsWord "not".toList (.plain "not") := by
    refine Scanner.readsWord_of_plain ?_ (by decide)
    rw [← List.forall_iff_forall_mem]
    decide
  obtain ⟨before, after, ts, us, us', text, begins, parts, scanned, same⟩ :=
    Scanner.exists_scan_preceded cut present plainMark plainColons word mem
  cases same with
  | @cons _ _ _ us' first rest =>
  cases first with
  | @word _ _ _ k same =>
  subst same
  refine ⟨before, after, ts, us, us', k, text, begins, parts, ?_, rest⟩
  simpa using scanned

/-- Of filters of which one is read where the other is, the one compiles where the other does. -/
theorem Schema.compileFilter_simulated {s : Schema} {nullSafe : Bool} {filter other entity : String}
    {ts us : List Token} {R : Option Predicate → Option Predicate → Prop}
    (cut : scan filter = .ok ts) (cut' : scan other = .ok us)
    (h : Simulates R (Formula.ofTokens (s.compileWord entity nullSafe) ts)
      (Formula.ofTokens (s.compileWord entity nullSafe) us))
    {f : CompiledFilter} (made : s.compileFilter nullSafe filter entity = .ok f) :
    ∃ p p' joins, f = .ofPredicate p joins ∧
      s.compileFilter nullSafe other entity = .ok (.ofPredicate p' joins) ∧ R p p' := by
  obtain ⟨root, _, p, joins, hroot, scanned, read, rfl⟩ := compileFilter_eq_ok_iff.mp made
  cases cut.symm.trans scanned
  obtain ⟨p', read', related⟩ := h [] p joins read
  exact ⟨p, p', joins, rfl,
    compileFilter_eq_ok_iff.mpr ⟨root, us, p', joins, hroot, cut', read', rfl⟩, related⟩

/-- **A comparison can be negated by its mark or by a word.** A filter in which a comparison is
negated by the mark of its operator says the same with the word `not` before it instead: it compiles
if the other does, to a predicate of the same truth everywhere with the same joins and groups, so
any dataset selects the same by both. The statements are the same, too, but for a test that asks for
what is not null, and for a place where another `not` waits for its term. -/
theorem negation_spelled_either_way {filter : String} {field x : List Char}
    {quoted : Option (List Char)} {tokens : List Token} {index : Nat} (present : field ≠ [])
    (colonless : ':' ∉ field) (unmarked : ¬ "not_".toList <+: x ++ quoted.getD [])
    (cut : scan filter = .ok tokens)
    (mem : .word index ⟨field ++ "::not_".toList ++ x, quoted⟩ ∈ tokens) :
    ∃ before after ts us, filter.toList = before ++ field ++ "::not_".toList ++ after ∧
      Text.byteSize before = index ∧
      tokens = ts ++ .word index ⟨field ++ "::not_".toList ++ x, quoted⟩ :: us ∧
      ∀ other, other = String.ofList (before ++ "not ".toList ++ field ++ "::".toList ++ after) →
      ∀ (s : Schema) (nullSafe : Bool) (entity : String),
        (Succeeds (s.compileFilter nullSafe filter entity) ↔
          Succeeds (s.compileFilter nullSafe other entity)) ∧
        ∀ f f', s.compileFilter nullSafe filter entity = .ok f →
          s.compileFilter nullSafe other entity = .ok f' →
          f'.joins = f.joins ∧ f'.aggregate = f.aggregate ∧ f'.groupBy = f.groupBy ∧
          Option.Rel Predicate.Agrees f.predicate f'.predicate ∧
          ∀ q : Selection, q.Asks entity f →
            { q with predicate := f'.predicate }.Asks entity f' ∧
            (∀ d : Dataset, d.select s { q with predicate := f'.predicate } = d.select s q ∧
              d.count s { q with predicate := f'.predicate } = d.count s q) ∧
            (¬ Formula.Waits ts →
              (∀ e, Expression.parse ⟨field ++ "::".toList ++ x, quoted⟩ = .ok e →
                ¬ e.AsksNotNull) →
              Sql.Statement.select s { q with predicate := f'.predicate } =
                  Sql.Statement.select s q ∧
                Sql.Statement.count s { q with predicate := f'.predicate } =
                  Sql.Statement.count s q) := by
  obtain ⟨before, after, ts, us, us', k, text, begins, rfl, scanned, rest⟩ :=
    exists_scan_negated present cut mem
  refine ⟨before, after, ts, us, text, begins, rfl, ?_⟩
  rintro _ rfl s nullSafe entity
  have alike {f : CompiledFilter} := @Schema.compileFilter_simulated s nullSafe _ _ entity _ _ _
    cut scanned (Schema.ofTokens_marked present colonless unmarked rest) f
  have back {f : CompiledFilter} := @Schema.compileFilter_simulated s nullSafe _ _ entity _ _ _
    scanned cut (Schema.ofTokens_of_marked present colonless unmarked rest) f
  refine ⟨⟨?_, ?_⟩, ?_⟩
  · rintro ⟨f, made⟩
    obtain ⟨_, _, _, _, made', _⟩ := alike made
    exact ⟨_, made'⟩
  · rintro ⟨f, made⟩
    obtain ⟨_, _, _, _, made', _⟩ := back made
    exact ⟨_, made'⟩
  · intro f f' made made'
    obtain ⟨p, p', joins, rfl, made'', related⟩ := alike made
    cases made''.symm.trans made'
    have agrees : Option.Rel Predicate.Agrees p p' := by
      cases related with
      | none => exact .none
      | some related => exact .some related.1
    obtain ⟨aggregate, groupBy⟩ := CompiledFilter.groupBy_of_agrees agrees joins
    refine ⟨rfl, aggregate, groupBy, agrees, fun q asks =>
      ⟨?_, fun d => ?_, fun first unasked => ?_⟩⟩
    · exact ⟨asks.entity, asks.joins, rfl, asks.aggregate.trans aggregate.symm,
        asks.groupBy.trans groupBy.symm⟩
    · exact d.select_of_agrees s (asks.predicate ▸ agrees)
    · refine Sql.Statement.select_of_sameConditions s (asks.predicate ▸ ?_)
      cases related with
      | none => exact .none
      | some related => exact .some (related.2 ⟨first, unasked⟩)

namespace Spellings

def schema : Schema :=
  ⟨[⟨"Person", "person", "id",
      [⟨"id", "id", false, .scalar .integer⟩, ⟨"name", "name", true, .scalar .text⟩]⟩]⟩

/-- That the name is `x`. -/
def named : Comparison :=
  ⟨.attr ⟨.root, .attribute "name" "name"⟩, .eq, false, false, .literal (.text "x")⟩

/-- The text by which the people of a predicate are counted. -/
def countText (p : Predicate) : Except Error String := do
  return (← Sql.Statement.count schema (.ofFilter "Person" (.ofPredicate (some p) []))).text

end Spellings

open Spellings in
theorem negation_spelled_either_way_named :
    ∃ before after, "(id:1 or name::not_eq:\"b c\")".toList =
        before ++ "name".toList ++ "::not_".toList ++ after ∧ Text.byteSize before = 9 ∧
      ∀ other, other = String.ofList
        (before ++ "not ".toList ++ "name".toList ++ "::".toList ++ after) →
        (Succeeds (schema.compileFilter false "(id:1 or name::not_eq:\"b c\")" "Person") ↔
          Succeeds (schema.compileFilter false other "Person")) ∧
        ∀ f f', schema.compileFilter false "(id:1 or name::not_eq:\"b c\")" "Person" = .ok f →
          schema.compileFilter false other "Person" = .ok f' →
          Option.Rel Predicate.Agrees f.predicate f'.predicate ∧
          ∀ (d : Dataset) (q : Selection), q.Asks "Person" f →
            d.select schema { q with predicate := f'.predicate } = d.select schema q := by
  have cut : scan "(id:1 or name::not_eq:\"b c\")" =
      .ok [.opening 0, .word 1 (.plain "id:1"), .word 6 (.plain "or"),
        .word 9 ⟨"name::not_eq:".toList, some "b c".toList⟩, .closing 27] := by rfl
  obtain ⟨before, after, ts, us, text, begins, _, either⟩ :=
    @negation_spelled_either_way _ "name".toList "eq:".toList (some "b c".toList) _ 9 (by decide)
      (by decide) (by decide) cut (by decide)
  refine ⟨before, after, text, begins, fun other written => ?_⟩
  obtain ⟨succeeds, filters⟩ := either other written schema false "Person"
  refine ⟨succeeds, fun f f' made made' => ?_⟩
  obtain ⟨_, _, _, agrees, selections⟩ := filters f f' made made'
  exact ⟨agrees, fun d q asks => ((selections q asks).2.1 d).1⟩

open Spellings in
/-- A `not` that waits from before an empty group is taken back by the word and not by the mark,
though it does not stand directly before the comparison: the statements are different. -/
theorem statements_differ_after_empty_group :
    schema.compileFilter false "not () name::not_eq:x" "Person" =
        .ok (.ofPredicate (some (.not (.leaf named.negated))) []) ∧
      schema.compileFilter false "not () not name::eq:x" "Person" =
        .ok (.ofPredicate (some (.leaf named)) []) ∧
      countText (.not (.leaf named.negated)) =
        .ok "SELECT COUNT(*) FROM \"person\" r WHERE NOT (NOT (r.\"name\" = $1))" ∧
      countText (.leaf named) =
        .ok "SELECT COUNT(*) FROM \"person\" r WHERE r.\"name\" = $1" := by
  refine ⟨?_, ?_, ?_, ?_⟩
  all_goals cbv

end EntityQuery
