import EntityQuery.Proofs.Filter.Compilation
import EntityQuery.Proofs.Path.Ways

/-!
# What the words of a filter become

**Each word that does not join others becomes one comparison, in the order of the text**
(`Schema.compileFilter_ofWords`). A path in the word, inside a function or by itself, becomes an
operand that is read at the end of the way of the path (`Operand.OfPath`); counting what has an
identifier becomes counting identifiers.
-/

namespace EntityQuery

variable {s : Schema} {name : String} {root : Entity} {joins joins' : Joins}

/-- An attribute as an operand, inside a function or by itself. -/
def Operand.reading (identifier : Bool) (a : AttrRef) : Option Aggregate → Operand
  | .none => .attr a
  | some f => .aggregate (f.countingMembers identifier) a

/-- The operand reads, at the end of the way of the path, what the path stands for. -/
def Operand.OfPath (s : Schema) (root : Entity) (joins : Joins) (path : String)
    (function : Option Aggregate) (o : Operand) : Prop :=
  ∃ steps d way source, s.route path root "" (Path.segments path) = (steps, .ok d) ∧
    joins.Way .root way source ∧ way.map JoinNode.step = steps ∧
    o = .reading d.identifier ⟨source, d.column⟩ function

theorem Operand.OfPath.mono {path : String} {function : Option Aggregate} {o : Operand}
    (h : o.OfPath s root joins path function) (grown : joins <+: joins') :
    o.OfPath s root joins' path function := by
  obtain ⟨steps, d, way, source, route, leads, h⟩ := h
  exact ⟨steps, d, way, source, route, leads.mono grown, h⟩

/-- The sides of the comparison stand for what the word says, as far as it says a path. -/
def Comparison.OfWord (P : String → Option Aggregate → Operand → Prop) (w : Word)
    (c : Comparison) : Prop :=
  ∃ e, Expression.parse w = .ok e ∧ P e.attr e.function c.left ∧
    ∀ path function, e.right = .path path function → P path function c.right

theorem Comparison.OfWord.imp {P Q : String → Option Aggregate → Operand → Prop} {w : Word}
    {c : Comparison} (h : c.OfWord P w)
    (le : ∀ path function o, P path function o → Q path function o) : c.OfWord Q w := by
  obtain ⟨e, parsed, left, right⟩ := h
  exact ⟨e, parsed, le _ _ _ left, fun path function h => le _ _ _ (right path function h)⟩

namespace Expression

theorem operand_ofPath {path : String} {function : Option Aggregate} {o : Operand}
    {type : ScalarType} (hroot : s.entity name = .ok root) (sound : joins.Sound s root)
    (h : operand s name path function joins = (.ok (o, type), joins')) :
    o.OfPath s root joins' path function := by
  obtain ⟨r, joins₁, hr, h⟩ := Resolving.bind_eq_ok.mp h
  obtain ⟨steps, d, way, route, read, leads, hway⟩ := Schema.resolve_way hroot sound hr
  rw [read] at h
  cases function with
  | none =>
    obtain ⟨ho, rfl⟩ := Resolving.pure_eq_ok.mp h
    cases ho
    exact ⟨steps, d, way, _, route, leads, hway, rfl⟩
  | some f =>
    obtain ⟨type, joins₂, htype, h⟩ := Resolving.bind_eq_ok.mp h
    obtain ⟨_, rfl⟩ := Resolving.lift_eq_ok.mp htype
    obtain ⟨ho, rfl⟩ := Resolving.pure_eq_ok.mp h
    cases ho
    exact ⟨steps, d, way, _, route, leads, hway, rfl⟩

theorem rightOperand_ofPath {type : ScalarType} {e : Expression} {o : Operand} {negate : Bool}
    (hroot : s.entity name = .ok root) (sound : joins.Sound s root) {path : String}
    {function : Option Aggregate} (hright : e.right = .path path function)
    (h : rightOperand s name type e joins = (.ok (o, negate), joins')) :
    o.OfPath s root joins' path function := by
  generalize hx : rightOperand s name type e = x at h
  unfold rightOperand at hx
  split at hx <;> subst hx
  -- Only where the right side is a path and the operator takes one there is anything to show.
  case h_8 operator path' function' same _ _ =>
    cases hright.symm.trans same
    obtain ⟨⟨right, rightType⟩, joins₁, made, h⟩ := Resolving.bind_eq_ok.mp h
    obtain ⟨_, h⟩ := Resolving.guard_eq_ok.mp h
    obtain ⟨_, h⟩ := Resolving.guard_eq_ok.mp h
    obtain ⟨ho, rfl⟩ := Resolving.pure_eq_ok.mp h
    cases ho
    exact operand_ofPath hroot sound made
  case h_2 => exact absurd h Resolving.throw_ne_ok
  case h_6 => exact absurd h Resolving.throw_ne_ok
  all_goals simp_all

theorem compile_ofWord {nullSafe : Bool} {w : Word} {c : Comparison}
    (hroot : s.entity name = .ok root) (sound : joins.Sound s root)
    (h : s.compileWord name nullSafe w joins = (.ok c, joins')) :
    c.OfWord (fun path function o => o.OfPath s root joins' path function) w := by
  obtain ⟨e, parsed, h⟩ := Schema.compileWord_eq_ok_iff.mp h
  obtain ⟨⟨left, type⟩, joins₁, hleft, h⟩ := Resolving.bind_eq_ok.mp h
  obtain ⟨sound₁, _⟩ := operand_reads hroot sound hleft
  obtain ⟨htext, h⟩ := Resolving.guard_eq_ok.mp h
  obtain ⟨⟨right, negate⟩, joins₂, hright, h⟩ := Resolving.bind_eq_ok.mp h
  obtain ⟨rfl, rfl⟩ := Resolving.pure_eq_ok.mp h
  have text : e.operator.isPattern → type = .text := by
    simpa using htext
  obtain ⟨_, grown, _⟩ := rightOperand_right hroot sound₁ text hright
  exact ⟨e, parsed, (operand_ofPath hroot sound hleft).mono grown,
    fun path function hpath => rightOperand_ofPath hroot sound₁ hpath hright⟩

end Expression

theorem Schema.compileWord_eq_ok {nullSafe : Bool} {w : Word} {e : Expression} {c : Comparison}
    (parsed : Expression.parse w = .ok e)
    (h : e.compile s name nullSafe joins = (.ok c, joins')) :
    s.compileWord name nullSafe w joins = (.ok c, joins') :=
  compileWord_eq_ok_iff.mpr ⟨e, parsed, h⟩

/-- The comparisons of a compiled filter are those of its words, in the order of the text. -/
theorem Schema.compileFilter_ofWords {nullSafe : Bool} {filter : String} {f : CompiledFilter}
    (h : s.compileFilter nullSafe filter name = .ok f) :
    ∃ root tokens, s.entity name = .ok root ∧ scan filter = .ok tokens ∧
      List.Forall₂
        (Comparison.OfWord fun path function o => o.OfPath s root f.joins path function)
        (terms tokens) (Formula.leavesOf f.predicate) := by
  obtain ⟨root, tokens, predicate, joins, hroot, htokens, run, rfl⟩ :=
    compileFilter_eq_ok_iff.mp h
  obtain ⟨_, leaves, _⟩ :=
    Formula.forall₂_of_ofTokens (compileWord_sound hroot) Joins.sound_nil run
  refine ⟨root, tokens, hroot, htokens, leaves.imp fun w c made => ?_⟩
  obtain ⟨before, after, sound, made, grown⟩ := made
  exact (Expression.compile_ofWord hroot sound made).imp fun _ _ _ h => h.mono grown

theorem Schema.mapM_leaf {nullSafe : Bool} {w : Word} {c : Comparison}
    (made : s.compileWord name nullSafe w joins = (.ok c, joins')) :
    (Formula.leaf w).mapM (s.compileWord name nullSafe) joins = (.ok (.leaf c), joins') :=
  Resolving.bind_eq_ok.mpr ⟨c, joins', made, rfl⟩

theorem Schema.mapM_and {nullSafe : Bool} {x y : Formula Word} {p q : Predicate} {joins₁ : Joins}
    (left : x.mapM (s.compileWord name nullSafe) joins = (.ok p, joins₁))
    (right : y.mapM (s.compileWord name nullSafe) joins₁ = (.ok q, joins')) :
    (Formula.and x y).mapM (s.compileWord name nullSafe) joins = (.ok (.and p q), joins') :=
  Resolving.bind_eq_ok.mpr ⟨p, joins₁, left, Resolving.bind_eq_ok.mpr ⟨q, joins', right, rfl⟩⟩

theorem Schema.compileFilter_of_words {nullSafe : Bool} {filter : String} {tokens : List Token}
    {t : Formula Word} {p : Predicate} (hroot : s.entity name = .ok root)
    (scanned : scan filter = .ok tokens) (words : Formula.ofWords tokens = .ok (some t))
    (made : t.mapM (s.compileWord name nullSafe) [] = (.ok p, joins)) :
    s.compileFilter nullSafe filter name = .ok (.ofPredicate (some p) joins) :=
  compileFilter_eq_ok_iff.mpr ⟨root, tokens, _, joins, hroot, scanned,
    Formula.ofTokens_eq_ok_iff.mpr ⟨_, words, Resolving.bind_eq_ok.mpr ⟨p, joins, made, rfl⟩⟩, rfl⟩

/-- A filter of one word. -/
theorem Schema.compileFilter_word {nullSafe : Bool} {filter : String} {tokens : List Token}
    {w : Word} {c : Comparison} (hroot : s.entity name = .ok root)
    (scanned : scan filter = .ok tokens) (words : Formula.ofWords tokens = .ok (some (.leaf w)))
    (made : s.compileWord name nullSafe w [] = (.ok c, joins)) :
    s.compileFilter nullSafe filter name = .ok (.ofPredicate (some (.leaf c)) joins) :=
  compileFilter_of_words hroot scanned words (mapM_leaf made)

/-- A filter of two words that are joined by `and`. -/
theorem Schema.compileFilter_and {nullSafe : Bool} {filter : String} {tokens : List Token}
    {w v : Word} {c c' : Comparison} (hroot : s.entity name = .ok root)
    (scanned : scan filter = .ok tokens)
    (words : Formula.ofWords tokens = .ok (some (.and (.leaf w) (.leaf v))))
    (left : s.compileWord name nullSafe w [] = (.ok c, joins))
    (right : s.compileWord name nullSafe v joins = (.ok c', joins')) :
    s.compileFilter nullSafe filter name =
      .ok (.ofPredicate (some (.and (.leaf c) (.leaf c'))) joins') :=
  compileFilter_of_words hroot scanned words (mapM_and (mapM_leaf left) (mapM_leaf right))

end EntityQuery
