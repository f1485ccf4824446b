import EntityQuery.Proofs.Filter.Compilation
import EntityQuery.Proofs.Path.Types

/-!
# The types in a compiled filter

Compiling a comparison is also checking its types. Each attribute that it reads is resolved to the
type it is declared with, a function has the type of its result, and what stands on the right can be
compared with what stands on the left (`Operand.FitsRight`): a literal has been read as a value of
the left type, and two types that differ are both numeric. **Every comparison of a compiled filter
is of the type of its left side** (`Schema.compileFilter_hasType`).
-/

namespace EntityQuery

/-- The value is of the type, and finite if it is a float. -/
structure ScalarType.Holds (type : ScalarType) (v : Value) : Prop where
  type : v.type? = some type
  finite : ∀ f, v = .float f → f.isFinite = true

/-- A literal is read as a value of the type that is asked for, and never as an infinite one. -/
theorem ScalarType.holds_coerce {type : ScalarType} {field raw : String} {v : Value}
    (h : type.coerce field raw = .ok v) : type.Holds v := by
  refine ⟨type?_coerce h, ?_⟩
  rintro f rfl
  have float := type?_coerce h
  cases float
  unfold coerce at h
  dsimp only at h
  split at h
  · next v hread =>
    cases h
    obtain ⟨g, hg, same⟩ := Option.map_eq_some_iff.mp hread
    cases same
    exact (Option.filter_eq_some_iff.mp hg).2
  · cases h

theorem Aggregate.resultType_countingMembers (f : Aggregate) (identifier : Bool) (field : String)
    (type : ScalarType) :
    (f.countingMembers identifier).resultType field type = f.resultType field type := by
  unfold countingMembers
  split
  · next h =>
    rw [h.1]
    rfl
  · rfl

section

variable (s : Schema) (root : Entity) (joins : Joins)

/-- The operand is an attribute of the type, or a function of an attribute whose result is of the
type. -/
inductive Operand.HasType : Operand → ScalarType → Prop where
  | attr {a : AttrRef} {type : ScalarType} (read : a.HasType s root joins type) :
      HasType (.attr a) type
  | aggregate {f : Aggregate} {a : AttrRef} {field : String} {of type : ScalarType}
      (read : a.HasType s root joins of) (result : f.resultType field of = .ok type) :
      HasType (.aggregate f a) type

/-- The operand can stand on the right of the operator where a value of the type stands on the
left. -/
inductive Operand.FitsRight (type : ScalarType) : Operator → Operand → Prop where
  | null : FitsRight type .isNull .none
  | list {vs : List Value} (holds : ∀ v ∈ vs, type.Holds v) : FitsRight type .isIn (.list vs)
  | literal {op : Operator} {v : Value} (notNull : op ≠ .isNull) (notIn : op ≠ .isIn)
      (holds : type.Holds v) : FitsRight type op (.literal v)
  | read {op : Operator} {o : Operand} {other : ScalarType} (notNull : op ≠ .isNull)
      (notIn : op ≠ .isIn) (read : o.HasType s root joins other)
      (comparable : Expression.comparable other type = true)
      (text : op.isPattern → other = .text) : FitsRight type op o

/-- The left side is of the type, and the right side fits it. -/
structure Comparison.HasType (c : Comparison) (type : ScalarType) : Prop where
  left : c.left.HasType s root joins type
  text : c.operator.isPattern → type = .text
  right : c.right.FitsRight s root joins type c.operator

end

variable {s : Schema} {name : String} {root : Entity} {joins joins' : Joins} {type : ScalarType}

theorem Operand.HasType.mono {o : Operand} (h : o.HasType s root joins type)
    (grown : joins <+: joins') : o.HasType s root joins' type := by
  cases h with
  | attr read => exact .attr (read.mono grown)
  | aggregate read result => exact .aggregate (read.mono grown) result

theorem Operand.HasType.reads {o : Operand} (h : o.HasType s root joins type) :
    ∃ a of, o.reads? = some a ∧ a.HasType s root joins of := by
  cases h with
  | attr read => exact ⟨_, _, rfl, read⟩
  | aggregate read result => exact ⟨_, _, rfl, read⟩

theorem Operand.FitsRight.mono {op : Operator} {o : Operand}
    (h : o.FitsRight s root joins type op) (grown : joins <+: joins') :
    o.FitsRight s root joins' type op := by
  cases h with
  | null => exact .null
  | list holds => exact .list holds
  | literal notNull notIn holds => exact .literal notNull notIn holds
  | read notNull notIn read comparable text =>
    exact .read notNull notIn (read.mono grown) comparable text

theorem Comparison.HasType.mono {c : Comparison} (h : c.HasType s root joins type)
    (grown : joins <+: joins') : c.HasType s root joins' type where
  left := h.left.mono grown
  text := h.text
  right := h.right.mono grown

/-- Whatever a comparison reads has a type. -/
theorem Comparison.HasType.reads {c : Comparison} (h : c.HasType s root joins type)
    {a : AttrRef} (ha : a ∈ c.reads) : ∃ of, a.HasType s root joins of := by
  rcases List.mem_append.mp ha with ha | ha
  · obtain ⟨b, of, hb, read⟩ := h.left.reads
    rw [hb] at ha
    cases Option.some.inj (Option.mem_toList.mp ha)
    exact ⟨of, read⟩
  · have ha := Option.mem_toList.mp ha
    have right := h.right
    generalize c.right = o, c.operator = op at ha right
    cases right with
    | null | list | literal => cases ha
    | read _ _ read =>
      obtain ⟨b, of, hb, read⟩ := read.reads
      cases Option.some.inj (hb.symm.trans ha)
      exact ⟨of, read⟩

namespace Expression

/-- The type that is found for an operand is the one it has. -/
theorem operand_hasType {path : String} {function : Option Aggregate} {o : Operand}
    (hroot : s.entity name = .ok root) (sound : joins.Sound s root)
    (h : operand s name path function joins = (.ok (o, type), joins')) :
    o.HasType s root joins' type := by
  obtain ⟨r, joins₁, hr, h⟩ := Resolving.bind_eq_ok.mp h
  have read := Schema.resolve_hasType hroot sound hr
  cases function with
  | none =>
    obtain ⟨ho, rfl⟩ := Resolving.pure_eq_ok.mp h
    cases ho
    exact .attr read
  | some f =>
    obtain ⟨type, joins₂, htype, h⟩ := Resolving.bind_eq_ok.mp h
    obtain ⟨result, rfl⟩ := Resolving.lift_eq_ok.mp htype
    obtain ⟨ho, rfl⟩ := Resolving.pure_eq_ok.mp h
    cases ho
    exact .aggregate read ((f.resultType_countingMembers r.identifier path r.type).trans result)

theorem rightOperand_fits {e : Expression} {o : Operand} {negate : Bool}
    (hroot : s.entity name = .ok root) (sound : joins.Sound s root)
    (h : rightOperand s name type e joins = (.ok (o, negate), joins')) :
    o.FitsRight s root joins' type e.operator := by
  generalize hx : rightOperand s name type e = x at h
  unfold rightOperand at hx
  split at hx <;> subst hx
  · next hop _ =>
    obtain ⟨wanted, joins₁, _, h⟩ := Resolving.bind_eq_ok.mp h
    obtain ⟨ho, _⟩ := Resolving.pure_eq_ok.mp h
    cases ho
    rw [hop]
    exact .null
  · exact absurd h Resolving.throw_ne_ok
  · next items hop _ =>
    obtain ⟨vs, joins₁, hvs, h⟩ := Resolving.bind_eq_ok.mp h
    obtain ⟨coerced, rfl⟩ := Resolving.mapM_lift_eq_ok.mp hvs
    obtain ⟨ho, _⟩ := Resolving.pure_eq_ok.mp h
    cases ho
    rw [hop]
    refine .list fun v hv => ?_
    obtain ⟨raw, _, hraw⟩ := exists_of_forall₂ (mapM_eq_ok.mp coerced) hv
    exact ScalarType.holds_coerce hraw
  · next raw hop _ =>
    obtain ⟨v, joins₁, hv, h⟩ := Resolving.bind_eq_ok.mp h
    obtain ⟨coerced, _⟩ := Resolving.lift_eq_ok.mp hv
    obtain ⟨ho, _⟩ := Resolving.pure_eq_ok.mp h
    cases ho
    rw [hop]
    refine .list fun w hw => ?_
    rw [List.mem_singleton.mp hw]
    exact ScalarType.holds_coerce coerced
  · exact absurd h Resolving.throw_ne_ok
  · exact absurd h Resolving.throw_ne_ok
  · next raw _ notNull notIn =>
    obtain ⟨v, joins₁, hv, h⟩ := Resolving.bind_eq_ok.mp h
    obtain ⟨coerced, _⟩ := Resolving.lift_eq_ok.mp hv
    obtain ⟨ho, _⟩ := Resolving.pure_eq_ok.mp h
    cases ho
    exact .literal notNull notIn (ScalarType.holds_coerce coerced)
  -- The two checks that are passed here say that the types can be compared, and searched in.
  · next path function _ notNull notIn =>
    obtain ⟨⟨right, rightType⟩, joins₁, hright, h⟩ := Resolving.bind_eq_ok.mp h
    have read := operand_hasType hroot sound hright
    obtain ⟨comparable, h⟩ := Resolving.guard_eq_ok.mp h
    obtain ⟨text, h⟩ := Resolving.guard_eq_ok.mp h
    obtain ⟨ho, rfl⟩ := Resolving.pure_eq_ok.mp h
    cases ho
    exact .read notNull notIn read (by simpa using comparable) (by simpa using text)

/-- A comparison that is compiled is of the type of its left side. -/
theorem compile_hasType {nullSafe : Bool} {e : Expression} {c : Comparison}
    (hroot : s.entity name = .ok root) (sound : joins.Sound s root)
    (h : compile s name nullSafe e joins = (.ok c, joins')) :
    ∃ type, c.HasType s root joins' type := by
  obtain ⟨⟨left, type⟩, joins₁, hleft, h⟩ := Resolving.bind_eq_ok.mp h
  have typed := operand_hasType hroot sound hleft
  obtain ⟨sound₁, _⟩ := operand_reads hroot sound hleft
  obtain ⟨htext, h⟩ := Resolving.guard_eq_ok.mp h
  obtain ⟨⟨right, negate⟩, joins₂, hright, h⟩ := Resolving.bind_eq_ok.mp h
  obtain ⟨rfl, rfl⟩ := Resolving.pure_eq_ok.mp h
  have text : e.operator.isPattern → type = .text := by
    simpa using htext
  obtain ⟨_, grown, _⟩ := rightOperand_right hroot sound₁ text hright
  exact ⟨type, typed.mono grown, text, rightOperand_fits hroot sound₁ hright⟩

end Expression

/-- Every comparison of a compiled filter is of the type of its left side. -/
theorem Schema.compileFilter_hasType {nullSafe : Bool} {filter : String} {f : CompiledFilter}
    (h : s.compileFilter nullSafe filter name = .ok f) :
    ∃ root, s.entity name = .ok root ∧
      ∀ c ∈ Formula.leavesOf f.predicate, ∃ type, c.HasType s root f.joins type := by
  obtain ⟨root, tokens, predicate, joins, hroot, _, run, rfl⟩ := compileFilter_eq_ok_iff.mp h
  obtain ⟨_, leaves, _⟩ :=
    Formula.forall₂_of_ofTokens (compileWord_sound hroot) Joins.sound_nil run
  refine ⟨root, hroot, fun c hc => ?_⟩
  obtain ⟨w, _, before, after, sound, made, grown⟩ := exists_of_forall₂ leaves hc
  obtain ⟨e, _, made⟩ := Schema.compileWord_eq_ok_iff.mp made
  obtain ⟨type, typed⟩ := Expression.compile_hasType hroot sound made
  exact ⟨type, typed.mono grown⟩

end EntityQuery
