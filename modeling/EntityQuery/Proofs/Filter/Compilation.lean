import EntityQuery.Filter.Compilation
import EntityQuery.Proofs.Filter.Combination
import EntityQuery.Proofs.Filter.Predicate
import EntityQuery.Sql.Bind

/-!
# What a compiled filter is like

A comparison that has been compiled reads attributes that are there to be read, and its right side
is of the form that its operator asks for (`Comparison.Compiled`): nothing for a test for null, a
list of values of one type for a membership test, a value or something read of a row for the others.
**A filter that has been compiled has sound joins, and all comparisons in it are of this kind**
(`Schema.compileFilter_compiled`). What has been compiled stays so while more joins are entered
(`Comparison.Compiled.mono`), which carries the fact from a word to the whole filter.
-/

namespace EntityQuery

theorem ScalarType.type?_read? {type : ScalarType} {s : List Char} {v : Value}
    (h : type.read? s = some v) : v.type? = some type := by
  unfold read? at h
  split at h
  case h_1 =>
    dsimp only at h
    split at h
    · cases h
      rfl
    · split at h
      · cases h
        rfl
      · cases h
  case h_4 => cases h
  all_goals
    obtain ⟨x, _, rfl⟩ := Option.map_eq_some_iff.mp h
    rfl

/-- A literal is read as a value of the type that is asked for. -/
theorem ScalarType.type?_coerce {type : ScalarType} {field raw : String} {v : Value}
    (h : type.coerce field raw = .ok v) : v.type? = some type := by
  unfold coerce at h
  split at h
  · cases h
    rfl
  · split at h
    · next hread =>
      cases h
      exact type?_read? hread
    · cases h

/-! ## Comparisons -/

/-- The operands that can stand on the right of an operator. -/
inductive Operand.Right : Operator → Operand → Prop where
  | null : Right .isNull .none
  | list {type : ScalarType} {vs : List Value} (types : ∀ v ∈ vs, v.type? = some type) :
      Right .isIn (.list vs)
  | literal {op : Operator} {v : Value} (notNull : op ≠ .isNull) (notIn : op ≠ .isIn)
      (type : v.type? ≠ Option.none) (text : op.isPattern → v.type? = some .text) :
      Right op (.literal v)
  | read {op : Operator} {o : Operand} {a : AttrRef} (notNull : op ≠ .isNull)
      (notIn : op ≠ .isIn) (reads : o.reads? = some a) : Right op o

/-- A comparison as it is compiled. -/
structure Comparison.Compiled (joins : Joins) (c : Comparison) : Prop where
  left : ∃ a, c.left.reads? = some a
  right : Operand.Right c.operator c.right
  /-- What is read is there. -/
  reads : ∀ a ∈ c.reads, a.In joins

theorem Comparison.Compiled.mono {joins joins' : Joins} {c : Comparison} (h : c.Compiled joins)
    (hp : joins <+: joins') : c.Compiled joins' where
  left := h.left
  right := h.right
  reads := fun a ha => (h.reads a ha).mono hp

namespace Expression

variable {s : Schema} {name : String} {root : Entity} {joins joins' : Joins}

/-- An operand that is a path, or a path in a function, reads an attribute that is there. -/
theorem operand_reads {path : String} {function : Option Aggregate} {o : Operand}
    {type : ScalarType} (hroot : s.entity name = .ok root) (sound : joins.Sound s root)
    (h : operand s name path function joins = (.ok (o, type), joins')) :
    joins'.Sound s root ∧ joins <+: joins' ∧ ∃ a, o.reads? = some a ∧ a.In joins' := by
  obtain ⟨r, joins₁, hr, h⟩ := Resolving.bind_eq_ok.mp h
  obtain ⟨sound', grown, hin⟩ := Schema.resolve_sound hroot sound hr
  cases function with
  | none =>
    obtain ⟨ho, rfl⟩ := Resolving.pure_eq_ok.mp h
    cases ho
    exact ⟨sound', grown, r.attr, rfl, hin⟩
  | some f =>
    obtain ⟨type, joins₂, htype, h⟩ := Resolving.bind_eq_ok.mp h
    obtain ⟨_, rfl⟩ := Resolving.lift_eq_ok.mp htype
    obtain ⟨ho, rfl⟩ := Resolving.pure_eq_ok.mp h
    cases ho
    exact ⟨sound', grown, r.attr, rfl, hin⟩

theorem type?_of_mem_coerced {type : ScalarType} {field : String} {items : List String}
    {vs : List Value} (h : items.mapM (fun raw => type.coerce field raw) = .ok vs) :
    ∀ v ∈ vs, v.type? = some type := by
  intro v hv
  obtain ⟨raw, _, hraw⟩ := exists_of_forall₂ (mapM_eq_ok.mp h) hv
  exact ScalarType.type?_coerce hraw

/-- The right side is of the form that the operator asks for. -/
theorem rightOperand_right {type : ScalarType} {e : Expression} {o : Operand} {negate : Bool}
    (hroot : s.entity name = .ok root) (sound : joins.Sound s root)
    (text : e.operator.isPattern → type = .text)
    (h : rightOperand s name type e joins = (.ok (o, negate), joins')) :
    joins'.Sound s root ∧ joins <+: joins' ∧ Operand.Right e.operator o ∧
      ∀ a, o.reads? = some a → a.In joins' := by
  generalize hx : rightOperand s name type e = x at h
  unfold rightOperand at hx
  split at hx <;> subst hx
  -- A test for null, which has no right side: its literal says whether it is negated.
  · next hop _ =>
    obtain ⟨wanted, joins₁, hw, h⟩ := Resolving.bind_eq_ok.mp h
    obtain ⟨_, rfl⟩ := Resolving.lift_eq_ok.mp hw
    obtain ⟨ho, rfl⟩ := Resolving.pure_eq_ok.mp h
    cases ho
    rw [hop]
    exact ⟨sound, List.prefix_refl _, .null, by simp [Operand.reads?]⟩
  · exact absurd h Resolving.throw_ne_ok
  -- Membership in a list, or in a single item.
  · next items hop _ =>
    obtain ⟨vs, joins₁, hvs, h⟩ := Resolving.bind_eq_ok.mp h
    obtain ⟨coerced, rfl⟩ := Resolving.mapM_lift_eq_ok.mp hvs
    obtain ⟨ho, rfl⟩ := Resolving.pure_eq_ok.mp h
    cases ho
    rw [hop]
    exact ⟨sound, List.prefix_refl _, .list (type?_of_mem_coerced coerced),
      by simp [Operand.reads?]⟩
  · next raw hop _ =>
    obtain ⟨v, joins₁, hv, h⟩ := Resolving.bind_eq_ok.mp h
    obtain ⟨coerced, rfl⟩ := Resolving.lift_eq_ok.mp hv
    obtain ⟨ho, rfl⟩ := Resolving.pure_eq_ok.mp h
    cases ho
    rw [hop]
    have types : ∀ w ∈ [v], w.type? = some type := by
      simpa using ScalarType.type?_coerce coerced
    exact ⟨sound, List.prefix_refl _, .list types, by simp [Operand.reads?]⟩
  · exact absurd h Resolving.throw_ne_ok
  · exact absurd h Resolving.throw_ne_ok
  · next raw _ notNull notIn =>
    obtain ⟨v, joins₁, hv, h⟩ := Resolving.bind_eq_ok.mp h
    obtain ⟨coerced, rfl⟩ := Resolving.lift_eq_ok.mp hv
    obtain ⟨ho, rfl⟩ := Resolving.pure_eq_ok.mp h
    cases ho
    have htype := ScalarType.type?_coerce coerced
    refine ⟨sound, List.prefix_refl _, .literal notNull notIn (by simp [htype]) ?_,
      by simp [Operand.reads?]⟩
    intro hp
    rw [htype, text hp]
  -- Another attribute, the only case in which joins are entered.
  · next path function _ notNull notIn =>
    obtain ⟨⟨right, rightType⟩, joins₁, hright, h⟩ := Resolving.bind_eq_ok.mp h
    obtain ⟨sound', grown, a, reads, hin⟩ := operand_reads hroot sound hright
    obtain ⟨_, h⟩ := Resolving.guard_eq_ok.mp h
    obtain ⟨_, h⟩ := Resolving.guard_eq_ok.mp h
    obtain ⟨ho, rfl⟩ := Resolving.pure_eq_ok.mp h
    cases ho
    refine ⟨sound', grown, .read notNull notIn reads, ?_⟩
    intro b hb
    rw [reads] at hb
    cases hb
    exact hin

/-- A comparison that is compiled reads attributes that are there. -/
theorem compile_compiled {nullSafe : Bool} {e : Expression} {c : Comparison}
    (hroot : s.entity name = .ok root) (sound : joins.Sound s root)
    (h : compile s name nullSafe e joins = (.ok c, joins')) :
    joins'.Sound s root ∧ joins <+: joins' ∧ c.Compiled joins' := by
  obtain ⟨⟨left, type⟩, joins₁, hleft, h⟩ := Resolving.bind_eq_ok.mp h
  obtain ⟨sound₁, grown₁, a, reads, hin⟩ := operand_reads hroot sound hleft
  obtain ⟨htext, h⟩ := Resolving.guard_eq_ok.mp h
  obtain ⟨⟨right, negate⟩, joins₂, hright, h⟩ := Resolving.bind_eq_ok.mp h
  obtain ⟨hc, rfl⟩ := Resolving.pure_eq_ok.mp h
  have text : e.operator.isPattern → type = .text := by
    simpa using htext
  obtain ⟨sound₂, grown₂, form, there⟩ := rightOperand_right hroot sound₁ text hright
  subst hc
  refine ⟨sound₂, grown₁.trans grown₂, ⟨a, reads⟩, form, ?_⟩
  intro b hb
  rcases List.mem_append.mp hb with hb | hb
  · rw [reads] at hb
    rw [Option.mem_toList.mp hb |> Option.some.inj |>.symm]
    exact hin.mono grown₂
  · exact there b (Option.mem_toList.mp hb)

end Expression

/-! ## Filters -/

theorem Schema.compileWord_eq_ok_iff {s : Schema} {name : String} {joins joins' : Joins}
    {nullSafe : Bool} {w : Word} {c : Comparison} :
    s.compileWord name nullSafe w joins = (.ok c, joins') ↔
      ∃ e, Expression.parse w = .ok e ∧ e.compile s name nullSafe joins = (.ok c, joins') := by
  refine Resolving.bind_eq_ok.trans (exists_congr fun e => ?_)
  constructor
  · rintro ⟨_, read, made⟩
    obtain ⟨parsed, rfl⟩ := Resolving.lift_eq_ok.mp read
    exact ⟨parsed, made⟩
  · rintro ⟨parsed, made⟩
    exact ⟨joins, Resolving.lift_eq_ok.mpr ⟨parsed, rfl⟩, made⟩

theorem Schema.compileWord_compiled {s : Schema} {name : String} {root : Entity}
    {joins joins' : Joins} {nullSafe : Bool} {w : Word} {c : Comparison}
    (hroot : s.entity name = .ok root) (sound : joins.Sound s root)
    (h : s.compileWord name nullSafe w joins = (.ok c, joins')) :
    joins'.Sound s root ∧ joins <+: joins' ∧ c.Compiled joins' := by
  obtain ⟨e, _, h⟩ := compileWord_eq_ok_iff.mp h
  exact Expression.compile_compiled hroot sound h

theorem Schema.compileWord_sound {s : Schema} {name : String} {root : Entity} {nullSafe : Bool}
    (hroot : s.entity name = .ok root) (w : Word) (joins : Joins) (c : Comparison)
    (joins' : Joins) (sound : joins.Sound s root)
    (h : s.compileWord name nullSafe w joins = (.ok c, joins')) :
    joins'.Sound s root ∧ joins <+: joins' := by
  obtain ⟨sound', grown, _⟩ := compileWord_compiled hroot sound h
  exact ⟨sound', grown⟩

theorem Schema.compileFilter_eq_ok_iff {s : Schema} {nullSafe : Bool} {filter name : String}
    {f : CompiledFilter} :
    s.compileFilter nullSafe filter name = .ok f ↔
      ∃ root tokens predicate joins, s.entity name = .ok root ∧ scan filter = .ok tokens ∧
        Formula.ofTokens (s.compileWord name nullSafe) tokens [] = (.ok predicate, joins) ∧
        f = .ofPredicate predicate joins := by
  unfold compileFilter
  simp only [bind_eq_ok]
  constructor
  · rintro ⟨root, hroot, tokens, htokens, h⟩
    obtain ⟨⟨outcome, joins⟩, run⟩ :
        ∃ r, Formula.ofTokens (s.compileWord name nullSafe) tokens [] = r := ⟨_, rfl⟩
    rw [show (Formula.ofTokens (s.compileWord name nullSafe) tokens).run [] = _ from run] at h
    obtain ⟨predicate, rfl, h⟩ := bind_eq_ok.mp h
    exact ⟨root, tokens, predicate, joins, hroot, htokens, run, (Except.ok.inj h).symm⟩
  · rintro ⟨root, tokens, predicate, joins, hroot, htokens, run, rfl⟩
    refine ⟨root, hroot, tokens, htokens, ?_⟩
    rw [show (Formula.ofTokens (s.compileWord name nullSafe) tokens).run [] = _ from run]
    rfl

/-- A filter as it is compiled for the records of `root`. -/
structure CompiledFilter.Compiled (s : Schema) (root : Entity) (f : CompiledFilter) : Prop where
  joins : f.joins.Sound s root
  leaves : ∀ p, f.predicate = some p → ∀ c ∈ p.leaves, c.Compiled f.joins
  /-- Where there is nothing to hold, nothing is joined. -/
  trivial : f.predicate = none → f.joins = []
  eq : f = .ofPredicate f.predicate f.joins

/-- Rows are grouped by nothing but attributes that share a comparison with a function. -/
theorem CompiledFilter.Compiled.shared_of_mem_groupBy {s : Schema} {root : Entity}
    {f : CompiledFilter} (compiled : f.Compiled s root) {a : AttrRef} (ha : a ∈ f.groupBy) :
    ∃ p, f.predicate = some p ∧ ∃ c ∈ p.leaves, c.isAggregate = true ∧
      (c.left.attr? = some a ∨ c.right.attr? = some a) := by
  rw [compiled.eq] at ha
  unfold CompiledFilter.ofPredicate at ha
  cases hp : f.predicate with
  | none => simp [hp] at ha
  | some p =>
    rw [hp] at ha
    dsimp only at ha
    split at ha
    · exact ⟨p, rfl, Predicate.mem_groupingAttributes.mp ha⟩
    · cases ha

theorem Schema.compileFilter_compiled {s : Schema} {nullSafe : Bool} {filter name : String}
    {f : CompiledFilter} (h : s.compileFilter nullSafe filter name = .ok f) :
    ∃ root, s.entity name = .ok root ∧ f.Compiled s root := by
  obtain ⟨root, tokens, predicate, joins, hroot, _, run, rfl⟩ := compileFilter_eq_ok_iff.mp h
  obtain ⟨sound, leaves, untouched⟩ :=
    Formula.forall₂_of_ofTokens (compileWord_sound hroot) Joins.sound_nil run
  refine ⟨root, hroot, sound, ?_, untouched, rfl⟩
  rintro p rfl c hc
  obtain ⟨w, _, before, after, sound, made, grown⟩ := exists_of_forall₂ leaves hc
  exact (compileWord_compiled hroot sound made).2.2.mono grown

end EntityQuery
