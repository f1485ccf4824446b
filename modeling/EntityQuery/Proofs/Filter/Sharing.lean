import EntityQuery.Proofs.Filter.Disjunction
import EntityQuery.Proofs.Filter.Operands

/-!
# Compiling among other joins

A filter that is compiled where joins have been entered before shares those with which its paths
begin, and enters the others under other numbers. **Apart from these numbers it becomes what it
becomes by itself** (`Schema.matches_compileWords`): each step of the one compilation has its
counterpart in the other (`Matches`), so that the second succeeds where the first does. Two filters
between parentheses with `or` between them are compiled to the disjunction of what they are compiled
to by themselves (`Schema.compileFilter_or`).

`Alike` predicates differ in the numbers of their joins only. Whether a path can be resolved does
not depend on the joins (`Schema.resolve_elsewhere`), and joins entered on both sides keep what the
two lists know of each other (`Joins.Grown`).
-/

namespace EntityQuery

variable {s : Schema} {name : String} {root : Entity} {few few' many many' : Joins}

/-! ## Joins under other numbers -/

/-- Each of the few joins is among the many, if under another number. -/
structure Joins.Within (s : Schema) (root : Entity) (few many : Joins) : Prop where
  soundFew : few.Sound s root
  soundMany : many.Sound s root
  covered : ∀ j ∈ few, ∃ k ∈ many, k.path = j.path

/-- The two lists of joins are both sound; nothing is said of what they have in common. -/
structure Joins.Beside (s : Schema) (root : Entity) (few many : Joins) : Prop where
  soundFew : few.Sound s root
  soundMany : many.Sound s root

/-- Joins have been added to both lists, and to either only of paths that are among the other. -/
structure Joins.Grown (few few' many many' : Joins) : Prop where
  fewGrown : few <+: few'
  manyGrown : many <+: many'
  added : ∀ k ∈ many', k ∈ many ∨ ∃ j ∈ few', j.path = k.path
  covered : ∀ j ∈ few', j ∈ few ∨ ∃ k ∈ many', k.path = j.path

theorem Joins.Grown.refl (few many : Joins) : Joins.Grown few few many many :=
  ⟨List.prefix_refl _, List.prefix_refl _, fun _ hk => .inl hk, fun _ hj => .inl hj⟩

theorem Joins.Grown.trans {few₁ few₂ few₃ many₁ many₂ many₃ : Joins}
    (h : Joins.Grown few₁ few₂ many₁ many₂) (h' : Joins.Grown few₂ few₃ many₂ many₃) :
    Joins.Grown few₁ few₃ many₁ many₃ where
  fewGrown := h.fewGrown.trans h'.fewGrown
  manyGrown := h.manyGrown.trans h'.manyGrown
  added := by
    intro k hk
    rcases h'.added k hk with hk | hk
    · exact (h.added k hk).imp_right fun ⟨j, hj, path⟩ => ⟨j, h'.fewGrown.subset hj, path⟩
    · exact .inr hk
  covered := by
    intro j hj
    rcases h'.covered j hj with hj | hj
    · exact (h.covered j hj).imp_right fun ⟨k, hk, path⟩ => ⟨k, h'.manyGrown.subset hk, path⟩
    · exact .inr hj

/-- Among joins of its own a filter enters those that it enters among others. -/
theorem Joins.Grown.within (h : Joins.Grown [] few' many many')
    (beside : Joins.Beside s root few' many') : Joins.Within s root few' many' :=
  ⟨beside.soundFew, beside.soundMany, fun j hj => (h.covered j hj).resolve_left nofun⟩

/-- Both sources are the root, or joins of the same path. -/
def Source.Alike (few many : Joins) : Source → Source → Prop
  | .root, .root => True
  | .join i, .join k => ∃ j j', few[i]? = some j ∧ many[k]? = some j' ∧ j'.path = j.path
  | _, _ => False

theorem Source.Alike.mono {source source' : Source} (h : source.Alike few many source')
    (grown : few <+: few') (grown' : many <+: many') : source.Alike few' many' source' := by
  cases source <;> cases source'
  case root.root => exact h
  case join.join =>
    obtain ⟨j, j', hj, hj', path⟩ := h
    exact ⟨j, j', Joins.getElem?_mono grown hj, Joins.getElem?_mono grown' hj', path⟩
  all_goals exact h.elim

theorem Source.Alike.symm {source source' : Source} (h : source.Alike few many source') :
    source'.Alike many few source := by
  cases source <;> cases source'
  case root.root => exact h
  case join.join =>
    obtain ⟨j, k, hj, hk, path⟩ := h
    exact ⟨k, j, hk, hj, path.symm⟩
  all_goals exact h.elim

/-- Ways of the same steps lead to joins of the same path. -/
theorem Joins.Way.alike {source source' destination destination' : Source}
    {way way' : List JoinNode} (h : few.Way source way destination)
    (h' : many.Way source' way' destination')
    (steps : way.map JoinNode.step = way'.map JoinNode.step)
    (start : source.Alike few many source') : destination.Alike few many destination' := by
  induction h generalizing source' way' with
  | here =>
    cases h' with
    | here => exact start
    | step => cases steps
  | @step j rest destination hj _ ih =>
    cases h' with
    | here => cases steps
    | @step j' rest' destination' hj' way' =>
      obtain ⟨first, steps⟩ := List.cons.inj steps
      exact ih way' steps ⟨j, j', hj, hj', (congrArg Step.path first).symm⟩

/-- The attributes are the same apart from the numbers of their joins. -/
structure AttrRef.Alike (few many : Joins) (a a' : AttrRef) : Prop where
  source : a.source.Alike few many a'.source
  column : a'.column = a.column

/-- The operands are the same apart from the numbers of their joins. -/
inductive Operand.Alike (few many : Joins) : Operand → Operand → Prop
  | attr {a a' : AttrRef} (h : a.Alike few many a') : Alike few many (.attr a) (.attr a')
  | aggregate (f : Aggregate) {a a' : AttrRef} (h : a.Alike few many a') :
      Alike few many (.aggregate f a) (.aggregate f a')
  | literal (v : Value) : Alike few many (.literal v) (.literal v)
  | list (vs : List Value) : Alike few many (.list vs) (.list vs)
  | none : Alike few many .none .none

/-- The comparisons are the same apart from the numbers of their joins. -/
structure Comparison.Alike (few many : Joins) (c c' : Comparison) : Prop where
  left : c.left.Alike few many c'.left
  right : c.right.Alike few many c'.right
  operator : c'.operator = c.operator
  negate : c'.negate = c.negate
  nullSafe : c'.nullSafe = c.nullSafe

/-- The predicates are the same apart from the numbers of their joins. -/
inductive Predicate.Alike (few many : Joins) : Predicate → Predicate → Prop
  | and {p q p' q' : Predicate} (left : Alike few many p p') (right : Alike few many q q') :
      Alike few many (.and p q) (.and p' q')
  | or {p q p' q' : Predicate} (left : Alike few many p p') (right : Alike few many q q') :
      Alike few many (.or p q) (.or p' q')
  | not {p p' : Predicate} (inner : Alike few many p p') : Alike few many (.not p) (.not p')
  | leaf {c c' : Comparison} (h : c.Alike few many c') : Alike few many (.leaf c) (.leaf c')

section

variable (grown : few <+: few') (grown' : many <+: many')

include grown grown'

theorem AttrRef.Alike.mono {a a' : AttrRef} (h : a.Alike few many a') : a.Alike few' many' a' :=
  ⟨h.source.mono grown grown', h.column⟩

theorem Operand.Alike.mono {o o' : Operand} (h : o.Alike few many o') :
    o.Alike few' many' o' := by
  cases h with
  | attr h => exact .attr (h.mono grown grown')
  | aggregate f h => exact .aggregate f (h.mono grown grown')
  | literal v => exact .literal v
  | list vs => exact .list vs
  | none => exact .none

theorem Comparison.Alike.mono {c c' : Comparison} (h : c.Alike few many c') :
    c.Alike few' many' c' :=
  ⟨h.left.mono grown grown', h.right.mono grown grown', h.operator, h.negate, h.nullSafe⟩

theorem Predicate.Alike.mono {p p' : Predicate} (h : Predicate.Alike few many p p') :
    Predicate.Alike few' many' p p' := by
  induction h with
  | and _ _ ihl ihr => exact .and ihl ihr
  | or _ _ ihl ihr => exact .or ihl ihr
  | not _ ih => exact .not ih
  | leaf h => exact .leaf (h.mono grown grown')

end

theorem Operand.Alike.symm {o o' : Operand} (h : o.Alike few many o') :
    o'.Alike many few o := by
  cases h with
  | attr h => exact .attr ⟨h.source.symm, h.column.symm⟩
  | aggregate f h => exact .aggregate f ⟨h.source.symm, h.column.symm⟩
  | literal v => exact .literal v
  | list vs => exact .list vs
  | none => exact .none

theorem Predicate.Alike.symm {p p' : Predicate} (h : Predicate.Alike few many p p') :
    Predicate.Alike many few p' p := by
  induction h with
  | and _ _ ihl ihr => exact .and ihl ihr
  | or _ _ ihl ihr => exact .or ihl ihr
  | not _ ih => exact .not ih
  | leaf h =>
    exact .leaf ⟨h.left.symm, h.right.symm, h.operator.symm, h.negate.symm, h.nullSafe.symm⟩

theorem Operand.Alike.isSome_attr? {o o' : Operand} (h : o.Alike few many o') :
    o'.attr?.isSome = o.attr?.isSome := by
  cases h <;> rfl

/-! ## Counterparts -/

namespace Resolving

variable {α β γ δ : Type}

/-- Where the one computation gives a value the other does too, going on from the many joins, and
the values are related. -/
def Matches (s : Schema) (root : Entity) (Q : Joins → Joins → α → β → Prop) (few many : Joins)
    (x : Resolving α) (y : Resolving β) : Prop :=
  ∀ a few', x few = (.ok a, few') → ∃ b many', y many = (.ok b, many') ∧
    Joins.Beside s root few' many' ∧ Joins.Grown few few' many many' ∧ Q few' many' a b

variable {Q : Joins → Joins → α → β → Prop} {R : Joins → Joins → γ → δ → Prop} {x : Resolving α}
  {y : Resolving β}

theorem Matches.bind {f : α → Resolving γ} {g : β → Resolving δ}
    (first : Matches s root Q few many x y)
    (next : ∀ few' many' a b, Joins.Grown few few' many many' → Joins.Beside s root few' many' →
      Q few' many' a b → Matches s root R few' many' (f a) (g b)) :
    Matches s root R few many (x >>= f) (y >>= g) := by
  intro c few₂ h
  obtain ⟨a, few₁, hx, h⟩ := bind_eq_ok.mp h
  obtain ⟨b, many₁, hy, beside₁, grown₁, related⟩ := first a few₁ hx
  obtain ⟨d, many₂, hg, beside₂, grown₂, related⟩ :=
    next few₁ many₁ a b grown₁ beside₁ related c few₂ h
  exact ⟨d, many₂, bind_eq_ok.mpr ⟨b, many₁, hy, hg⟩, beside₂, grown₁.trans grown₂, related⟩

theorem matches_pure {a : α} {b : β} (beside : Joins.Beside s root few many)
    (h : Q few many a b) : Matches s root Q few many (pure a) (pure b) := by
  intro a' few' hx
  obtain ⟨rfl, rfl⟩ := pure_eq_ok.mp hx
  exact ⟨b, many, rfl, beside, .refl few many, h⟩

theorem matches_of_unchanged {x : Resolving α}
    (same : ∀ joins joins' joins₁ a, x joins = (.ok a, joins') →
      joins' = joins ∧ x joins₁ = (.ok a, joins₁)) (beside : Joins.Beside s root few many) :
    Matches s root (fun _ _ a b => a = b) few many x x := by
  intro a few' hx
  obtain ⟨rfl, hy⟩ := same few few' many a hx
  exact ⟨a, many, hy, beside, .refl few' many, rfl⟩

theorem matches_lift {x : Except Error α} (beside : Joins.Beside s root few many) :
    Matches s root (fun _ _ a b => a = b) few many (liftM x) (liftM x) := by
  refine matches_of_unchanged (fun joins joins' joins₁ a h => ?_) beside
  obtain ⟨rfl, rfl⟩ := lift_eq_ok.mp h
  exact ⟨rfl, lift_eq_ok.mpr ⟨rfl, rfl⟩⟩

theorem matches_mapM_lift {f : α → Except Error β} {l : List α}
    (beside : Joins.Beside s root few many) :
    Matches s root (fun _ _ a b => a = b) few many
      (l.mapM (fun a => liftM (f a)) : Resolving (List β)) (l.mapM fun a => liftM (f a)) := by
  refine matches_of_unchanged (fun joins joins' joins₁ a h => ?_) beside
  obtain ⟨made, rfl⟩ := mapM_lift_eq_ok.mp h
  exact ⟨rfl, mapM_lift_eq_ok.mpr ⟨made, rfl⟩⟩

theorem matches_throw {e : Error} : Matches s root Q few many (throw e) y :=
  fun _ _ h => absurd h throw_ne_ok

theorem matches_guard {c : Prop} [Decidable c] {e : Error} {next : PUnit → Resolving α}
    {next' : PUnit → Resolving β} (h : Matches s root Q few many (next ⟨⟩) (next' ⟨⟩)) :
    Matches s root Q few many (if c then throw e >>= next else next ⟨⟩)
      (if c then throw e >>= next' else next' ⟨⟩) := by
  intro a few' hx
  obtain ⟨hc, hx⟩ := guard_eq_ok.mp hx
  obtain ⟨b, many', hy, rest⟩ := h a few' hx
  exact ⟨b, many', guard_eq_ok.mpr ⟨hc, hy⟩, rest⟩

end Resolving

/-! ## Paths -/

namespace Joins

theorem mem_enter {source : Source} {step : Step} {joins : Joins} {j : JoinNode}
    (h : j ∈ (enter source joins step).2) : j ∈ joins ∨ j.path = step.path := by
  unfold enter at h
  split at h
  · exact .inl h
  · rcases List.mem_append.mp h with h | h
    · exact .inl h
    · exact .inr (List.mem_singleton.mp h ▸ rfl)

theorem mem_enterAll {steps : List Step} {source : Source} {joins : Joins} {j : JoinNode}
    (h : j ∈ (enterAll source joins steps).2) : j ∈ joins ∨ j.path ∈ steps.map (·.path) := by
  induction steps generalizing source joins with
  | nil => exact .inl h
  | cons step rest ih =>
    rcases ih h with h | h
    · rcases mem_enter h with h | h
      · exact .inl h
      · exact .inr (h ▸ List.mem_cons_self)
    · exact .inr (List.mem_cons_of_mem _ h)

end Joins

/-- Only the steps of a path are entered. -/
theorem Schema.mem_resolve {path : String} {r : ResolvedPath} {joins joins' : Joins}
    (hroot : s.entity name = .ok root) (h : s.resolve name path joins = (.ok r, joins'))
    {j : JoinNode} (hj : j ∈ joins') :
    j ∈ joins ∨ j.path ∈ (s.route path root "" (Path.segments path)).1.map (·.path) := by
  obtain ⟨steps, d, route, _, _, rfl⟩ := route_of_resolve hroot h
  rw [route]
  exact Joins.mem_enterAll hj

/-- Whether a path can be resolved does not depend on the joins. -/
theorem Schema.resolve_elsewhere {path : String} {r : ResolvedPath} {joins joins' : Joins}
    (hroot : s.entity name = .ok root) (h : s.resolve name path joins = (.ok r, joins'))
    (joins₁ : Joins) : ∃ r₁ joins₁', s.resolve name path joins₁ = (.ok r₁, joins₁') := by
  rw [resolve_eq hroot] at h ⊢
  obtain ⟨d, hd, _⟩ := map_eq_ok.mp (Prod.mk.inj h).1
  rw [hd]
  exact ⟨_, _, rfl⟩

namespace Expression

open Resolving

variable (hroot : s.entity name = .ok root) (beside : Joins.Beside s root few many)

include hroot beside

theorem matches_resolve (path : String) :
    Matches s root (fun few many r r' => r.attr.Alike few many r'.attr ∧ r'.type = r.type ∧
      r'.identifier = r.identifier) few many (s.resolve name path) (s.resolve name path) := by
  intro r few' h
  obtain ⟨r', many', h'⟩ := Schema.resolve_elsewhere hroot h many
  obtain ⟨sound, grown, _⟩ := Schema.resolve_sound hroot beside.soundFew h
  obtain ⟨sound', grown', _⟩ := Schema.resolve_sound hroot beside.soundMany h'
  obtain ⟨steps, d, way, route, hr, leads, hway⟩ := Schema.resolve_way hroot beside.soundFew h
  obtain ⟨steps', d', way', route', hr', leads', hway'⟩ :=
    Schema.resolve_way hroot beside.soundMany h'
  obtain ⟨rfl, hd⟩ := Prod.mk.inj (route.symm.trans route')
  cases hd
  have alike : r.attr.source.Alike few' many' r'.attr.source :=
    leads.alike leads' (hway.trans hway'.symm) trivial
  refine ⟨r', many', h', ⟨sound, sound'⟩, ⟨grown, grown', fun k hk => ?_, fun j hj => ?_⟩, ?_⟩
  · refine (Schema.mem_resolve hroot h' hk).imp_right fun hk => ?_
    rw [route, ← hway, List.map_map] at hk
    obtain ⟨j, hj, path⟩ := List.mem_map.mp hk
    exact ⟨j, List.mem_of_getElem? (leads.mem j hj), path⟩
  · refine (Schema.mem_resolve hroot h hj).imp_right fun hj => ?_
    rw [route, ← hway', List.map_map] at hj
    obtain ⟨k, hk, path⟩ := List.mem_map.mp hj
    exact ⟨k, List.mem_of_getElem? (leads'.mem k hk), path⟩
  · rw [hr, hr']
    exact ⟨⟨alike, rfl⟩, rfl, rfl⟩

theorem matches_operand (path : String) (function : Option Aggregate) :
    Matches s root (fun few many o o' => o.1.Alike few many o'.1 ∧ o'.2 = o.2) few many
      (operand s name path function) (operand s name path function) := by
  refine (matches_resolve hroot beside path).bind ?_
  rintro few' many' r r' - beside ⟨alike, type, identifier⟩
  cases function with
  | none => exact matches_pure beside ⟨.attr alike, type⟩
  | some f =>
    rw [type, identifier]
    refine (matches_lift beside).bind ?_
    rintro few'' many'' t _ grown beside rfl
    exact matches_pure beside ⟨.aggregate _ (alike.mono grown.fewGrown grown.manyGrown), rfl⟩

theorem matches_rightOperand (type : ScalarType) (e : Expression) :
    Matches s root (fun few many o o' => o.1.Alike few many o'.1 ∧ o'.2 = o.2) few many
      (rightOperand s name type e) (rightOperand s name type e) := by
  generalize hx : rightOperand s name type e = x
  unfold rightOperand at hx
  split at hx <;> subst hx
  -- What stands on the right is the same value, list or error, unless it is a path.
  case h_1 | h_4 | h_7 =>
    refine (matches_lift beside).bind ?_
    rintro few' many' v _ - beside rfl
    exact matches_pure beside ⟨by constructor, rfl⟩
  case h_3 =>
    refine (matches_mapM_lift beside).bind ?_
    rintro few' many' v _ - beside rfl
    exact matches_pure beside ⟨.list v, rfl⟩
  case h_2 | h_5 | h_6 => exact matches_throw
  case h_8 path function _ _ _ =>
    refine (matches_operand hroot beside path function).bind ?_
    rintro few' many' ⟨o, t⟩ ⟨o', _⟩ - beside ⟨alike, rfl⟩
    exact matches_guard (matches_guard (matches_pure beside ⟨alike, rfl⟩))

/-- An expression is compiled to the same comparison, apart from the numbers of its joins. -/
theorem matches_compile (nullSafe : Bool) (e : Expression) :
    Matches s root (fun few many c c' => c.Alike few many c') few many
      (compile s name nullSafe e) (compile s name nullSafe e) := by
  refine (matches_operand hroot beside e.attr e.function).bind ?_
  rintro few' many' ⟨left, type⟩ ⟨left', _⟩ - beside ⟨hleft, rfl⟩
  refine matches_guard ((matches_rightOperand hroot beside _ e).bind ?_)
  rintro few'' many'' ⟨right, negate⟩ ⟨right', _⟩ grown beside ⟨hright, rfl⟩
  refine matches_pure beside ⟨hleft.mono grown.fewGrown grown.manyGrown, hright, rfl, rfl, ?_⟩
  simp only [hleft.isSome_attr?, hright.isSome_attr?]

end Expression

/-! ## Filters -/

section

open Resolving

theorem Schema.matches_compileWord (hroot : s.entity name = .ok root)
    (beside : Joins.Beside s root few many) (nullSafe : Bool) (w : Word) :
    Matches s root (fun few many c c' => c.Alike few many c') few many
      (s.compileWord name nullSafe w) (s.compileWord name nullSafe w) := by
  refine (matches_lift beside).bind ?_
  rintro few' many' e _ - beside rfl
  exact Expression.matches_compile hroot beside nullSafe e

/-- The comparisons of a formula of words become the same, apart from the numbers of their joins. -/
theorem Schema.matches_compileWords (hroot : s.entity name = .ok root) (nullSafe : Bool)
    (t : Formula Word) (beside : Joins.Beside s root few many) :
    Matches s root (fun few many p p' => Predicate.Alike few many p p') few many
      (t.mapM (s.compileWord name nullSafe)) (t.mapM (s.compileWord name nullSafe)) := by
  induction t generalizing few many with
  | leaf w =>
    refine (matches_compileWord hroot beside nullSafe w).bind ?_
    exact fun _ _ _ _ _ beside alike => matches_pure beside (.leaf alike)
  | not t ih =>
    exact (ih beside).bind fun _ _ _ _ _ beside alike => matches_pure beside (.not alike)
  | and t u iht ihu =>
    refine (iht beside).bind fun _ _ _ _ _ beside left => ?_
    refine (ihu beside).bind fun _ _ _ _ grown beside right => ?_
    exact matches_pure beside (.and (left.mono grown.fewGrown grown.manyGrown) right)
  | or t u iht ihu =>
    refine (iht beside).bind fun _ _ _ _ _ beside left => ?_
    refine (ihu beside).bind fun _ _ _ _ grown beside right => ?_
    exact matches_pure beside (.or (left.mono grown.fewGrown grown.manyGrown) right)

end

/-- Two closed filters between parentheses with `or` between them are compiled to the disjunction of
what they are compiled to by themselves, among joins that each of them has in common. -/
theorem Schema.compileFilter_or {nullSafe : Bool} {left right : String} {f g : CompiledFilter}
    {p q : Predicate} (hf : s.compileFilter nullSafe left name = .ok f)
    (hg : s.compileFilter nullSafe right name = .ok g) (hp : f.predicate = some p)
    (hq : g.predicate = some q) (closedLeft : IsClosed left) (closedRight : IsClosed right) :
    ∃ root joins p' q', s.entity name = .ok root ∧
      s.compileFilter nullSafe ("(" ++ left ++ ") or (" ++ right ++ ")") name =
        .ok (.ofPredicate (some (.or p' q')) joins) ∧
      Joins.Within s root f.joins joins ∧ Joins.Within s root g.joins joins ∧
      (∀ j ∈ joins, j ∈ f.joins ∨ ∃ k ∈ g.joins, k.path = j.path) ∧
      Predicate.Alike f.joins joins p p' ∧ Predicate.Alike g.joins joins q q' := by
  obtain ⟨root, ts, _, joinsF, hroot, scanF, runF, rfl⟩ := compileFilter_eq_ok_iff.mp hf
  obtain ⟨root', us, _, joinsG, hroot', scanG, runG, rfl⟩ := compileFilter_eq_ok_iff.mp hg
  cases hroot.symm.trans hroot'
  cases hp
  cases hq
  obtain ⟨_ | t, wordsF, madeF⟩ := Formula.ofTokens_eq_ok_iff.mp runF
  · cases (Resolving.pure_eq_ok.mp madeF).1
  obtain ⟨_ | u, wordsG, madeG⟩ := Formula.ofTokens_eq_ok_iff.mp runG
  · cases (Resolving.pure_eq_ok.mp madeG).1
  obtain ⟨p₀, joins₀, madeF, h⟩ := Resolving.bind_eq_ok.mp madeF
  cases h
  obtain ⟨q₀, joins₀, madeG, h⟩ := Resolving.bind_eq_ok.mp madeG
  cases h
  have empty : Joins.Beside s root [] [] := ⟨Joins.sound_nil, Joins.sound_nil⟩
  obtain ⟨p', joins', madeF', besideF, _, alikeF⟩ :=
    matches_compileWords hroot nullSafe t empty p joinsF madeF
  cases madeF.symm.trans madeF'
  -- The filter on the right goes on from the joins of the filter on the left.
  have after : Joins.Beside s root [] joinsF := ⟨Joins.sound_nil, besideF.soundMany⟩
  obtain ⟨q', joins, madeG', besideG, grown, alikeG⟩ :=
    matches_compileWords hroot nullSafe u after q joinsG madeG
  have withinG : Joins.Within s root joinsG joins := grown.within besideG
  have withinF : Joins.Within s root joinsF joins :=
    ⟨besideF.soundFew, besideG.soundMany, fun j hj => ⟨j, grown.manyGrown.subset hj, rfl⟩⟩
  obtain ⟨first, last, scanned⟩ := Scanner.scan_or scanF scanG closedLeft closedRight
  have words := Formula.ofWords_or wordsF wordsG 0 1 first (first + 2) (first + 5) (first + 6) last
  have made : (Formula.or t u).mapM (s.compileWord name nullSafe) [] = (.ok (.or p q'), joins) :=
    Resolving.bind_eq_ok.mpr ⟨p, joinsF, madeF, Resolving.bind_eq_ok.mpr ⟨q', joins, madeG', rfl⟩⟩
  refine ⟨root, joins, p, q', hroot, ?_, withinF, withinG, grown.added, ?_, alikeG⟩
  · exact compileFilter_of_words hroot scanned words made
  · exact alikeF.mono (List.prefix_refl _) grown.manyGrown

end EntityQuery
