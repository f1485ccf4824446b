import EntityQuery.Proofs.Dataset.Gluing
import EntityQuery.Proofs.Dataset.Union
import EntityQuery.Proofs.Filter.Conjunction

/-!
# The order of terms that are joined by `and`

Terms with `and` between them can be compiled in any order. What they select is decided by what each
of them selects and by one thing more: the terms that stand before the first one that applies a
function are asked of one binding, while each of those after it has all bindings of the record to
choose from (`groupTruth_foldl_and_eq_holds_iff`). So **the order matters as far as it decides which
terms are asked of one binding, and to terms that share a join that leads to several rows only**
(`select_conjunction_perm`); that it does matter there is shown by `select_conjunction_perm_fails`.

If the terms before the first function keep a record one by one, they do so at bindings that can be
put together into one, unless two of them contradict each other at a shared join that leads to
several rows (`Chosen.row_eq`, `exists_common`). From this it is read off what terms that are joined
keep (`Joined.keeps_iff`), and that in another order they keep the same (`Joined.keeps_of_perm`).
-/

namespace EntityQuery

theorem Truth.and_eq_holds_iff {t u : Truth} : t.and u = holds ↔ t = holds ∧ u = holds := by
  cases t <;> cases u <;> simp [Truth.and]

theorem forall₂_takeWhile {α β : Type} {R : α → β → Prop} {f : α → Bool} {g : β → Bool}
    (same : ∀ a b, R a b → f a = g b) {l : List α} {r : List β} (h : List.Forall₂ R l r) :
    List.Forall₂ R (l.takeWhile f) (r.takeWhile g) := by
  induction h with
  | nil => exact .nil
  | @cons a b l r hab _ ih =>
    rw [List.takeWhile_cons, List.takeWhile_cons, same a b hab]
    cases g b with
    | false => exact .nil
    | true => exact .cons hab ih

namespace Predicate

/-- The predicates that stand before the first that applies a function. -/
def leading (ps : List Predicate) : List Predicate := ps.takeWhile (!·.isAggregate)

theorem isAggregate_and (p q : Predicate) :
    isAggregate (.and p q) = (p.isAggregate || q.isAggregate) := rfl

theorem countsDistinct_foldl_and_iff {p : Predicate} {ps : List Predicate} :
    CountsDistinct (ps.foldl .and p) ↔ ∀ p' ∈ p :: ps, CountsDistinct p' := by
  induction ps generalizing p with
  | nil => exact List.forall_mem_singleton.symm
  | cons q ps ih =>
    rw [List.foldl_cons, ih, List.forall_mem_cons, countsDistinct_and_iff, List.forall_mem_cons,
      List.forall_mem_cons, and_assoc]

end Predicate

namespace Evaluator

variable {root : Record} {group : List Binding} {p q : Predicate}

/-! ## Predicates that hold together -/

theorem groupTruth_eq_holds_iff_of_rows (h : p.isAggregate = false) :
    groupTruth root group p = .holds ↔ ∃ b ∈ group, rowTruth root b p = .holds := by
  rw [groupTruth_of_rows h, Truth.any_eq_holds_iff, List.mem_map]

theorem groupTruth_and_eq_holds_iff (h : Predicate.isAggregate (.and p q) = true) :
    groupTruth root group (.and p q) = .holds ↔
      groupTruth root group p = .holds ∧ groupTruth root group q = .holds := by
  rw [groupTruth, if_pos h, Truth.and_eq_holds_iff]

/-- Predicates that are joined hold of a group if each of them does, and those before the first that
applies a function hold at one of its bindings together. -/
theorem groupTruth_foldl_and_eq_holds_iff (some_ : group ≠ []) {ps : List Predicate} :
    groupTruth root group (ps.foldl .and p) = .holds ↔
      (∃ b ∈ group, ∀ p' ∈ Predicate.leading (p :: ps), rowTruth root b p' = .holds) ∧
        ∀ p' ∈ p :: ps, groupTruth root group p' = .holds := by
  have anywhere : ∃ b ∈ group, ∀ p' ∈ ([] : List Predicate), rowTruth root b p' = .holds := by
    obtain ⟨b, hb⟩ := List.exists_mem_of_ne_nil group some_
    exact ⟨b, hb, List.forall_mem_nil _⟩
  have cut {p : Predicate} (ps : List Predicate) (h : p.isAggregate = true) :
      Predicate.leading (p :: ps) = [] := by
    rw [Predicate.leading, List.takeWhile_cons, h]
    rfl
  have go {p : Predicate} (ps : List Predicate) (h : p.isAggregate = false) :
      Predicate.leading (p :: ps) = p :: Predicate.leading ps := by
    rw [Predicate.leading, List.takeWhile_cons, h]
    rfl
  induction ps generalizing p with
  | nil =>
    rw [List.foldl_nil, List.forall_mem_singleton]
    cases hp : p.isAggregate with
    | true =>
      rw [cut [] hp]
      exact (and_iff_right anywhere).symm
    | false =>
      rw [go [] hp, groupTruth_eq_holds_iff_of_rows hp]
      simp [Predicate.leading]
  | cons q ps ih =>
    refine Iff.trans ih ?_
    rw [List.forall_mem_cons, List.forall_mem_cons, List.forall_mem_cons]
    cases aggregate : Predicate.isAggregate (.and p q) with
    | true =>
      rw [cut ps aggregate, groupTruth_and_eq_holds_iff aggregate, and_iff_right anywhere]
      cases hp : p.isAggregate with
      | true => rw [cut (q :: ps) hp, and_iff_right anywhere, and_assoc]
      | false =>
        have hq : q.isAggregate = true := by simpa [Predicate.isAggregate_and, hp] using aggregate
        rw [go (q :: ps) hp, cut ps hq, groupTruth_eq_holds_iff_of_rows hp]
        simp only [List.forall_mem_singleton, and_assoc, and_self_left]
    | false =>
      obtain ⟨hp, hq⟩ : p.isAggregate = false ∧ q.isAggregate = false := by
        simpa [Predicate.isAggregate_and] using aggregate
      rw [go ps aggregate, go (q :: ps) hp, go ps hq, groupTruth_eq_holds_iff_of_rows aggregate,
        groupTruth_eq_holds_iff_of_rows hp, groupTruth_eq_holds_iff_of_rows hq]
      simp only [List.forall_mem_cons, rowTruth, Truth.and_eq_holds_iff]
      constructor
      · rintro ⟨⟨b, hb, ⟨atP, atQ⟩, rest⟩, _, others⟩
        exact ⟨⟨b, hb, atP, atQ, rest⟩, ⟨b, hb, atP⟩, ⟨b, hb, atQ⟩, others⟩
      · rintro ⟨⟨b, hb, atP, atQ, rest⟩, _, _, others⟩
        exact ⟨⟨b, hb, ⟨atP, atQ⟩, rest⟩, ⟨b, hb, atP, atQ⟩, others⟩

theorem keeps_iff_of_rows {name : String} {joins : Joins} (h : p.isAggregate = false)
    (ev : Evaluator) (root : Record) :
    ev.keeps (.ofFilter name (.ofPredicate (some p) joins)) root = true ↔
      ∃ b ∈ ev.expand root, rowTruth root b p = .holds := by
  simp [keeps, Selection.ofFilter, CompiledFilter.ofPredicate, h]

end Evaluator

/-! ## Terms -/

namespace Schema

variable (s : Schema) (name : String) (nullSafe : Bool)

/-- Whether the filter applies functions. -/
def aggregates (text : String) : Bool :=
  match s.compileFilter nullSafe text name with
  | .ok f => f.aggregate
  | .error _ => false

/-- The terms that stand before the first that applies a function. -/
def leading (terms : List String) : List String :=
  terms.takeWhile (!s.aggregates name nullSafe ·)

/-- The two filters follow joins of the same path that lead to several rows from some record. -/
def ShareMany (d : Dataset) (t u : String) : Prop :=
  ∃ f g, s.compileFilter nullSafe t name = .ok f ∧ s.compileFilter nullSafe u name = .ok g ∧
    ∃ j ∈ f.joins, ∃ k ∈ g.joins, j.path = k.path ∧
      ∃ parent, 1 < (d.along s j.step parent).length

/-- The filter by itself keeps the record. -/
def Keeps (d : Dataset) (r : Record) (t : String) : Prop :=
  ∃ f ev, s.compileFilter nullSafe t name = .ok f ∧
    Evaluator.of d s (.ofFilter name f) = .ok ev ∧ ev.keeps (.ofFilter name f) r = true

end Schema

namespace Evaluator

variable {d : Dataset} {s : Schema} {nullSafe : Bool} {name : String} {root : Entity} {r : Record}
  {joins : Joins} {ts : List String} {ps : List Predicate}

/-- The terms before the first that applies a function have become the predicates before the first
that does. -/
theorem forall₂_leading (conj : s.Conjoins name nullSafe root [] ts ps joins) :
    List.Forall₂ (s.Becomes name nullSafe root joins) (s.leading name nullSafe ts)
      (Predicate.leading ps) := by
  refine forall₂_takeWhile (fun t p h => ?_) conj.become
  obtain ⟨q, own, compiled, _, alike⟩ := h
  rw [Schema.aggregates, compiled, alike.isAggregate]
  rfl

/-- Joins that are among others can be followed if these can. -/
theorem followable_of_within {few many : Joins} (within : Joins.Within s root few many)
    (follow : ∀ k ∈ many, k.Followable s) : ∀ j ∈ few, j.Followable s := by
  intro j hj
  obtain ⟨k, hk, path⟩ := within.covered j hj
  exact (follow k hk).of_step
    (step_eq_of_path within.soundMany within.soundFew hk hj path.symm)

theorem exists_evaluator (hroot : s.entity name = .ok root)
    (follow : ∀ j ∈ joins, j.Followable s) {t : String} {q : Predicate} {own : Joins}
    (compiled : s.compileFilter nullSafe t name = .ok (.ofPredicate (some q) own))
    (within : Joins.Within s root own joins) :
    ∃ ev, Evaluator.of d s (.ofFilter name (.ofPredicate (some q) own)) = .ok ev := by
  obtain ⟨_, hroot', compiledT⟩ := Schema.compileFilter_compiled compiled
  cases hroot.symm.trans hroot'
  obtain ⟨ev, hev, _⟩ :=
    Dataset.exists_select_eq (d := d) hroot compiledT (followable_of_within within follow)
  exact ⟨ev, hev⟩

section

variable {ev : Evaluator} {sel : Selection} (hev : Evaluator.of d s sel = .ok ev)
  (hsel : sel.joins = joins) (hroot : s.entity name = .ok root)
  (follow : ∀ j ∈ joins, j.Followable s)

include hev hsel hroot follow

/-- Over all bindings of a record a term has the truth that it has by itself. -/
theorem groupTruth_iff_keeps {t : String} {p : Predicate}
    (becomes : s.Becomes name nullSafe root joins t p) (counts : p.CountsDistinct) :
    groupTruth r (ev.expand r) p = .holds ↔ s.Keeps name nullSafe d r t := by
  obtain ⟨q, own, compiled, within, alike⟩ := becomes
  obtain ⟨evo, hevo⟩ := exists_evaluator (d := d) hroot follow compiled within
  have countsOwn : q.CountsDistinct := alike.symm.countsDistinct counts
  have same : groupTruth r (evo.expand r) q = groupTruth r (ev.expand r) p :=
    groupTruth_of_agree (fun b => exists_agree_many within hevo hev rfl hsel)
      (fun c => exists_agree_few within hevo hev rfl hsel) alike countsOwn
  have keepsOwn : evo.keeps (.ofFilter name (.ofPredicate (some q) own)) r = true ↔
      groupTruth r (evo.expand r) q = .holds := keeps_iff countsOwn evo r
  rw [← same, ← keepsOwn]
  constructor
  · exact fun kept => ⟨_, evo, compiled, hevo, kept⟩
  · rintro ⟨f, ev', compiled', hev', kept⟩
    cases compiled.symm.trans compiled'
    cases hevo.symm.trans hev'
    exact kept

/-- The truth of a term is decided by the rows of its own joins. -/
theorem rowTruth_eq_of_rows {t : String} {p q : Predicate} {own : Joins}
    (compiled : s.compileFilter nullSafe t name = .ok (.ofPredicate (some q) own))
    (within : Joins.Within s root own joins) (alike : Predicate.Alike own joins q p)
    {b c : Binding} (hb : b ∈ ev.expand r)
    (same : ∀ k ∈ joins, Joins.on own k = true →
      row r c (.join k.id) = row r b (.join k.id)) : rowTruth r c p = rowTruth r b p := by
  obtain ⟨evo, hevo⟩ := exists_evaluator (d := d) hroot follow compiled within
  obtain ⟨a, _, agree⟩ := exists_agree_few within hevo hev rfl hsel hb
  rw [← rowTruth_of_agree agree alike, ← rowTruth_of_agree (agree.of_rows within same) alike]

end

/-- The term, whose own joins are `own`, holds at the binding `c`, which is the binding `b` if the
term is an early one. -/
structure Chosen (s : Schema) (name : String) (nullSafe : Bool) (root : Entity) (joins : Joins)
    (bindings : List Binding) (r : Record) (early : String → Prop) (b : Binding) (t : String)
    (own : Joins) (c : Binding) : Prop where
  compiled : ∃ q, s.compileFilter nullSafe t name = .ok (.ofPredicate (some q) own)
  within : Joins.Within s root own joins
  there : c ∈ bindings
  holds : ∀ p, s.Becomes name nullSafe root joins t p → rowTruth r c p = .holds
  first : early t → c = b

section

variable {ev : Evaluator} {sel : Selection} (hev : Evaluator.of d s sel = .ok ev)
  (hsel : sel.joins = joins) {early : String → Prop} {b : Binding}

include hev hsel

/-- A term without functions that keeps a record holds at some binding. -/
theorem exists_holds {t : String} (plain : s.aggregates name nullSafe t = false)
    (kept : s.Keeps name nullSafe d r t) {q : Predicate} {own : Joins}
    (compiled : s.compileFilter nullSafe t name = .ok (.ofPredicate (some q) own))
    (within : Joins.Within s root own joins) :
    ∃ c ∈ ev.expand r, ∀ p, Predicate.Alike own joins q p → rowTruth r c p = .holds := by
  obtain ⟨f, evo, compiled', hevo, kept⟩ := kept
  cases compiled.symm.trans compiled'
  rw [Schema.aggregates, compiled] at plain
  obtain ⟨a, ha, holds⟩ := (keeps_iff_of_rows plain evo r).mp kept
  obtain ⟨c, hc, agree⟩ := exists_agree_many within hevo hev rfl hsel ha
  exact ⟨c, hc, fun p alike => (rowTruth_of_agree agree alike).symm.trans holds⟩

theorem exists_chosen (hb : b ∈ ev.expand r) {t : String} {p : Predicate}
    (becomes : s.Becomes name nullSafe root joins t p)
    (plain : s.aggregates name nullSafe t = false) (kept : s.Keeps name nullSafe d r t)
    (held : early t → ∀ p, s.Becomes name nullSafe root joins t p → rowTruth r b p = .holds) :
    ∃ own c, Chosen s name nullSafe root joins (ev.expand r) r early b t own c := by
  obtain ⟨q, own, compiled, within, _⟩ := becomes
  by_cases h : early t
  · exact ⟨own, b, ⟨q, compiled⟩, within, hb, held h, fun _ => rfl⟩
  · obtain ⟨c, hc, holds⟩ := exists_holds hev hsel plain kept compiled within
    refine ⟨own, c, ⟨q, compiled⟩, within, hc, fun p becomes => ?_, fun early => absurd early h⟩
    obtain ⟨_, _, compiled', _, alike⟩ := becomes
    cases compiled.symm.trans compiled'
    exact holds p alike

/-- The bindings of two terms do not contradict each other if the terms share no join that leads to
several rows, or else are both early ones. -/
theorem Chosen.row_eq {t u : String} {own own' : Joins} {c c' : Binding}
    (h : Chosen s name nullSafe root joins (ev.expand r) r early b t own c)
    (h' : Chosen s name nullSafe root joins (ev.expand r) r early b u own' c')
    (apart : s.ShareMany name nullSafe d t u → early t ∧ early u) {k : JoinNode} (hk : k ∈ joins)
    (on : Joins.on own k = true) (on' : Joins.on own' k = true) :
    row r c (.join k.id) = row r c' (.join k.id) := by
  by_cases shared : s.ShareMany name nullSafe d t u
  · obtain ⟨earlyT, earlyU⟩ := apart shared
    rw [h.first earlyT, h'.first earlyU]
  · have parents := (keepsParents_few h.within).and (keepsParents_few h'.within)
    refine row_eq_of_single h.within.soundMany hev hsel parents (fun i hi on parent => ?_) h.there
      h'.there hk (Bool.and_eq_true_iff.mpr ⟨on, on'⟩)
    obtain ⟨on, on'⟩ := Bool.and_eq_true_iff.mp on
    obtain ⟨j, hj, path⟩ := List.mem_map.mp (of_decide_eq_true on)
    obtain ⟨j', hj', path'⟩ := List.mem_map.mp (of_decide_eq_true on')
    obtain ⟨_, compiled⟩ := h.compiled
    obtain ⟨_, compiled'⟩ := h'.compiled
    rw [step_eq_of_path h.within.soundFew h.within.soundMany hj hi path.symm]
    refine Nat.not_lt.mp fun several => shared ?_
    exact ⟨_, _, compiled, compiled', j, hj, j', hj', path.trans path'.symm, parent, several⟩

/-- Terms without functions that keep a record hold at one binding together, if those that share a
join which leads to several rows are known to hold at the binding `b`. -/
theorem exists_common (hroot : s.entity name = .ok root) (follow : ∀ j ∈ joins, j.Followable s)
    (sound : joins.Sound s root) (hb : b ∈ ev.expand r) {l : List String}
    (plain : ∀ t ∈ l, s.aggregates name nullSafe t = false)
    (becomes : ∀ t ∈ l, ∃ p, s.Becomes name nullSafe root joins t p)
    (held : ∀ t ∈ l, early t → ∀ p, s.Becomes name nullSafe root joins t p →
      rowTruth r b p = .holds)
    (kept : ∀ t ∈ l, s.Keeps name nullSafe d r t)
    (apart : ∀ t ∈ l, ∀ u ∈ l, t ≠ u → s.ShareMany name nullSafe d t u → early t ∧ early u) :
    ∃ c ∈ ev.expand r, ∀ t ∈ l, ∀ p, s.Becomes name nullSafe root joins t p →
      rowTruth r c p = .holds := by
  have choice : ∀ t ∈ l, ∃ own c,
      Chosen s name nullSafe root joins (ev.expand r) r early b t own c := by
    intro t ht
    obtain ⟨p, hp⟩ := becomes t ht
    exact exists_chosen hev hsel hb hp (plain t ht) (kept t ht) (held t ht)
  choose! own pick chosen using choice
  have same : ∀ t ∈ l, ∀ u ∈ l, ∀ k ∈ joins, Joins.on (own t) k = true →
      Joins.on (own u) k = true →
      row r (pick t) (.join k.id) = row r (pick u) (.join k.id) := by
    intro t ht u hu k hk onT onU
    by_cases eq : t = u
    · rw [eq]
    · exact (chosen t ht).row_eq hev hsel (chosen u hu) (apart t ht u hu eq) hk onT onU
  obtain ⟨c, hc, rows⟩ := exists_glue sound same hev hsel
    (fun t ht => keepsParents_few (chosen t ht).within) fun t ht => (chosen t ht).there
  refine ⟨c, hc, fun t ht p hp => ?_⟩
  obtain ⟨q, compiled⟩ := (chosen t ht).compiled
  obtain ⟨q', own', compiled', within, alike⟩ := id hp
  have eq : own' = own t := by
    cases compiled'.symm.trans compiled
    rfl
  rw [← (chosen t ht).holds p hp]
  exact rowTruth_eq_of_rows hev hsel hroot follow compiled' within alike (chosen t ht).there
    fun k hk on => rows t ht k hk (eq ▸ on)

end

/-- The terms have been joined by `and`, their joins can be followed, and their functions count
distinct values. -/
structure Joined (d : Dataset) (s : Schema) (name : String) (nullSafe : Bool) (root : Entity)
    (ts : List String) (p : Predicate) (ps : List Predicate) (joins : Joins) (ev : Evaluator) :
    Prop where
  conj : s.Conjoins name nullSafe root [] ts (p :: ps) joins
  counts : Predicate.CountsDistinct (ps.foldl .and p)
  follow : ∀ j ∈ joins, j.Followable s
  evaluated :
    Evaluator.of d s (.ofFilter name (.ofPredicate (some (ps.foldl .and p)) joins)) = .ok ev

section

variable {ev ev' : Evaluator} {joins' : Joins} {us : List String} {p p' : Predicate}
  {ps' : List Predicate}

/-- The functions of terms count distinct values in any order of the terms. -/
theorem countsDistinct_of_perm (conj : s.Conjoins name nullSafe root [] ts (p :: ps) joins)
    (conj' : s.Conjoins name nullSafe root [] us (p' :: ps') joins') (perm : ts.Perm us)
    (counts : Predicate.CountsDistinct (ps.foldl .and p)) :
    Predicate.CountsDistinct (ps'.foldl .and p') := by
  refine Predicate.countsDistinct_foldl_and_iff.mpr fun p₁ hp₁ => ?_
  obtain ⟨t, ht, q, own, compiled, _, alike'⟩ := exists_of_forall₂ conj'.become hp₁
  obtain ⟨p₀, hp₀, _, _, compiled', _, alike⟩ :=
    exists_of_forall₂ conj.become.flip (perm.mem_iff.mpr ht)
  cases compiled.symm.trans compiled'
  have countsEach := Predicate.countsDistinct_foldl_and_iff.mp counts p₀ hp₀
  exact alike'.countsDistinct (alike.symm.countsDistinct countsEach)

/-- Terms that are joined keep a record if each of them does, and those before the first that
applies a function hold at one binding. -/
theorem Joined.keeps_iff (h : Joined d s name nullSafe root ts p ps joins ev)
    (hroot : s.entity name = .ok root) :
    ev.keeps (.ofFilter name (.ofPredicate (some (ps.foldl .and p)) joins)) r = true ↔
      (∃ b ∈ ev.expand r, ∀ p' ∈ Predicate.leading (p :: ps), rowTruth r b p' = .holds) ∧
        ∀ t ∈ ts, s.Keeps name nullSafe d r t := by
  have term {t : String} {p' : Predicate} (hp' : p' ∈ p :: ps)
      (becomes : s.Becomes name nullSafe root joins t p') :
      groupTruth r (ev.expand r) p' = .holds ↔ s.Keeps name nullSafe d r t :=
    groupTruth_iff_keeps h.evaluated rfl hroot h.follow becomes
      (Predicate.countsDistinct_foldl_and_iff.mp h.counts p' hp')
  rw [Evaluator.keeps_iff h.counts, groupTruth_foldl_and_eq_holds_iff (expand_ne_nil ev r)]
  refine and_congr_right fun _ => ⟨fun all t ht => ?_, fun all p' hp' => ?_⟩
  · obtain ⟨p', hp', becomes⟩ := exists_of_forall₂ h.conj.become.flip ht
    exact (term hp' becomes).mp (all p' hp')
  · obtain ⟨t, ht, becomes⟩ := exists_of_forall₂ h.conj.become hp'
    exact (term hp' becomes).mpr (all t ht)

/-- At bindings that agree a term has the same truth, whatever it is joined with. -/
theorem Joined.rowTruth_eq (h : Joined d s name nullSafe root ts p ps joins ev)
    (hroot : s.entity name = .ok root) {b b' : Binding} (hb : b ∈ ev.expand r)
    (agree : Agree r joins joins' b b') {t : String} {p₀ p₁ : Predicate}
    (becomes : s.Becomes name nullSafe root joins t p₀)
    (becomes' : s.Becomes name nullSafe root joins' t p₁) :
    rowTruth r b' p₁ = rowTruth r b p₀ := by
  obtain ⟨q, own, compiled, within, alike⟩ := becomes
  obtain ⟨_, _, compiled', _, alike'⟩ := becomes'
  cases compiled.symm.trans compiled'
  obtain ⟨evo, hevo⟩ := exists_evaluator (d := d) hroot h.follow compiled within
  obtain ⟨a, _, first⟩ := exists_agree_few within hevo h.evaluated rfl rfl hb
  rw [← rowTruth_of_agree (first.trans agree within) alike', rowTruth_of_agree first alike]

/-- Terms in another order keep the records that they keep in the one, if those that come before the
first that applies a function, and share a join which leads to several rows, do so in both orders.
-/
theorem Joined.keeps_of_perm (h : Joined d s name nullSafe root ts p ps joins ev)
    (h' : Joined d s name nullSafe root us p' ps' joins' ev') (hroot : s.entity name = .ok root)
    (perm : ts.Perm us)
    (apart : ∀ t ∈ s.leading name nullSafe us, ∀ u ∈ s.leading name nullSafe us, t ≠ u →
      s.ShareMany name nullSafe d t u →
        t ∈ s.leading name nullSafe ts ∧ u ∈ s.leading name nullSafe ts)
    (kept : ev.keeps (.ofFilter name (.ofPredicate (some (ps.foldl .and p)) joins)) r = true) :
    ev'.keeps (.ofFilter name (.ofPredicate (some (ps'.foldl .and p')) joins')) r = true := by
  obtain ⟨⟨b, hb, together⟩, each⟩ := (h.keeps_iff hroot).mp kept
  have each' : ∀ t ∈ us, s.Keeps name nullSafe d r t := fun t ht => each t (perm.mem_iff.mpr ht)
  refine (h'.keeps_iff hroot).mpr ⟨?_, each'⟩
  have within : Joins.Within s root joins joins' := h.conj.within h'.conj fun t => perm.mem_iff.mp
  obtain ⟨b', hb', agree⟩ := exists_agree_many within h.evaluated h'.evaluated rfl rfl hb
  have leading := forall₂_leading h.conj
  have leading' := forall₂_leading h'.conj
  -- The terms that are early in both orders hold where they hold in the one.
  have held : ∀ t ∈ s.leading name nullSafe us, t ∈ s.leading name nullSafe ts →
      ∀ p₁, s.Becomes name nullSafe root joins' t p₁ → rowTruth r b' p₁ = .holds := by
    intro t _ early p₁ becomes'
    obtain ⟨p₀, hp₀, becomes⟩ := exists_of_forall₂ leading.flip early
    rw [h.rowTruth_eq hroot hb agree becomes becomes']
    exact together p₀ hp₀
  obtain ⟨c, hc, common⟩ := exists_common h'.evaluated rfl hroot h'.follow h'.conj.sound hb'
    (fun t ht => by simpa using List.mem_takeWhile_imp ht)
    (fun t ht => (exists_of_forall₂ leading'.flip ht).imp fun _ found => found.2) held
    (fun t ht => each' t ((List.takeWhile_prefix _).subset ht)) apart
  refine ⟨c, hc, fun p₁ hp₁ => ?_⟩
  obtain ⟨t, ht, becomes'⟩ := exists_of_forall₂ leading' hp₁
  exact common t ht p₁ becomes'

end

end Evaluator

namespace Dataset

variable {d : Dataset} {s : Schema} {nullSafe : Bool} {name : String} {f : CompiledFilter}

/-- **Terms that are joined by `and` can be compiled in any order**, and select the same records in
two orders if it does not depend on the order which of them are asked of one binding: of those that
share a join which leads to several rows, the same ones stand before the first that applies a
function. -/
theorem select_conjunction_perm {ts us : List String} (terms : ∀ t ∈ ts, ∃ x, IsTermOf t x)
    (perm : ts.Perm us) (hf : s.compileFilter nullSafe (conjunction ts) name = .ok f)
    (counts : ∀ p, f.predicate = some p → p.CountsDistinct)
    (follow : ∀ j ∈ f.joins, j.Followable s) :
    ∃ g selected selected', s.compileFilter nullSafe (conjunction us) name = .ok g ∧
      d.select s (.ofFilter name f) = .ok selected ∧
      d.select s (.ofFilter name g) = .ok selected' ∧
      ((∀ t ∈ ts, ∀ u ∈ ts, t ≠ u → s.ShareMany name nullSafe d t u →
          (t ∈ s.leading name nullSafe ts ∧ u ∈ s.leading name nullSafe ts ↔
            t ∈ s.leading name nullSafe us ∧ u ∈ s.leading name nullSafe us)) →
        selected' = selected) := by
  obtain ⟨root, hroot, compiledF⟩ := Schema.compileFilter_compiled hf
  obtain ⟨ev, hev, select⟩ := exists_select_eq (d := d) hroot compiledF follow
  cases ts with
  | nil =>
    cases perm.nil_eq
    exact ⟨f, _, _, hf, select, select, fun _ => rfl⟩
  | cons t ts =>
    cases us with
    | nil => cases perm.eq_nil
    | cons u us =>
      obtain ⟨p, ps, joins, rfl, conj⟩ := Schema.compileFilter_conjunction hroot terms hf
      have terms' : ∀ t ∈ u :: us, ∃ x, IsTermOf t x := fun t ht => terms t (perm.mem_iff.mpr ht)
      have alone : ∀ t ∈ u :: us, Succeeds (s.compileFilter nullSafe t name) := by
        intro t ht
        obtain ⟨_, _, _, _, compiled, _⟩ :=
          exists_of_forall₂ conj.become.flip (perm.mem_iff.mpr ht)
        exact ⟨_, compiled⟩
      obtain ⟨g, hg⟩ := Schema.succeeds_compileFilter_conjunction hroot terms' alone
      obtain ⟨p', ps', joins', rfl, conj'⟩ := Schema.compileFilter_conjunction hroot terms' hg
      obtain ⟨_, hroot', compiledG⟩ := Schema.compileFilter_compiled hg
      cases hroot.symm.trans hroot'
      have follow' : ∀ j ∈ joins', j.Followable s :=
        Evaluator.followable_of_within (conj'.within conj fun t => perm.mem_iff.mpr) follow
      have countsF := counts _ rfl
      have countsG := Evaluator.countsDistinct_of_perm conj conj' perm countsF
      obtain ⟨ev', hev', select'⟩ := exists_select_eq (d := d) hroot compiledG follow'
      have joinedF : Evaluator.Joined d s name nullSafe root (t :: ts) p ps joins ev :=
        ⟨conj, countsF, follow, hev⟩
      have joinedG : Evaluator.Joined d s name nullSafe root (u :: us) p' ps' joins' ev' :=
        ⟨conj', countsG, follow', hev'⟩
      refine ⟨_, _, _, hg, select, select', fun apart => ?_⟩
      have among {ts : List String} {t : String} (ht : t ∈ s.leading name nullSafe ts) : t ∈ ts :=
        (List.takeWhile_prefix _).subset ht
      refine congrArg _ (List.filter_congr fun r _ => Bool.eq_iff_iff.mpr ⟨?_, ?_⟩)
      · refine joinedG.keeps_of_perm joinedF hroot perm.symm fun t ht u hu ne shared => ?_
        exact (apart t (among ht) u (among hu) ne shared).mp ⟨ht, hu⟩
      · refine joinedF.keeps_of_perm joinedG hroot perm fun t ht u hu ne shared => ?_
        have ht' := perm.mem_iff.mpr (among ht)
        exact (apart t ht' u (perm.mem_iff.mpr (among hu)) ne shared).mpr ⟨ht, hu⟩

end Dataset

namespace Evaluator.Bookshelf

def tagsFirst : JoinNode := { tags with id := 0 }

def booksSecond : JoinNode := { books with id := 1 }

/-- The author has the tag. -/
def hasTag (tag : String) : Comparison :=
  ⟨.attr ⟨.join 0, .element⟩, .eq, false, false, .literal (.text tag)⟩

/-- The author has two books. -/
def hasTwo : Comparison :=
  ⟨.aggregate .countDistinct ⟨.join 1, .attribute "id" "id"⟩, .eq, false, false,
    .literal (.int 2)⟩

def taggedA : String := "tags:a"

def taggedB : String := "tags:b"

def ofTwo : String := "count\x7bbooks\x7d:2"

/-- The tags stand before the number of books. -/
def tagsBefore : CompiledFilter :=
  .ofPredicate (some (.and (.and (.leaf (hasTag "a")) (.leaf (hasTag "b"))) (.leaf hasTwo)))
    [tagsFirst, booksSecond]

/-- The number of books stands between the tags. -/
def tagsAround : CompiledFilter :=
  .ofPredicate (some (.and (.and (.leaf (hasTag "a")) (.leaf hasTwo)) (.leaf (hasTag "b"))))
    [tagsFirst, booksSecond]

def taggingB : Word := .plain "tags:b"

theorem parsed_taggingB : Expression.parse taggingB =
    .ok ⟨"tags", none, .eq, false, false, .literal "b"⟩ := by rfl

theorem isTermOf_a : IsTermOf taggedA (.leaf tagging) := by
  have scanned : scan taggedA = .ok [.word 0 tagging] := by rfl
  exact isTermOf_word (by rfl) scanned (by rfl)

theorem isTermOf_b : IsTermOf taggedB (.leaf taggingB) := by
  have scanned : scan taggedB = .ok [.word 0 taggingB] := by rfl
  exact isTermOf_word (by rfl) scanned (by rfl)

theorem isTermOf_two : IsTermOf ofTwo (.leaf counting) := by
  have scanned : scan ofTwo = .ok [.word 0 counting] := by rfl
  exact isTermOf_word (by rfl) scanned (by rfl)

theorem made_a : (Formula.leaf tagging).mapM (schema.compileWord "Author" false) [] =
    (.ok (.leaf (hasTag "a")), [tagsFirst]) :=
  Schema.mapM_leaf (Schema.compileWord_eq_ok parsed_tagging rfl)

theorem made_b (joins : Joins) :
    (Formula.leaf taggingB).mapM (schema.compileWord "Author" false) (tagsFirst :: joins) =
      (.ok (.leaf (hasTag "b")), tagsFirst :: joins) :=
  Schema.mapM_leaf (Schema.compileWord_eq_ok parsed_taggingB rfl)

theorem made_two : (Formula.leaf counting).mapM (schema.compileWord "Author" false) [tagsFirst] =
    (.ok (.leaf hasTwo), [tagsFirst, booksSecond]) :=
  Schema.mapM_leaf (Schema.compileWord_eq_ok parsed_counting rfl)

theorem compiled_tagsBefore :
    schema.compileFilter false (conjunction [taggedA, taggedB, ofTwo]) "Author" =
      .ok tagsBefore := by
  have terms := List.Forall₂.cons isTermOf_a (.cons isTermOf_b (.cons isTermOf_two .nil))
  exact Schema.compileFilter_conjunction_of_mapM rfl terms made_a (Resolving.mapM_cons_eq_ok.mpr
    ⟨_, _, _, made_b [], Resolving.mapM_cons_eq_ok.mpr ⟨_, _, _, made_two, rfl, rfl⟩, rfl⟩)

theorem compiled_tagsAround :
    schema.compileFilter false (conjunction [taggedA, ofTwo, taggedB]) "Author" =
      .ok tagsAround := by
  have terms := List.Forall₂.cons isTermOf_a (.cons isTermOf_two (.cons isTermOf_b .nil))
  exact Schema.compileFilter_conjunction_of_mapM rfl terms made_a (Resolving.mapM_cons_eq_ok.mpr
    ⟨_, _, _, made_two, Resolving.mapM_cons_eq_ok.mpr ⟨_, _, _, made_b _, rfl, rfl⟩, rfl⟩)

/-- Each of the three is a term. -/
theorem isTermOf_shelf : ∀ t ∈ [taggedA, ofTwo, taggedB], ∃ x, IsTermOf t x :=
  List.forall_mem_cons.mpr ⟨⟨_, isTermOf_a⟩,
    List.forall_mem_cons.mpr ⟨⟨_, isTermOf_two⟩, List.forall_mem_singleton.mpr ⟨_, isTermOf_b⟩⟩⟩

theorem countsDistinct_tagsAround : ∀ p, tagsAround.predicate = some p → p.CountsDistinct := by
  rintro _ ⟨⟩ c hc aggregate
  obtain rfl | rfl | rfl : c = hasTag "a" ∨ c = hasTwo ∨ c = hasTag "b" := by
    simpa [Formula.leaves] using hc
  · cases aggregate
  · exact ⟨_, rfl, rfl⟩
  · cases aggregate

theorem followable_tagsAround : ∀ j ∈ tagsAround.joins, j.Followable schema := by
  refine List.forall_mem_cons.mpr ⟨?_, List.forall_mem_singleton.mpr ?_⟩
  · rintro target ⟨⟩
  · exact fun target _ => ⟨.foreignKey "author" "author_id", by rfl⟩

end Evaluator.Bookshelf

namespace Dataset

open Evaluator.Bookshelf in
/-- The author of two books has two tags, but no tag that is both: before the function the tags are
asked of one binding, and around it of two. -/
theorem select_conjunction_perm_fails :
    [taggedA, ofTwo, taggedB].Perm [taggedA, taggedB, ofTwo] ∧
      (∀ t ∈ [taggedA, ofTwo, taggedB], ∃ x, IsTermOf t x) ∧
      schema.compileFilter false (conjunction [taggedA, ofTwo, taggedB]) "Author" =
        .ok tagsAround ∧
      (∀ p, tagsAround.predicate = some p → p.CountsDistinct) ∧
      (∀ j ∈ tagsAround.joins, j.Followable schema) ∧
      schema.compileFilter false (conjunction [taggedA, taggedB, ofTwo]) "Author" =
        .ok tagsBefore ∧
      stock.select schema (.ofFilter "Author" tagsAround) = .ok [writer] ∧
      stock.select schema (.ofFilter "Author" tagsBefore) = .ok [] :=
  ⟨(List.Perm.swap _ _ []).cons _, isTermOf_shelf, compiled_tagsAround, countsDistinct_tagsAround,
    followable_tagsAround, compiled_tagsBefore, by rfl, by rfl⟩

open Evaluator.Bookshelf in
/-- With the number of books between the tags it does not matter which of them comes first. -/
theorem select_conjunction_perm_shelf : ∃ g,
    schema.compileFilter false (conjunction [taggedB, ofTwo, taggedA]) "Author" = .ok g ∧
      stock.select schema (.ofFilter "Author" g) = .ok [writer] := by
  have perm : [taggedA, ofTwo, taggedB].Perm [taggedB, ofTwo, taggedA] :=
    (List.reverse_perm [taggedA, ofTwo, taggedB]).symm
  have aggregatesA : schema.aggregates "Author" false taggedA = false := by
    rw [Schema.aggregates,
      (Schema.compileFilter_iff_of_isTermOf rfl isTermOf_a).mpr ⟨_, _, made_a, rfl⟩]
    rfl
  have aggregatesB : schema.aggregates "Author" false taggedB = false := by
    have made : (Formula.leaf taggingB).mapM (schema.compileWord "Author" false) [] =
        (.ok (.leaf (hasTag "b")), [tagsFirst]) :=
      Schema.mapM_leaf (Schema.compileWord_eq_ok parsed_taggingB rfl)
    rw [Schema.aggregates,
      (Schema.compileFilter_iff_of_isTermOf rfl isTermOf_b).mpr ⟨_, _, made, rfl⟩]
    rfl
  have aggregatesTwo : schema.aggregates "Author" false ofTwo = true := by
    rw [Schema.aggregates, ofTwo, compiled_twice]
    rfl
  have leading : schema.leading "Author" false [taggedA, ofTwo, taggedB] = [taggedA] := by
    simp [Schema.leading, aggregatesA, aggregatesTwo]
  have leading' : schema.leading "Author" false [taggedB, ofTwo, taggedA] = [taggedB] := by
    simp [Schema.leading, aggregatesB, aggregatesTwo]
  obtain ⟨g, selected, selected', compiled, select, select', same⟩ := select_conjunction_perm
    (d := stock) isTermOf_shelf perm compiled_tagsAround countsDistinct_tagsAround
    followable_tagsAround
  refine ⟨g, compiled, ?_⟩
  rw [select', same fun t _ u _ ne _ => ?_, ← select]
  · rfl
  · rw [leading, leading', List.mem_singleton, List.mem_singleton, List.mem_singleton,
      List.mem_singleton]
    exact ⟨fun h => absurd (h.1.trans h.2.symm) ne, fun h => absurd (h.1.trans h.2.symm) ne⟩

end Dataset

end EntityQuery
