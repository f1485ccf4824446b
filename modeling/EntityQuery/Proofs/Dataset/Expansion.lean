import EntityQuery.Dataset.Evaluation
import EntityQuery.Proofs.Path.Joins
import Mathlib.Algebra.Order.BigOperators.Group.List
import Mathlib.Algebra.Order.Group.Nat
import Mathlib.Data.Multiset.Bind

/-!
# The bindings of a record

The joins of a request are followed one after the other, each giving every binding a row or leaving
it as it is (`options`, `expandFrom`). Two joins of which neither is the parent of the other can be
followed in either order (`extendAlong_comm`), so that **some of the joins can be followed before
all others as long as they come with their parents** (`expandFrom_partition`).

What the others add is to repeat a binding, once for every way to complete it, and never to lose
one. So what is read without them is read with them (`mem_filterMap_expandFrom_iff`): once or
several times, and once throughout exactly if none of them leads to several rows where something is
read (`filterMap_expandFrom_repeats`). And **a binding extends to those that give each of the joins
something that it can be given there** (`mem_expandFrom_iff`).
-/

namespace EntityQuery.Evaluator

variable {ev : Evaluator} {root : Record}

/-! ## One join -/

/-- The rows to which a join leads at a binding. -/
def reach (ev : Evaluator) (root : Record) (join : JoinNode) (b : Binding) : List Row :=
  match row root b join.parent with
  | some (.entity parent) => ev.children parent join.id
  | _ => []

/-- What a join can be given at a binding: nothing exactly where it leads to no row. -/
def options (ev : Evaluator) (root : Record) (join : JoinNode) (b : Binding) : List (Option Row) :=
  if (ev.reach root join b).isEmpty then [none] else (ev.reach root join b).map some

/-- The binding in which a join has been given a row, if it is given one. -/
def assign (id : Nat) (b : Binding) : Option Row → Binding
  | none => b
  | some r => b.set id (some r)

theorem extendAlong_eq (join : JoinNode) (b : Binding) :
    ev.extendAlong root join b = (ev.options root join b).map (assign join.id b) := by
  show (if (ev.reach root join b).isEmpty then [b]
    else (ev.reach root join b).map fun child => b.set join.id (some child)) = _
  unfold options
  split
  · rfl
  · rw [List.map_map]
    rfl

theorem options_ne_nil (ev : Evaluator) (root : Record) (join : JoinNode) (b : Binding) :
    ev.options root join b ≠ [] := by
  unfold options
  split
  · simp
  · next h => simpa using h

theorem exists_options_eq {join : JoinNode} {b : Binding}
    (single : (ev.reach root join b).length ≤ 1) : ∃ o, ev.options root join b = [o] := by
  unfold options
  match h : ev.reach root join b with
  | [] => exact ⟨none, rfl⟩
  | [r] => exact ⟨some r, rfl⟩
  | _ :: _ :: _ => simp [h] at single

theorem options_congr {join : JoinNode} {b c : Binding}
    (same : row root c join.parent = row root b join.parent) :
    ev.options root join c = ev.options root join b := by
  rw [options, options, reach, reach, same]

/-- A join leads to the rows to which it would lead without the row of another join. -/
theorem row_assign_of_ne {source : Source} {id : Nat} (h : source ≠ .join id) (b : Binding)
    (o : Option Row) : row root (assign id b o) source = row root b source := by
  cases source with
  | root => rfl
  | join k =>
    cases o with
    | none => rfl
    | some r =>
      have other : id ≠ k := fun same => h (congrArg Source.join same.symm)
      show (b.set id (some r))[k]?.join = b[k]?.join
      rw [List.getElem?_set_ne other]

theorem reach_assign_of_ne {join : JoinNode} {id : Nat} (h : join.parent ≠ .join id) (b : Binding)
    (o : Option Row) : ev.reach root join (assign id b o) = ev.reach root join b := by
  rw [reach, reach, row_assign_of_ne h]

theorem options_assign_of_ne {join : JoinNode} {id : Nat} (h : join.parent ≠ .join id)
    (b : Binding) (o : Option Row) :
    ev.options root join (assign id b o) = ev.options root join b :=
  options_congr (row_assign_of_ne h b o)

theorem length_assign (id : Nat) (b : Binding) (o : Option Row) :
    (assign id b o).length = b.length := by
  cases o with
  | none => rfl
  | some r => exact List.length_set

theorem assign_comm {i j : Nat} (h : i ≠ j) (b : Binding) (o p : Option Row) :
    assign j (assign i b o) p = assign i (assign j b p) o := by
  cases o <;> cases p <;> simp [assign, List.set_comm _ _ h]

/-! ## Joins in turn -/

/-- Neither join is the other, nor its parent. -/
structure Apart (j k : JoinNode) : Prop where
  ids : j.id ≠ k.id
  left : j.parent ≠ .join k.id
  right : k.parent ≠ .join j.id

/-- Two joins that lie apart can be followed in either order. -/
theorem extendAlong_comm {j k : JoinNode} (apart : Apart j k) (b : Binding) :
    ((ev.extendAlong root j b).flatMap (ev.extendAlong root k)).Perm
      ((ev.extendAlong root k b).flatMap (ev.extendAlong root j)) := by
  simp only [extendAlong_eq, List.flatMap_map, options_assign_of_ne apart.left,
    options_assign_of_ne apart.right]
  generalize ev.options root j b = os
  generalize ev.options root k b = ps
  simp only [← Multiset.coe_eq_coe, ← Multiset.coe_bind, ← Multiset.map_coe]
  rw [Multiset.bind_map_comm]
  simp only [assign_comm apart.ids]

/-- The bindings to which a binding extends along joins in turn. -/
def expandFrom (ev : Evaluator) (root : Record) : List JoinNode → Binding → List Binding
  | [], b => [b]
  | j :: js, b => (ev.extendAlong root j b).flatMap (expandFrom ev root js)

theorem expand_eq : ev.expand root =
    ev.expandFrom root ev.joins (List.replicate ev.joins.length none) := by
  have fold (js : List JoinNode) (bs : List Binding) :
      js.foldl (fun bindings join => bindings.flatMap (ev.extendAlong root join)) bs =
        bs.flatMap (ev.expandFrom root js) := by
    induction js generalizing bs with
    | nil => simp [expandFrom]
    | cons j js ih => rw [List.foldl_cons, ih, List.flatMap_assoc]; rfl
  rw [expand, fold, List.flatMap_singleton]

theorem expandFrom_ne_nil (ev : Evaluator) (root : Record) (js : List JoinNode) (b : Binding) :
    ev.expandFrom root js b ≠ [] := by
  induction js generalizing b with
  | nil => simp [expandFrom]
  | cons j js ih =>
    simp only [expandFrom, ne_eq, List.flatMap_eq_nil_iff, not_forall]
    rw [extendAlong_eq]
    obtain ⟨o, ho⟩ := List.exists_mem_of_ne_nil _ (options_ne_nil ev root j b)
    exact ⟨_, List.mem_map_of_mem ho, ih _⟩

theorem expandFrom_comm {j : JoinNode} {js : List JoinNode} (apart : ∀ k ∈ js, Apart j k)
    (b : Binding) :
    ((ev.extendAlong root j b).flatMap (ev.expandFrom root js)).Perm
      ((ev.expandFrom root js b).flatMap (ev.extendAlong root j)) := by
  induction js generalizing b with
  | nil => simp [expandFrom]
  | cons k js ih =>
    obtain ⟨hk, apart⟩ := List.forall_mem_cons.mp apart
    calc (ev.extendAlong root j b).flatMap (ev.expandFrom root (k :: js))
      _ = ((ev.extendAlong root j b).flatMap (ev.extendAlong root k)).flatMap
            (ev.expandFrom root js) := List.flatMap_assoc.symm
      List.Perm _ (((ev.extendAlong root k b).flatMap (ev.extendAlong root j)).flatMap
            (ev.expandFrom root js)) := (extendAlong_comm hk b).flatMap_right _
      _ = (ev.extendAlong root k b).flatMap fun c =>
            (ev.extendAlong root j c).flatMap (ev.expandFrom root js) := List.flatMap_assoc
      List.Perm _ ((ev.extendAlong root k b).flatMap fun c =>
            (ev.expandFrom root js c).flatMap (ev.extendAlong root j)) :=
          List.Perm.flatMap_left _ fun c _ => ih apart c
      _ = ((ev.extendAlong root k b).flatMap (ev.expandFrom root js)).flatMap
            (ev.extendAlong root j) := List.flatMap_assoc.symm

/-- Each join comes once, and after its parent. -/
structure InTurn (js : List JoinNode) : Prop where
  proper : ∀ j ∈ js, j.parent ≠ .join j.id
  turns : js.Pairwise fun j k => j.id ≠ k.id ∧ j.parent ≠ .join k.id

theorem InTurn.filter {js : List JoinNode} (h : InTurn js) (keep : JoinNode → Bool) :
    InTurn (js.filter keep) where
  proper := fun j hj => h.proper j (List.mem_of_mem_filter hj)
  turns := h.turns.filter keep

theorem InTurn.parent_ne {j : JoinNode} {js : List JoinNode} (h : InTurn (j :: js)) :
    ∀ k ∈ j :: js, j.parent ≠ .join k.id := by
  intro k hk
  rcases List.mem_cons.mp hk with rfl | hk
  · exact h.proper k List.mem_cons_self
  · exact (List.rel_of_pairwise_cons h.turns hk).2

theorem InTurn.of_cons {j : JoinNode} {js : List JoinNode} (h : InTurn (j :: js)) : InTurn js where
  proper := fun k hk => h.proper k (List.mem_cons_of_mem j hk)
  turns := h.turns.of_cons

section

variable {js : List JoinNode} {keep : JoinNode → Bool}

/-- The joins that are kept come with their parents. -/
def KeepsParents (keep : JoinNode → Bool) (js : List JoinNode) : Prop :=
  ∀ j ∈ js, ∀ k ∈ js, keep k = true → k.parent = .join j.id → keep j = true

theorem KeepsParents.of_cons {j : JoinNode} (h : KeepsParents keep (j :: js)) :
    KeepsParents keep js :=
  fun j hj k hk => h j (List.mem_cons_of_mem _ hj) k (List.mem_cons_of_mem _ hk)

theorem KeepsParents.and {keep' : JoinNode → Bool} (h : KeepsParents keep js)
    (h' : KeepsParents keep' js) : KeepsParents (fun k => keep k && keep' k) js := by
  intro j hj k hk on parent
  obtain ⟨here, here'⟩ := Bool.and_eq_true_iff.mp on
  exact Bool.and_eq_true_iff.mpr ⟨h j hj k hk here parent, h' j hj k hk here' parent⟩

/-- A join that is not kept lies apart from those kept after it. -/
theorem apart_of_not_keep {j : JoinNode} (inTurn : InTurn (j :: js))
    (parents : KeepsParents keep (j :: js)) (hj : keep j = false) :
    ∀ k ∈ js.filter keep, Apart j k := by
  intro k hk
  obtain ⟨hk, kept⟩ := List.mem_filter.mp hk
  obtain ⟨ids, left⟩ := List.rel_of_pairwise_cons inTurn.turns hk
  refine ⟨ids, left, fun parent => ?_⟩
  rw [parents j List.mem_cons_self k (List.mem_cons_of_mem j hk) kept parent] at hj
  cases hj

/-- Some of the joins can be followed before all others, if they come with their parents. -/
theorem expandFrom_partition (inTurn : InTurn js) (parents : KeepsParents keep js) (b : Binding) :
    (ev.expandFrom root js b).Perm
      ((ev.expandFrom root (js.filter keep) b).flatMap
        (ev.expandFrom root (js.filter (!keep ·)))) := by
  induction js generalizing b with
  | nil => simp [expandFrom]
  | cons j js ih =>
    have rest (c : Binding) := ih inTurn.of_cons parents.of_cons c
    have first : (ev.expandFrom root (j :: js) b).Perm ((ev.extendAlong root j b).flatMap fun c =>
        (ev.expandFrom root (js.filter keep) c).flatMap
          (ev.expandFrom root (js.filter (!keep ·)))) :=
      List.Perm.flatMap_left _ fun c _ => rest c
    refine first.trans ?_
    rw [← List.flatMap_assoc]
    cases hj : keep j with
    | true =>
      have kept : (j :: js).filter keep = j :: js.filter keep := by simp [hj]
      have left : (j :: js).filter (!keep ·) = js.filter (!keep ·) := by simp [hj]
      rw [kept, left]
      rfl
    | false =>
      have kept : (j :: js).filter keep = js.filter keep := by simp [hj]
      have left : (j :: js).filter (!keep ·) = j :: js.filter (!keep ·) := by simp [hj]
      rw [kept, left]
      refine ((expandFrom_comm (apart_of_not_keep inTurn parents hj) b).flatMap_right _).trans ?_
      rw [List.flatMap_assoc]
      rfl

/-! ## What the other joins leave alone -/

section

variable {γ : Type} {g : Binding → γ}

/-- What no join changes is the same however a binding is completed. -/
theorem eq_of_mem_expandFrom (blind : ∀ j ∈ js, ∀ b o, g (assign j.id b o) = g b) {b c : Binding}
    (hc : c ∈ ev.expandFrom root js b) : g c = g b := by
  induction js generalizing b with
  | nil => rw [List.mem_singleton.mp hc]
  | cons j js ih =>
    obtain ⟨hj, blind⟩ := List.forall_mem_cons.mp blind
    obtain ⟨b', hb', hc⟩ := List.mem_flatMap.mp hc
    rw [extendAlong_eq] at hb'
    obtain ⟨o, _, rfl⟩ := List.mem_map.mp hb'
    rw [ih blind hc, hj]

theorem reach_of_mem_expandFrom {j : JoinNode} (other : ∀ k ∈ js, j.parent ≠ .join k.id)
    {b c : Binding} (hc : c ∈ ev.expandFrom root js b) :
    ev.reach root j c = ev.reach root j b :=
  eq_of_mem_expandFrom (fun k hk b o => reach_assign_of_ne (other k hk) b o) hc

/-- A row that is given to a join first stays there while joins are followed that lie apart. -/
theorem expandFrom_assign {j : JoinNode} (apart : ∀ k ∈ js, Apart j k) (b : Binding)
    (o : Option Row) :
    ev.expandFrom root js (assign j.id b o) = (ev.expandFrom root js b).map (assign j.id · o) := by
  induction js generalizing b with
  | nil => rfl
  | cons k js ih =>
    obtain ⟨hk, apart⟩ := List.forall_mem_cons.mp apart
    simp only [expandFrom, extendAlong_eq, options_assign_of_ne hk.right, List.flatMap_map,
      List.map_flatMap]
    simp only [assign_comm hk.ids, ih apart]

end

/-- The joins that are not kept neither repeat nor move what is read without them, as long as none
of them leads to several rows where something is read. -/
theorem filterMap_expandFrom {γ : Type} {g : Binding → Option γ} (inTurn : InTurn js)
    (parents : KeepsParents keep js)
    (blind : ∀ j ∈ js, keep j = false → ∀ b o, g (assign j.id b o) = g b) {b : Binding}
    (single : ∀ c ∈ ev.expandFrom root js b, (g c).isSome → ∀ j ∈ js, keep j = false →
      (ev.reach root j c).length ≤ 1) :
    (ev.expandFrom root js b).filterMap g =
      (ev.expandFrom root (js.filter keep) b).filterMap g := by
  induction js generalizing b with
  | nil => rfl
  | cons j js ih =>
    have rest {c : Binding} (hc : c ∈ ev.extendAlong root j b) :
        (ev.expandFrom root js c).filterMap g =
          (ev.expandFrom root (js.filter keep) c).filterMap g := by
      refine ih inTurn.of_cons parents.of_cons
        (fun k hk => blind k (List.mem_cons_of_mem j hk)) fun d hd some_ k hk => ?_
      exact single d (List.mem_flatMap.mpr ⟨c, hc, hd⟩) some_ k (List.mem_cons_of_mem j hk)
    cases hj : keep j with
    | true =>
      have kept : (j :: js).filter keep = j :: js.filter keep := by simp [hj]
      rw [kept, expandFrom, expandFrom, List.filterMap_flatMap, List.filterMap_flatMap]
      exact List.flatMap_congr fun c hc => rest hc
    | false =>
      have kept : (j :: js).filter keep = js.filter keep := by simp [hj]
      rw [kept]
      by_cases one : (ev.reach root j b).length ≤ 1
      · obtain ⟨o, ho⟩ := exists_options_eq one
        have follow : ev.extendAlong root j b = [assign j.id b o] := by
          rw [extendAlong_eq, ho, List.map_singleton]
        have apart := apart_of_not_keep inTurn parents hj
        rw [expandFrom, follow, List.flatMap_singleton, rest (by rw [follow]; simp),
          expandFrom_assign apart, List.filterMap_map]
        exact List.filterMap_congr fun c _ => blind j List.mem_cons_self hj c o
      · -- Where this join leads to several rows nothing is read, nor without it.
        have nothing : ∀ c ∈ ev.expandFrom root (j :: js) b, g c = none := by
          intro c hc
          by_contra some_
          refine one ?_
          rw [← reach_of_mem_expandFrom (inTurn.parent_ne) hc]
          exact single c hc (Option.isSome_iff_ne_none.mpr some_) j List.mem_cons_self hj
        rw [List.filterMap_eq_nil_iff.mpr nothing, eq_comm, List.filterMap_eq_nil_iff]
        intro c hc
        obtain ⟨d, hd⟩ := List.exists_mem_of_ne_nil _
          (expandFrom_ne_nil ev root ((j :: js).filter (!keep ·)) c)
        have whole : d ∈ ev.expandFrom root (j :: js) b := by
          refine (expandFrom_partition inTurn parents b).mem_iff.mpr ?_
          refine List.mem_flatMap.mpr ⟨c, ?_, hd⟩
          rwa [kept]
        rw [← nothing d whole]
        refine (eq_of_mem_expandFrom (fun k hk => ?_) hd).symm
        obtain ⟨hk, dropped⟩ := List.mem_filter.mp hk
        exact blind k hk (by simpa using dropped)

/-- What is read without the joins that are not kept is read with them, and nothing else is. -/
theorem mem_filterMap_expandFrom_iff {γ : Type} {g : Binding → Option γ} (inTurn : InTurn js)
    (parents : KeepsParents keep js)
    (blind : ∀ j ∈ js, keep j = false → ∀ b o, g (assign j.id b o) = g b) {b : Binding} {x : γ} :
    x ∈ (ev.expandFrom root js b).filterMap g ↔
      x ∈ (ev.expandFrom root (js.filter keep) b).filterMap g := by
  have partition : (ev.expandFrom root js b).Perm _ := expandFrom_partition inTurn parents b
  have same {c d : Binding} (hd : d ∈ ev.expandFrom root (js.filter (!keep ·)) c) : g d = g c := by
    refine eq_of_mem_expandFrom (fun k hk => ?_) hd
    obtain ⟨hk, dropped⟩ := List.mem_filter.mp hk
    exact blind k hk (by simpa using dropped)
  simp only [List.mem_filterMap, partition.mem_iff, List.mem_flatMap]
  constructor
  · rintro ⟨d, ⟨c, hc, hd⟩, hx⟩
    exact ⟨c, hc, same hd ▸ hx⟩
  · rintro ⟨c, hc, hx⟩
    obtain ⟨d, hd⟩ := List.exists_mem_of_ne_nil _
      (expandFrom_ne_nil ev root (js.filter (!keep ·)) c)
    exact ⟨d, ⟨c, hc, hd⟩, (same hd).trans hx⟩

/-! ## How often a binding is completed -/

theorem length_le_flatMap {α β : Type} {f : α → List β} {l : List α} (h : ∀ a ∈ l, f a ≠ []) :
    l.length ≤ (l.flatMap f).length := by
  induction l with
  | nil => exact Nat.zero_le _
  | cons a l ih =>
    obtain ⟨ha, h⟩ := List.forall_mem_cons.mp h
    have one := List.length_pos_iff.mpr ha
    have rest := ih h
    rw [List.flatMap_cons, List.length_append, List.length_cons]
    omega

/-- There are at least as many completions as one of the joins leads to rows in any of them. -/
theorem length_reach_le (inTurn : InTurn js) {b c : Binding} (hc : c ∈ ev.expandFrom root js b)
    {j : JoinNode} (hj : j ∈ js) :
    (ev.reach root j c).length ≤ (ev.expandFrom root js b).length := by
  induction js generalizing b with
  | nil => cases hj
  | cons k js ih =>
    obtain ⟨b', hb', hc'⟩ := List.mem_flatMap.mp hc
    rcases List.mem_cons.mp hj with rfl | hj
    · rw [reach_of_mem_expandFrom inTurn.parent_ne hc]
      calc (ev.reach root j b).length
        _ ≤ (ev.extendAlong root j b).length := by
          rw [extendAlong_eq, options]
          split <;> simp_all
        _ ≤ _ := length_le_flatMap fun c _ => expandFrom_ne_nil ev root js c
    · refine (ih inTurn.of_cons hc' hj).trans ?_
      rw [expandFrom, List.length_flatMap]
      exact List.le_sum_of_mem (List.mem_map_of_mem hb')

/-- A binding is completed in one way if no join leads to several rows. -/
theorem length_expandFrom (inTurn : InTurn js) {b : Binding}
    (single : ∀ c ∈ ev.expandFrom root js b, ∀ j ∈ js, (ev.reach root j c).length ≤ 1) :
    (ev.expandFrom root js b).length = 1 := by
  induction js generalizing b with
  | nil => rfl
  | cons j js ih =>
    obtain ⟨c, hc⟩ := List.exists_mem_of_ne_nil _ (expandFrom_ne_nil ev root (j :: js) b)
    have one := single c hc j List.mem_cons_self
    rw [reach_of_mem_expandFrom inTurn.parent_ne hc] at one
    obtain ⟨o, ho⟩ := exists_options_eq one
    have follow : ev.expandFrom root (j :: js) b = ev.expandFrom root js (assign j.id b o) := by
      rw [expandFrom, extendAlong_eq, ho, List.map_singleton, List.flatMap_singleton]
    rw [follow] at single ⊢
    exact ih inTurn.of_cons fun c hc k hk => single c hc k (List.mem_cons_of_mem j hk)

section

variable {γ : Type} {g : Binding → Option γ}

theorem filterMap_of_constant {α : Type} {g : α → Option γ} {l : List α} {o : Option γ}
    (h : ∀ a ∈ l, g a = o) : l.filterMap g = o.toList.flatMap (List.replicate l.length) := by
  rw [List.filterMap_congr h]
  cases o with
  | none => simp
  | some x => simp [List.map_const']

theorem flatMap_replicate {α : Type} (n : α → Nat) (g : α → Option γ) (l : List α) :
    l.flatMap (fun a => (g a).toList.flatMap (List.replicate (n a))) =
      (l.filterMap fun a => (g a).map (n a, ·)).flatMap fun p => List.replicate p.1 p.2 := by
  induction l with
  | nil => rfl
  | cons a l ih =>
    rw [List.flatMap_cons, ih, List.filterMap_cons]
    cases g a <;> simp

/-- What is read without the joins that are not kept is read with them once or several times, and
once throughout exactly if none of them leads to several rows where something is read. -/
theorem filterMap_expandFrom_repeats (inTurn : InTurn js) (parents : KeepsParents keep js)
    (blind : ∀ j ∈ js, keep j = false → ∀ b o, g (assign j.id b o) = g b) (b : Binding) :
    ∃ repeated : List (Nat × γ),
      repeated.map Prod.snd = (ev.expandFrom root (js.filter keep) b).filterMap g ∧
      ((ev.expandFrom root js b).filterMap g).Perm
        (repeated.flatMap fun p => List.replicate p.1 p.2) ∧
      (∀ p ∈ repeated, 0 < p.1) ∧
      ((∀ p ∈ repeated, p.1 = 1) ↔ ∀ c ∈ ev.expandFrom root js b, (g c).isSome → ∀ j ∈ js,
        keep j = false → (ev.reach root j c).length ≤ 1) := by
  let others := js.filter (!keep ·)
  have mem_others {j : JoinNode} : j ∈ others ↔ j ∈ js ∧ keep j = false := by
    simp [others, List.mem_filter]
  have partition : (ev.expandFrom root js b).Perm _ := expandFrom_partition inTurn parents b
  have same {c d : Binding} (hd : d ∈ ev.expandFrom root others c) : g d = g c :=
    eq_of_mem_expandFrom (fun k hk => blind k (mem_others.mp hk).1 (mem_others.mp hk).2) hd
  let times (c : Binding) := (ev.expandFrom root others c).length
  refine ⟨(ev.expandFrom root (js.filter keep) b).filterMap fun c => (g c).map (times c, ·),
    ?_, ?_, ?_, ?_⟩
  · simp [List.map_filterMap]
  · rw [← flatMap_replicate]
    refine (partition.filterMap g).trans (List.Perm.of_eq ?_)
    rw [List.filterMap_flatMap]
    exact List.flatMap_congr fun c _ => filterMap_of_constant fun d hd => same hd
  · intro p hp
    obtain ⟨c, _, hp⟩ := List.mem_filterMap.mp hp
    obtain ⟨x, _, rfl⟩ := Option.map_eq_some_iff.mp hp
    exact List.length_pos_iff.mpr (expandFrom_ne_nil ev root others c)
  · constructor
    · intro once d hd read j hj off
      obtain ⟨c, hc, hd⟩ := List.mem_flatMap.mp (partition.mem_iff.mp hd)
      rw [same hd] at read
      obtain ⟨x, hx⟩ := Option.isSome_iff_exists.mp read
      have one : times c = 1 :=
        once (times c, x) (List.mem_filterMap.mpr ⟨c, hc, by rw [hx]; rfl⟩)
      exact one ▸ length_reach_le (inTurn.filter _) hd (mem_others.mpr ⟨hj, off⟩)
    · intro single p hp
      obtain ⟨c, hc, hp⟩ := List.mem_filterMap.mp hp
      obtain ⟨x, hx, rfl⟩ := Option.map_eq_some_iff.mp hp
      refine length_expandFrom (inTurn.filter _) fun d hd j hj => ?_
      obtain ⟨hj, off⟩ := mem_others.mp hj
      have whole := partition.mem_iff.mpr (List.mem_flatMap.mpr ⟨c, hc, hd⟩)
      exact single d whole (by rw [same hd, hx]; rfl) j hj off

end

/-! ## Which bindings there are -/

theorem getElem?_assign_of_ne {id i : Nat} (h : id ≠ i) (b : Binding) (o : Option Row) :
    (assign id b o)[i]? = b[i]? := by
  cases o with
  | none => rfl
  | some r => exact List.getElem?_set_ne h

theorem getElem?_assign_self {id : Nat} {b : Binding} (fresh : b[id]? = some none)
    (o : Option Row) : (assign id b o)[id]? = some o := by
  cases o with
  | none => exact fresh
  | some r => exact List.getElem?_set_self (List.getElem?_eq_some_iff.mp fresh).1

/-- A join can be given the same at bindings that differ in the rows of this join and of joins after
it only. -/
theorem options_of_same {j : JoinNode} (inTurn : InTurn (j :: js)) {b b' : Binding}
    (same : ∀ i, (∀ k ∈ j :: js, k.id ≠ i) → b'[i]? = b[i]?) :
    ev.options root j b' = ev.options root j b := by
  refine options_congr ?_
  cases hp : j.parent with
  | root => rfl
  | join i =>
    refine congrArg Option.join (same i fun k hk hi => ?_)
    exact inTurn.parent_ne k hk (hp.trans (congrArg Source.join hi.symm))

/-- A binding extends to those that give each of the joins something it can be given there. -/
theorem mem_expandFrom_iff (inTurn : InTurn js) {b b' : Binding}
    (fresh : ∀ j ∈ js, b[j.id]? = some none) :
    b' ∈ ev.expandFrom root js b ↔
      (∀ i, (∀ j ∈ js, j.id ≠ i) → b'[i]? = b[i]?) ∧
        ∀ j ∈ js, ∃ o ∈ ev.options root j b', b'[j.id]? = some o := by
  induction js generalizing b with
  | nil =>
    simp only [expandFrom, List.mem_singleton, List.not_mem_nil, false_implies, implies_true,
      forall_const, and_true]
    exact ⟨fun h i => by rw [h], List.ext_getElem?⟩
  | cons j js ih =>
    obtain ⟨freshHere, fresh⟩ := List.forall_mem_cons.mp fresh
    have ids {k : JoinNode} (hk : k ∈ js) : j.id ≠ k.id :=
      (List.rel_of_pairwise_cons inTurn.turns hk).1
    have ih (o : Option Row) := ih inTurn.of_cons (b := assign j.id b o) fun k hk => by
      rw [getElem?_assign_of_ne (ids hk), fresh k hk]
    simp only [expandFrom, extendAlong_eq, List.flatMap_map, List.mem_flatMap, ih]
    constructor
    · rintro ⟨o, ho, same, fits⟩
      have same' : ∀ i, (∀ k ∈ j :: js, k.id ≠ i) → b'[i]? = b[i]? := by
        intro i hi
        obtain ⟨hj, hi⟩ := List.forall_mem_cons.mp hi
        rw [same i hi, getElem?_assign_of_ne hj]
      refine ⟨same', List.forall_mem_cons.mpr ⟨⟨o, options_of_same inTurn same' ▸ ho, ?_⟩, fits⟩⟩
      rw [same j.id fun k hk => (ids hk).symm, getElem?_assign_self freshHere]
    · rintro ⟨same, fits⟩
      obtain ⟨⟨o, ho, hc⟩, fits⟩ := List.forall_mem_cons.mp fits
      refine ⟨o, options_of_same inTurn same ▸ ho, fun i hi => ?_, fits⟩
      by_cases h : j.id = i
      · rw [← h, hc, getElem?_assign_self freshHere]
      · rw [getElem?_assign_of_ne h]
        exact same i (List.forall_mem_cons.mpr ⟨h, hi⟩)

end

end EntityQuery.Evaluator
