import EntityQuery.Proofs.Fetch.Completeness
import EntityQuery.Proofs.Path.Segments

/-!
# Plans as forests

A fetch plan is written as a forest: fields beside one another, each with the fields below it
(`Forest`). A plan keeps no forest but a list of fetches, each under the path of the fields above
it. If no two fields beside one another have the same name (`Forest.Distinct`), nothing is lost by
that: **under each path the plan has the fields that stand there in the forest** (`fetchesAt_plan`),
**and its paths are those below which there are fields** (`mem_paths_plan`).

Fields are entered into a plan one by one, in the order of the text, and a field can be refused. **A
forest is entered whole or not at all** (`enter_eq_some_iff`): refused are orders that are asked for
of all targets (`Sortable`), and second fetches of an association, which are the fields that have a
name and names above them in common with another one (`nodup_keys_iff`).
-/

namespace EntityQuery.FetchPlan

open EntityQuery.Path (IsSegment ofSegments steps)

/-! ## Fields -/

/-- What is said between square brackets after the name of a field. -/
inductive Mark where
  /-- There are no brackets. -/
  | plain
  | collection
  /-- The targets between two positions, counted from one, or all from the first on. -/
  | bounded (first : Nat) (last : Option Nat)
deriving DecidableEq

/-- A field of a written plan. -/
structure Field where
  name : String
  mark : Mark
  /-- The order between parentheses, empty where there are none. -/
  sorting : List SortKey
deriving DecidableEq

namespace Field

def isBounded (f : Field) : Bool :=
  match f.mark with
  | .bounded _ _ => true
  | _ => false

/-- The fetch that the field stands for. -/
def fetch (f : Field) : Fetch :=
  match f.mark with
  | .plain => .join f.name
  | .collection => .joinCollection f.name
  | .bounded first last => ⟨f.name, .query (first - 1) (last.map (· - first + 1)) f.sorting⟩

/-- An order is asked for only of the targets between two positions. -/
def Sortable (f : Field) : Prop := f.isBounded = true ∨ f.sorting = []

instance (f : Field) : Decidable f.Sortable := inferInstanceAs (Decidable (_ ∨ _))

@[simp] theorem name_fetch (f : Field) : f.fetch.name = f.name := by
  unfold fetch
  split <;> rfl

@[simp] theorem isQuery_fetch (f : Field) : f.fetch.isQuery = f.isBounded := by
  obtain ⟨name, mark, sorting⟩ := f
  cases mark <;> rfl

end Field

/-! ## Forests -/

/-- Fields beside one another, each with those below it. -/
inductive Forest where
  | nil
  | cons (f : Field) (inner rest : Forest)
deriving DecidableEq

namespace Forest

/-- The fields that stand at the top. -/
def fields : Forest → List Field
  | nil => []
  | cons f _ rest => f :: rest.fields

/-- The forest under the field to which the names lead. -/
def under : Forest → List String → Forest
  | F, [] => F
  | nil, _ :: _ => nil
  | cons f inner rest, name :: names =>
    if f.name = name then inner.under names else rest.under (name :: names)

/-- All fields, each with the names of those above it, in the order of the text. -/
def nodes : Forest → List String → List (List String × Field)
  | nil, _ => []
  | cons f inner rest, above =>
    (above, f) :: (inner.nodes (above ++ [f.name]) ++ rest.nodes above)

/-- Each field has the property. -/
def All (P : Field → Prop) : Forest → Prop
  | nil => True
  | cons f inner rest => P f ∧ inner.All P ∧ rest.All P

/-- No two fields beside one another have the same name. -/
def Distinct : Forest → Prop
  | nil => True
  | cons f inner rest => f.name ∉ rest.fields.map (·.name) ∧ inner.Distinct ∧ rest.Distinct

variable {F : Forest} {above names : List String}

@[simp] theorem under_nil (F : Forest) : F.under [] = F := by
  cases F <;> rfl

@[simp] theorem nil_under (names : List String) : nil.under names = nil := by
  cases names <;> rfl

theorem under_append (F : Forest) (names names' : List String) :
    F.under (names ++ names') = (F.under names).under names' := by
  induction F generalizing names with
  | nil => simp
  | cons f inner rest ihInner ihRest =>
    cases names with
    | nil => simp
    | cons name names =>
      rw [List.cons_append, under, under]
      split
      · exact ihInner names
      · exact ihRest (name :: names)

theorem fields_eq_nil_iff : F.fields = [] ↔ F = nil := by
  cases F <;> simp [fields]

/-- A field stands at the top, or below a field that does. -/
theorem mem_nodes {n : List String × Field} (h : n ∈ F.nodes above) :
    (n.1 = above ∧ n.2 ∈ F.fields) ∨ ∃ f ∈ F.fields, above ++ [f.name] <+: n.1 := by
  induction F generalizing above with
  | nil => cases h
  | cons f inner rest ihInner ihRest =>
    rcases List.mem_cons.mp h with rfl | h
    · exact .inl ⟨rfl, List.mem_cons_self⟩
    rcases List.mem_append.mp h with h | h
    · refine .inr ⟨f, List.mem_cons_self, ?_⟩
      rcases ihInner h with ⟨same, _⟩ | ⟨g, _, longer⟩
      · exact same ▸ List.prefix_refl _
      · exact (List.prefix_append _ _).trans longer
    · refine (ihRest h).imp (fun ⟨same, hn⟩ => ⟨same, List.mem_cons_of_mem _ hn⟩) ?_
      exact fun ⟨g, hg, longer⟩ => ⟨g, List.mem_cons_of_mem _ hg, longer⟩

theorem prefix_of_mem_nodes {n : List String × Field} (h : n ∈ F.nodes above) : above <+: n.1 := by
  rcases mem_nodes h with ⟨same, _⟩ | ⟨f, _, longer⟩
  · exact same ▸ List.prefix_refl _
  · exact (List.prefix_append _ _).trans longer

/-- The fields below one field have other names above them than those below another one. -/
theorem not_prefix_of_mem_nodes {n : List String × Field} {name : String}
    (other : name ∉ F.fields.map (·.name)) (h : n ∈ F.nodes above) : ¬ above ++ [name] <+: n.1 := by
  intro longer
  rcases mem_nodes h with ⟨same, _⟩ | ⟨f, hf, longer'⟩
  · have := longer.length_le
    simp [same] at this
  · have same := List.prefix_of_prefix_length_le longer longer' (by simp)
    have same := List.append_cancel_left (same.eq_of_length (by simp))
    exact other (List.mem_map.mpr ⟨f, hf, (List.singleton_inj.mp same).symm⟩)

theorem mem_nodes_top {n : List String × Field} (h : n ∈ F.nodes above) (top : n.1 = above) :
    n.2 ∈ F.fields := by
  rcases mem_nodes h with ⟨_, hn⟩ | ⟨f, _, longer⟩
  · exact hn
  · have := longer.length_le
    simp [top] at this

theorem mem_nodes_of_mem_fields {f : Field} (h : f ∈ F.fields) : (above, f) ∈ F.nodes above := by
  induction F with
  | nil => cases h
  | cons g inner rest _ ihRest =>
    rcases List.mem_cons.mp h with rfl | h
    · exact List.mem_cons_self
    · exact List.mem_cons_of_mem _ (List.mem_append_right _ (ihRest h))

/-- The names above a field are the names of fields. -/
theorem isSegment_of_mem_nodes (named : F.All fun f => IsSegment f.name)
    (habove : ∀ name ∈ above, IsSegment name) :
    ∀ n ∈ F.nodes above, ∀ name ∈ n.1, IsSegment name := by
  induction F generalizing above with
  | nil => nofun
  | cons f inner rest ihInner ihRest =>
    obtain ⟨hf, hinner, hrest⟩ := named
    have deeper : ∀ name ∈ above ++ [f.name], IsSegment name :=
      List.forall_mem_append.mpr ⟨habove, List.forall_mem_singleton.mpr hf⟩
    refine List.forall_mem_cons.mpr ⟨habove, List.forall_mem_append.mpr ⟨?_, ?_⟩⟩
    · exact ihInner hinner deeper
    · exact ihRest hrest habove

/-! ## Distinct names -/

/-- If names are distinct, a field is told apart from all others by its name and those above it. -/
theorem nodup_keys_iff (F : Forest) (above : List String) :
    ((F.nodes above).map fun n => (n.1, n.2.name)).Nodup ↔ F.Distinct := by
  induction F generalizing above with
  | nil => simp [nodes, Distinct]
  | cons f inner rest ihInner ihRest =>
    rw [nodes, List.map_cons, List.map_append, List.nodup_cons, List.nodup_append, ihInner, ihRest,
      Distinct]
    constructor
    · rintro ⟨new, distinctInner, distinctRest, _⟩
      refine ⟨fun twice => new (List.mem_append_right _ ?_), distinctInner, distinctRest⟩
      obtain ⟨g, hg, same⟩ := List.mem_map.mp twice
      exact List.mem_map.mpr ⟨(above, g), mem_nodes_of_mem_fields hg, by rw [same]⟩
    · rintro ⟨new, distinctInner, distinctRest⟩
      refine ⟨fun twice => ?_, distinctInner, distinctRest, ?_⟩
      · rcases List.mem_append.mp twice with h | h
        · obtain ⟨n, hn, same⟩ := List.mem_map.mp h
          have longer := (prefix_of_mem_nodes hn).length_le
          simp [(Prod.mk.inj same).1] at longer
        · obtain ⟨n, hn, same⟩ := List.mem_map.mp h
          obtain ⟨top, name⟩ := Prod.mk.inj same
          exact new (List.mem_map.mpr ⟨n.2, mem_nodes_top hn top, name⟩)
      · intro a ha b hb same
        obtain ⟨n, hn, rfl⟩ := List.mem_map.mp ha
        obtain ⟨m, hm, rfl⟩ := List.mem_map.mp hb
        exact not_prefix_of_mem_nodes new hm ((Prod.mk.inj same).1 ▸ prefix_of_mem_nodes hn)

/-- The fields with given names above them stand beside one another in the forest. -/
theorem filter_nodes (distinct : F.Distinct) (above names : List String) :
    (F.nodes above).filter (·.1 = above ++ names) =
      (F.under names).fields.map (above ++ names, ·) := by
  induction F generalizing above names with
  | nil => simp [nodes, fields]
  | cons f inner rest ihInner ihRest =>
    obtain ⟨new, distinctInner, distinctRest⟩ := distinct
    rw [nodes, List.filter_cons, List.filter_append]
    cases names with
    | nil =>
      have none : (inner.nodes (above ++ [f.name])).filter (·.1 = above ++ []) = [] := by
        refine List.filter_eq_nil_iff.mpr fun n hn same => ?_
        have longer := (prefix_of_mem_nodes hn).length_le
        simp [of_decide_eq_true same] at longer
      rw [none, ihRest distinctRest]
      simp [fields]
    | cons name names =>
      rw [if_neg (by simp), under]
      split
      · next here =>
        subst here
        have none : (rest.nodes above).filter (·.1 = above ++ f.name :: names) = [] := by
          refine List.filter_eq_nil_iff.mpr fun n hn same => ?_
          refine not_prefix_of_mem_nodes new hn ?_
          rw [of_decide_eq_true same, List.prefix_append_right_inj]
          exact List.cons_prefix_cons.mpr ⟨rfl, List.nil_prefix⟩
        have inside := ihInner distinctInner (above ++ [f.name]) names
        rw [List.append_assoc, List.singleton_append] at inside
        rw [none, List.append_nil, inside]
      · next other =>
        have none : (inner.nodes (above ++ [f.name])).filter (·.1 = above ++ name :: names) =
            [] := by
          refine List.filter_eq_nil_iff.mpr fun n hn same => other ?_
          have longer := prefix_of_mem_nodes hn
          rw [of_decide_eq_true same, List.prefix_append_right_inj] at longer
          exact (List.cons_prefix_cons.mp longer).1
        rw [none, List.nil_append, ihRest distinctRest]

end Forest

/-! ## Paths -/

theorem steps_ofSegments {names : List String} (h : ∀ name ∈ names, IsSegment name) :
    steps (ofSegments names) = names := by
  cases names with
  | nil => rfl
  | cons name names =>
    have ne : ofSegments (name :: names) ≠ "" :=
      mt (Path.ofSegments_eq_empty_iff h).mp (List.cons_ne_nil _ _)
    rw [steps, if_neg (by simpa using ne), Path.segments_ofSegments h (List.cons_ne_nil _ _)]

theorem ofSegments_steps {path : String} (h : "" ∉ steps path) :
    ofSegments (steps path) = path := by
  unfold steps at h ⊢
  split at h
  · next empty => rw [if_pos empty, Path.ofSegments_nil, String.isEmpty_iff.mp empty]
  · next proper => rw [if_neg proper, Path.ofSegments_segments h]

/-- The path of given names is determined by its steps. -/
theorem ofSegments_eq_iff {names : List String} (h : ∀ name ∈ names, IsSegment name)
    {path : String} : ofSegments names = path ↔ names = steps path := by
  constructor
  · rintro rfl
    exact (steps_ofSegments h).symm
  · rintro rfl
    exact ofSegments_steps fun empty => (h "" empty).1 rfl

theorem nodup_eraseDups (paths : List String) : paths.eraseDups.Nodup := by
  induction hn : paths.length using Nat.strong_induction_on generalizing paths with
  | _ n ih =>
    cases paths with
    | nil => exact List.nodup_nil
    | cons path paths =>
      have shorter : (paths.filter fun other => !other == path).length < n := by
        rw [← hn, List.length_cons]
        exact Nat.lt_succ_of_le (List.length_filter_le _ _)
      rw [List.eraseDups_cons, List.nodup_cons]
      exact ⟨by simp, ih _ shorter _ rfl⟩

theorem nodup_paths (p : FetchPlan) : p.paths.Nodup :=
  (List.mergeSort_perm _ _).nodup_iff.mpr (nodup_eraseDups _)

namespace Forest

variable {F : Forest}

/-! ## The plan of a forest -/

/-- The fetches of the fields, each under the path of the fields above it. -/
def entries (F : Forest) (above : List String) : List (String × Fetch) :=
  (F.nodes above).map fun n => (ofSegments n.1, n.2.fetch)

/-- The plan that holds the fields of the forest. -/
def plan (F : Forest) : FetchPlan := ⟨F.entries []⟩

section

variable (named : F.All fun f => IsSegment f.name)

include named

theorem filter_path (path : String) :
    (F.nodes []).filter (fun n => ofSegments n.1 = path) =
      (F.nodes []).filter (·.1 = [] ++ steps path) := by
  refine List.filter_congr fun n hn => decide_eq_decide.mpr ?_
  exact ofSegments_eq_iff (isSegment_of_mem_nodes named (List.forall_mem_nil _) n hn)

/-- Under each path there are the fields that stand there, in the order of the text. -/
theorem fetchesAt_plan (distinct : F.Distinct) (query : Bool) (path : String) :
    F.plan.fetchesAt query path =
      ((F.under (steps path)).fields.filter (·.isBounded = query)).map Field.fetch := by
  have swap : ((F.nodes []).filter fun n => n.2.isBounded = query).filter
        (fun n => ofSegments n.1 = path) =
      ((F.nodes []).filter fun n => ofSegments n.1 = path).filter
        fun n => n.2.isBounded = query := by
    rw [List.filter_filter, List.filter_filter]
    exact List.filter_congr fun _ _ => Bool.and_comm ..
  unfold FetchPlan.fetchesAt FetchPlan.ofKind plan entries
  simp only [List.filter_map, Function.comp_def, Field.isQuery_fetch, List.map_map]
  rw [swap, filter_path named, filter_nodes distinct, List.filter_map, List.map_map]
  rfl

omit named in
theorem mem_paths_iff {path : String} :
    path ∈ F.plan.paths ↔ ∃ n ∈ F.nodes [], ofSegments n.1 = path := by
  unfold paths plan entries
  rw [Path.mem_ordered_iff, List.map_map]
  exact List.mem_map

theorem mem_paths_plan (distinct : F.Distinct) {path : String} :
    path ∈ F.plan.paths ↔ (F.under (steps path)).fields ≠ [] := by
  have entered : path ∈ F.plan.paths ↔
      (F.nodes []).filter (fun n => ofSegments n.1 = path) ≠ [] := by
    rw [mem_paths_iff, Ne, List.filter_eq_nil_iff]
    simp
  rw [entered, filter_path named, filter_nodes distinct, Ne, List.map_eq_nil_iff]

/-- What leads to a path comes before it. -/
theorem mem_before_of_paths_eq (distinct : F.Distinct) {before after : List String} {path : String}
    (split : F.plan.paths = before ++ path :: after) {init : List String}
    (leads : init <+: steps path) (proper : init ≠ steps path) : ofSegments init ∈ before := by
  have hpath : path ∈ F.plan.paths := by simp [split]
  have segments : ∀ name ∈ init, IsSegment name := by
    obtain ⟨n, hn, same⟩ := mem_paths_iff.mp hpath
    have names := isSegment_of_mem_nodes named (List.forall_mem_nil _) n hn
    rw [(ofSegments_eq_iff names).mp same] at names
    exact fun name h => names name (leads.subset h)
  have here : ofSegments init ∈ F.plan.paths := by
    rw [mem_paths_plan named distinct, steps_ofSegments segments]
    intro none
    -- Below nothing there is nothing.
    obtain ⟨rest, whole⟩ := leads
    refine (mem_paths_plan named distinct).mp hpath ?_
    rw [← whole, under_append, fields_eq_nil_iff.mp none, nil_under]
    rfl
  rw [split, List.mem_append, List.mem_cons] at here
  have sorted : F.plan.paths.Pairwise fun a b => Path.depth a ≤ Path.depth b :=
    Path.pairwise_depth_ordered _
  rw [split, List.pairwise_append, List.pairwise_cons] at sorted
  rcases here with here | same | later
  · exact here
  · exact absurd ((ofSegments_eq_iff segments).mp same) proper
  · have deep := sorted.2.1.1 _ later
    rw [← Path.length_steps, ← Path.length_steps, steps_ofSegments segments] at deep
    exact absurd (leads.eq_of_length_le deep) proper

end

/-! ## Entering a forest -/

/-- Enters the fields under a path, each with the fields below it; there is no plan if an order is
asked for of all targets, or an association is fetched twice. -/
def enter : Forest → String → FetchPlan → Option FetchPlan
  | nil, _, p => some p
  | cons f inner rest, parent, p =>
    if f.Sortable then do
      let p ← (p.add parent f.fetch).toOption
      let p ← inner.enter (Path.extend parent f.name) p
      rest.enter parent p
    else none

end Forest

/-- By what fetches are told apart. -/
def keys (p : FetchPlan) : List (String × String) := p.entries.map fun e => (e.1, e.2.name)

theorem toOption_add {p p' : FetchPlan} {parent : String} {f : Fetch} :
    (p.add parent f).toOption = some p' ↔
      (parent, f.name) ∉ p.keys ∧ p' = ⟨p.entries ++ [(parent, f)]⟩ := by
  have twice : (p.entries.any fun e => e.1 = parent ∧ e.2.name = f.name) = true ↔
      (parent, f.name) ∈ p.keys := by
    simp [keys, List.any_eq_true]
  unfold add
  by_cases h : (parent, f.name) ∈ p.keys
  · rw [if_pos (twice.mpr h)]
    simp [Except.toOption, h]
  · rw [if_neg (mt twice.mp h)]
    simp [Except.toOption, h, eq_comm]

/-- One more fetch is told apart from those before it if it is not among them. -/
theorem nodup_keys_concat {p : FetchPlan} {parent : String} {f : Fetch} :
    (keys ⟨p.entries ++ [(parent, f)]⟩).Nodup ↔ (parent, f.name) ∉ p.keys ∧ p.keys.Nodup := by
  rw [keys, List.map_append, List.map_singleton, ← List.concat_eq_append]
  exact List.nodup_concat _ _

theorem nodup_keys_of_append {es es' : List (String × Fetch)} (h : (keys ⟨es ++ es'⟩).Nodup) :
    (keys ⟨es⟩).Nodup := by
  rw [keys, List.map_append] at h
  exact h.of_append_left

namespace Forest

variable {F : Forest}

theorem entries_cons (f : Field) (inner rest : Forest) (above : List String) :
    (cons f inner rest).entries above =
      [(ofSegments above, f.fetch)] ++ inner.entries (above ++ [f.name]) ++ rest.entries above := by
  simp [entries, nodes]

/-- A forest is entered whole or not at all. -/
theorem enter_eq_some_iff {above : List String} {p p' : FetchPlan} (nodup : p.keys.Nodup) :
    F.enter (ofSegments above) p = some p' ↔
      F.All Field.Sortable ∧ p'.keys.Nodup ∧ p' = ⟨p.entries ++ F.entries above⟩ := by
  induction F generalizing above p p' with
  | nil =>
    have none : nil.entries above = [] := rfl
    rw [enter, Option.some.injEq, none, List.append_nil]
    constructor
    · rintro rfl
      exact ⟨trivial, nodup, rfl⟩
    · rintro ⟨_, _, rfl⟩
      rfl
  | cons f inner rest ihInner ihRest =>
    rw [enter, All]
    split
    · next sortable =>
      simp only [Option.bind_eq_bind, Option.bind_eq_some_iff, toOption_add, Field.name_fetch]
      rw [← Path.ofSegments_concat, entries_cons, ← List.append_assoc, ← List.append_assoc]
      constructor
      · rintro ⟨p₁, ⟨new, rfl⟩, p₂, inside, beside⟩
        have nodup₁ := nodup_keys_concat.mpr ⟨f.name_fetch ▸ new, nodup⟩
        obtain ⟨sortableInner, nodup₂, rfl⟩ := (ihInner nodup₁).mp inside
        obtain ⟨sortableRest, nodup', rfl⟩ := (ihRest nodup₂).mp beside
        exact ⟨⟨sortable, sortableInner, sortableRest⟩, nodup', rfl⟩
      · rintro ⟨⟨_, sortableInner, sortableRest⟩, nodup', rfl⟩
        have nodup₂ := nodup_keys_of_append nodup'
        have nodup₁ := nodup_keys_of_append nodup₂
        have new := f.name_fetch ▸ (nodup_keys_concat.mp nodup₁).1
        exact ⟨_, ⟨new, rfl⟩, _, (ihInner nodup₁).mpr ⟨sortableInner, nodup₂, rfl⟩,
          (ihRest nodup₂).mpr ⟨sortableRest, nodup', rfl⟩⟩
    · next unsortable =>
      constructor
      · nofun
      · rintro ⟨⟨sortable, _⟩, _⟩
        exact absurd sortable unsortable

theorem nodup_keys_plan (named : F.All fun f => IsSegment f.name) :
    F.plan.keys.Nodup ↔ F.Distinct := by
  have same : F.plan.keys =
      ((F.nodes []).map fun n => (n.1, n.2.name)).map fun k => (ofSegments k.1, k.2) := by
    simp [keys, plan, entries]
  rw [← nodup_keys_iff F [], same]
  refine ⟨List.Nodup.of_map _, fun nodup => nodup.map_on ?_⟩
  intro a ha b hb h
  obtain ⟨n, hn, rfl⟩ := List.mem_map.mp ha
  obtain ⟨m, hm, rfl⟩ := List.mem_map.mp hb
  have segments := isSegment_of_mem_nodes named (List.forall_mem_nil _)
  obtain ⟨path, name⟩ := Prod.mk.inj h
  exact Prod.ext (Path.ofSegments_inj (segments n hn) (segments m hm) path) name

theorem enter_empty_iff (named : F.All fun f => IsSegment f.name) {p : FetchPlan} :
    F.enter "" .empty = some p ↔ F.All Field.Sortable ∧ F.Distinct ∧ p = F.plan := by
  have none : FetchPlan.empty.keys.Nodup := List.nodup_nil
  have entered : F.enter (ofSegments []) .empty = some p ↔
      F.All Field.Sortable ∧ p.keys.Nodup ∧ p = F.plan := enter_eq_some_iff none
  rw [← nodup_keys_plan named]
  refine entered.trans (and_congr_right fun _ => ⟨?_, ?_⟩)
  · rintro ⟨nodup, rfl⟩
    exact ⟨nodup, rfl⟩
  · rintro ⟨nodup, rfl⟩
    exact ⟨nodup, rfl⟩

end Forest

end EntityQuery.FetchPlan
