import EntityQuery.Fetch.Loading
import Mathlib.Data.List.Forall2

/-!
# Records reached along a path

A record stands at a place: under a root of some number, after steps each of which goes along a
loaded association to the record of a number (`standing?`, `pathTo`). **What a path leads to is what
stands at the places to which it leads** (`mem_ownersAt_iff`).

Changing the records to which a path leads and then following the path is the same as following it
and then changing what it leads to (`ownersAt_traverseAt`). `Along` is the relation that such a
change leaves behind: the records differ in what the path leads to, and in nothing else. It is shown
for changes that hand something on from one record to the next (`Serves`, `serves_traverseAt`), as
loading does with its assignments (`forall₂_along_attach`), and from it follows that what lies on
the way stays loaded, and so does everything beside it (`Along.keeps`).
-/

namespace EntityQuery

variable {α σ : Type} {m : Type → Type} [Monad m]

namespace Loaded

variable [LawfulMonad m]

theorem records_traverse (f : α → m α) (l : Loaded α) :
    records <$> l.traverse f = l.records.mapM f := by
  rcases l with (_ | r) | rs
  · simp [traverse, records]
  · simp [traverse, records]
  · simp [traverse, records]

/-- As much has been loaded, and `R` relates the records in their order. -/
inductive Alike (R : α → α → Prop) : Loaded α → Loaded α → Prop
  | none : Alike R (one none) (one none)
  | one {r r' : α} (h : R r r') : Alike R (one (some r)) (one (some r'))
  | many {rs rs' : List α} (h : List.Forall₂ R rs rs') : Alike R (many rs) (many rs')

variable {R : α → α → Prop} {l l' : Loaded α}

theorem Alike.records (h : Alike R l l') : List.Forall₂ R l.records l'.records := by
  cases h with
  | none => exact .nil
  | one h => exact .cons h .nil
  | many h => exact h

theorem Alike.imp {R' : α → α → Prop} (himp : ∀ r r', R r r' → R' r r') (h : Alike R l l') :
    Alike R' l l' := by
  cases h with
  | none => exact .none
  | one h => exact .one (himp _ _ h)
  | many h => exact .many (h.imp himp)

theorem Alike.refl (h : ∀ r, R r r) (l : Loaded α) : Alike R l l := by
  rcases l with (_ | r) | rs
  · exact .none
  · exact .one (h r)
  · exact .many (List.forall₂_same.mpr fun r _ => h r)

theorem Alike.eq (h : Alike Eq l l') : l = l' := by
  cases h with
  | none => rfl
  | one h => rw [h]
  | many h =>
    rw [List.forall₂_eq_eq_eq] at h
    rw [h]

end Loaded

namespace Directory

theorem put_of_at? {d : Directory α} {name : String} {a : α} (h : d.at? name = some a) :
    d.put name a = d := by
  induction d with
  | nil => cases h
  | cons e d ih =>
    obtain ⟨n, b⟩ := e
    rw [at?_cons] at h
    by_cases hn : n = name
    · simp_all [put]
    · rw [if_neg (Ne.symm hn)] at h
      rw [put, if_neg hn, ih h]

end Directory

namespace Record

@[simp] theorem relation?_setRelation_self (r : Record) (attr : String) (l : Loaded Record) :
    (r.setRelation attr l).relation? attr = some l := Directory.at?_put_self ..

theorem relation?_setRelation_of_ne (r : Record) {attr other : String} (l : Loaded Record)
    (h : other ≠ attr) : (r.setRelation attr l).relation? other = r.relation? other :=
  Directory.at?_put_of_ne h

theorem setRelation_of_relation? {r : Record} {attr : String} {l : Loaded Record}
    (h : r.relation? attr = some l) : r.setRelation attr l = r := by
  obtain ⟨_, _, _, _, relations⟩ := r
  exact congrArg (Record.mk _ _ _ _) (Directory.put_of_at? h)

@[simp] theorem ownersAt_nil (path : List String) : ownersAt path [] = [] := by
  induction path with
  | nil => rfl
  | cons segment rest ih => exact ih

/-! ## Records at their places -/

/-- The record at a place below another one: each step goes along a loaded association to the record
of a number. -/
def member? : List (String × Nat) → Record → Option Record
  | [], r => some r
  | (attr, i) :: place, r => (r.related attr)[i]?.bind (member? place)

/-- The record at a place below the root of a number. -/
def standing? (roots : List Record) (i : Nat) (place : List (String × Nat)) : Option Record :=
  roots[i]?.bind (member? place)

/-- The path that leads to a place. -/
def pathTo (place : List (String × Nat)) : List String := place.map Prod.fst

theorem mem_ownersAt_iff_member? {path : List String} {roots : List Record} {o : Record} :
    o ∈ ownersAt path roots ↔ ∃ r ∈ roots, ∃ place, pathTo place = path ∧
      member? place r = some o := by
  induction path generalizing roots with
  | nil =>
    constructor
    · exact fun h => ⟨o, h, [], rfl, rfl⟩
    · rintro ⟨r, hr, place, here, found⟩
      cases List.map_eq_nil_iff.mp here
      cases found
      exact hr
  | cons segment rest ih =>
    rw [ownersAt, ih]
    constructor
    · rintro ⟨r', hr', place, along, found⟩
      obtain ⟨r, hr, hr'⟩ := List.mem_flatMap.mp hr'
      obtain ⟨i, hi⟩ := List.mem_iff_getElem?.mp hr'
      refine ⟨r, hr, (segment, i) :: place, congrArg (segment :: ·) along, ?_⟩
      rw [member?, hi, Option.bind_some, found]
    · rintro ⟨r, hr, place, along, found⟩
      obtain ⟨⟨_, i⟩, below, rfl, rfl, further⟩ := List.map_eq_cons_iff.mp along
      obtain ⟨r', hi, found⟩ := Option.bind_eq_some_iff.mp found
      exact ⟨r', List.mem_flatMap.mpr ⟨r, hr, List.mem_of_getElem? hi⟩, below, further, found⟩

/-- What a path leads to is what stands at the places to which it leads. -/
theorem mem_ownersAt_iff {path : List String} {roots : List Record} {o : Record} :
    o ∈ ownersAt path roots ↔ ∃ i place, pathTo place = path ∧
      standing? roots i place = some o := by
  rw [mem_ownersAt_iff_member?]
  constructor
  · rintro ⟨r, hr, place, along, found⟩
    obtain ⟨i, hi⟩ := List.mem_iff_getElem?.mp hr
    exact ⟨i, place, along, by rw [standing?, hi, Option.bind_some, found]⟩
  · rintro ⟨i, place, along, found⟩
    obtain ⟨r, hi, found⟩ := Option.bind_eq_some_iff.mp found
    exact ⟨r, List.mem_of_getElem? hi, place, along, found⟩

/-! ## Changing what a path leads to -/

section

variable [LawfulMonad m]

theorem related_traverseAt (f : Record → m Record) (segment : String) (rest : List String)
    (r : Record) :
    (·.related segment) <$> traverseAt f (segment :: rest) r =
      (r.related segment).mapM (traverseAt f rest) := by
  unfold traverseAt related
  cases h : r.relation? segment with
  | none => simp [h]
  | some l =>
    simp only [← Loaded.records_traverse, Option.map_some, Option.getD_some, bind_pure_comp,
      Functor.map_map, relation?_setRelation_self]

/-- What a path leads to after a change is what it led to, changed in the same order. -/
theorem ownersAt_traverseAt (f : Record → m Record) (path : List String) (roots : List Record) :
    ownersAt path <$> roots.mapM (traverseAt f path) = (ownersAt path roots).mapM f := by
  induction path generalizing roots with
  | nil => exact id_map _
  | cons segment rest ih =>
    -- The records behind the first segment change as the rest of the path says, owner by owner.
    have reached (records : List Record) :
        (List.flatMap (·.related segment)) <$> records.mapM (traverseAt f (segment :: rest)) =
          (records.flatMap (·.related segment)).mapM (traverseAt f rest) := by
      induction records with
      | nil => simp
      | cons r records ih =>
        rw [List.flatMap_cons, List.mapM_append, ← ih, ← related_traverseAt, List.mapM_cons]
        simp only [map_bind, bind_map_left, bind_pure_comp, Functor.map_map, List.flatMap_cons]
    rw [ownersAt, ← ih, ← reached, Functor.map_map]
    rfl

end

/-! ## What a change leaves as it is -/

/-- The records differ in what the path leads to, where `R` relates them, and in nothing else. -/
def Along (R : Record → Record → Prop) : List String → Record → Record → Prop
  | [], r, r' => R r r'
  | segment :: rest, r, r' =>
    match r.relation? segment with
    | none => r' = r
    | some l => ∃ l', l.Alike (Along R rest) l' ∧ r' = r.setRelation segment l'

theorem ownersAt_eq_flatMap (path : List String) (records : List Record) :
    ownersAt path records = records.flatMap fun r => ownersAt path [r] := by
  induction path generalizing records with
  | nil => exact (List.flatMap_singleton' records).symm
  | cons segment rest ih =>
    simp only [ownersAt, List.flatMap_singleton]
    rw [ih, List.flatMap_assoc]
    exact List.flatMap_congr fun r _ => (ih _).symm

section

variable {α β : Type} {R : β → β → Prop} {Q : List α → σ → Prop} {standing : β → List α}
  {f : β → StateM σ β}

/-- The action relates what it is given to what it makes of it, for a state that suits the records
that stand there and those still to come; the state that it leaves suits the latter. -/
def Serves (Q : List α → σ → Prop) (standing : β → List α) (R : β → β → Prop)
    (f : β → StateM σ β) : Prop :=
  ∀ b rest s, Q (standing b ++ rest) s → R b ((f b).run s).1 ∧ Q rest ((f b).run s).2

theorem Serves.mapM (h : Serves Q standing R f) :
    Serves Q (List.flatMap standing) (List.Forall₂ R) fun l => l.mapM f := by
  intro l
  induction l with
  | nil => exact fun rest s hs => ⟨.nil, hs⟩
  | cons b l ih =>
    intro rest s hs
    rw [List.flatMap_cons, List.append_assoc] at hs
    obtain ⟨hb, hs⟩ := h b _ s hs
    obtain ⟨hl, hs⟩ := ih rest _ hs
    dsimp only
    rw [List.mapM_cons]
    exact ⟨.cons hb hl, hs⟩

theorem Serves.traverse (h : Serves Q standing R f) :
    Serves Q (fun l => l.records.flatMap standing) (Loaded.Alike R) fun l => l.traverse f := by
  rintro ((_ | r) | rs) rest s hs
  · exact ⟨.none, hs⟩
  · have one : ([r] : List β).flatMap standing = standing r := List.flatMap_singleton ..
    obtain ⟨hr, hs⟩ := h r rest s (one ▸ hs)
    exact ⟨.one hr, hs⟩
  · obtain ⟨hrs, hs⟩ := h.mapM rs rest s hs
    exact ⟨.many hrs, hs⟩

end

variable {R : Record → Record → Prop} {Q : List Record → σ → Prop} {f : Record → StateM σ Record}

theorem serves_traverseAt (h : Serves Q (fun r => [r]) R f) (path : List String) :
    Serves Q (fun r => ownersAt path [r]) (Along R path) (traverseAt f path) := by
  induction path with
  | nil => exact h
  | cons segment rest ih =>
    intro r later s hs
    have here : ownersAt (segment :: rest) [r] = ownersAt rest (r.related segment) := by
      rw [ownersAt, List.flatMap_singleton]
    simp only [here, related] at hs
    unfold traverseAt Along
    cases hl : r.relation? segment with
    | none =>
      rw [hl, Option.map_none, Option.getD_none, ownersAt_nil] at hs
      exact ⟨rfl, hs⟩
    | some l =>
      rw [hl, Option.map_some, Option.getD_some, ownersAt_eq_flatMap] at hs
      obtain ⟨hl, hs⟩ := ih.traverse l later s hs
      exact ⟨⟨_, hl, rfl⟩, hs⟩

/-- Changing what a path leads to, from a state that suits it, relates the roots along the path. -/
theorem forall₂_along_of_serves (h : Serves Q (fun r => [r]) R f) {path : List String}
    {roots : List Record} {s : σ} (hs : Q (ownersAt path roots) s) :
    List.Forall₂ (Along R path) roots ((roots.mapM (traverseAt f path)).run s).1 := by
  rw [ownersAt_eq_flatMap, ← List.append_nil (roots.flatMap _)] at hs
  exact ((serves_traverseAt h path).mapM roots [] s hs).1

/-- Where nothing changes in what the path leads to, nothing changes. -/
theorem Along.eq {path : List String} {r r' : Record} (h : Along Eq path r r') : r = r' := by
  induction path generalizing r r' with
  | nil => exact h
  | cons segment rest ih =>
    unfold Along at h
    split at h
    · exact h.symm
    · next l hl =>
      obtain ⟨l', alike, rfl⟩ := h
      obtain rfl := (alike.imp fun _ _ => ih).eq
      exact (setRelation_of_relation? hl).symm

theorem Along.refl (h : ∀ r, R r r) (path : List String) (r : Record) : Along R path r r := by
  induction path generalizing r with
  | nil => exact h r
  | cons segment rest ih =>
    unfold Along
    split
    · rfl
    · next l hl => exact ⟨l, .refl ih l, (setRelation_of_relation? hl).symm⟩

/-- The records behind any association differ in what the rest of the path leads to, if at all. -/
theorem Along.related (h : ∀ r, R r r) {segment : String} {rest : List String} {r r' : Record}
    (along : Along R (segment :: rest) r r') (attr : String) :
    List.Forall₂ (Along R rest) (r.related attr) (r'.related attr) := by
  have same (l : List Record) : List.Forall₂ (Along R rest) l l :=
    List.forall₂_same.mpr fun r _ => Along.refl h rest r
  unfold Along at along
  split at along
  · rw [along]
    exact same _
  · next l hl =>
    obtain ⟨l', alike, rfl⟩ := along
    -- Only what stands under the segment is replaced, by something as long.
    unfold Record.related
    by_cases ha : attr = segment
    · rw [ha, relation?_setRelation_self, hl]
      exact alike.records
    · rw [relation?_setRelation_of_ne r l' ha]
      exact same _

/-- Whatever has been loaded stays loaded. -/
def Extends (r r' : Record) : Prop := ∀ attr, r.isLoaded attr → r'.isLoaded attr

/-- Whatever has been loaded stays loaded, also in the records reached in at most `depth` steps. -/
def Keeps : Nat → Record → Record → Prop
  | 0, r, r' => Extends r r'
  | depth + 1, r, r' =>
    Extends r r' ∧ ∀ attr, List.Forall₂ (Keeps depth) (r.related attr) (r'.related attr)

variable {r r' : Record} {depth : Nat}

theorem Extends.refl (r : Record) : Extends r r := fun _ h => h

theorem isLoaded_setRelation (r : Record) (attr : String) (l : Loaded Record) :
    (r.setRelation attr l).isLoaded attr = true := by
  rw [isLoaded, relation?_setRelation_self, Option.isSome_some]

theorem extends_setRelation (r : Record) (attr : String) (l : Loaded Record) :
    Extends r (r.setRelation attr l) := by
  intro other h
  by_cases ho : other = attr
  · rw [ho]
    exact isLoaded_setRelation r attr l
  · rwa [isLoaded, relation?_setRelation_of_ne r l ho]

theorem Keeps.extends (h : Keeps depth r r') : Extends r r' := by
  cases depth with
  | zero => exact h
  | succ depth => exact h.1

theorem Keeps.refl (depth : Nat) (r : Record) : Keeps depth r r := by
  induction depth generalizing r with
  | zero => exact Extends.refl r
  | succ depth ih => exact ⟨Extends.refl r, fun attr => List.forall₂_same.mpr fun r _ => ih r⟩

/-- Where loading relates a record to what becomes of it, a change along a path relates any two
records that it leaves in the same place. -/
theorem Along.self (h : ∀ r, R r r) (loads : ∀ r attr l, R r (r.setRelation attr l))
    {path : List String} (along : Along R path r r') : R r r' := by
  cases path with
  | nil => exact along
  | cons segment rest =>
    unfold Along at along
    split at along
    · rw [along]
      exact h r
    · obtain ⟨l', _, rfl⟩ := along
      exact loads r segment l'

/-- The change keeps whatever lies on the way to what it changes. -/
theorem Along.keeps {path : List String} (h : Along Extends path r r') :
    Keeps path.length r r' := by
  induction path generalizing r r' with
  | nil => exact h
  | cons segment rest ih =>
    refine ⟨h.self Extends.refl extends_setRelation, fun attr => ?_⟩
    exact (h.related Extends.refl attr).imp fun _ _ => ih

theorem forall₂_keeps_ownersAt {path : List String} (h : path.length ≤ depth)
    {roots roots' : List Record} (keeps : List.Forall₂ (Keeps depth) roots roots') :
    List.Forall₂ Extends (ownersAt path roots) (ownersAt path roots') := by
  induction path generalizing depth roots roots' with
  | nil => exact keeps.imp fun _ _ => Keeps.extends
  | cons segment rest ih =>
    cases depth with
    | zero => cases h
    | succ depth =>
      exact ih (Nat.le_of_succ_le_succ h) (List.rel_flatMap keeps fun _ _ h => h.2 segment)

/-! ## Loading onto what a path leads to -/

/-- The record with what is to be loaded onto it. -/
def assigned (attr : String) (r : Record) : Option (Loaded Record) → Record
  | none => r
  | some l => r.setRelation attr l

variable {attr : String} {path : List String} {assignments : Assignments} {roots : List Record}

theorem run_assignNext_cons (attr : String) (r : Record) (a : Option (Loaded Record))
    (rest : Assignments) :
    (assignNext attr r).run (a :: rest) = (assigned attr r a, rest) := by
  cases a <;> rfl

theorem run_mapM_assignNext (h : assignments.length = roots.length) :
    (roots.mapM (assignNext attr)).run assignments =
      (List.zipWith (assigned attr) roots assignments, []) := by
  induction roots generalizing assignments with
  | nil =>
    rw [List.length_eq_zero_iff.mp h]
    rfl
  | cons r roots ih =>
    cases assignments with
    | nil => cases h
    | cons a assignments =>
      rw [List.mapM_cons, StateT.run_bind, run_assignNext_cons]
      have rest := ih (Nat.succ.inj h)
      exact congrArg (fun p => (assigned attr r a :: p.1, p.2)) rest

/-- The owners take up the assignments in their order. -/
theorem ownersAt_attach (h : assignments.length = (ownersAt path roots).length) :
    ownersAt path (attach path attr assignments roots) =
      List.zipWith (assigned attr) (ownersAt path roots) assignments := by
  have reached := congrArg (fun x => (StateT.run x assignments).1)
    (ownersAt_traverseAt (assignNext attr) path roots)
  rw [run_mapM_assignNext h] at reached
  exact reached

/-- What is loaded onto what a path leads to changes nothing else. -/
theorem forall₂_along_attach (h : ∀ r, R r r) (loads : ∀ r l, R r (r.setRelation attr l))
    (path : List String) (assignments : Assignments) (roots : List Record) :
    List.Forall₂ (Along R path) roots (attach path attr assignments roots) := by
  have serves : Serves (fun _ _ => True) (fun r => [r]) R (assignNext attr) := by
    intro r _ assignments _
    rcases assignments with _ | ⟨_ | l, rest⟩
    · exact ⟨h r, trivial⟩
    · exact ⟨h r, trivial⟩
    · exact ⟨loads r l, trivial⟩
  exact forall₂_along_of_serves serves trivial

theorem forall₂_keeps_attach (path : List String) (attr : String) (assignments : Assignments)
    (roots : List Record) :
    List.Forall₂ (Keeps path.length) roots (attach path attr assignments roots) :=
  (forall₂_along_attach Extends.refl (extends_setRelation · attr) path assignments roots).imp
    fun _ _ => Along.keeps

/-- Where nothing is to be loaded, nothing changes. -/
theorem attach_of_forall_eq_none (h : ∀ a ∈ assignments, a = none) :
    attach path attr assignments roots = roots := by
  have same : Serves (fun _ as => ∀ a ∈ as, a = none) (fun r => [r]) Eq (assignNext attr) := by
    intro r _ assignments h
    cases assignments with
    | nil => exact ⟨rfl, h⟩
    | cons a rest =>
      obtain ⟨rfl, hrest⟩ := List.forall_mem_cons.mp h
      exact ⟨rfl, hrest⟩
  have unchanged : List.Forall₂ Eq roots (attach path attr assignments roots) :=
    (forall₂_along_of_serves same h).imp fun _ _ => Along.eq
  rw [List.forall₂_eq_eq_eq] at unchanged
  exact unchanged.symm

end Record

end EntityQuery
