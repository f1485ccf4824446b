import EntityQuery.Pager
import EntityQuery.Proofs.Outcome

/-!
# Pagers

A pager is made by one of the constructors and then changed by setters. The setters refuse an offset
that no store takes (`setPage_eq_ok_iff`, `setSize_eq_ok_iff`, `setOffset_eq_ok_iff`) and the
constructors stop at the last page that can be reached. A call that fails leaves the pager as it
was. So **no pager that a program can have** (`Pager.Reachable`) **asks for an offset beyond
`Pager.maxOffset`** (`Reachable.offset_le`); the proof goes by the constructors and setters, one
lemma for each.
-/

namespace EntityQuery.Pager

variable {p p' : Pager} {page size offset : Nat}

/-! ## One change -/

theorem offsetFor?_eq_some (h : p.offsetFor? page size = some offset) : offset ≤ maxOffset := by
  unfold offsetFor? at h
  dsimp only at h
  split at h
  · next small =>
    cases h
    exact small
  · cases h

/-- A page can be asked for if its offset is one that a store takes. -/
theorem setPage_eq_ok_iff : p.setPage page = .ok p' ↔
    (page - p.firstPage) * p.size ≤ maxOffset ∧
      p' = { p with page := max page p.firstPage, offset := (page - p.firstPage) * p.size } := by
  have counted : max page p.firstPage - p.firstPage = page - p.firstPage := by omega
  unfold setPage offsetFor?
  dsimp only
  rw [counted]
  by_cases small : (page - p.firstPage) * p.size ≤ maxOffset
  · simp [small, eq_comm]
  · simp [small]

/-- A size can be asked for if the page that the pager is at has an offset that a store takes. -/
theorem setSize_eq_ok_iff : p.setSize size = .ok p' ↔
    (p.page - p.firstPage) * size ≤ maxOffset ∧
      p' = { p with size := size, offset := (p.page - p.firstPage) * size } := by
  unfold setSize offsetFor?
  dsimp only
  by_cases small : (p.page - p.firstPage) * size ≤ maxOffset
  · simp [small, eq_comm]
  · simp [small]

theorem setOffset_eq_ok_iff : p.setOffset offset = .ok p' ↔
    offset ≤ maxOffset ∧
      p' = { p with page := offset / p.size + p.firstPage, offset := offset } := by
  unfold setOffset
  by_cases large : offset > maxOffset
  · simp [large, Nat.not_le.mpr large]
  · simp [large, Nat.not_lt.mp large, eq_comm]

theorem offset_le_of_setPage (h : p.setPage page = .ok p') : p'.offset ≤ maxOffset := by
  obtain ⟨small, rfl⟩ := setPage_eq_ok_iff.mp h
  exact small

theorem offset_le_of_setSize (h : p.setSize size = .ok p') : p'.offset ≤ maxOffset := by
  obtain ⟨small, rfl⟩ := setSize_eq_ok_iff.mp h
  exact small

theorem offset_le_of_setOffset (h : p.setOffset offset = .ok p') : p'.offset ≤ maxOffset := by
  obtain ⟨small, rfl⟩ := setOffset_eq_ok_iff.mp h
  exact small

theorem offset_moveTo_le (p : Pager) (page : Nat) : (p.moveTo page).offset ≤ maxOffset := by
  unfold moveTo
  split
  · next moved => exact offset_le_of_setPage moved
  · dsimp only
    cases known : p.offsetFor? (p.firstPage + maxOffset / max p.size 1) p.size with
    | none => exact Nat.le_refl _
    | some offset => exact offsetFor?_eq_some known

/-! ## Page requests -/

theorem offset_le_of_takeItem {asked asked' : Option Nat} {item : String × String}
    (small : p.offset ≤ maxOffset) (h : takeItem (p, asked) item = .ok (p', asked')) :
    p'.offset ≤ maxOffset := by
  unfold takeItem at h
  dsimp only at h
  split at h
  · cases h
    exact small
  · split at h
    · cases h
      exact small
    · cases h
  · split at h
    · cases h
    · cases h
    · obtain ⟨resized, hresized, h⟩ := bind_eq_ok.mp h
      cases h
      exact offset_le_of_setSize hresized
  · obtain ⟨keys, -, h⟩ := bind_eq_ok.mp h
    cases h
    exact small
  · split at h
    · cases h
      exact small
    · cases h

theorem offset_le_of_takeItems {items : List (String × String)} {asked asked' : Option Nat}
    (small : p.offset ≤ maxOffset) (h : items.foldlM takeItem (p, asked) = .ok (p', asked')) :
    p'.offset ≤ maxOffset := by
  induction items generalizing p asked with
  | nil =>
    cases h
    exact small
  | cons item items ih =>
    obtain ⟨⟨p₁, asked₁⟩, taken, rest⟩ := bind_eq_ok.mp (List.foldlM_cons.symm.trans h)
    exact ih (offset_le_of_takeItem small taken) rest

theorem offset_le_of_ofItems {items : List (String × String)} {c : Settings}
    (h : ofItems items c = .ok p) : p.offset ≤ maxOffset := by
  obtain ⟨⟨read, asked⟩, taken, h⟩ := bind_eq_ok.mp h
  have small := offset_le_of_takeItems (Nat.zero_le maxOffset) taken
  cases asked with
  | none =>
    cases h
    exact small
  | some page =>
    dsimp only at h
    split at h
    · cases h
    · exact offset_le_of_setPage h

/-! ## Pagers as a program has them -/

/-- The pager comes from a constructor by changes that succeed; one that fails leaves the pager as
it was. -/
inductive Reachable : Pager → Prop
  | atPage (page size : Nat) (zeroBased : Bool) : Reachable (atPage page size zeroBased)
  | ofSettings (c : Settings) : Reachable (ofSettings c)
  | ofItems {items : List (String × String)} {c : Settings} {p : Pager}
      (read : ofItems items c = .ok p) : Reachable p
  | setPage {p p' : Pager} {page : Nat} (before : Reachable p) (turned : p.setPage page = .ok p') :
      Reachable p'
  | setSize {p p' : Pager} {size : Nat} (before : Reachable p)
      (resized : p.setSize size = .ok p') : Reachable p'
  | setOffset {p p' : Pager} {offset : Nat} (before : Reachable p)
      (moved : p.setOffset offset = .ok p') : Reachable p'
  | withSort {p : Pager} (before : Reachable p) (sort : List SortKey) : Reachable (p.withSort sort)
  | withCount {p : Pager} (before : Reachable p) (enabled : Bool) :
      Reachable (p.withCount enabled)

theorem Reachable.offset_le (h : p.Reachable) : p.offset ≤ maxOffset := by
  induction h with
  | atPage page size zeroBased => exact offset_moveTo_le _ page
  | ofSettings => exact Nat.zero_le _
  | ofItems read => exact offset_le_of_ofItems read
  | setPage _ turned => exact offset_le_of_setPage turned
  | setSize _ resized => exact offset_le_of_setSize resized
  | setOffset _ moved => exact offset_le_of_setOffset moved
  | withSort _ _ ih => exact ih
  | withCount _ _ ih => exact ih

end EntityQuery.Pager
