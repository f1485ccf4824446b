import EntityQuery.Proofs.Pager

/-!
# Pagers do not contradict themselves

The page of a pager is the one in which its offset lies (`Consistent`), and its offset is that of
its page unless the offset has been asked for by itself (`Aligned`). Whatever calls a pager goes
through, this stays so, which is what `InOrder` says of a pager and the last of its calls that has
succeeded: a page and a size are asked for together with the offset that they have, and an offset
with its page.

A pager in order is left in order by each call (`InOrder.turn`), and it is made in order
(`Origin.aligned`); so **it is in order after any calls** (`Aligned.inOrder_turned`).
-/

namespace EntityQuery.Pager

variable {p p' : Pager} {page size offset : Nat}

/-! ## Consistent pagers -/

/-- The parts of the pager agree with each other and with what a store takes. -/
structure Consistent (p : Pager) : Prop where
  page_fits : p.page < UInt64.size
  size_fits : p.size < UInt64.size
  first_le : p.firstPage ≤ p.page
  offset_le : p.offset ≤ maxOffset
  page_eq : 0 < p.size → p.page = p.firstPage + p.offset / p.size

/-- The pager is consistent, and its offset is that of its page. -/
structure Aligned (p : Pager) : Prop extends Consistent p where
  offset_eq : p.offset = (p.page - p.firstPage) * p.size

theorem firstPage_le_one (p : Pager) : p.firstPage ≤ 1 := by
  unfold firstPage
  split <;> omega

theorem maxOffset_add_one_lt : maxOffset + 1 < UInt64.size := by decide

theorem aligned_of_offset_eq (page_fits : p.page < UInt64.size) (size_fits : p.size < UInt64.size)
    (first_le : p.firstPage ≤ p.page) (small : p.offset ≤ maxOffset)
    (offset_eq : p.offset = (p.page - p.firstPage) * p.size) : p.Aligned := by
  refine ⟨⟨page_fits, size_fits, first_le, small, fun positive => ?_⟩, offset_eq⟩
  rw [offset_eq, Nat.mul_div_cancel _ positive]
  omega

/-- A pager with another sort order, or that does not count, is aligned as it was. -/
theorem Aligned.of_same (h : p.Aligned) (sort : List SortKey) (countEnabled : Bool) :
    Aligned { p with sort := sort, countEnabled := countEnabled } :=
  aligned_of_offset_eq h.page_fits h.size_fits h.first_le h.offset_le h.offset_eq

/-! ## One call -/

theorem aligned_of_setPage (fits : page < UInt64.size) (size_fits : p.size < UInt64.size)
    (h : p.setPage page = .ok p') : p'.Aligned := by
  obtain ⟨small, rfl⟩ := setPage_eq_ok_iff.mp h
  have one := p.firstPage_le_one
  have counted : max page p.firstPage - p.firstPage = page - p.firstPage := by omega
  refine aligned_of_offset_eq ?_ size_fits (Nat.le_max_right ..) small ?_
  · show max page p.firstPage < UInt64.size
    have : 1 < UInt64.size := by decide
    omega
  · exact congrArg (· * p.size) counted.symm

theorem Consistent.aligned_of_setSize (before : p.Consistent) (fits : size < UInt64.size)
    (h : p.setSize size = .ok p') : p'.Aligned := by
  obtain ⟨small, rfl⟩ := setSize_eq_ok_iff.mp h
  exact aligned_of_offset_eq before.page_fits fits before.first_le small rfl

theorem Consistent.of_setOffset (before : p.Consistent) (h : p.setOffset offset = .ok p') :
    p'.Consistent := by
  obtain ⟨small, rfl⟩ := setOffset_eq_ok_iff.mp h
  have one := p.firstPage_le_one
  have room := maxOffset_add_one_lt
  have quotient := Nat.div_le_self offset p.size
  refine ⟨?_, before.size_fits, Nat.le_add_left .., small, fun _ => Nat.add_comm ..⟩
  show offset / p.size + p.firstPage < UInt64.size
  omega

/-- The last page that can be reached is taken in place of one that is too far. -/
theorem aligned_moveTo (p : Pager) (fits : page < UInt64.size) (size_fits : p.size < UInt64.size) :
    (p.moveTo page).Aligned := by
  unfold moveTo
  cases moved : p.setPage page with
  | ok p' => exact aligned_of_setPage fits size_fits moved
  | error e =>
    -- A page of size zero is never too far.
    have positive : 0 < p.size := by
      rcases Nat.eq_zero_or_pos p.size with zero | positive
      · have small : (page - p.firstPage) * p.size ≤ maxOffset := by simp [zero]
        cases moved.symm.trans (setPage_eq_ok_iff.mpr ⟨small, rfl⟩)
      · exact positive
    have small := Nat.div_mul_le_self maxOffset p.size
    have last : p.firstPage + maxOffset / p.size - p.firstPage = maxOffset / p.size :=
      Nat.add_sub_cancel_left ..
    have reached : p.offsetFor? (p.firstPage + maxOffset / p.size) p.size =
        some (maxOffset / p.size * p.size) := by
      unfold offsetFor?
      rw [last]
      exact if_pos small
    dsimp only
    rw [Nat.max_eq_left positive, reached]
    refine aligned_of_offset_eq ?_ size_fits (Nat.le_add_right ..) small ?_
    · show p.firstPage + maxOffset / p.size < UInt64.size
      have one := p.firstPage_le_one
      have room := maxOffset_add_one_lt
      have quotient := Nat.div_le_self maxOffset p.size
      omega
    · exact congrArg (· * p.size) last.symm

/-! ## Calls in turn -/

/-- A call that changes a pager. -/
inductive Move where
  | page (n : UInt64)
  | size (n : UInt64)
  | offset (n : UInt64)

/-- The pager after the call, if the call succeeds. -/
def Move.applyTo (p : Pager) : Move → Except Error Pager
  | .page n => p.setPage n.toNat
  | .size n => p.setSize n.toNat
  | .offset n => p.setOffset n.toNat

/-- The pager after a call, with the last call that has succeeded. -/
def turn (x : Pager × Option Move) (m : Move) : Pager × Option Move :=
  match m.applyTo x.1 with
  | .ok p => (p, some m)
  | .error _ => x

/-- The pager after calls in turn, with the last of them that has succeeded. -/
def turned (p : Pager) (moves : List Move) : Pager × Option Move := moves.foldl turn (p, none)

/-- The pager is consistent, and aligned unless the last call that succeeded asked for an offset. -/
structure InOrder (x : Pager × Option Move) : Prop where
  consistent : x.1.Consistent
  aligned : (∀ n, x.2 ≠ some (.offset n)) → x.1.Aligned

theorem Consistent.inOrder (before : p.Consistent) {m : Move} (h : m.applyTo p = .ok p') :
    InOrder (p', some m) := by
  cases m with
  | page n =>
    have after := aligned_of_setPage n.toNat_lt before.size_fits h
    exact ⟨after.toConsistent, fun _ => after⟩
  | size n =>
    have after := before.aligned_of_setSize n.toNat_lt h
    exact ⟨after.toConsistent, fun _ => after⟩
  | offset n => exact ⟨before.of_setOffset h, fun other => absurd rfl (other n)⟩

theorem InOrder.turn {x : Pager × Option Move} (h : InOrder x) (m : Move) :
    InOrder (turn x m) := by
  unfold Pager.turn
  cases done : m.applyTo x.1 with
  | ok p => exact h.consistent.inOrder done
  | error e => exact h

theorem Aligned.inOrder_turned (h : p.Aligned) (moves : List Move) : InOrder (p.turned moves) := by
  have fold (x : Pager × Option Move) (before : InOrder x) :
      InOrder (moves.foldl Pager.turn x) := by
    induction moves generalizing x with
    | nil => exact before
    | cons m moves ih => exact ih _ (before.turn m)
  exact fold _ ⟨h.toConsistent, fun _ => h⟩

/-! ## Making a pager -/

/-- A way to make a pager. -/
inductive Origin where
  | atPage (page size : UInt64) (zeroBased : Bool)
  | ofSettings (c : Settings)
  | ofItems (items : List (String × String)) (c : Settings)

/-- The pager that is made, if there is one. -/
def Origin.make : Origin → Except Error Pager
  | .atPage page size zeroBased => .ok (.atPage page.toNat size.toNat zeroBased)
  | .ofSettings c => .ok (.ofSettings c)
  | .ofItems items c => Pager.ofItems items c

/-- A page size that comes from settings is a number of 64 bits. -/
def Origin.Fits : Origin → Prop
  | .atPage .. => True
  | .ofSettings c | .ofItems _ c => c.defaultPageSize < UInt64.size

theorem natural?_lt {s : List Char} {n : Nat} (h : Decimal.natural? s = some n) :
    n < UInt64.size :=
  of_decide_eq_true (Option.filter_eq_some_iff.mp h).2

theorem aligned_ofSettings {c : Settings} (fits : c.defaultPageSize < UInt64.size) :
    (ofSettings c).Aligned := by
  have one := (ofSettings c).firstPage_le_one
  have start : (ofSettings c).page = (ofSettings c).firstPage := rfl
  refine aligned_of_offset_eq ?_ fits (Nat.le_refl _) (Nat.zero_le _) ?_
  · have : 1 < UInt64.size := by decide
    omega
  · rw [start, Nat.sub_self, Nat.zero_mul]
    rfl

theorem Aligned.takeItem {asked asked' : Option Nat} {item : String × String} (before : p.Aligned)
    (fits : ∀ n ∈ asked, n < UInt64.size) (h : takeItem (p, asked) item = .ok (p', asked')) :
    p'.Aligned ∧ ∀ n ∈ asked', n < UInt64.size := by
  unfold Pager.takeItem at h
  dsimp only at h
  split at h
  · cases h
    exact ⟨before, fits⟩
  · split at h
    · next n read =>
      cases h
      refine ⟨before, ?_⟩
      rintro _ ⟨⟩
      exact natural?_lt read
    · cases h
  · split at h
    · cases h
    · cases h
    · next read =>
      obtain ⟨_, resized, h⟩ := bind_eq_ok.mp h
      cases h
      exact ⟨before.aligned_of_setSize (natural?_lt read) resized, fits⟩
  · obtain ⟨keys, -, h⟩ := bind_eq_ok.mp h
    cases h
    exact ⟨before.of_same _ _, fits⟩
  · split at h
    · cases h
      exact ⟨before.of_same _ _, fits⟩
    · cases h

theorem Aligned.takeItems {items : List (String × String)} {asked asked' : Option Nat}
    (before : p.Aligned) (fits : ∀ n ∈ asked, n < UInt64.size)
    (h : items.foldlM Pager.takeItem (p, asked) = .ok (p', asked')) :
    p'.Aligned ∧ ∀ n ∈ asked', n < UInt64.size := by
  induction items generalizing p asked with
  | nil =>
    cases h
    exact ⟨before, fits⟩
  | cons item items ih =>
    obtain ⟨⟨p₁, asked₁⟩, taken, rest⟩ := bind_eq_ok.mp (List.foldlM_cons.symm.trans h)
    obtain ⟨after, fits⟩ := before.takeItem fits taken
    exact ih after fits rest

theorem Origin.aligned {o : Origin} (fits : o.Fits) (h : o.make = .ok p) : p.Aligned := by
  cases o with
  | atPage page size zeroBased =>
    cases h
    exact aligned_moveTo _ page.toNat_lt size.toNat_lt
  | ofSettings c =>
    cases h
    exact aligned_ofSettings fits
  | ofItems items c =>
    obtain ⟨⟨read, asked⟩, taken, h⟩ := bind_eq_ok.mp h
    obtain ⟨before, small⟩ := (aligned_ofSettings fits).takeItems (by simp) taken
    cases asked with
    | none =>
      cases h
      exact before
    | some page =>
      dsimp only at h
      split at h
      · cases h
      · exact aligned_of_setPage (small page rfl) before.size_fits h

end EntityQuery.Pager
