import EntityQuery.Proofs.Pager.Consistency

/-!
# Pagers stay within their numbers

Pages, sizes and offsets are numbers of 64 bits. The computations in `Careful` change a pager field
by field, and have no outcome at all where such a number would be negative (`minus?`) or too large
(`plus?`). **They always have one, which is the pager of the plain computations**, with every field
in order (`inOrder_after_calls`): no page comes before the first, so that the difference of the two,
which is taken without a check, is never negative.

A computation that fails has not changed the pager yet. `Answers` says of a computation with which
value and pager, or in which error, it ends; each of the computations that make a pager answers as
the plain one does (`ofItems_answers`), and so does each call (`Consistent.carefully_eq`).
-/

namespace EntityQuery.Pager

variable {p p' : Pager} {page size offset : Nat}

/-- The difference of two numbers, unless it is negative. -/
def minus? (a b : Nat) : Option Nat := if b ≤ a then some (a - b) else none

/-- The sum of two numbers, unless it needs more than 64 bits. -/
def plus? (a b : Nat) : Option Nat := if a + b < UInt64.size then some (a + b) else none

/-- A computation that changes a pager field by field, may fail in between, and has no outcome where
a number is negative or too large. -/
abbrev Careful (α : Type) := ExceptT Error (StateT Pager Option) α

namespace Careful

/-- The offset of a page, if a store takes it. -/
def offsetFor? (page size : Nat) : Careful (Option Nat) := do
  let before ← minus? page (← get).firstPage
  let offset := before * size
  return if offset < UInt64.size ∧ offset ≤ maxOffset then some offset else none

/-- Goes to a page, or to the first one if the number is smaller. -/
def setPage (page : Nat) : Careful Unit := do
  let page := max page (← get).firstPage
  let size := (← get).size
  match ← offsetFor? page size with
  | none => throw (.invalidPager (.pageOutOfRange page size))
  | some offset =>
    modify ({ · with page := page })
    modify ({ · with offset := offset })

/-- Changes the size of the page and keeps its number. -/
def setSize (size : Nat) : Careful Unit := do
  let page := (← get).page
  match ← offsetFor? page size with
  | none => throw (.invalidPager (.pageOutOfRange page size))
  | some offset =>
    modify ({ · with size := size })
    modify ({ · with offset := offset })

/-- The page in which an offset lies; the first one if there is nothing on a page. -/
def pageAt? (p : Pager) (offset : Nat) : Option Nat :=
  if p.size = 0 then some p.firstPage else plus? (offset / p.size) p.firstPage

/-- Goes to an offset, and to the page in which it lies. -/
def setOffset (offset : Nat) : Careful Unit := do
  if offset > maxOffset then throw (.invalidPager (.offsetOutOfRange offset))
  else
    let page ← pageAt? (← get) offset
    modify ({ · with page := page })
    modify ({ · with offset := offset })

/-- Goes to a page, or to the last one that can be reached. -/
def moveTo (page : Nat) : Careful Unit := do
  try setPage page
  catch _ =>
    let last ← plus? (maxOffset / max (← get).size 1) (← get).firstPage
    modify ({ · with page := last })
    let offset ← offsetFor? last (← get).size
    modify ({ · with offset := offset.getD maxOffset })

/-- Goes to a page, after the pages are counted from zero if they are to be. -/
def atPage (page : Nat) (zeroBased : Bool) : Careful Unit := do
  if zeroBased then
    moveTo 1
    modify ({ · with zeroBased := true })
    moveTo page
  else moveTo page

/-- Goes to the first page, as the settings have it. -/
def ofSettings (c : Settings) : Careful Unit := do
  atPage (if c.zeroBasedPages then 0 else 1) c.zeroBasedPages
  modify ({ · with countEnabled := c.countByDefault })

/-- Takes one more item of a request, and gives the page asked for so far. -/
def takeItem (asked : Option Nat) (item : String × String) : Careful (Option Nat) :=
  let value := Text.trim item.2.toList
  let invalid (fault : String → PagerFault) : Careful (Option Nat) :=
    throw (.invalidPager (fault (String.ofList value)))
  match Parameter.ofName? item.1 with
  | none => return asked
  | some .page =>
    match Decimal.natural? value with
    | some n => return some n
    | none => invalid .invalidPage
  | some .size =>
    match Decimal.natural? value with
    | none => invalid .invalidSize
    | some 0 => throw (.invalidPager .sizeZero)
    | some n => do
      setSize n
      return asked
  | some .sort => do
    let keys ← SortKey.parse (String.ofList value)
    modify fun p => { p with sort := p.sort ++ keys }
    return asked
  | some .count =>
    match truth? value with
    | some b => do
      modify ({ · with countEnabled := b })
      return asked
    | none => invalid .invalidCount

/-- Goes to the page that a request asks for by its items. -/
def ofItems (items : List (String × String)) (c : Settings) : Careful Unit := do
  ofSettings c
  match ← items.foldlM takeItem none with
  | none => return
  | some page =>
    let first := (← get).firstPage
    if page < first then throw (.invalidPager (.pageBelow first)) else setPage page

/-! ## There is an outcome -/

variable {α β : Type} {x : Careful α} {f : α → Careful β} {a : α} {e : Error}

theorem bind_of_ok (h : x p = some (.ok a, p')) : (x >>= f) p = f a p' := by
  show (x p).bind _ = _
  rw [h]
  rfl

theorem bind_of_error (h : x p = some (.error e, p')) : (x >>= f) p = some (.error e, p') := by
  show (x p).bind _ = _
  rw [h]
  rfl

theorem lift_of_eq_some {o : Option α} (h : o = some a) :
    (liftM o : Careful α) p = some (.ok a, p) := by
  rw [h]
  rfl

theorem offsetFor?_eq (h : p.firstPage ≤ page) (size : Nat) :
    offsetFor? page size p = some (.ok (p.offsetFor? page size), p) := by
  have before : minus? page p.firstPage = some (page - p.firstPage) := if_pos h
  have room := maxOffset_add_one_lt
  have fits : (page - p.firstPage) * size < UInt64.size ∧
      (page - p.firstPage) * size ≤ maxOffset ↔ (page - p.firstPage) * size ≤ maxOffset := by
    omega
  refine (bind_of_ok (a := p) rfl).trans ((bind_of_ok (lift_of_eq_some before)).trans ?_)
  show some (Except.ok (if _ then _ else _), p) = _
  simp only [fits]
  rfl

theorem plus?_firstPage {n : Nat} (h : n ≤ maxOffset) (p : Pager) :
    plus? n p.firstPage = some (n + p.firstPage) := by
  have one := p.firstPage_le_one
  have room := maxOffset_add_one_lt
  exact if_pos (by omega)

/-- What a call leaves of a pager: it is as it was if the call fails. -/
def outcome (p : Pager) : Except Error Pager → Except Error Unit × Pager
  | .ok p' => (.ok (), p')
  | .error e => (.error e, p)

theorem setPage_eq (p : Pager) (page : Nat) :
    setPage page p = some (outcome p (p.setPage page)) := by
  refine (bind_of_ok (a := p) rfl).trans ((bind_of_ok (a := p) rfl).trans ?_)
  refine (bind_of_ok (offsetFor?_eq (Nat.le_max_right ..) p.size)).trans ?_
  unfold Pager.setPage
  dsimp only
  cases p.offsetFor? (max page p.firstPage) p.size <;> rfl

theorem setSize_eq (h : p.firstPage ≤ p.page) (size : Nat) :
    setSize size p = some (outcome p (p.setSize size)) := by
  refine (bind_of_ok (a := p) rfl).trans ((bind_of_ok (offsetFor?_eq h size)).trans ?_)
  unfold Pager.setSize
  cases p.offsetFor? p.page size <;> rfl

theorem setOffset_eq (p : Pager) (offset : Nat) :
    setOffset offset p = some (outcome p (p.setOffset offset)) := by
  unfold setOffset Pager.setOffset
  split
  · rfl
  · next small =>
    have quotient := Nat.le_trans (Nat.div_le_self offset p.size) (Nat.not_lt.mp small)
    have page : pageAt? p offset = some (offset / p.size + p.firstPage) := by
      unfold pageAt?
      split
      · next zero => simp [zero]
      · exact plus?_firstPage quotient p
    exact (bind_of_ok (a := p) rfl).trans (bind_of_ok (lift_of_eq_some page))

theorem modify_eq (f : Pager → Pager) : (modify f : Careful Unit) p = some (.ok (), f p) := rfl

theorem moveTo_eq (p : Pager) (page : Nat) : moveTo page p = some (.ok (), p.moveTo page) := by
  have tried := setPage_eq p page
  unfold moveTo Pager.moveTo
  show (setPage page p).bind _ = _
  rw [tried]
  cases p.setPage page with
  | ok p' => rfl
  | error e =>
    have quotient := plus?_firstPage (Nat.div_le_self maxOffset (max p.size 1)) p
    rw [Nat.add_comm] at quotient
    refine (bind_of_ok (a := p) rfl).trans ((bind_of_ok (a := p) rfl).trans ?_)
    refine (bind_of_ok (lift_of_eq_some quotient)).trans ((bind_of_ok (modify_eq _)).trans ?_)
    generalize maxOffset / max p.size 1 = n
    refine (bind_of_ok (a := { p with page := p.firstPage + n }) rfl).trans ?_
    exact (bind_of_ok (offsetFor?_eq (Nat.le_add_right ..) _)).trans (modify_eq _)

/-! ## Making a pager has an outcome -/

/-- The computation ends from this pager as told: with a value and a pager, or in an error. -/
def Answers (x : Careful α) (p : Pager) : Except Error (Pager × α) → Prop
  | .ok (p', a) => x p = some (.ok a, p')
  | .error e => ∃ p', x p = some (.error e, p')

theorem Answers.bind {r : Except Error (Pager × α)} {g : Pager × α → Except Error (Pager × β)}
    (first : Answers x p r) (next : ∀ p' a, r = .ok (p', a) → Answers (f a) p' (g (p', a))) :
    Answers (x >>= f) p (r >>= g) := by
  cases r with
  | error e =>
    obtain ⟨p', failed⟩ := first
    exact ⟨p', bind_of_error failed⟩
  | ok y =>
    have then_ := next y.1 y.2 rfl
    have opened : (x >>= f) p = f y.2 y.1 := bind_of_ok first
    show Answers (x >>= f) p (g y)
    unfold Answers at then_ ⊢
    rwa [opened]

theorem answers_of_outcome {x : Careful Unit} {r : Except Error Pager}
    (h : x p = some (outcome p r)) : Answers x p ((·, ()) <$> r) := by
  cases r with
  | error e => exact ⟨p, h⟩
  | ok p' => exact h

/-- A page does not depend on where the pager was before. -/
theorem moveTo_of_same (p : Pager) (n page : Nat) :
    Pager.moveTo { p with page := n } page = p.moveTo page := by rfl

theorem moveTo_first (size : Nat) (zeroBased : Bool) :
    (first size zeroBased).moveTo (first size zeroBased).page = first size zeroBased := by
  have start : (first size zeroBased).page = (first size zeroBased).firstPage := rfl
  have still : (first size zeroBased).setPage (first size zeroBased).page =
      .ok (first size zeroBased) := by
    refine setPage_eq_ok_iff.mpr ?_
    rw [start, Nat.sub_self, Nat.zero_mul, Nat.max_self]
    exact ⟨Nat.zero_le _, rfl⟩
  unfold Pager.moveTo
  rw [still]

theorem atPage_eq (page size : Nat) (zeroBased : Bool) :
    atPage page zeroBased (first size false) = some (.ok (), Pager.atPage page size zeroBased) := by
  cases zeroBased with
  | false => exact moveTo_eq _ page
  | true =>
    have start : moveTo 1 (first size false) = some (.ok (), first size false) :=
      (moveTo_eq _ 1).trans (congrArg (some <| Prod.mk _ ·) (moveTo_first size false))
    refine (bind_of_ok start).trans ((bind_of_ok (modify_eq _)).trans ((moveTo_eq _ page).trans ?_))
    exact congrArg (some <| Prod.mk _ ·) (moveTo_of_same (first size true) 1 page)

theorem ofSettings_eq (c : Settings) :
    ofSettings c (first c.defaultPageSize false) = some (.ok (), Pager.ofSettings c) := by
  have start : Pager.atPage (if c.zeroBasedPages then 0 else 1) c.defaultPageSize c.zeroBasedPages =
      first c.defaultPageSize c.zeroBasedPages := moveTo_first _ _
  refine (bind_of_ok (atPage_eq _ _ _)).trans ?_
  rw [start]
  exact modify_eq _

theorem takeItem_answers (h : p.firstPage ≤ p.page) (asked : Option Nat) (item : String × String) :
    Answers (takeItem asked item) p (Pager.takeItem (p, asked) item) := by
  unfold takeItem Pager.takeItem
  dsimp only
  cases Parameter.ofName? item.1 with
  | none => rfl
  | some parameter =>
    cases parameter with
    | page =>
      dsimp only
      cases Decimal.natural? (Text.trim item.2.toList) with
      | none => exact ⟨p, rfl⟩
      | some n => rfl
    | size =>
      dsimp only
      rcases Decimal.natural? (Text.trim item.2.toList) with _ | _ | n
      · exact ⟨p, rfl⟩
      · exact ⟨p, rfl⟩
      · have resized := (answers_of_outcome (setSize_eq h (n + 1))).bind
          (f := fun _ => pure asked) (g := fun y => pure (y.1, asked)) fun _ _ _ => rfl
        rwa [bind_map_left] at resized
    | sort =>
      dsimp only
      cases SortKey.parse (String.ofList (Text.trim item.2.toList)) with
      | error e => exact ⟨p, rfl⟩
      | ok keys => rfl
    | count =>
      dsimp only
      cases truth? (Text.trim item.2.toList) with
      | none => exact ⟨p, rfl⟩
      | some enabled => rfl

theorem takeItems_answers {asked : Option Nat} (before : p.Aligned)
    (fits : ∀ n ∈ asked, n < UInt64.size) (items : List (String × String)) :
    Answers (items.foldlM takeItem asked) p (items.foldlM Pager.takeItem (p, asked)) := by
  induction items generalizing p asked with
  | nil => rfl
  | cons item items ih =>
    rw [List.foldlM_cons, List.foldlM_cons]
    refine (takeItem_answers before.first_le asked item).bind fun p' asked' taken => ?_
    obtain ⟨after, fits⟩ := before.takeItem fits taken
    exact ih after fits

theorem ofItems_answers {c : Settings} (fits : c.defaultPageSize < UInt64.size)
    (items : List (String × String)) :
    Answers (ofItems items c) (first c.defaultPageSize false)
      ((·, ()) <$> Pager.ofItems items c) := by
  have start : Answers (ofSettings c) (first c.defaultPageSize false)
      (.ok (Pager.ofSettings c, ())) := ofSettings_eq c
  refine start.bind (g := fun _ => (·, ()) <$> Pager.ofItems items c) ?_
  rintro _ _ ⟨⟩
  have before := aligned_ofSettings fits
  unfold Pager.ofItems
  rw [map_bind]
  refine (takeItems_answers before (by simp) items).bind fun p asked taken => ?_
  cases asked with
  | none => rfl
  | some page =>
    show Answers (if page < p.firstPage then throw _ else setPage page) p
      ((·, ()) <$> if page < p.firstPage then .error _ else p.setPage page)
    split
    · exact ⟨p, rfl⟩
    · exact answers_of_outcome (setPage_eq p page)

end Careful

/-! ## All calls -/

/-- The call, field by field. -/
def Move.carefully : Move → Careful Unit
  | .page n => Careful.setPage n.toNat
  | .size n => Careful.setSize n.toNat
  | .offset n => Careful.setOffset n.toNat

theorem Consistent.carefully_eq (h : p.Consistent) (m : Move) :
    m.carefully p = some (Careful.outcome p (m.applyTo p)) := by
  cases m with
  | page n => exact Careful.setPage_eq p n.toNat
  | size n => exact Careful.setSize_eq h.first_le n.toNat
  | offset n => exact Careful.setOffset_eq p n.toNat

/-- The size of the pager that is made, before the items of a request are read. -/
def Origin.pageSize : Origin → Nat
  | .atPage _ size _ => size.toNat
  | .ofSettings c | .ofItems _ c => c.defaultPageSize

/-- Makes the pager out of the first page of its size, counted from one. -/
def Origin.carefully : Origin → Careful Unit
  | .atPage page _ zeroBased => Careful.atPage page.toNat zeroBased
  | .ofSettings c => Careful.ofSettings c
  | .ofItems items c => Careful.ofItems items c

theorem Origin.answers {o : Origin} (fits : o.Fits) :
    Careful.Answers o.carefully (first o.pageSize false) ((·, ()) <$> o.make) := by
  cases o with
  | atPage page size zeroBased => exact Careful.atPage_eq page.toNat size.toNat zeroBased
  | ofSettings c => exact Careful.ofSettings_eq c
  | ofItems items c => exact Careful.ofItems_answers fits items

/-- **A pager is in order however it has been made and whatever calls it has gone through.** Each of
those calls has an outcome with every number in range, which is the pager as it was if the call
fails. -/
theorem inOrder_after_calls {o : Origin} (fits : o.Fits) :
    Careful.Answers o.carefully (first o.pageSize false) ((·, ()) <$> o.make) ∧
      ∀ p, o.make = .ok p → ∀ moves : List Move, InOrder (p.turned moves) ∧
        ∀ m : Move, m.carefully (p.turned moves).1 =
          some (Careful.outcome (p.turned moves).1 (m.applyTo (p.turned moves).1)) := by
  refine ⟨Origin.answers fits, fun p made moves => ?_⟩
  have order := (Origin.aligned fits made).inOrder_turned moves
  exact ⟨order, order.consistent.carefully_eq⟩

/-- The third page of ten records, after an offset within it and a page that is too far. -/
theorem inOrder_after_calls_of_items :
    (Origin.ofItems [("page", "3"), ("size", "10")] .default).Fits ∧
      InOrder (⟨3, 10, false, 25, [], true⟩, some (.offset 25)) := by
  have fits : (Origin.ofItems [("page", "3"), ("size", "10")] .default).Fits := by
    unfold Origin.Fits
    decide
  have made : (Origin.ofItems [("page", "3"), ("size", "10")] .default).make =
      .ok ⟨3, 10, false, 20, [], true⟩ := rfl
  have kept := (inOrder_after_calls fits).2 _ made [.offset 25, .page 18446744073709551615]
  exact ⟨fits, kept.1⟩

end EntityQuery.Pager
