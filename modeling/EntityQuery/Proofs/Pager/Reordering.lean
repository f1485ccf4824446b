import EntityQuery.Proofs.Pager

/-!
# Requests in another order

The items of a request are taken one after the other, each changing the pager or failing. **Two
requests with the same items, those of one name in the same order, both fail or ask for the same
pager** (`ofItems_reordered`).

As long as the pager is at its first page (`AtStart`), what an item changes does not depend on the
items before it: a size is then never refused, and the page that is asked for is left to the end. So
an item is a `Change`, and changes by different parameters can be made in either order
(`Change.applyTo_comm`). Two items of different names can be exchanged (`takeItem_comm`); every
order in which items of one name stay in turn is reached by such exchanges (`takeItems_moved`,
`takeItems_reordered`).
-/

namespace EntityQuery.Pager

/-! ## What an item changes -/

/-- What an item asks for. -/
inductive Change where
  | nothing
  | page (n : Nat)
  | size (n : Nat)
  | sort (keys : List SortKey)
  | count (enabled : Bool)

namespace Change

/-- The parameter by which the change is asked for. -/
def parameter? : Change → Option Parameter
  | nothing => none
  | page _ => some .page
  | size _ => some .size
  | sort _ => some .sort
  | count _ => some .count

/-- The pager and the page asked for, after the change; the pager is at its first page. -/
def applyTo (x : Pager × Option Nat) : Change → Pager × Option Nat
  | nothing => x
  | page n => (x.1, some n)
  | size n => ({ x.1 with size := n }, x.2)
  | sort keys => (x.1.withSort (x.1.sort ++ keys), x.2)
  | count enabled => (x.1.withCount enabled, x.2)

/-- Changes by different parameters can be made in either order. -/
theorem applyTo_comm {c d : Change} (other : c.parameter? = d.parameter? → c.parameter? = none)
    (x : Pager × Option Nat) : d.applyTo (c.applyTo x) = c.applyTo (d.applyTo x) := by
  cases c <;> cases d
  -- Two changes by one parameter are excluded.
  case page.page | size.size | sort.sort | count.count => cases other rfl
  all_goals rfl

end Change

/-- The pager is at the beginning of its first page. -/
structure AtStart (p : Pager) : Prop where
  page : p.page = p.firstPage
  offset : p.offset = 0

theorem atStart_ofSettings (c : Settings) : (ofSettings c).AtStart := ⟨rfl, rfl⟩

theorem AtStart.applyTo {x : Pager × Option Nat} (start : x.1.AtStart) (c : Change) :
    (c.applyTo x).1.AtStart := by
  obtain ⟨page, offset⟩ := start
  cases c <;> exact ⟨page, offset⟩

/-- Any size can be asked for at the first page. -/
theorem AtStart.setSize {p : Pager} (start : p.AtStart) (size : Nat) :
    p.setSize size = .ok { p with size := size } := by
  have offset : (p.page - p.firstPage) * size = 0 := by
    rw [start.page, Nat.sub_self, Nat.zero_mul]
  refine setSize_eq_ok_iff.mpr ⟨offset ▸ Nat.zero_le _, ?_⟩
  rw [offset, ← start.offset]

/-- An item asks for a change of the parameter that it names, or it cannot be read. -/
theorem exists_change (item : String × String) : ∃ asked : Except Error Change,
    (∀ c, asked = .ok c → c.parameter? = Parameter.ofName? item.1) ∧
    ∀ x : Pager × Option Nat, x.1.AtStart → takeItem x item = asked.map (·.applyTo x) := by
  unfold takeItem
  cases Parameter.ofName? item.1 with
  | none => exact ⟨.ok .nothing, by rintro _ ⟨⟩; rfl, fun _ _ => rfl⟩
  | some parameter =>
    cases parameter with
    | page =>
      dsimp only
      cases Decimal.natural? (Text.trim item.2.toList) with
      | none => exact ⟨.error _, nofun, fun _ _ => rfl⟩
      | some n => exact ⟨.ok (.page n), by rintro _ ⟨⟩; rfl, fun _ _ => rfl⟩
    | size =>
      dsimp only
      match Decimal.natural? (Text.trim item.2.toList) with
      | none => exact ⟨.error _, nofun, fun _ _ => rfl⟩
      | some 0 => exact ⟨.error _, nofun, fun _ _ => rfl⟩
      | some (n + 1) =>
        refine ⟨.ok (.size (n + 1)), by rintro _ ⟨⟩; rfl, fun x start => ?_⟩
        show (x.1.setSize (n + 1) >>= fun p => pure (p, x.2)) = _
        rw [start.setSize]
        rfl
    | sort =>
      dsimp only
      cases SortKey.parse (String.ofList (Text.trim item.2.toList)) with
      | error e => exact ⟨.error e, nofun, fun _ _ => rfl⟩
      | ok keys => exact ⟨.ok (.sort keys), by rintro _ ⟨⟩; rfl, fun _ _ => rfl⟩
    | count =>
      dsimp only
      cases truth? (Text.trim item.2.toList) with
      | none => exact ⟨.error _, nofun, fun _ _ => rfl⟩
      | some b => exact ⟨.ok (.count b), by rintro _ ⟨⟩; rfl, fun _ _ => rfl⟩

theorem AtStart.takeItem {x y : Pager × Option Nat} (start : x.1.AtStart) {item : String × String}
    (h : takeItem x item = .ok y) : y.1.AtStart := by
  obtain ⟨asked, _, taken⟩ := exists_change item
  rw [taken x start, map_eq_ok] at h
  obtain ⟨c, _, rfl⟩ := h
  exact start.applyTo c

/-! ## Exchanging items -/

theorem Parameter.ofName?_injective {name name' : String} {parameter : Parameter}
    (h : ofName? name = some parameter) (h' : ofName? name' = some parameter) : name = name' := by
  unfold ofName? at h h'
  split at h <;> cases h <;> split at h' <;> cases h' <;> rfl

/-- Items of different names can be taken in either order. -/
theorem takeItem_comm {x : Pager × Option Nat} (start : x.1.AtStart) {a b : String × String}
    (other : a.1 ≠ b.1) :
    (takeItem x a >>= (takeItem · b)).toOption = (takeItem x b >>= (takeItem · a)).toOption := by
  obtain ⟨asked, named, taken⟩ := exists_change a
  obtain ⟨asked', named', taken'⟩ := exists_change b
  rw [taken x start, taken' x start]
  cases asked with
  | error e =>
    cases asked' with
    | error e' => rfl
    | ok d => exact congrArg Except.toOption (taken (d.applyTo x) (start.applyTo d)).symm
  | ok c =>
    cases asked' with
    | error e' => exact congrArg Except.toOption (taken' (c.applyTo x) (start.applyTo c))
    | ok d =>
      have apart : c.parameter? = d.parameter? → c.parameter? = none := by
        rw [named c rfl, named' d rfl]
        intro same
        cases h : Parameter.ofName? a.1 with
        | none => rfl
        | some parameter =>
          exact absurd (Parameter.ofName?_injective h (same ▸ h)) other
      show (takeItem (c.applyTo x) b).toOption = (takeItem (d.applyTo x) a).toOption
      rw [taken _ (start.applyTo d), taken' _ (start.applyTo c)]
      exact congrArg some (Change.applyTo_comm apart x)

/-- An item can be taken before items of other names. -/
theorem takeItems_moved {x : Pager × Option Nat} (start : x.1.AtStart) {a : String × String}
    {others : List (String × String)} (other : ∀ b ∈ others, b.1 ≠ a.1)
    (rest : List (String × String)) :
    ((others ++ a :: rest).foldlM takeItem x).toOption =
      ((a :: (others ++ rest)).foldlM takeItem x).toOption := by
  induction others generalizing x with
  | nil => rfl
  | cons b others ih =>
    obtain ⟨hb, other⟩ := List.forall_mem_cons.mp other
    have exchanged := takeItem_comm start hb
    simp only [toOption_bind] at exchanged
    simp only [List.cons_append, List.foldlM_cons, toOption_bind]
    calc (takeItem x b).toOption.bind fun y => ((others ++ a :: rest).foldlM takeItem y).toOption
      _ = (takeItem x b).toOption.bind fun y => (takeItem y a).toOption.bind fun z =>
            ((others ++ rest).foldlM takeItem z).toOption := by
          cases taken : takeItem x b with
          | error e => rfl
          | ok y =>
            refine (ih (start.takeItem taken) other).trans ?_
            rw [List.foldlM_cons, toOption_bind]
            rfl
      _ = (takeItem x a).toOption.bind fun y => (takeItem y b).toOption.bind fun z =>
            ((others ++ rest).foldlM takeItem z).toOption := by
          rw [← Option.bind_assoc, exchanged, Option.bind_assoc]

/-! ## Requests -/

/-- The second request has the items of the first, those of one name in the same order. -/
structure Reordered (items items' : List (String × String)) : Prop where
  perm : items.Perm items'
  inTurn : ∀ name, items.filter (·.1 = name) = items'.filter (·.1 = name)

theorem takeItems_reordered {x : Pager × Option Nat} (start : x.1.AtStart)
    {items items' : List (String × String)} (h : Reordered items items') :
    (items.foldlM takeItem x).toOption = (items'.foldlM takeItem x).toOption := by
  induction items generalizing x items' with
  | nil => rw [h.perm.nil_eq]
  | cons a items ih =>
    -- The first item comes in the other request after items of other names only.
    have first : items'.filter (·.1 = a.1) = a :: items.filter (·.1 = a.1) := by
      rw [← h.inTurn, List.filter_cons_of_pos (by simp)]
    obtain ⟨others, rest, rfl, other, _, _⟩ := List.filter_eq_cons_iff.mp first
    have other : ∀ b ∈ others, b.1 ≠ a.1 := fun b hb => by simpa using other b hb
    have left : Reordered items (others ++ rest) := by
      refine ⟨(h.perm.trans List.perm_middle).cons_inv, fun name => ?_⟩
      have inTurn := h.inTurn name
      by_cases same : a.1 = name
      · subst same
        have none : others.filter (·.1 = a.1) = [] :=
          List.filter_eq_nil_iff.mpr fun b hb => by simpa using other b hb
        simpa [List.filter_append, none] using inTurn
      · simpa [List.filter_append, same] using inTurn
    rw [takeItems_moved start other, List.foldlM_cons, List.foldlM_cons, toOption_bind,
      toOption_bind]
    cases taken : takeItem x a with
    | error e => rfl
    | ok y => exact ih (start.takeItem taken) left

/-- **Items of different names can be given in any order.** Two requests with the same items, those
of one name in the same order, both fail or ask for the same pager. -/
theorem ofItems_reordered (c : Settings) {items items' : List (String × String)}
    (h : Reordered items items') :
    (∃ e e', ofItems items c = .error e ∧ ofItems items' c = .error e') ∨
      ∃ p, ofItems items c = .ok p ∧ ofItems items' c = .ok p := by
  have taken := takeItems_reordered (x := (ofSettings c, none)) (atStart_ofSettings c) h
  have same : (ofItems items c).toOption = (ofItems items' c).toOption := by
    unfold ofItems
    rw [toOption_bind, toOption_bind, taken]
  cases read : ofItems items c with
  | error e =>
    cases read' : ofItems items' c with
    | error e' => exact .inl ⟨e, e', rfl, rfl⟩
    | ok p' => simp [read, read', Except.toOption] at same
  | ok p =>
    cases read' : ofItems items' c with
    | error e' => simp [read, read', Except.toOption] at same
    | ok p' =>
      rw [read, read'] at same
      cases same
      exact .inr ⟨p, rfl, rfl⟩

/-- A page that only the size makes too far, sort keys in two items, and a name that is left
alone. -/
theorem ofItems_reordered_sampled :
    let items := [("page", "4"), ("sort", "name"), ("size", "7"), ("filter", "x"), ("sort", "-id"),
      ("size", " 10 ")]
    let items' := [("filter", "x"), ("sort", "name"), ("size", "7"), ("sort", "-id"),
      ("size", " 10 "), ("page", "4")]
    Reordered items items' ∧ ∃ p : Pager, p.offset = 30 ∧
      p.sort = [⟨"name", .ascending⟩, ⟨"id", .descending⟩] ∧
      ofItems items .default = .ok p ∧ ofItems items' .default = .ok p := by
  intro items items'
  have reordered : Reordered items items' := by
    refine ⟨by decide, fun name => ?_⟩
    simp only [items, items', List.filter_cons, List.filter_nil, decide_eq_true_eq]
    grind
  have read : ofItems items .default = .ok
      ⟨4, 10, false, 30, [⟨"name", .ascending⟩, ⟨"id", .descending⟩], true⟩ := by rfl
  refine ⟨reordered, _, rfl, rfl, read, ?_⟩
  rcases ofItems_reordered .default reordered with ⟨e, _, failed, _⟩ | ⟨p, read', same⟩
  · cases read.symm.trans failed
  · cases read.symm.trans read'
    exact same

end EntityQuery.Pager
