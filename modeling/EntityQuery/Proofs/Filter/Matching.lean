import EntityQuery.Filter.Token
import Mathlib.Algebra.Order.Group.Int
import Mathlib.Data.List.Basic

/-!
# Parentheses that match

Two parentheses are partners if what stands between them is `Balanced`. Reading tokens with a stack
of the groups that are open (`groupsAfter`) comes to one of three ends: a closing parenthesis finds
no group that is open, or groups are left open at the end, or neither. **They are told apart by
parentheses without a partner** (`firstAlone_iff`): the first closing one, if there is any, else the
first opening one, and if there is neither the tokens are balanced (`groupsAfter_eq_nil_iff`).

What the stack knows is that the tokens so far leave these groups open (`LeavesOpen`). That a
parenthesis has no partner at all, however tokens are split around it, is counted: `rise` is how
many more parentheses open than close, and up to no point of balanced tokens do more of them close
(`Balanced.rises`).
-/

namespace EntityQuery

namespace Token

/-- Every parenthesis among the tokens has its partner among them. -/
inductive Balanced : List Token → Prop
  | nil : Balanced []
  | word (index : Nat) (w : Word) {ts : List Token} (after : Balanced ts) :
    Balanced (.word index w :: ts)
  | group (first last : Nat) {ts us : List Token} (inner : Balanced ts) (after : Balanced us) :
    Balanced (.opening first :: ts ++ .closing last :: us)

/-- A closing parenthesis that follows the tokens has its partner among them. -/
def OpenedIn (before : List Token) : Prop :=
  ∃ a index b, before = a ++ .opening index :: b ∧ Balanced b

/-- An opening parenthesis that stands before the tokens has its partner among them. -/
def ClosedIn (after : List Token) : Prop :=
  ∃ b index c, after = b ++ .closing index :: c ∧ Balanced b

/-- Every closing parenthesis has a partner. -/
def ClosingsPaired (ts : List Token) : Prop :=
  ∀ a index b, ts = a ++ .closing index :: b → OpenedIn a

/-- Every opening parenthesis has a partner. -/
def OpeningsPaired (ts : List Token) : Prop :=
  ∀ a index b, ts = a ++ .opening index :: b → ClosedIn b

/-- At the offset stands the first closing parenthesis that has no partner or, if each of them has
one, the first opening parenthesis that has none. -/
inductive FirstAlone (ts : List Token) (index : Nat) : Prop
  | closing {before after : List Token} (split : ts = before ++ .closing index :: after)
      (paired : ClosingsPaired before) (alone : ¬ OpenedIn before)
  | opening {before after : List Token} (closings : ClosingsPaired ts)
      (split : ts = before ++ .opening index :: after)
      (paired : ∀ a i b, before = a ++ .opening i :: b → ClosedIn (b ++ .opening index :: after))
      (alone : ¬ ClosedIn after)

/-! ## Splitting -/

variable {ts us a b : List Token} {t : Token}

/-- A token of two lists one after the other is a token of one of them. -/
theorem append_eq_append_cons (h : ts ++ us = a ++ t :: b) :
    (∃ b', ts = a ++ t :: b' ∧ b = b' ++ us) ∨ ∃ a', us = a' ++ t :: b ∧ a = ts ++ a' := by
  rcases List.append_eq_append_iff.mp h with ⟨a', rfl, hus⟩ | ⟨c, rfl, hc⟩
  · exact .inr ⟨a', hus, rfl⟩
  · rcases List.cons_eq_append_iff.mp hc with ⟨rfl, hus⟩ | ⟨b', rfl, rfl⟩
    · exact .inr ⟨[], hus, by simp⟩
    · exact .inl ⟨b', rfl, rfl⟩

theorem OpenedIn.after (h : OpenedIn ts) (us : List Token) : OpenedIn (us ++ ts) := by
  obtain ⟨a, index, b, rfl, balanced⟩ := h
  exact ⟨us ++ a, index, b, by simp, balanced⟩

theorem ClosedIn.before (h : ClosedIn ts) (us : List Token) : ClosedIn (ts ++ us) := by
  obtain ⟨b, index, c, rfl, balanced⟩ := h
  exact ⟨b, index, c ++ us, by simp, balanced⟩

/-! ## Balanced tokens -/

theorem Balanced.append (ht : Balanced ts) (hu : Balanced us) : Balanced (ts ++ us) := by
  induction ht with
  | nil => exact hu
  | word index w _ ih => exact .word index w ih
  | group first last inner _ _ ih =>
    have whole := Balanced.group first last inner ih
    simpa using whole

theorem Balanced.closingsPaired (h : Balanced ts) : ClosingsPaired ts := by
  induction h with
  | nil =>
    intro a index b split
    simp at split
  | word i w _ ih =>
    intro a index b split
    rcases List.cons_eq_append_iff.mp split with ⟨rfl, h⟩ | ⟨a', rfl, h⟩
    · cases h
    · exact (ih a' index b h).after [_]
  | @group first last ts us inner _ ihInner ihAfter =>
    intro a index b split
    rcases append_eq_append_cons split with ⟨b', within, _⟩ | ⟨a', beyond, rfl⟩
    · rcases List.cons_eq_append_iff.mp within with ⟨rfl, h⟩ | ⟨a', rfl, h⟩
      · cases h
      · exact (ihInner a' index b' h).after [_]
    · rcases List.cons_eq_append_iff.mp beyond with ⟨rfl, _⟩ | ⟨a'', rfl, h⟩
      · exact ⟨[], first, ts, by simp, inner⟩
      · have paired := (ihAfter a'' index b h).after (.opening first :: ts ++ [.closing last])
        rwa [List.append_assoc] at paired

theorem Balanced.openingsPaired (h : Balanced ts) : OpeningsPaired ts := by
  induction h with
  | nil =>
    intro a index b split
    simp at split
  | word i w _ ih =>
    intro a index b split
    rcases List.cons_eq_append_iff.mp split with ⟨rfl, h⟩ | ⟨a', rfl, h⟩
    · cases h
    · exact ih a' index b h
  | @group first last ts us inner _ ihInner ihAfter =>
    intro a index b split
    rcases append_eq_append_cons split with ⟨b', within, rfl⟩ | ⟨a', beyond, rfl⟩
    · rcases List.cons_eq_append_iff.mp within with ⟨rfl, h⟩ | ⟨a', rfl, h⟩
      · cases h
        exact ⟨ts, last, us, rfl, inner⟩
      · exact (ihInner a' index b' h).before _
    · rcases List.cons_eq_append_iff.mp beyond with ⟨rfl, h⟩ | ⟨a'', rfl, h⟩
      · cases h
      · exact ihAfter a'' index b h

/-! ## How far tokens rise -/

/-- How many more parentheses open than close. -/
def rise : List Token → Int
  | [] => 0
  | .opening _ :: ts => rise ts + 1
  | .closing _ :: ts => rise ts - 1
  | .word _ _ :: ts => rise ts

@[simp] theorem rise_append (ts us : List Token) : rise (ts ++ us) = rise ts + rise us := by
  induction ts with
  | nil => simp [rise]
  | cons t ts ih => cases t <;> simp only [List.cons_append, rise, ih] <;> omega

/-- Up to no point do more parentheses close than open. -/
def Rises (ts : List Token) : Prop := ∀ p q, ts = p ++ q → 0 ≤ rise p

theorem Rises.append (ht : Rises ts) (hu : Rises us) : Rises (ts ++ us) := by
  intro p q split
  rcases List.append_eq_append_iff.mp split with ⟨p', rfl, h⟩ | ⟨q', h, _⟩
  · have := ht ts [] (by simp)
    have := hu p' q h
    rw [rise_append]
    omega
  · exact ht p q' h

theorem Rises.opening (h : Rises ts) (index : Nat) : Rises (.opening index :: ts) := by
  intro p q split
  rcases List.cons_eq_append_iff.mp split with ⟨rfl, _⟩ | ⟨p', rfl, h'⟩
  · simp [rise]
  · have := h p' q h'
    simp only [rise]
    omega

theorem Balanced.rise_eq_zero (h : Balanced ts) : rise ts = 0 := by
  induction h with
  | nil => rfl
  | word index w _ ih => exact ih
  | group first last _ _ ihInner ihAfter =>
    simp only [List.cons_append, rise, rise_append, ihInner, ihAfter]
    rfl

theorem Balanced.rises (h : Balanced ts) : Rises ts := by
  induction h with
  | nil =>
    intro p q split
    obtain ⟨rfl, _⟩ := List.append_eq_nil_iff.mp split.symm
    simp [rise]
  | word index w _ ih =>
    intro p q split
    rcases List.cons_eq_append_iff.mp split with ⟨rfl, _⟩ | ⟨p', rfl, h⟩
    · simp [rise]
    · exact ih p' q h
  | @group first last ts us inner _ ihInner ihAfter =>
    -- The group by itself rises and falls back, and then what follows it rises.
    have group : Rises (.opening first :: ts ++ [.closing last]) := by
      intro p q split
      rcases List.append_eq_append_iff.mp split with ⟨p', rfl, h⟩ | ⟨q', h, _⟩
      · have zero := inner.rise_eq_zero
        rcases List.cons_eq_append_iff.mp h with ⟨rfl, _⟩ | ⟨p'', rfl, h'⟩
        · simp [rise, zero]
        · obtain ⟨rfl, _⟩ := List.append_eq_nil_iff.mp h'.symm
          simp [rise, zero]
      · exact ihInner.opening first p q' h
    simpa using group.append ihAfter

/-- Where no more parentheses close than open, none of them closes a group that is open before. -/
theorem Rises.not_closedIn (h : Rises ts) : ¬ ClosedIn ts := by
  rintro ⟨b, index, c, rfl, balanced⟩
  have below := h (b ++ [.closing index]) c (by simp)
  simp [rise, balanced.rise_eq_zero] at below

theorem Balanced.not_openedIn (h : Balanced ts) : ¬ OpenedIn ts := by
  rintro ⟨a, index, b, rfl, balanced⟩
  have above := h.rises a (.opening index :: b) rfl
  have zero := h.rise_eq_zero
  simp only [rise_append, rise, balanced.rise_eq_zero] at zero
  omega

/-! ## Groups left open -/

/-- The tokens leave the groups that begin at these offsets open, the innermost first. -/
inductive LeavesOpen : List Nat → List Token → Prop
  | nil {ts : List Token} (h : Balanced ts) : LeavesOpen [] ts
  | cons {groups : List Nat} {ts us : List Token} (index : Nat) (outer : LeavesOpen groups ts)
      (inner : Balanced us) : LeavesOpen (index :: groups) (ts ++ .opening index :: us)

variable {groups : List Nat} {index : Nat}

theorem LeavesOpen.append (ht : LeavesOpen groups ts) (hu : Balanced us) :
    LeavesOpen groups (ts ++ us) := by
  cases ht with
  | nil h => exact .nil (h.append hu)
  | cons index outer inner =>
    have whole := LeavesOpen.cons index outer (inner.append hu)
    simpa using whole

theorem LeavesOpen.closingsPaired (h : LeavesOpen groups ts) : ClosingsPaired ts := by
  induction h with
  | nil h => exact h.closingsPaired
  | @cons groups ts us index _ inner ih =>
    intro a i b split
    rcases append_eq_append_cons split with ⟨b', within, _⟩ | ⟨a', beyond, rfl⟩
    · exact ih a i b' within
    · rcases List.cons_eq_append_iff.mp beyond with ⟨rfl, h⟩ | ⟨a'', rfl, h⟩
      · cases h
      · have paired := (inner.closingsPaired a'' i b h).after (ts ++ [.opening index])
        rwa [List.append_assoc] at paired

/-- The outermost group that is left open begins after balanced tokens and before ones of which none
closes it. -/
theorem LeavesOpen.exists_outermost (h : LeavesOpen groups ts)
    (last : groups.getLast? = some index) :
    ∃ before after, ts = before ++ .opening index :: after ∧ Balanced before ∧ Rises after := by
  induction h with
  | nil => cases last
  | @cons groups ts us i outer inner ih =>
    by_cases alone : groups = []
    · subst alone
      cases last
      cases outer with
      | nil h => exact ⟨ts, us, rfl, h, inner.rises⟩
    · rw [List.getLast?_cons_of_ne_nil alone] at last
      obtain ⟨before, after, rfl, balanced, rises⟩ := ih last
      refine ⟨before, after ++ .opening i :: us, by simp, balanced, ?_⟩
      exact rises.append (inner.rises.opening i)

theorem LeavesOpen.firstAlone (h : LeavesOpen groups ts) (last : groups.getLast? = some index) :
    FirstAlone ts index := by
  obtain ⟨before, after, split, balanced, rises⟩ := h.exists_outermost last
  refine .opening h.closingsPaired split (fun a i b within => ?_) rises.not_closedIn
  exact (balanced.openingsPaired a i b within).before _

/-! ## Reading with a stack -/

/-- The groups that are open after the tokens, the innermost first, or the offset of a closing
parenthesis that finds none open. -/
def groupsAfter (groups : List Nat) : List Token → Except Nat (List Nat)
  | [] => .ok groups
  | .opening index :: ts => groupsAfter (index :: groups) ts
  | .closing index :: ts =>
    match groups with
    | [] => .error index
    | _ :: outer => groupsAfter outer ts
  | .word _ _ :: ts => groupsAfter groups ts

theorem groupsAfter_append (groups : List Nat) (ts us : List Token) :
    groupsAfter groups (ts ++ us) =
      groupsAfter groups ts >>= fun groups => groupsAfter groups us := by
  induction ts generalizing groups with
  | nil => rfl
  | cons t ts ih =>
    cases t with
    | opening index => exact ih (index :: groups)
    | word => exact ih groups
    | closing index =>
      cases groups with
      | nil => rfl
      | cons first outer => exact ih outer

/-- What reading with a stack comes to, from tokens on that leave its groups open. -/
theorem leavesOpen_of_groupsAfter (h : LeavesOpen groups us) :
    (∀ groups', groupsAfter groups ts = .ok groups' → LeavesOpen groups' (us ++ ts)) ∧
    ∀ index, groupsAfter groups ts = .error index →
      ∃ a b, ts = a ++ .closing index :: b ∧ Balanced (us ++ a) := by
  induction ts generalizing groups us with
  | nil =>
    refine ⟨fun groups' read => ?_, fun index read => by cases read⟩
    cases read
    simpa using h
  | cons t ts ih =>
    -- The token is put to those read before, so that the rest is read from there.
    have next {groups₁ : List Nat} (h₁ : LeavesOpen groups₁ (us ++ [t]))
        (read : groupsAfter groups (t :: ts) = groupsAfter groups₁ ts) :
        (∀ groups', groupsAfter groups (t :: ts) = .ok groups' →
          LeavesOpen groups' (us ++ t :: ts)) ∧
        ∀ index, groupsAfter groups (t :: ts) = .error index →
          ∃ a b, t :: ts = a ++ .closing index :: b ∧ Balanced (us ++ a) := by
      obtain ⟨left, stopped⟩ := ih h₁
      rw [read]
      refine ⟨fun groups' h => by simpa using left groups' h, fun index h => ?_⟩
      obtain ⟨a, b, rfl, balanced⟩ := stopped index h
      exact ⟨t :: a, b, rfl, by simpa using balanced⟩
    cases t with
    | opening index => exact next (.cons index h .nil) rfl
    | word index w => exact next (h.append (.word index w .nil)) rfl
    | closing index =>
      cases h with
      | nil balanced =>
        refine ⟨fun groups' read => (by cases read), fun i read => ?_⟩
        cases read
        exact ⟨[], ts, rfl, by simpa using balanced⟩
      | @cons groups before inside first outer inner =>
        refine next ?_ rfl
        have whole := outer.append (.group first index inner .nil)
        simpa using whole

/-! ## The three ends of reading -/

theorem leavesOpen_of_ok (h : groupsAfter [] ts = .ok groups) : LeavesOpen groups ts := by
  exact (leavesOpen_of_groupsAfter (.nil .nil)).1 groups h

theorem firstAlone_of_error (h : groupsAfter [] ts = .error index) : FirstAlone ts index := by
  obtain ⟨a, b, split, balanced⟩ := (leavesOpen_of_groupsAfter (.nil .nil)).2 index h
  exact .closing split balanced.closingsPaired balanced.not_openedIn

theorem Balanced.not_firstAlone (h : Balanced ts) : ¬ FirstAlone ts index := by
  rintro (⟨split, _, alone⟩ | ⟨_, split, _, alone⟩)
  · exact alone (h.closingsPaired _ _ _ split)
  · exact alone (h.openingsPaired _ _ _ split)

theorem FirstAlone.unique {i j : Nat} (hi : FirstAlone ts i) (hj : FirstAlone ts j) : i = j := by
  rcases hi with ⟨split, paired, alone⟩ | ⟨closings, split, paired, alone⟩
  · rcases hj with ⟨split', paired', alone'⟩ | ⟨closings, _, _, _⟩
    · rcases append_eq_append_cons (split.symm.trans split') with ⟨_, earlier, _⟩ | ⟨a, later, rfl⟩
      · exact absurd (paired _ _ _ earlier) alone'
      · rcases List.cons_eq_append_iff.mp later with ⟨rfl, same⟩ | ⟨a, rfl, _⟩
        · cases same
          rfl
        · exact absurd (paired' _ _ _ rfl) alone
    · exact absurd (closings _ _ _ split) alone
  · rcases hj with ⟨split', _, alone'⟩ | ⟨_, split', paired', alone'⟩
    · exact absurd (closings _ _ _ split') alone'
    · rcases append_eq_append_cons (split.symm.trans split') with
        ⟨_, earlier, rfl⟩ | ⟨a, later, rfl⟩
      · exact absurd (paired _ _ _ earlier) alone'
      · rcases List.cons_eq_append_iff.mp later with ⟨rfl, same⟩ | ⟨a, rfl, rfl⟩
        · cases same
          rfl
        · exact absurd (paired' _ _ _ rfl) alone

/-- Reading with a stack leaves no group open exactly if the tokens are balanced. -/
theorem groupsAfter_eq_nil_iff : groupsAfter [] ts = .ok [] ↔ Balanced ts := by
  constructor
  · intro h
    cases leavesOpen_of_ok h with
    | nil balanced => exact balanced
  · intro balanced
    cases read : groupsAfter [] ts with
    | error index => exact absurd (firstAlone_of_error read) balanced.not_firstAlone
    | ok groups =>
      cases last : groups.getLast? with
      | none => rw [List.getLast?_eq_none_iff.mp last]
      | some index =>
        exact absurd ((leavesOpen_of_ok read).firstAlone last) balanced.not_firstAlone

/-- Reading with a stack stops at a closing parenthesis, or leaves groups open, exactly if some
parenthesis has no partner; the one it stops at, or the outermost one it leaves, is the first. -/
theorem firstAlone_iff : FirstAlone ts index ↔ groupsAfter [] ts = .error index ∨
    ∃ groups, groupsAfter [] ts = .ok groups ∧ groups.getLast? = some index := by
  constructor
  · intro alone
    cases read : groupsAfter [] ts with
    | error i => exact .inl (congrArg _ ((firstAlone_of_error read).unique alone))
    | ok groups =>
      cases last : groups.getLast? with
      | none =>
        rw [List.getLast?_eq_none_iff.mp last] at read
        exact absurd alone (groupsAfter_eq_nil_iff.mp read).not_firstAlone
      | some i =>
        have same := ((leavesOpen_of_ok read).firstAlone last).unique alone
        exact .inr ⟨groups, rfl, same ▸ last⟩
  · rintro (read | ⟨groups, read, last⟩)
    · exact firstAlone_of_error read
    · exact (leavesOpen_of_ok read).firstAlone last

end Token

end EntityQuery
