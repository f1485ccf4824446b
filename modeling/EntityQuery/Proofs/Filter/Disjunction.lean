import EntityQuery.Proofs.Filter.Combination
import EntityQuery.Proofs.Filter.Scanning

/-!
# Filters joined by `or`

The formula of a filter does not depend on where the filter stands: read between parentheses it is
the formula of the group (`readWords_group`), while what has been read before waits outside. So
**two filters between parentheses with `or` between them are the disjunction of their formulas**
(`ofWords_or`). `Nesting.within` puts the levels of a filter, moved on in the text, among those
around it, and each step of reading goes through it (`readWord_within`).
-/

namespace EntityQuery.Formula

variable {α : Type}

/-- The level of a text that stands `k` further on. -/
def Level.later (k : Nat) (l : Level α) : Level α :=
  ⟨l.tree, l.pending.map fun p => (p.1, p.2 + k), l.negation.map (· + k)⟩

/-- The nesting of a text that stands `k` further on, with more levels around it. -/
def Nesting.within (k : Nat) (outer : List (Nat × Level α)) (n : Nesting α) : Nesting α :=
  ⟨n.level.later k, n.outer.map (fun p => (p.1 + k, p.2.later k)) ++ outer⟩

section

variable {k : Nat} {l : Level α}

theorem Level.close_later {tree : Option (Formula α)} (h : l.close = .ok tree) :
    (l.later k).close = .ok tree := by
  obtain ⟨_, pending, negation⟩ := l
  cases pending with
  | some => cases h
  | none =>
    cases negation with
    | some => cases h
    | none => exact h

theorem Level.term_later (t : Formula α) : (l.later k).term t = (l.term t).later k := by
  obtain ⟨tree, pending, negation⟩ := l
  cases tree <;> cases pending <;> cases negation <;> rfl

theorem Level.group_later (inner : Option (Formula α)) :
    (l.later k).group inner = (l.group inner).later k := by
  cases inner with
  | none => rfl
  | some t => exact term_later t

theorem Level.connect_later {c : Connective} {index : Nat} {l' : Level α}
    (h : l.connect c index = .ok l') : (l.later k).connect c (index + k) = .ok (l'.later k) := by
  obtain ⟨tree, pending, negation⟩ := l
  cases tree <;> cases pending <;> cases negation <;> cases h
  rfl

end

variable {k : Nat} {outer : List (Nat × Level Word)} {n n' : Nesting Word}

theorem readWord_within {token : Token} (h : readWord n token = .ok n') :
    readWord (n.within k outer) (token.later k) = .ok (n'.within k outer) := by
  obtain ⟨level, levels⟩ := n
  cases token with
  | opening index =>
    cases h
    rfl
  | closing index =>
    rw [readWord, readToken, ofExcept_self] at h
    obtain ⟨inner, closed, h⟩ := bind_eq_ok.mp h
    cases levels with
    | nil => cases h
    | cons around levels =>
      cases h
      rw [readWord, Token.later, readToken, ofExcept_self]
      refine bind_eq_ok.mpr ⟨inner, Level.close_later closed, ?_⟩
      simp [Nesting.within, Level.group_later]
  | word index w =>
    rw [readWord, readToken] at h
    rw [readWord, Token.later, readToken]
    cases hw : w.logical? with
    | none =>
      simp only [hw] at h ⊢
      cases h
      simp [Nesting.within, Nesting.term, Level.term_later]
    | some word =>
      simp only [hw, ofExcept_self] at h ⊢
      cases word with
      | not =>
        cases h
        cases hn : level.negation <;>
          simp [Nesting.joined, Nesting.within, Level.negate, Level.later, hn]
      | connective c =>
        obtain ⟨level', connected, h⟩ := bind_eq_ok.mp h
        cases h
        exact bind_eq_ok.mpr ⟨_, Level.connect_later connected, rfl⟩

theorem readWords_within {tokens : List Token} (h : tokens.foldlM readWord n = .ok n') :
    (tokens.map (.later k)).foldlM readWord (n.within k outer) = .ok (n'.within k outer) := by
  induction tokens generalizing n with
  | nil =>
    cases h
    rfl
  | cons token tokens ih =>
    rw [List.foldlM_cons] at h
    obtain ⟨n₁, first, h⟩ := bind_eq_ok.mp h
    rw [List.map_cons, List.foldlM_cons]
    exact bind_eq_ok.mpr ⟨_, readWord_within first, ih h⟩

/-- Between parentheses the words make a group of the formula that they make by themselves. -/
theorem readWords_group {tokens : List Token} {words : Option (Formula Word)}
    (h : ofWords tokens = .ok words) (n : Nesting Word) (index k last : Nat) :
    (Token.grouped index k last tokens).foldlM readWord n =
      .ok { n with level := n.level.group words } := by
  obtain ⟨n', read, h⟩ := bind_eq_ok.mp h
  rw [ofExcept_self] at h
  obtain ⟨words, closed, h⟩ := bind_eq_ok.mp h
  obtain ⟨level, _ | ⟨around, levels⟩⟩ := n'
  · cases h
    have inner : (tokens.map (.later k)).foldlM readWord (n.opened index) =
        .ok ⟨level.later k, (index, n.level) :: n.outer⟩ := readWords_within read
    rw [Token.grouped, List.cons_append, List.foldlM_cons]
    refine bind_eq_ok.mpr ⟨n.opened index, rfl, ?_⟩
    rw [List.foldlM_append]
    refine bind_eq_ok.mpr ⟨_, inner, ?_⟩
    rw [List.foldlM_cons, readWord, readToken, ofExcept_self]
    refine bind_eq_ok.mpr ⟨_, bind_eq_ok.mpr ⟨words, Level.close_later closed, rfl⟩, rfl⟩
  · cases h

/-- The formula of two filters with `or` between them is the disjunction of theirs. -/
theorem ofWords_or {ts us : List Token} {t u : Formula Word} (ht : ofWords ts = .ok (some t))
    (hu : ofWords us = .ok (some u)) (i j first second k l last : Nat) :
    ofWords (Token.grouped i j first ts ++ .word second (.plain "or") ::
      Token.grouped k l last us) = .ok (some (.or t u)) := by
  have connected : readWord (⟨⟨some t, none, none⟩, []⟩ : Nesting Word)
      (.word second (.plain "or")) = .ok ⟨⟨some t, some (.or, second), none⟩, []⟩ := rfl
  refine bind_eq_ok.mpr ⟨⟨⟨some (.or t u), none, none⟩, []⟩, ?_, rfl⟩
  show List.foldlM readWord _ _ = _
  rw [List.foldlM_append]
  refine bind_eq_ok.mpr ⟨_, readWords_group ht .start i j first, ?_⟩
  rw [List.foldlM_cons]
  exact bind_eq_ok.mpr ⟨_, connected, readWords_group hu _ k l last⟩

end EntityQuery.Formula
