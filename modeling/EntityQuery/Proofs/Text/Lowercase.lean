import EntityQuery.Text.Lowercase

/-!
# Texts in lower case

Lower case makes no character that it would change again (`lowered_of_mem_lowercase`). So a text
that is made of such characters is its own lower case (`lowercase_eq_self`), and such a character
stays where it is in any text (`mem_lowercase`).

Most capital letters are moved in runs of code points. For these this is a fact about pairs of
runs: where one run leads, no run begins (`apart`). It is decided for all pairs of the table at once
(`apart_capitalRuns`) and carried over to characters by `not_moves_of_apart`; what is no capital
letter is its own lower case anyway (`lowered_of_not_moves`). Only the lower case of a capital sigma
depends on what stands beside it; it is taken apart in `exists_of_mem_lowerAfter`.
-/

namespace EntityQuery.Text

namespace CaseRun

/-- The run moves the code point. -/
def Moves (r : CaseRun) (n : Nat) : Prop :=
  r.first ≤ n ∧ n ≤ r.last ∧ (n - r.first) % r.step = 0

instance (r : CaseRun) (n : Nat) : Decidable (r.Moves n) :=
  inferInstanceAs (Decidable (_ ∧ _ ∧ _))

/-- Where the run moves a code point. -/
def target (r : CaseRun) (n : Nat) : Nat := ((n : Int) + r.shift).toNat

/-- Nowhere that the first run leads does the second one begin: they are far from one another, or
both skip every other code point. -/
def apart (r r' : CaseRun) : Bool :=
  Nat.blt (r.target r.last) r'.first || Nat.blt r'.last (r.target r.first) ||
    (Nat.beq r.first r.last || Nat.beq (r.step % 2) 0) && Nat.beq (r'.step % 2) 0 &&
      Nat.beq ((r.target r.first + r'.first) % 2) 1

theorem not_moves_of_apart {r r' : CaseRun} (h : r.apart r' = true)
    (natural : 0 ≤ (r.first : Int) + r.shift) {n : Nat} (moves : r.Moves n) :
    ¬ r'.Moves (r.target n) := by
  rintro ⟨low', high', step'⟩
  obtain ⟨low, high, step⟩ := moves
  have even {a s : Nat} (hs : s % 2 = 0) (ha : a % s = 0) : a % 2 = 0 :=
    Nat.mod_eq_zero_of_dvd (Nat.dvd_trans (Nat.dvd_of_mod_eq_zero hs) (Nat.dvd_of_mod_eq_zero ha))
  simp only [apart, target, Bool.or_eq_true, Bool.and_eq_true, Nat.blt_eq, Nat.beq_eq] at h
  unfold target at low' high' step'
  rcases h with (below | above) | ⟨⟨one | skips, skips'⟩, odd⟩
  · omega
  · omega
  · have := even skips' step'
    omega
  · have := even skips step
    have := even skips' step'
    omega

end CaseRun

/-- All runs of capital letters, those of ASCII and `İ` among them. -/
def capitalRuns : List CaseRun := ⟨0x41, 0x5a, 1, 32⟩ :: ⟨0x130, 0x130, 1, 0⟩ :: lowercaseRuns

theorem apart_capitalRuns :
    (lowercaseRuns.all fun r => capitalRuns.all fun r' => r.apart r') = true := by
  decide +kernel

/-- The character is its own lower case wherever it stands. -/
def Lowered (c : Char) : Prop := lowerChar c = [c] ∧ c ≠ 'Σ'

instance (c : Char) : Decidable (Lowered c) := inferInstanceAs (Decidable (_ ∧ _))

/-- How a character gets its lower case. -/
inductive Lowers (c : Char) : List Char → Prop
  | ascii (small : c.toNat < 0x80) : Lowers c [c.toLower]
  | dotted (eq : c = 'İ') : Lowers c ['i', '\u0307']
  | moved {r : CaseRun} (run : r ∈ lowercaseRuns) (moves : r.Moves c.toNat) :
      Lowers c [Char.ofNat (r.target c.toNat)]
  | unmoved (large : 0x80 ≤ c.toNat) (still : ∀ r ∈ capitalRuns, ¬ r.Moves c.toNat) : Lowers c [c]

theorem lowers_lowerChar (c : Char) : Lowers c (lowerChar c) := by
  unfold lowerChar
  split
  · next small => exact .ascii small
  · next large =>
    split
    · next eq => exact .dotted (by simpa using eq)
    · next other =>
      have found (r : CaseRun) : (r.first ≤ c.toNat && c.toNat ≤ r.last &&
          (c.toNat - r.first) % r.step == 0) = true ↔ r.Moves c.toNat := by
        simp [CaseRun.Moves, and_assoc]
      split
      · next r hr =>
        have moves := @List.find?_some _ _ _ _ hr
        exact .moved (List.mem_of_find?_eq_some hr) ((found r).mp moves)
      · next none =>
        refine .unmoved (Nat.le_of_not_lt large) fun r hr moves => ?_
        simp only [capitalRuns, List.mem_cons] at hr
        rcases hr with rfl | rfl | hr
        · exact absurd moves.2.1 (by simp; omega)
        · have code : c.toNat = 0x130 := Nat.le_antisymm moves.2.1 moves.1
          exact other (by rw [← Char.ofNat_toNat c, code]; rfl)
        · exact List.find?_eq_none.mp none r hr ((found r).mpr moves)

/-- What is no capital letter is its own lower case. -/
theorem lowered_of_not_moves {c : Char} (h : ∀ r ∈ capitalRuns, ¬ r.Moves c.toNat) :
    Lowered c := by
  have ne {d : Char} (hd : ∃ r ∈ capitalRuns, r.Moves d.toNat) : c ≠ d := by
    rintro rfl
    obtain ⟨r, hr, moves⟩ := hd
    exact h r hr moves
  refine ⟨?_, ne (by decide +kernel)⟩
  generalize hl : lowerChar c = l
  cases hl ▸ lowers_lowerChar c with
  | ascii =>
    have notCapital := h ⟨0x41, 0x5a, 1, 32⟩ List.mem_cons_self
    congr 1
    unfold Char.toLower
    rw [dif_neg]
    rintro ⟨low, high⟩
    exact notCapital ⟨low, high, Nat.mod_one _⟩
  | dotted eq => exact absurd eq (ne (by decide +kernel))
  | moved run moves => exact absurd moves (h _ (by simp [capitalRuns, run]))
  | unmoved => rfl

/-- Lower case makes no character that it would change again. -/
theorem lowered_of_mem_lowerChar {c d : Char} (h : d ∈ lowerChar c) : Lowered d := by
  generalize hl : lowerChar c = l at h
  cases hl ▸ lowers_lowerChar c with
  | ascii small =>
    have all : ∀ n : Fin 0x80, Lowered (Char.ofNat n).toLower := by decide +kernel
    have lowered := all ⟨c.toNat, small⟩
    rw [Char.ofNat_toNat] at lowered
    rwa [List.mem_singleton.mp h]
  | dotted =>
    simp only [List.mem_cons, List.not_mem_nil, or_false] at h
    rcases h with rfl | rfl <;> decide +kernel
  | @moved r run moves =>
    have apart := List.all_eq_true.mp (List.all_eq_true.mp apart_capitalRuns r run)
    have natural : ∀ r ∈ lowercaseRuns, 0 ≤ (r.first : Int) + r.shift := by decide +kernel
    rw [List.mem_singleton.mp h]
    by_cases valid : (r.target c.toNat).isValidChar
    · refine lowered_of_not_moves fun r' hr' => ?_
      have stays := CaseRun.not_moves_of_apart (apart r' hr') (natural r run) moves
      rwa [Char.ofNat, dif_pos valid]
    · rw [Char.ofNat, dif_neg valid]
      decide +kernel
  | unmoved _ still =>
    rw [List.mem_singleton.mp h]
    exact lowered_of_not_moves still

/-- Where a character of a lower-cased text comes from. -/
theorem exists_of_mem_lowerAfter {before s : List Char} {d : Char} (h : d ∈ lowerAfter before s) :
    d = 'ς' ∨ d = 'σ' ∨ ∃ c ∈ s, d ∈ lowerChar c := by
  induction s generalizing before with
  | nil => cases h
  | cons c s ih =>
    rw [lowerAfter, List.mem_append] at h
    rcases h with h | h
    · split at h
      · split at h
        · exact .inl (List.mem_singleton.mp h)
        · exact .inr (.inl (List.mem_singleton.mp h))
      · exact .inr (.inr ⟨c, List.mem_cons_self, h⟩)
    · refine (ih h).imp_right (Or.imp_right ?_)
      rintro ⟨c, hc, h⟩
      exact ⟨c, List.mem_cons_of_mem _ hc, h⟩

theorem lowered_of_mem_lowercase {s : List Char} {d : Char} (h : d ∈ lowercase s) : Lowered d := by
  rcases exists_of_mem_lowerAfter h with rfl | rfl | ⟨c, _, h⟩
  · decide +kernel
  · decide +kernel
  · exact lowered_of_mem_lowerChar h

theorem lowerAfter_eq_self {before s : List Char} (h : ∀ c ∈ s, Lowered c) :
    lowerAfter before s = s := by
  induction s generalizing before with
  | nil => rfl
  | cons c s ih =>
    obtain ⟨⟨lower, notSigma⟩, rest⟩ := List.forall_mem_cons.mp h
    rw [lowerAfter, if_neg (by simpa using notSigma), lower, ih rest]
    rfl

/-- A text is its own lower case if all its characters are theirs. -/
theorem lowercase_eq_self {s : List Char} (h : ∀ c ∈ s, Lowered c) : lowercase s = s :=
  lowerAfter_eq_self h

theorem mem_lowerAfter {before s : List Char} {c : Char} (h : c ∈ s) (lowered : Lowered c) :
    c ∈ lowerAfter before s := by
  induction s generalizing before with
  | nil => cases h
  | cons d s ih =>
    rw [lowerAfter, List.mem_append]
    rcases List.mem_cons.mp h with rfl | h
    · rw [if_neg (by simpa using lowered.2), lowered.1]
      exact .inl List.mem_cons_self
    · exact .inr (ih h)

/-- What is its own lower case stays where it is. -/
theorem mem_lowercase {s : List Char} {c : Char} (h : c ∈ s) (lowered : Lowered c) :
    c ∈ lowercase s := mem_lowerAfter h lowered

end EntityQuery.Text
