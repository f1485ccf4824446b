import EntityQuery.Filter.Combination
import EntityQuery.Proofs.Path.Joins

/-!
# Formulas of words

What formula the tokens of a filter describe does not depend on the meaning of its words: it is a
formula of the words themselves, in the order of the text. **To read the tokens is to find this
formula and then to make a leaf of each word, from left to right** (`ofTokens_eq_ok_iff`), and the
leaves of the formula are the words that do not join others (`leaves_ofWords`).

Reading a token after leaves have been made is making leaves after the token has been read
(`mapM_readWord`). That needs two facts about making leaves, which both are about the levels that
are open: it commutes with every way in which levels go on, and it leaves alone which of these are
possible (`Nesting.Alike`). Whatever holds of a leaf when it is made, and goes on to hold while
joins are added, holds of every leaf at the end (`forall₂_of_ofTokens`).
-/

namespace EntityQuery

/-- The word, if the token is one that does not join others. -/
def Token.term? : Token → Option Word
  | .word _ w => if w.logical?.isNone then some w else none
  | _ => none

/-- A word with a colon joins no others. -/
theorem Word.logical?_of_colon {w : Word} (colon : ':' ∈ w.bare) : w.logical? = none := by
  have kept : ':' ∈ Text.asciiLower w.bare := List.mem_map.mpr ⟨':', colon, by decide⟩
  have other (text : List Char) (none_ : ':' ∉ text) : Text.asciiLower w.bare ≠ text :=
    fun same => none_ (same ▸ kept)
  simp [logical?, other]

/-- The words that do not join others, in the order of the text. -/
def terms (tokens : List Token) : List Word := tokens.filterMap Token.term?

namespace Formula

variable {α β : Type} {m : Type → Type} [Monad m] (f : α → m β)

/-- Makes other leaves, from left to right. -/
def mapM : Formula α → m (Formula β)
  | and p q => return and (← p.mapM) (← q.mapM)
  | or p q => return or (← p.mapM) (← q.mapM)
  | not p => return not (← p.mapM)
  | leaf a => return leaf (← f a)

/-- Makes other leaves of a formula, if there is one. -/
def mapAnyM : Option (Formula α) → m (Option (Formula β))
  | none => return none
  | some t => return some (← t.mapM f)

/-- Makes other leaves of the terms read so far. -/
def Level.mapM (l : Level α) : m (Level β) := return ⟨← mapAnyM f l.tree, l.pending, l.negation⟩

namespace Nesting

/-- Makes other leaves on all levels, the outermost first. -/
def mapOuterM : List (Nat × Level α) → m (List (Nat × Level β))
  | [] => return []
  | (index, level) :: outer => do
    let outer ← mapOuterM outer
    return (index, ← level.mapM f) :: outer

/-- Makes other leaves on all levels, in the order of the text. -/
def mapM (n : Nesting α) : m (Nesting β) := do
  let outer ← mapOuterM f n.outer
  return ⟨← n.level.mapM f, outer⟩

end Nesting

/-! ## Reading and making leaves -/

theorem mapM_join (c : Connective) (p q : Formula α) :
    (join c p q).mapM f = do return join c (← p.mapM f) (← q.mapM f) := by
  cases c <;> rfl

section

variable [LawfulMonad m] {f}

theorem Level.mapM_term (l : Level α) (t : Formula α) :
    (l.term t).mapM f = do
      let l ← l.mapM f
      return l.term (← t.mapM f) := by
  obtain ⟨tree, pending, negation⟩ := l
  cases tree <;> cases negation <;>
    simp [Level.mapM, Level.term, mapAnyM, mapM_join, Formula.mapM]

theorem Level.mapM_group (l : Level α) (inner : Option (Formula α)) :
    (l.group inner).mapM f = do
      let l ← l.mapM f
      return l.group (← mapAnyM f inner) := by
  cases inner with
  | none => simp [Level.group, mapAnyM]
  | some t => simp [Level.group, mapAnyM, Level.mapM_term]

theorem Nesting.mapM_start : (Nesting.start : Nesting α).mapM f = pure Nesting.start := by
  simp [Nesting.mapM, Nesting.mapOuterM, Nesting.start, Level.mapM, Level.empty, mapAnyM]

theorem Nesting.mapM_opened (n : Nesting α) (index : Nat) :
    (n.opened index).mapM f = do return (← n.mapM f).opened index := by
  simp [Nesting.mapM, Nesting.mapOuterM, Nesting.opened, Level.mapM, Level.empty, mapAnyM]

theorem Nesting.mapM_term (n : Nesting α) (t : Formula α) :
    (n.term t).mapM f = do
      let n ← n.mapM f
      return n.term (← t.mapM f) := by
  simp [Nesting.mapM, Nesting.term, Level.mapM_term]

end

/-! ## What other leaves leave alone -/

/-- The two nestings can go on in the same ways. -/
structure Nesting.Alike (n : Nesting α) (n' : Nesting β) : Prop where
  tree : n'.level.tree.isSome = n.level.tree.isSome
  pending : n'.level.pending = n.level.pending
  negation : n'.level.negation = n.level.negation
  outer : n'.outer.isEmpty = n.outer.isEmpty

theorem Level.succeeds_close_iff {l : Level α} :
    Succeeds l.close ↔ l.pending = none ∧ l.negation = none := by
  unfold close
  cases l.pending <;> cases l.negation <;> simp

theorem Nesting.succeeds_closed_iff {n : Nesting α} {index : Nat} :
    Succeeds (n.closed index) ↔
      (n.level.pending = none ∧ n.level.negation = none) ∧ n.outer.isEmpty = false := by
  unfold closed
  rw [succeeds_bind_iff, ← Level.succeeds_close_iff]
  cases n.outer with
  | nil => simp
  | cons => simp [Succeeds]

theorem Nesting.succeeds_finish_iff {n : Nesting α} :
    Succeeds n.finish ↔
      (n.level.pending = none ∧ n.level.negation = none) ∧ n.outer.isEmpty = true := by
  unfold finish
  rw [succeeds_bind_iff, ← Level.succeeds_close_iff]
  cases n.outer with
  | nil => simp [Succeeds]
  | cons => simp

theorem Nesting.succeeds_joined_iff {n : Nesting α} {index : Nat} {w : LogicalWord} :
    Succeeds (n.joined index w) ↔
      w = .not ∨ n.level.tree.isSome ∧ n.level.pending = none ∧ n.level.negation = none := by
  cases w with
  | not => simp [joined]
  | connective c =>
    unfold joined Level.connect
    rw [succeeds_bind_iff]
    cases n.level.tree <;> cases n.level.pending <;> cases n.level.negation <;> simp

section

variable {σ : Type} {f : Word → ExceptT Error (StateM σ) α} {s s' : σ} {n : Nesting Word}

theorem Nesting.alike_of_mapM {n' : Nesting α} (h : n.mapM f s = (.ok n', s')) :
    n.Alike n' := by
  obtain ⟨outer, s₁, houter, h⟩ := Resolving.bind_eq_ok.mp h
  obtain ⟨level, s₂, hlevel, h⟩ := Resolving.bind_eq_ok.mp h
  obtain ⟨tree, s₃, htree, hlevel⟩ := Resolving.bind_eq_ok.mp hlevel
  obtain ⟨rfl, rfl⟩ := Resolving.pure_eq_ok.mp hlevel
  obtain ⟨rfl, rfl⟩ := Resolving.pure_eq_ok.mp h
  refine ⟨?_, rfl, rfl, ?_⟩
  · cases ht : n.level.tree with
    | none =>
      rw [ht] at htree
      obtain ⟨rfl, _⟩ := Resolving.pure_eq_ok.mp htree
      rfl
    | some t =>
      rw [ht] at htree
      obtain ⟨_, _, _, htree⟩ := Resolving.bind_eq_ok.mp htree
      obtain ⟨rfl, _⟩ := Resolving.pure_eq_ok.mp htree
      rfl
  · cases ho : n.outer with
    | nil =>
      rw [ho] at houter
      obtain ⟨rfl, _⟩ := Resolving.pure_eq_ok.mp houter
      rfl
    | cons group outer =>
      rw [ho] at houter
      obtain ⟨_, _, _, houter⟩ := Resolving.bind_eq_ok.mp houter
      obtain ⟨_, _, _, houter⟩ := Resolving.bind_eq_ok.mp houter
      obtain ⟨rfl, _⟩ := Resolving.pure_eq_ok.mp houter
      rfl

theorem Nesting.mapM_closed {n' : Nesting Word} {index : Nat} (h : n.closed index = .ok n') :
    n'.mapM f = (do MonadExcept.ofExcept ((← n.mapM f).closed index)) := by
  obtain ⟨⟨pending, negation⟩, outer⟩ := succeeds_closed_iff.mp ⟨n', h⟩
  obtain ⟨⟨tree, _, _⟩, _ | ⟨⟨i, level⟩, outer⟩⟩ := n
  · cases outer
  cases pending
  cases negation
  cases h
  simp only [Nesting.mapM, Nesting.mapOuterM, Level.mapM_group]
  simp [Level.mapM, closed, Level.close]
  rfl

theorem Nesting.mapM_finish {tree : Option (Formula Word)} (h : n.finish = .ok tree) :
    mapAnyM f tree = (do MonadExcept.ofExcept (← n.mapM f).finish) := by
  obtain ⟨⟨pending, negation⟩, outer⟩ := succeeds_finish_iff.mp ⟨tree, h⟩
  obtain ⟨⟨_, _, _⟩, _ | _⟩ := n
  · cases pending
    cases negation
    cases h
    simp only [Nesting.mapM, Nesting.mapOuterM, Level.mapM, finish, Level.close, bind_assoc,
      pure_bind]
    exact (bind_pure _).symm
  · cases outer

theorem Nesting.mapM_joined {n' : Nesting Word} {index : Nat} {w : LogicalWord}
    (h : n.joined index w = .ok n') :
    n'.mapM f = (do MonadExcept.ofExcept ((← n.mapM f).joined index w)) := by
  have able := succeeds_joined_iff.mp ⟨n', h⟩
  obtain ⟨⟨tree, pending, negation⟩, outer⟩ := n
  cases w with
  | not =>
    cases h
    simp [Nesting.mapM, Level.mapM, joined, Level.negate]
    rfl
  | connective c =>
    obtain ⟨some_, rfl, rfl⟩ := able.resolve_left nofun
    obtain ⟨t, rfl⟩ := Option.isSome_iff_exists.mp some_
    cases h
    simp [Nesting.mapM, Level.mapM, mapAnyM, joined, Level.connect]
    rfl

/-- The formula of words is read on by its tokens alone. -/
def readWord (n : Nesting Word) (token : Token) : Except Error (Nesting Word) :=
  readToken (fun w => (.ok w : Except Error Word)) n token

theorem ofExcept_self {ε γ : Type} (x : Except ε γ) :
    (MonadExcept.ofExcept x : Except ε γ) = x := by
  cases x <;> rfl

/-- Reading a token after leaves have been made is making leaves after the token has been read. -/
theorem mapM_readWord {n' : Nesting Word} {token : Token} (h : readWord n token = .ok n') :
    n'.mapM f = (do readToken f (← n.mapM f) token) := by
  cases token with
  | opening index =>
    cases h
    exact n.mapM_opened index
  | closing index =>
    rw [readWord, readToken, ofExcept_self] at h
    exact Nesting.mapM_closed h
  | word index w =>
    cases hw : w.logical? with
    | some word =>
      simp only [readWord, readToken, hw, ofExcept_self] at h
      simp only [readToken, hw]
      exact Nesting.mapM_joined h
    | none =>
      simp only [readWord, readToken, hw] at h
      cases h
      simp [readToken, hw, Nesting.mapM_term, mapM]

theorem succeeds_readWord {token : Token} {n₁ n₂ : Nesting α} {s₁ : σ}
    (made : n.mapM f s = (.ok n₁, s₁))
    (h : readToken f n₁ token s₁ = (.ok n₂, s')) : Succeeds (readWord n token) := by
  have alike := Nesting.alike_of_mapM made
  cases token with
  | opening index => exact succeeds_ok _
  | closing index =>
    have able := Nesting.succeeds_closed_iff.mp ⟨_, (Resolving.ofExcept_eq_ok.mp h).1⟩
    rw [alike.pending, alike.negation, alike.outer] at able
    rw [readWord, readToken, ofExcept_self]
    exact Nesting.succeeds_closed_iff.mpr able
  | word index w =>
    cases hw : w.logical? with
    | some word =>
      simp only [readToken, hw] at h
      have able := Nesting.succeeds_joined_iff.mp ⟨_, (Resolving.ofExcept_eq_ok.mp h).1⟩
      rw [alike.tree, alike.pending, alike.negation] at able
      simp only [readWord, readToken, hw, ofExcept_self]
      exact Nesting.succeeds_joined_iff.mpr able
    | none =>
      simp only [readWord, readToken, hw]
      exact succeeds_ok _

theorem mapM_readWords {tokens : List Token} {n₂ : Nesting α} :
    (do tokens.foldlM (readToken f) (← n.mapM f)) s = (.ok n₂, s') ↔
      ∃ n', tokens.foldlM readWord n = .ok n' ∧ n'.mapM f s = (.ok n₂, s') := by
  induction tokens generalizing n with
  | nil => simp [pure_eq_ok]
  | cons token tokens ih =>
    simp only [List.foldlM_cons]
    rw [← bind_assoc]
    cases read : readWord n token with
    | ok n' =>
      rw [← mapM_readWord read, ih]
      rfl
    | error e =>
      constructor
      · intro h
        obtain ⟨n₁, s₁, h, _⟩ := Resolving.bind_eq_ok.mp h
        obtain ⟨n₀, s₀, made, h⟩ := Resolving.bind_eq_ok.mp h
        have able := succeeds_readWord made h
        rw [read] at able
        exact absurd able (not_succeeds_error e)
      · rintro ⟨_, h, _⟩
        cases h

/-- The formula of the words of a filter. -/
def ofWords (tokens : List Token) : Except Error (Option (Formula Word)) :=
  ofTokens (fun w => (.ok w : Except Error Word)) tokens

theorem ofWords_eq_ok_iff {tokens : List Token} {words : Option (Formula Word)} :
    ofWords tokens = .ok words ↔
      ∃ n, tokens.foldlM readWord .start = .ok n ∧ n.finish = .ok words := by
  refine bind_eq_ok.trans (exists_congr fun n => and_congr_right fun _ => ?_)
  rw [ofExcept_self]

/-- To read the tokens is to read them as words and then to make a leaf of each word. -/
theorem ofTokens_eq_ok_iff {tokens : List Token} {tree : Option (Formula α)} :
    ofTokens f tokens s = (.ok tree, s') ↔
      ∃ words, ofWords tokens = .ok words ∧ mapAnyM f words s = (.ok tree, s') := by
  have whole : ofTokens f tokens = (do
      let n ← tokens.foldlM (readToken f) (← (Nesting.start : Nesting Word).mapM f)
      MonadExcept.ofExcept n.finish) := by
    rw [Nesting.mapM_start, pure_bind]
    rfl
  rw [whole, ← bind_assoc, Resolving.bind_eq_ok]
  simp only [ofWords_eq_ok_iff]
  constructor
  · rintro ⟨n₂, s₂, h, finished⟩
    obtain ⟨n, read, made⟩ := mapM_readWords.mp h
    have alike := Nesting.alike_of_mapM made
    have able := Nesting.succeeds_finish_iff.mp ⟨_, (Resolving.ofExcept_eq_ok.mp finished).1⟩
    rw [alike.pending, alike.negation, alike.outer] at able
    obtain ⟨words, hwords⟩ := Nesting.succeeds_finish_iff.mpr able
    refine ⟨words, ⟨n, read, hwords⟩, ?_⟩
    rw [Nesting.mapM_finish hwords]
    exact Resolving.bind_eq_ok.mpr ⟨n₂, s₂, made, finished⟩
  · rintro ⟨words, ⟨n, read, hwords⟩, made⟩
    rw [Nesting.mapM_finish hwords] at made
    obtain ⟨n₂, s₂, made, finished⟩ := Resolving.bind_eq_ok.mp made
    exact ⟨n₂, s₂, mapM_readWords.mpr ⟨n, read, made⟩, finished⟩

end

/-! ## The order of the leaves -/

theorem leaves_join (c : Connective) (p q : Formula α) :
    (join c p q).leaves = p.leaves ++ q.leaves := by
  cases c <;> rfl

/-- The leaves of a formula, if there is one. -/
def leavesOf (t : Option (Formula α)) : List α := (t.map leaves).getD []

theorem Level.leaves_term (l : Level α) (t : Formula α) :
    leavesOf (l.term t).tree = leavesOf l.tree ++ t.leaves := by
  obtain ⟨tree, pending, negation⟩ := l
  cases tree <;> cases negation <;> simp [Level.term, leavesOf, leaves_join, leaves]

theorem Level.leaves_group (l : Level α) (inner : Option (Formula α)) :
    leavesOf (l.group inner).tree = leavesOf l.tree ++ leavesOf inner := by
  cases inner with
  | none => simp [Level.group, leavesOf]
  | some t => exact l.leaves_term t

/-- The leaves of all levels, in the order of the text. -/
def Nesting.leaves (n : Nesting α) : List α :=
  n.outer.reverse.flatMap (fun outer => leavesOf outer.2.tree) ++ leavesOf n.level.tree

theorem Level.tree_of_close {l : Level α} {tree : Option (Formula α)} (h : l.close = .ok tree) :
    l.tree = tree := by
  unfold close at h
  split at h
  · cases h
  · cases h
  · exact Except.ok.inj h

/-- The leaves grow by the words that do not join others, and change in no other way. -/
theorem leaves_readWord {n n' : Nesting Word} {token : Token} (h : readWord n token = .ok n') :
    n'.leaves = n.leaves ++ token.term?.toList := by
  cases token with
  | opening index =>
    cases h
    simp [Nesting.leaves, Nesting.opened, Level.empty, leavesOf, Token.term?]
  | closing index =>
    rw [readWord, readToken, ofExcept_self] at h
    obtain ⟨inner, hinner, h⟩ := bind_eq_ok.mp h
    obtain ⟨level, _ | ⟨⟨i, outer⟩, outers⟩⟩ := n
    · cases h
    · cases h
      simp [Nesting.leaves, Level.leaves_group, ← Level.tree_of_close hinner, Token.term?]
  | word index w =>
    cases hw : w.logical? with
    | some word =>
      simp only [readWord, readToken, hw, ofExcept_self] at h
      have same : n'.leaves = n.leaves := by
        cases word with
        | not =>
          cases h
          rfl
        | connective c =>
          obtain ⟨level, hlevel, h⟩ := bind_eq_ok.mp h
          cases h
          unfold Level.connect at hlevel
          split at hlevel
          · cases hlevel
          · cases hlevel
            rfl
      simp [same, Token.term?, hw]
    | none =>
      simp only [readWord, readToken, hw] at h
      cases h
      simp [Nesting.leaves, Nesting.term, Level.leaves_term, leaves, Token.term?, hw]

theorem leaves_readWords {tokens : List Token} {n n' : Nesting Word}
    (h : tokens.foldlM readWord n = .ok n') : n'.leaves = n.leaves ++ terms tokens := by
  induction tokens generalizing n with
  | nil =>
    cases h
    simp [terms]
  | cons token tokens ih =>
    rw [List.foldlM_cons] at h
    obtain ⟨n₁, htoken, h⟩ := bind_eq_ok.mp h
    rw [ih h, leaves_readWord htoken, terms, terms, List.append_assoc]
    cases ht : token.term? <;> simp [ht]

/-- The leaves of the formula of words are the words that do not join others. -/
theorem leaves_ofWords {tokens : List Token} {words : Option (Formula Word)}
    (h : ofWords tokens = .ok words) : leavesOf words = terms tokens := by
  obtain ⟨n, read, h⟩ := ofWords_eq_ok_iff.mp h
  have leaves := leaves_readWords read
  obtain ⟨tree, htree, h⟩ := bind_eq_ok.mp h
  split at h
  · next none =>
    cases h
    rw [Nesting.leaves, none, Level.tree_of_close htree] at leaves
    exact leaves
  · cases h

/-! ## What is made of the words -/

section

variable {f : Word → Resolving α} {P : Joins → Prop} {joins joins' : Joins}

/-- The leaf has been made of the word while some of the joins had been entered. -/
def MadeOf (f : Word → Resolving α) (P : Joins → Prop) (joins : Joins) (w : Word) (a : α) : Prop :=
  ∃ before after, P before ∧ f w before = (.ok a, after) ∧ after <+: joins

theorem MadeOf.mono {w : Word} {a : α} (h : MadeOf f P joins w a) (grown : joins <+: joins') :
    MadeOf f P joins' w a := by
  obtain ⟨before, after, hP, made, grown'⟩ := h
  exact ⟨before, after, hP, made, grown'.trans grown⟩

variable (grow : ∀ w joins a joins', P joins → f w joins = (.ok a, joins') →
    P joins' ∧ joins <+: joins')

include grow

theorem forall₂_of_mapM {t : Formula Word} {p : Formula α} (hP : P joins)
    (h : t.mapM f joins = (.ok p, joins')) :
    P joins' ∧ joins <+: joins' ∧ List.Forall₂ (MadeOf f P joins') t.leaves p.leaves := by
  induction t generalizing joins joins' p with
  | leaf w =>
    obtain ⟨a, joins₁, made, h⟩ := Resolving.bind_eq_ok.mp h
    obtain ⟨rfl, rfl⟩ := Resolving.pure_eq_ok.mp h
    obtain ⟨hP', grown⟩ := grow w joins a joins₁ hP made
    exact ⟨hP', grown, .cons ⟨joins, joins₁, hP, made, List.prefix_refl _⟩ .nil⟩
  | not t ih =>
    obtain ⟨q, joins₁, made, h⟩ := Resolving.bind_eq_ok.mp h
    obtain ⟨rfl, rfl⟩ := Resolving.pure_eq_ok.mp h
    exact ih (p := q) hP made
  | and t u iht ihu | or t u iht ihu =>
    obtain ⟨p, joins₁, made, h⟩ := Resolving.bind_eq_ok.mp h
    obtain ⟨q, joins₂, made', h⟩ := Resolving.bind_eq_ok.mp h
    obtain ⟨rfl, rfl⟩ := Resolving.pure_eq_ok.mp h
    obtain ⟨hP₁, grown, left⟩ := iht hP made
    obtain ⟨hP₂, grown', right⟩ := ihu hP₁ made'
    refine ⟨hP₂, grown.trans grown', ?_⟩
    exact List.rel_append (left.imp fun _ _ h => h.mono grown') right

/-- The leaves of a formula are made of the words that do not join others, in the order of the text;
without such words no join is entered. -/
theorem forall₂_of_ofTokens {tokens : List Token} {tree : Option (Formula α)} (hP : P joins)
    (h : ofTokens f tokens joins = (.ok tree, joins')) :
    P joins' ∧ List.Forall₂ (MadeOf f P joins') (terms tokens) (leavesOf tree) ∧
      (tree = none → joins' = joins) := by
  obtain ⟨words, hwords, h⟩ := ofTokens_eq_ok_iff.mp h
  rw [← leaves_ofWords hwords]
  cases words with
  | none =>
    obtain ⟨rfl, rfl⟩ := Resolving.pure_eq_ok.mp h
    exact ⟨hP, .nil, fun _ => rfl⟩
  | some t =>
    obtain ⟨p, joins₁, made, h⟩ := Resolving.bind_eq_ok.mp h
    obtain ⟨rfl, rfl⟩ := Resolving.pure_eq_ok.mp h
    obtain ⟨hP', _, leaves⟩ := forall₂_of_mapM grow hP made
    exact ⟨hP', leaves, nofun⟩

end

end Formula
end EntityQuery
