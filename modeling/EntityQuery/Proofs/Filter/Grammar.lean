import EntityQuery.Proofs.Filter.Combination
import Mathlib.Data.List.Chain
import Mathlib.Logic.Relation

/-!
# The grammar of filters

A filter says the same without its empty groups and without two `not` beside each other
(`ReducesTo.ofWords_iff`). What is left when all of these are deleted is read if it follows a
grammar (`Describes`): a group, or the whole filter, is a sequence of terms, each of them perhaps
after a `not`, and between two of them perhaps a connective. The grammar says at once which formula
is described, so there is one statement for what is accepted and for what is made of it
(`ofTokens_reads_grammar`): **a filter is read exactly if what is left follows the grammar, and it
is read as the formula that the grammar describes.**

* Deleting comes to an end (`exists_reducesTo`). Two tokens that can be deleted leave the levels as
  they were but for offsets (`exists_readWord_of_cancels`), and levels that differ in offsets go on
  in the same ways (`Nesting.Same.readWord`).
* What follows the grammar is read, by induction on the grammar (`Describes.read`).
* What is read follows the grammar: the levels that are open are at each point what has been made of
  the tokens so far (`Nesting.ReadAs`), which is kept by each token where nothing can be deleted
  (`Nesting.ReadAs.step`).
-/

namespace EntityQuery.Formula

/-! ## Deleting -/

/-- Whether two tokens that stand beside each other are an empty group, or two `not`. -/
def cancels : Token → Token → Bool
  | .opening _, .closing _ => true
  | .word _ v, .word _ w => v.logical? = some .not && w.logical? = some .not
  | _, _ => false

/-- The second filter is the first one without an empty group, or without two `not` that stand
beside each other. -/
inductive Deletes : List Token → List Token → Prop
  | pair (before after : List Token) {a b : Token} (h : cancels a b = true) :
    Deletes (before ++ a :: b :: after) (before ++ after)

/-- There is nothing left to delete. -/
def Reduced (ts : List Token) : Prop := ∀ us, ¬ Deletes ts us

/-- Deleting as long as there is something to delete leads from one filter to the other. -/
def ReducesTo (ts us : List Token) : Prop := Relation.ReflTransGen Deletes ts us ∧ Reduced us

theorem Deletes.length {ts us : List Token} (h : Deletes ts us) : us.length < ts.length := by
  cases h
  simp only [List.length_append, List.length_cons]
  omega

theorem reduced_iff_isChain {ts : List Token} :
    Reduced ts ↔ ts.IsChain (fun a b => cancels a b = false) := by
  rw [List.isChain_iff_forall_rel_of_append_cons_cons]
  constructor
  · rintro reduced a b before after rfl
    by_contra h
    exact reduced _ (.pair before after (by simpa using h))
  · rintro chain us ⟨before, after, h⟩
    exact absurd h (by simp [chain rfl])

instance (ts : List Token) : Decidable (Reduced ts) :=
  decidable_of_iff _ reduced_iff_isChain.symm

/-- Deleting comes to an end. -/
theorem exists_reducesTo (ts : List Token) : ∃ us, ReducesTo ts us := by
  obtain ⟨n, hn⟩ : ∃ n, ts.length = n := ⟨_, rfl⟩
  induction n using Nat.strongRecOn generalizing ts with
  | ind n ih =>
    by_cases reduced : Reduced ts
    · exact ⟨ts, .refl, reduced⟩
    · obtain ⟨us, deletes⟩ : ∃ us, Deletes ts us := by simpa [Reduced] using reduced
      obtain ⟨vs, steps, reduced'⟩ := ih us.length (hn ▸ deletes.length) us rfl
      exact ⟨vs, steps.head deletes, reduced'⟩

/-! ## Levels that differ in offsets -/

/-- The levels differ at most in where their `not` stands. -/
structure Level.Same (l l' : Level Word) : Prop where
  tree : l'.tree = l.tree
  pending : l'.pending = l.pending
  negation : l'.negation.isSome = l.negation.isSome

theorem Level.Same.refl (l : Level Word) : l.Same l := ⟨rfl, rfl, rfl⟩

theorem Level.Same.symm {l l' : Level Word} (h : l.Same l') : l'.Same l :=
  ⟨h.tree.symm, h.pending.symm, h.negation.symm⟩

theorem Level.Same.term {l l' : Level Word} (h : l.Same l') (t : Formula Word) :
    l'.term t = l.term t := by
  unfold Level.term
  rw [h.tree, h.pending, h.negation]

theorem Level.Same.group {l l' : Level Word} (h : l.Same l') (inner : Option (Formula Word)) :
    (l.group inner).Same (l'.group inner) := by
  cases inner with
  | none => exact h
  | some t =>
    show (l.term t).Same (l'.term t)
    rw [h.term t]
    exact .refl _

/-- The nestings differ at most in where a `not` stands that waits for its term. -/
structure Nesting.Same (n n' : Nesting Word) : Prop where
  level : n.level.Same n'.level
  outer : List.Forall₂ (fun a b => a.1 = b.1 ∧ a.2.Same b.2) n.outer n'.outer

theorem Nesting.Same.refl (n : Nesting Word) : n.Same n :=
  ⟨.refl _, List.forall₂_same.mpr fun a _ => ⟨rfl, .refl a.2⟩⟩

theorem Nesting.Same.symm {n n' : Nesting Word} (h : n.Same n') : n'.Same n :=
  ⟨h.level.symm, h.outer.flip.imp fun _ _ h => ⟨h.1.symm, h.2.symm⟩⟩

theorem Level.close_eq_ok_iff {l : Level Word} {tree : Option (Formula Word)} :
    l.close = .ok tree ↔ l.pending = none ∧ l.negation = none ∧ l.tree = tree := by
  unfold close
  cases l.pending <;> cases l.negation <;> simp

theorem Level.Same.close {l l' : Level Word} (h : l.Same l') {tree : Option (Formula Word)}
    (closed : l.close = .ok tree) : l'.close = .ok tree := by
  obtain ⟨pending, negation, rfl⟩ := Level.close_eq_ok_iff.mp closed
  refine Level.close_eq_ok_iff.mpr ⟨h.pending.trans pending, ?_, h.tree⟩
  simpa [negation] using h.negation

theorem Level.Same.connect {l l' m : Level Word} (h : l.Same l') {c : Connective} {index : Nat}
    (connected : l.connect c index = .ok m) : ∃ m', l'.connect c index = .ok m' ∧ m.Same m' := by
  unfold Level.connect at connected ⊢
  rw [h.tree, h.pending, h.negation]
  split at connected
  · cases connected
  · next able =>
    cases connected
    exact ⟨_, if_neg able, ⟨rfl, rfl, h.negation⟩⟩

/-- Of nestings that differ in offsets one can be read on exactly if the other can. -/
theorem Nesting.Same.readWord {n n' m : Nesting Word} (same : n.Same n') {token : Token}
    (h : readWord n token = .ok m) : ∃ m', Formula.readWord n' token = .ok m' ∧ m.Same m' := by
  cases token with
  | opening index =>
    cases h
    exact ⟨n'.opened index, rfl, .refl _, .cons ⟨rfl, same.level⟩ same.outer⟩
  | closing index =>
    rw [Formula.readWord, readToken, ofExcept_self] at h ⊢
    obtain ⟨inner, closed, h⟩ := bind_eq_ok.mp h
    obtain ⟨level, outer⟩ := n
    obtain ⟨level', outer'⟩ := n'
    cases same.outer with
    | nil => cases h
    | cons around outside =>
      cases h
      obtain ⟨_, around⟩ := around
      exact ⟨_, bind_eq_ok.mpr ⟨inner, same.level.close closed, rfl⟩, around.group inner, outside⟩
  | word index w =>
    cases hw : w.logical? with
    | none =>
      simp only [Formula.readWord, readToken, hw] at h ⊢
      cases h
      refine ⟨_, rfl, ?_, same.outer⟩
      show (n.level.term _).Same (n'.level.term _)
      rw [same.level.term]
      exact .refl _
    | some word =>
      simp only [Formula.readWord, readToken, hw, ofExcept_self] at h ⊢
      cases word with
      | not =>
        cases h
        refine ⟨_, rfl, ⟨same.level.tree, same.level.pending, ?_⟩, same.outer⟩
        simp only [Level.negate, same.level.negation]
      | connective c =>
        obtain ⟨l, connected, h⟩ := bind_eq_ok.mp h
        cases h
        obtain ⟨l', connected', same'⟩ := same.level.connect connected
        exact ⟨_, bind_eq_ok.mpr ⟨l', connected', rfl⟩, same', same.outer⟩

/-- The tokens are read from the nesting to their end, and describe the formula. -/
def ReadsFrom (n : Nesting Word) (ts : List Token) (tree : Option (Formula Word)) : Prop :=
  ∃ m, ts.foldlM readWord n = .ok m ∧ m.finish = .ok tree

theorem Nesting.Same.finish {n n' : Nesting Word} (same : n.Same n')
    {tree : Option (Formula Word)} (h : n.finish = .ok tree) : n'.finish = .ok tree := by
  unfold Nesting.finish at h ⊢
  obtain ⟨inner, closed, h⟩ := bind_eq_ok.mp h
  refine bind_eq_ok.mpr ⟨inner, same.level.close closed, ?_⟩
  obtain ⟨level, outer⟩ := n
  obtain ⟨level', outer'⟩ := n'
  cases same.outer with
  | nil => exact h
  | cons => cases h

theorem Nesting.Same.readsFrom {n n' : Nesting Word} (same : n.Same n') {ts : List Token}
    {tree : Option (Formula Word)} (h : ReadsFrom n ts tree) : ReadsFrom n' ts tree := by
  induction ts generalizing n n' with
  | nil =>
    obtain ⟨m, read, finished⟩ := h
    cases read
    exact ⟨n', rfl, same.finish finished⟩
  | cons token ts ih =>
    obtain ⟨m, read, finished⟩ := h
    rw [List.foldlM_cons] at read
    obtain ⟨n₁, first, rest⟩ := bind_eq_ok.mp read
    obtain ⟨n₁', first', same'⟩ := same.readWord first
    obtain ⟨m', rest', finished'⟩ := ih same' ⟨m, rest, finished⟩
    refine ⟨m', ?_, finished'⟩
    rw [List.foldlM_cons]
    exact bind_eq_ok.mpr ⟨n₁', first', rest'⟩

/-! ## Deleting changes nothing -/

/-- Two tokens that can be deleted leave a nesting as it was, but for offsets. -/
theorem exists_readWord_of_cancels {a b : Token} (h : cancels a b = true) (n : Nesting Word) :
    ∃ n₁ n₂, readWord n a = .ok n₁ ∧ readWord n₁ b = .ok n₂ ∧ n.Same n₂ := by
  cases a with
  | closing => cases h
  | opening first =>
    cases b with
    | opening | word => cases h
    | closing last => exact ⟨n.opened first, n, rfl, rfl, .refl n⟩
  | word i v =>
    cases b with
    | opening | closing => cases h
    | word j w =>
      simp only [cancels, Bool.and_eq_true, decide_eq_true_eq] at h
      obtain ⟨hv, hw⟩ := h
      refine ⟨{ n with level := n.level.negate i },
        { n with level := (n.level.negate i).negate j }, ?_, ?_, ⟨rfl, rfl, ?_⟩,
        (Nesting.Same.refl n).outer⟩
      · simp only [readWord, readToken, hv]
        rfl
      · simp only [readWord, readToken, hw]
        rfl
      · cases h : n.level.negation <;> simp [Level.negate, h]

theorem Deletes.readsFrom_iff {ts us : List Token} (h : Deletes ts us) {n : Nesting Word}
    {tree : Option (Formula Word)} : ReadsFrom n ts tree ↔ ReadsFrom n us tree := by
  obtain @⟨before, after, a, b, h⟩ := h
  induction before generalizing n with
  | nil =>
    obtain ⟨n₁, n₂, first, second, same⟩ := exists_readWord_of_cancels h n
    have skip : ReadsFrom n (a :: b :: after) tree ↔ ReadsFrom n₂ after tree := by
      simp only [ReadsFrom, List.foldlM_cons, first, second, ok_bind]
    exact skip.trans ⟨same.symm.readsFrom, same.readsFrom⟩
  | cons c before ih =>
    simp only [ReadsFrom, List.cons_append, List.foldlM_cons] at ih ⊢
    cases readWord n c with
    | error e => simp [bind, Except.bind]
    | ok n₁ => exact ih

theorem readsFrom_iff_of_deletes {ts us : List Token} (steps : Relation.ReflTransGen Deletes ts us)
    {n : Nesting Word} {tree : Option (Formula Word)} :
    ReadsFrom n ts tree ↔ ReadsFrom n us tree := by
  induction steps with
  | refl => rfl
  | tail _ deletes ih => exact ih.trans deletes.readsFrom_iff

theorem ReducesTo.ofWords_iff {ts us : List Token} (h : ReducesTo ts us)
    {tree : Option (Formula Word)} : ofWords ts = .ok tree ↔ ofWords us = .ok tree := by
  rw [ofWords_eq_ok_iff, ofWords_eq_ok_iff]
  exact readsFrom_iff_of_deletes h.1

/-! ## The grammar -/

/-- What a part of a filter is. -/
inductive Part where
  /-- A word that joins nothing, or a group. -/
  | term
  /-- A term, perhaps after a `not`. -/
  | signed
  /-- What stands in a group, and the whole filter. -/
  | level

/-- The tokens are such a part of a filter, and describe the formula. -/
inductive Describes : Part → List Token → Formula Word → Prop
  | word (index : Nat) {w : Word} (hw : w.logical? = none) :
    Describes .term [.word index w] (.leaf w)
  | group (first last : Nat) {ts : List Token} {t : Formula Word} (inner : Describes .level ts t) :
    Describes .term (.opening first :: ts ++ [.closing last]) t
  | plain {ts : List Token} {t : Formula Word} (term : Describes .term ts t) :
    Describes .signed ts t
  | negated (index : Nat) {w : Word} (hw : w.logical? = some .not) {ts : List Token}
      {t : Formula Word} (term : Describes .term ts t) :
    Describes .signed (.word index w :: ts) (.not t)
  | first {ts : List Token} {t : Formula Word} (term : Describes .signed ts t) :
    Describes .level ts t
  | adjacent {ts us : List Token} {t u : Formula Word} (before : Describes .level ts t)
      (term : Describes .signed us u) : Describes .level (ts ++ us) (.and t u)
  | connected (index : Nat) {w : Word} {c : Connective} (hw : w.logical? = some (.connective c))
      {ts us : List Token} {t u : Formula Word} (before : Describes .level ts t)
      (term : Describes .signed us u) :
    Describes .level (ts ++ .word index w :: us) (join c t u)

/-- What reading a part of a filter comes to. -/
def Part.Read : Part → List Token → Formula Word → Prop
  | term, ts, t => ∀ n : Nesting Word, ts.foldlM readWord n = .ok (n.term t)
  | signed, ts, t => ∀ n : Nesting Word, n.level.negation = none →
      ts.foldlM readWord n = .ok (n.term t)
  | level, ts, t => ∀ outer, ts.foldlM readWord ⟨.empty, outer⟩ = .ok ⟨⟨some t, none, none⟩, outer⟩

/-- A filter that follows the grammar is read, and what is read is the formula it describes. -/
theorem Describes.read {part : Part} {ts : List Token} {t : Formula Word}
    (h : Describes part ts t) : part.Read ts t := by
  induction h with
  | word index hw =>
    intro n
    simp [List.foldlM_cons, readWord, readToken, hw]
  | @group first last ts t inner ih =>
    intro n
    have opens : readWord n (.opening first) = .ok (n.opened first) := rfl
    rw [List.cons_append, List.foldlM_cons, opens, ok_bind, List.foldlM_append, Nesting.opened,
      ih ((first, n.level) :: n.outer), ok_bind]
    rfl
  | plain term ih => exact fun n _ => ih n
  | @negated index w hw ts t term ih =>
    intro n none
    have negates : readWord n (.word index w) = .ok { n with level := n.level.negate index } := by
      simp only [readWord, readToken, hw]
      rfl
    rw [List.foldlM_cons, negates, ok_bind, ih]
    -- The waiting `not` is put before the term, as it would be by hand.
    simp [Nesting.term, Level.term, Level.negate, none]
  | first term ih => exact fun outer => ih ⟨.empty, outer⟩ rfl
  | adjacent before term ihb iht =>
    intro outer
    rw [List.foldlM_append, ihb outer]
    exact iht _ rfl
  | @connected index w c hw ts us t u before term ihb iht =>
    intro outer
    have connects : readWord ⟨⟨some t, none, none⟩, outer⟩ (.word index w) =
        .ok ⟨⟨some t, some (c, index), none⟩, outer⟩ := by
      simp only [readWord, readToken, hw]
      rfl
    rw [List.foldlM_append, ihb outer, ok_bind, List.foldlM_cons, connects, ok_bind]
    exact iht _ rfl

/-! ## What has been read follows the grammar -/

/-- The level is what has been made of the tokens of a group up to some point. -/
inductive Level.ReadAs : Level Word → List Token → Prop
  | empty : ReadAs .empty []
  | terms {ts : List Token} {t : Formula Word} (h : Describes .level ts t) :
    ReadAs ⟨some t, none, none⟩ ts
  | pending {ts : List Token} {t : Formula Word} (h : Describes .level ts t) (index : Nat)
      {w : Word} {c : Connective} (hw : w.logical? = some (.connective c)) :
    ReadAs ⟨some t, some (c, index), none⟩ (ts ++ [.word index w])
  | negated {l : Level Word} {ts : List Token} (h : ReadAs l ts) (none_ : l.negation = none)
      (index : Nat) {w : Word} (hw : w.logical? = some .not) :
    ReadAs (l.negate index) (ts ++ [.word index w])

theorem Level.ReadAs.signed {l : Level Word} {ts us : List Token} {u : Formula Word}
    (h : l.ReadAs ts) (none_ : l.negation = none) (term : Describes .signed us u) :
    (l.term u).ReadAs (ts ++ us) := by
  cases h with
  | empty => exact .terms (.first term)
  | terms before => exact .terms (.adjacent before term)
  | pending before index hw =>
    rw [List.append_assoc]
    exact .terms (.connected index hw before term)
  | negated h none' => simp [Level.negate, none'] at none_

/-- A level goes on with a term. -/
theorem Level.ReadAs.term {l : Level Word} {ts us : List Token} {u : Formula Word}
    (h : l.ReadAs ts) (term : Describes .term us u) : (l.term u).ReadAs (ts ++ us) := by
  by_cases none_ : l.negation = none
  · exact h.signed none_ (.plain term)
  · cases h with
    | empty => exact absurd rfl none_
    | terms => exact absurd rfl none_
    | pending => exact absurd rfl none_
    | @negated l ts h none' index w hw =>
      have whole := h.signed none' (.negated index hw term)
      rw [List.append_assoc]
      simpa [Level.negate, Level.term, none'] using whole

/-- The levels around a group are what has been made of the tokens up to where the group begins. -/
inductive OuterAs : List (Nat × Level Word) → List Token → Prop
  | nil : OuterAs [] []
  | cons {outer : List (Nat × Level Word)} {before within : List Token} {l : Level Word}
      (h : OuterAs outer before) (hl : l.ReadAs within) (index : Nat) :
    OuterAs ((index, l) :: outer) (before ++ within ++ [.opening index])

/-- The nesting is what has been made of the tokens up to some point. -/
def Nesting.ReadAs (n : Nesting Word) (ts : List Token) : Prop :=
  ∃ before within, OuterAs n.outer before ∧ n.level.ReadAs within ∧ ts = before ++ within

theorem Nesting.readAs_start : (Nesting.start : Nesting Word).ReadAs [] :=
  ⟨[], [], .nil, .empty, rfl⟩

/-- Where nothing can be deleted, each token that is read goes on with what the grammar describes.
-/
theorem Nesting.ReadAs.step {n n' : Nesting Word} {ts rest : List Token} {token : Token}
    (h : n.ReadAs ts) (reduced : Reduced (ts ++ token :: rest))
    (read : readWord n token = .ok n') : n'.ReadAs (ts ++ [token]) := by
  obtain ⟨before, within, outer, level, rfl⟩ := h
  cases token with
  | opening index =>
    cases read
    exact ⟨_, [], .cons outer level index, .empty, (List.append_nil _).symm⟩
  | closing index =>
    rw [readWord, readToken, ofExcept_self] at read
    obtain ⟨inner, closed, read⟩ := bind_eq_ok.mp read
    obtain ⟨pending, negation, tree⟩ := Level.close_eq_ok_iff.mp closed
    obtain ⟨l, o⟩ := n
    cases outer with
    | nil => cases read
    | @cons outer before around l' outside hl first =>
      cases read
      cases level with
      | empty =>
        refine absurd ?_ (reduced (before ++ around ++ rest))
        have empty : cancels (.opening first) (.closing index) = true := rfl
        simpa using Deletes.pair (before ++ around) rest empty
      | terms describes =>
        cases tree
        refine ⟨before, _, outside, hl.term (.group first index describes), ?_⟩
        simp
      | pending => cases pending
      | negated h none_ i hw => simp [none_] at negation
  | word index w =>
    cases hw : w.logical? with
    | none =>
      simp only [readWord, readToken, hw] at read
      cases read
      exact ⟨before, _, outer, level.term (.word index hw), List.append_assoc ..⟩
    | some word =>
      simp only [readWord, readToken, hw, ofExcept_self] at read
      cases word with
      | not =>
        cases read
        by_cases none_ : n.level.negation = none
        · exact ⟨before, _, outer, level.negated none_ index hw, List.append_assoc ..⟩
        obtain ⟨l, o⟩ := n
        cases level with
        | empty => exact absurd rfl none_
        | terms => exact absurd rfl none_
        | pending => exact absurd rfl none_
        | @negated l within h none' i v hv =>
          refine absurd ?_ (reduced (before ++ within ++ rest))
          have twice : cancels (.word i v) (.word index w) = true := by simp [cancels, hv, hw]
          simpa using Deletes.pair (before ++ within) rest twice
      | connective c =>
        obtain ⟨l', connected, read⟩ := bind_eq_ok.mp read
        cases read
        obtain ⟨l, o⟩ := n
        -- A connective is read only after a term.
        cases level with
        | empty => cases connected
        | terms h =>
          cases connected
          exact ⟨before, _, outer, .pending h index hw, List.append_assoc ..⟩
        | pending => cases connected
        | negated h none_ => simp [Level.connect, none_] at connected

theorem Nesting.ReadAs.run {n n' : Nesting Word} {ts us : List Token} (h : n.ReadAs ts)
    (reduced : Reduced (ts ++ us)) (read : us.foldlM readWord n = .ok n') :
    n'.ReadAs (ts ++ us) := by
  induction us generalizing n ts with
  | nil =>
    cases read
    simpa using h
  | cons token us ih =>
    rw [List.foldlM_cons] at read
    obtain ⟨n₁, first, rest⟩ := bind_eq_ok.mp read
    have stepped := h.step reduced first
    have whole := ih stepped (by simpa using reduced) rest
    simpa using whole

/-- Where nothing can be deleted, the filters that are read are those that follow the grammar, and
the one without tokens. -/
theorem Reduced.ofWords_iff {us : List Token} (reduced : Reduced us)
    {tree : Option (Formula Word)} : ofWords us = .ok tree ↔
      us = [] ∧ tree = none ∨ ∃ t, Describes .level us t ∧ tree = some t := by
  rw [ofWords_eq_ok_iff]
  constructor
  · rintro ⟨n, read, finished⟩
    obtain ⟨before, within, outer, level, rfl⟩ := Nesting.readAs_start.run reduced read
    obtain ⟨inner, closed, finished⟩ := bind_eq_ok.mp finished
    obtain ⟨pending, negation, rfl⟩ := Level.close_eq_ok_iff.mp closed
    obtain ⟨l, o⟩ := n
    cases outer with
    | cons => cases finished
    | nil =>
      cases finished
      cases level with
      | empty => exact .inl ⟨rfl, rfl⟩
      | terms h => exact .inr ⟨_, h, rfl⟩
      | pending => cases pending
      | negated h none_ => simp [none_] at negation
  · rintro (⟨rfl, rfl⟩ | ⟨t, describes, rfl⟩)
    · exact ⟨_, rfl, rfl⟩
    · exact ⟨_, describes.read [], rfl⟩

/-! ## Leaves that can always be made -/

theorem leaves_mapM {m : Type → Type} [Monad m] [LawfulMonad m] {α β : Type} (f : α → m β)
    (t : Formula α) : t.leaves.mapM f = leaves <$> t.mapM f := by
  induction t with
  | and a b iha ihb | or a b iha ihb => simp [leaves, mapM, iha, ihb]
  | not a ih => simp [leaves, mapM, ih]
  | leaf a => simp [leaves, mapM]

section

variable {α σ : Type} (make : Word → StateM σ α)

/-- A leaf that can always be made. -/
def always (w : Word) : ExceptT Error (StateM σ) α := liftM (make w)

/-- Leaves that can always be made are made of every formula. -/
theorem mapM_always (t : Formula Word) : t.mapM (always make) = liftM (t.mapM make) := by
  induction t with
  | and a b iha ihb | or a b iha ihb => simp [mapM, iha, ihb]
  | not a ih => simp [mapM, ih]
  | leaf w => simp [mapM, always]

theorem liftM_eq_ok {x : StateM σ α} {a : α} {s s' : σ} :
    (liftM x : ExceptT Error (StateM σ) α) s = (.ok a, s') ↔ x s = (a, s') := by
  show (Except.ok (x s).1, (x s).2) = _ ↔ _
  rw [Prod.ext_iff, Prod.ext_iff]
  simp

/-- A formula with leaves that can always be made, with its leaves in the order of the text. -/
theorem mapAnyM_always {t : Formula Word} {tree : Option (Formula α)} {s s' : σ} :
    mapAnyM (always make) (some t) s = (.ok tree, s') ↔
      ∃ p, t.mapM make s = (p, s') ∧ t.leaves.mapM make s = (p.leaves, s') ∧ tree = some p := by
  have leaves_made : t.leaves.mapM make s =
      ((t.mapM make s).1.leaves, (t.mapM make s).2) := by
    rw [leaves_mapM]
    rfl
  rw [mapAnyM, mapM_always, Resolving.bind_eq_ok]
  simp only [liftM_eq_ok, Resolving.pure_eq_ok]
  constructor
  · rintro ⟨p, _, made, rfl, rfl⟩
    exact ⟨p, made, by rw [leaves_made, made], rfl⟩
  · rintro ⟨p, made, _, rfl⟩
    exact ⟨p, s', made, rfl, rfl⟩

/-- **Filters are read by their grammar.** A filter is read exactly if what is left when all its
empty groups and all pairs of `not` are deleted follows the grammar, or is nothing at all. Nothing
is read in this case only; otherwise it is the formula described, with a leaf made of each word that
joins nothing, in the order of the text. -/
theorem ofTokens_reads_grammar (ts : List Token) : (∃ us, ReducesTo ts us) ∧
    ∀ us, ReducesTo ts us → ∀ s,
      ((∃ tree s', ofTokens (always make) ts s = (.ok tree, s')) ↔
        us = [] ∨ ∃ t, Describes .level us t) ∧
      ∀ tree s', ofTokens (always make) ts s = (.ok tree, s') ↔
        us = [] ∧ tree = none ∧ s' = s ∨
        ∃ t, Describes .level us t ∧ t.leaves = terms ts ∧ ∃ p, t.mapM make s = (p, s') ∧
          (terms ts).mapM make s = (p.leaves, s') ∧ tree = some p := by
  refine ⟨exists_reducesTo ts, fun us reduces s => ?_⟩
  have words_iff {words : Option (Formula Word)} : ofWords ts = .ok words ↔
      us = [] ∧ words = none ∨ ∃ t, Describes .level us t ∧ words = some t :=
    reduces.ofWords_iff.trans reduces.2.ofWords_iff
  have describes_leaves {t : Formula Word} (h : Describes .level us t) : t.leaves = terms ts :=
    leaves_ofWords (words_iff.mpr (.inr ⟨t, h, rfl⟩))
  have read (tree : Option (Formula α)) (s' : σ) :
      ofTokens (always make) ts s = (.ok tree, s') ↔ us = [] ∧ tree = none ∧ s' = s ∨
        ∃ t, Describes .level us t ∧ t.leaves = terms ts ∧ ∃ p, t.mapM make s = (p, s') ∧
          (terms ts).mapM make s = (p.leaves, s') ∧ tree = some p := by
    rw [ofTokens_eq_ok_iff]
    constructor
    · rintro ⟨words, hwords, made⟩
      obtain ⟨none_left, rfl⟩ | ⟨t, describes, rfl⟩ := words_iff.mp hwords
      · obtain ⟨rfl, rfl⟩ := Resolving.pure_eq_ok.mp made
        exact .inl ⟨none_left, rfl, rfl⟩
      · rw [mapAnyM_always, describes_leaves describes] at made
        exact .inr ⟨t, describes, describes_leaves describes, made⟩
    · rintro (⟨none_left, rfl, rfl⟩ | ⟨t, describes, leaves, made⟩)
      · exact ⟨none, words_iff.mpr (.inl ⟨none_left, rfl⟩), rfl⟩
      · rw [← leaves] at made
        exact ⟨some t, words_iff.mpr (.inr ⟨t, describes, rfl⟩), (mapAnyM_always make).mpr made⟩
  refine ⟨?_, read⟩
  constructor
  · rintro ⟨tree, s', h⟩
    obtain ⟨none_left, _⟩ | ⟨t, describes, _⟩ := (read tree s').mp h
    · exact .inl none_left
    · exact .inr ⟨t, describes⟩
  · rintro (none_left | ⟨t, describes⟩)
    · exact ⟨none, s, (read none s).mpr (.inl ⟨none_left, rfl, rfl⟩)⟩
    · refine ⟨some (t.mapM make s).1, (t.mapM make s).2, ?_⟩
      rw [ofTokens_eq_ok_iff]
      refine ⟨some t, words_iff.mpr (.inr ⟨t, describes, rfl⟩), (mapAnyM_always make).mpr ?_⟩
      refine ⟨_, rfl, ?_, rfl⟩
      rw [leaves_mapM]
      rfl

end

/-! ## Negations taken back -/

namespace Doubled

/-- The tokens of `not ( ) not (a or b) not c`. -/
def tokens : List Token :=
  [.word 0 (.plain "not"), .opening 4, .closing 6, .word 8 (.plain "not"), .opening 12,
    .word 13 (.plain "a"), .word 15 (.plain "or"), .word 18 (.plain "b"), .closing 19,
    .word 21 (.plain "not"), .word 25 (.plain "c")]

/-- What is left of them. -/
def left : List Token :=
  [.opening 12, .word 13 (.plain "a"), .word 15 (.plain "or"), .word 18 (.plain "b"), .closing 19,
    .word 21 (.plain "not"), .word 25 (.plain "c")]

def formula : Formula Word :=
  .and (.or (.leaf (.plain "a")) (.leaf (.plain "b"))) (.not (.leaf (.plain "c")))

theorem reducesTo : ReducesTo tokens left := by
  have empty : Deletes tokens (.word 0 (.plain "not") :: .word 8 (.plain "not") :: left) :=
    .pair [.word 0 (.plain "not")] (.word 8 (.plain "not") :: left) rfl
  have twice : Deletes (.word 0 (.plain "not") :: .word 8 (.plain "not") :: left) left :=
    .pair [] left (by decide +kernel)
  exact ⟨.head empty (.single twice), by decide +kernel⟩

theorem describes : Describes .level left formula := by
  have word (index : Nat) {s : String} (hs : (Word.plain s).logical? = none) :
      Describes .signed [.word index (.plain s)] (.leaf (.plain s)) := .plain (.word index hs)
  have a := word 13 (s := "a") (by decide +kernel)
  have b := word 18 (s := "b") (by decide +kernel)
  have either : Describes .level _ _ :=
    .connected 15 (w := .plain "or") (c := .or) (by decide +kernel) (.first a) b
  have c : Describes .term _ _ := .word 25 (w := .plain "c") (by decide +kernel)
  exact .adjacent (.first (.plain (.group 12 19 either)))
    (.negated 21 (w := .plain "not") (by decide +kernel) c)

/-- Leaves with their numbers in the order in which they are made. -/
def numbered (w : Word) : StateM Nat (Nat × Word) := fun n => ((n, w), n + 1)

end Doubled

open Doubled in
theorem ofTokens_reads_grammar_doubled :
    ofTokens (always numbered) tokens 0 = (.ok (some
      (.and (.or (.leaf (0, .plain "a")) (.leaf (1, .plain "b")))
        (.not (.leaf (2, .plain "c"))))), 3) := by
  obtain ⟨_, read⟩ := ofTokens_reads_grammar numbered tokens
  refine ((read left reducesTo 0).2 _ 3).mpr (.inr ⟨formula, describes, ?_, _, rfl, rfl, rfl⟩)
  decide +kernel

end EntityQuery.Formula
