import EntityQuery.Proofs.Filter.Combination
import EntityQuery.Proofs.Filter.Replacing

/-!
# Filters read side by side

Two filters of which corresponding words make related leaves are read in the same way, and **the
formulas that come of them are related, too, whenever the relation is one that connectives keep**
(`IsCongruence`, `ofTokens_like`). Reading is followed token by token, in nestings that are like
each other (`readToken_like`, `readTokens_like`).

Only offsets may differ otherwise, and offsets are kept for errors alone: what is made of the tokens
without an error is made of tokens at other offsets in the same way (`ofTokens_moved`). Since the
two readings may stop with different errors, they are compared by `Simulates`, which speaks of the
values only.
-/

namespace EntityQuery

/-- Whenever the one gives a value, so does the other, the two values are related and the same is
kept beside them. -/
def Simulates {σ α β : Type} (R : α → β → Prop) (x : ExceptT Error (StateM σ) α)
    (y : ExceptT Error (StateM σ) β) : Prop :=
  ∀ s a s', x s = (.ok a, s') → ∃ b, y s = (.ok b, s') ∧ R a b

section

variable {σ α α' β β' : Type} {R : α → α' → Prop} {Q : β → β' → Prop}
  {x : ExceptT Error (StateM σ) α} {x' : ExceptT Error (StateM σ) α'}

theorem Simulates.pure {a : α} {a' : α'} (h : R a a') :
    Simulates (σ := σ) R (Pure.pure a) (Pure.pure a') := by
  intro s b s' given
  obtain ⟨rfl, rfl⟩ := Resolving.pure_eq_ok.mp given
  exact ⟨a', rfl, h⟩

theorem Simulates.bind {f : α → ExceptT Error (StateM σ) β} {f' : α' → ExceptT Error (StateM σ) β'}
    (h : Simulates R x x') (rest : ∀ a a', R a a' → Simulates Q (f a) (f' a')) :
    Simulates Q (x >>= f) (x' >>= f') := by
  intro s b s' given
  obtain ⟨a, s₁, first, then_⟩ := Resolving.bind_eq_ok.mp given
  obtain ⟨a', first', related⟩ := h s a s₁ first
  obtain ⟨b', then', related'⟩ := rest a a' related s₁ b s' then_
  exact ⟨b', Resolving.bind_eq_ok.mpr ⟨a', s₁, first', then'⟩, related'⟩

theorem Simulates.ofExcept {e : Except Error α} {e' : Except Error α'}
    (h : ∀ a, e = .ok a → ∃ a', e' = .ok a' ∧ R a a') :
    Simulates (σ := σ) R (MonadExcept.ofExcept e) (MonadExcept.ofExcept e') := by
  intro s a s' given
  obtain ⟨done, rfl⟩ := Resolving.ofExcept_eq_ok.mp given
  obtain ⟨a', done', related⟩ := h a done
  exact ⟨a', Resolving.ofExcept_eq_ok.mpr ⟨done', rfl⟩, related⟩

end

namespace Formula

variable {α : Type} {E : Formula α → Formula α → Prop}

/-- Each formula is related to itself, and connectives keep what is related. -/
structure IsCongruence (E : Formula α → Formula α → Prop) : Prop where
  refl : ∀ t, E t t
  not : ∀ {t t'}, E t t' → E (.not t) (.not t')
  and : ∀ {t t' u u'}, E t t' → E u u' → E (.and t u) (.and t' u')
  or : ∀ {t t' u u'}, E t t' → E u u' → E (.or t u) (.or t' u')

theorem IsCongruence.join (congr : IsCongruence E) (c : Connective) {t t' u u' : Formula α}
    (ht : E t t') (hu : E u u') : E (join c t u) (join c t' u') := by
  cases c with
  | and => exact congr.and ht hu
  | or => exact congr.or ht hu

/-- Under a condition a relation can be asked for besides another. -/
theorem IsCongruence.and_of {F : Formula α → Formula α → Prop} (congr : IsCongruence E)
    (congr' : IsCongruence F) (P : Prop) : IsCongruence fun t t' => E t t' ∧ (P → F t t') where
  refl t := ⟨congr.refl t, fun _ => congr'.refl t⟩
  not h := ⟨congr.not h.1, fun p => congr'.not (h.2 p)⟩
  and h h' := ⟨congr.and h.1 h'.1, fun p => congr'.and (h.2 p) (h'.2 p)⟩
  or h h' := ⟨congr.or h.1 h'.1, fun p => congr'.or (h.2 p) (h'.2 p)⟩

theorem isCongruence_true : IsCongruence fun _ _ : Formula α => True :=
  ⟨fun _ => trivial, fun _ => trivial, fun _ _ => trivial, fun _ _ => trivial⟩

theorem isCongruence_eq : IsCongruence (Eq (α := Formula α)) where
  refl _ := rfl
  not h := congrArg _ h
  and ht hu := congrArg₂ _ ht hu
  or ht hu := congrArg₂ _ ht hu

/-- What has been read of two levels is related, and they go on in the same way. -/
structure Level.Like (E : Formula α → Formula α → Prop) (l l' : Level α) : Prop where
  tree : Option.Rel E l.tree l'.tree
  pending : l'.pending.map Prod.fst = l.pending.map Prod.fst
  negation : l'.negation.isSome = l.negation.isSome

/-- The levels of two nestings are like each other. -/
structure Nesting.Like (E : Formula α → Formula α → Prop) (n n' : Nesting α) : Prop where
  level : n.level.Like E n'.level
  outer : List.Forall₂ (fun group group' => group.2.Like E group'.2) n.outer n'.outer

namespace Level

variable {l l' next : Level α} {i : Nat}

theorem Like.refl (congr : IsCongruence E) (l : Level α) : l.Like E l := by
  refine ⟨?_, rfl, rfl⟩
  cases l.tree with
  | none => exact .none
  | some t => exact .some (congr.refl t)

/-- A term is put after what has been read, in the way in which the level waits for it. -/
theorem like_term (congr : IsCongruence E) {t t' : Formula α} (tree : Option.Rel E l.tree l'.tree)
    (pending : l'.pending.map Prod.fst = l.pending.map Prod.fst)
    (terms : E (if l.negation.isSome then t.not else t)
      (if l'.negation.isSome then t'.not else t')) :
    (l.term t).Like E (l'.term t') := by
  unfold Level.term
  rw [pending]
  generalize l.tree = left, l'.tree = left' at tree
  cases tree with
  | none => exact ⟨.some terms, rfl, rfl⟩
  | some related => exact ⟨.some (congr.join _ related terms), rfl, rfl⟩

theorem Like.term (congr : IsCongruence E) (h : l.Like E l') {t t' : Formula α} (ht : E t t') :
    (l.term t).Like E (l'.term t') := by
  refine like_term congr h.tree h.pending ?_
  rw [h.negation]
  split
  · exact congr.not ht
  · exact ht

theorem Like.group (congr : IsCongruence E) (h : l.Like E l') {inner inner' : Option (Formula α)}
    (related : Option.Rel E inner inner') : (l.group inner).Like E (l'.group inner') := by
  cases related with
  | none => exact h
  | some related => exact h.term congr related

theorem Like.negate (h : l.Like E l') (i j : Nat) : (l.negate i).Like E (l'.negate j) := by
  refine ⟨h.tree, h.pending, ?_⟩
  simp only [Level.negate, h.negation]
  cases l.negation.isSome <;> rfl

theorem Like.connect (h : l.Like E l') {c : Connective} (done : l.connect c i = .ok next)
    (j : Nat) : ∃ next', l'.connect c j = .ok next' ∧ next.Like E next' := by
  have tree : l'.tree.isNone = l.tree.isNone := by
    have related := h.tree
    generalize l.tree = t, l'.tree = t' at related
    cases related <;> rfl
  have pending : l'.pending.isSome = l.pending.isSome := by
    simpa using congrArg Option.isSome h.pending
  unfold Level.connect at done ⊢
  rw [tree, pending, h.negation]
  split at done
  · cases done
  · next free =>
    cases done
    rw [if_neg free]
    exact ⟨_, rfl, h.tree, rfl, h.negation⟩

theorem Like.close (h : l.Like E l') {tree : Option (Formula α)} (done : l.close = .ok tree) :
    ∃ tree', l'.close = .ok tree' ∧ Option.Rel E tree tree' := by
  obtain ⟨pending, negation⟩ := succeeds_close_iff.mp ⟨tree, done⟩
  have pending' : l'.pending = none := by simpa [pending] using h.pending
  have negation' : l'.negation = none := by simpa [negation] using h.negation
  unfold Level.close
  rw [pending', negation', ← tree_of_close done]
  exact ⟨_, rfl, h.tree⟩

end Level

namespace Nesting

variable {n n' next : Nesting α} {i : Nat}

theorem Like.refl (congr : IsCongruence E) (n : Nesting α) : n.Like E n :=
  ⟨.refl congr _, List.forall₂_same.mpr fun _ _ => .refl congr _⟩

theorem Like.closed (congr : IsCongruence E) (h : n.Like E n') (done : n.closed i = .ok next)
    (j : Nat) : ∃ next', n'.closed j = .ok next' ∧ next.Like E next' := by
  obtain ⟨level, outer⟩ := n
  obtain ⟨level', outer'⟩ := n'
  obtain ⟨like, around⟩ := h
  obtain ⟨inner, closed, done⟩ := bind_eq_ok.mp done
  obtain ⟨inner', closed', related⟩ := like.close closed
  cases around with
  | nil => cases done
  | cons first rest =>
    cases done
    exact ⟨_, bind_eq_ok.mpr ⟨inner', closed', rfl⟩, first.group congr related, rest⟩

theorem Like.joined (h : n.Like E n') {w : LogicalWord} (done : n.joined i w = .ok next) (j : Nat) :
    ∃ next', n'.joined j w = .ok next' ∧ next.Like E next' := by
  cases w with
  | not =>
    cases done
    exact ⟨_, rfl, h.level.negate i j, h.outer⟩
  | connective c =>
    obtain ⟨level, connected, done⟩ := bind_eq_ok.mp done
    cases done
    obtain ⟨level', connected', like⟩ := h.level.connect connected j
    exact ⟨_, bind_eq_ok.mpr ⟨level', connected', rfl⟩, like, h.outer⟩

theorem Like.finish (h : n.Like E n') {tree : Option (Formula α)} (done : n.finish = .ok tree) :
    ∃ tree', n'.finish = .ok tree' ∧ Option.Rel E tree tree' := by
  obtain ⟨level, outer⟩ := n
  obtain ⟨level', outer'⟩ := n'
  obtain ⟨like, around⟩ := h
  obtain ⟨inner, closed, done⟩ := bind_eq_ok.mp done
  obtain ⟨inner', closed', related⟩ := like.close closed
  cases around with
  | nil =>
    cases done
    exact ⟨inner', bind_eq_ok.mpr ⟨inner', closed', rfl⟩, related⟩
  | cons => cases done

end Nesting

section

variable {σ : Type} {leaf : Word → ExceptT Error (StateM σ) α} {R : Nat → Word → Word → Prop}
  (congr : IsCongruence E)
  (leaves : ∀ i w w', R i w w' → w'.logical? = w.logical? ∧
    Simulates (fun a a' => E (.leaf a) (.leaf a')) (leaf w) (leaf w'))

include congr leaves

/-- One token is read in the same way in nestings that are like each other. -/
theorem readToken_like {n n' : Nesting α} {t t' : Token} (h : n.Like E n')
    (alike : Token.Alike R t t') :
    Simulates (Nesting.Like E) (readToken leaf n t) (readToken leaf n' t') := by
  cases alike with
  | opening i j => exact .pure ⟨.refl congr _, .cons h.level h.outer⟩
  | closing i j => exact .ofExcept fun next done => h.closed congr done j
  | @word i w w' j related =>
    obtain ⟨logical, made⟩ := leaves i w w' related
    simp only [readToken, logical]
    cases w.logical? with
    | some word => exact .ofExcept fun next done => h.joined done j
    | none => exact made.bind fun a a' same => .pure ⟨h.level.term congr same, h.outer⟩

theorem readTokens_like {n n' : Nesting α} {ts ts' : List Token} (h : n.Like E n')
    (alike : List.Forall₂ (Token.Alike R) ts ts') :
    Simulates (Nesting.Like E) (ts.foldlM (readToken leaf) n) (ts'.foldlM (readToken leaf) n') := by
  induction alike generalizing n n' with
  | nil => exact .pure h
  | cons first _ ih =>
    rw [List.foldlM_cons, List.foldlM_cons]
    exact (readToken_like congr leaves h first).bind fun _ _ => ih

/-- Related formulas come of tokens whose words make related leaves, at whatever offsets. -/
theorem ofTokens_like {ts ts' : List Token} (alike : List.Forall₂ (Token.Alike R) ts ts') :
    Simulates (Option.Rel E) (ofTokens leaf ts) (ofTokens leaf ts') :=
  (readTokens_like congr leaves (.refl congr _) alike).bind fun _ _ like =>
    .ofExcept fun _ done => like.finish done

omit congr leaves in
/-- The same formula comes of tokens whose words make the same leaves, at whatever offsets. -/
theorem ofTokens_moved (same : ∀ i w w', R i w w' → w'.logical? = w.logical? ∧ leaf w' = leaf w)
    {ts ts' : List Token} (alike : List.Forall₂ (Token.Alike R) ts ts') {s s' : σ}
    {tree : Option (Formula α)} (read : ofTokens leaf ts s = (.ok tree, s')) :
    ofTokens leaf ts' s = (.ok tree, s') := by
  have leaves : ∀ i w w', R i w w' → w'.logical? = w.logical? ∧
      Simulates (fun a a' => Formula.leaf a = Formula.leaf a') (leaf w) (leaf w') := by
    intro i w w' related
    obtain ⟨logical, made⟩ := same i w w' related
    exact ⟨logical, fun s a s' given => ⟨a, made ▸ given, rfl⟩⟩
  obtain ⟨tree', read', related⟩ := ofTokens_like isCongruence_eq leaves alike s tree s' read
  cases related with
  | none => exact read'
  | some equal =>
    cases equal
    exact read'

end

end Formula

end EntityQuery
