import EntityQuery.Proofs.Filter.Combination
import EntityQuery.Proofs.Filter.Parentheses

/-!
# Groups by recursive descent

The tokens of a filter are combined with a stack of the levels that are open. The same can be said
by recursion (`descend`): a level is read up to the closing parenthesis that ends it or up to the
end of the tokens, and a group in it is a level that is read first. **Both readings have the same
outcome, be it a formula or an error, for tokens that are balanced or not**
(`ofTokens_eq_descendAll`); the lemma from which this follows says what reading with a stack does
from the innermost level on (`readFrom_eq`).

A reading by recursion can go wrong in three ways that have to do with parentheses alone: a group is
not closed, a closing parenthesis is left at the end, or tokens are left. Of tokens that are
balanced none of this is true (`descendAll_balanced`). Since the tokens of a filter are balanced
whenever it can be cut, **whether parentheses match is settled by cutting**
(`scan_settles_parentheses`).
-/

namespace EntityQuery
namespace Formula

variable {α : Type}

/-! ## Reading a level -/

/-- The level after a word that joins others. -/
def Level.joined (l : Level α) (index : Nat) : LogicalWord → Except Error (Level α)
  | .not => .ok (l.negate index)
  | .connective c => l.connect c index

/-- What is left of tokens when a level has been read. -/
abbrev Rest (ts : List Token) := {rest : List Token // rest <:+ ts}

/-- Tokens of which nothing has been read. -/
def Rest.all (ts : List Token) : Rest ts := ⟨ts, List.suffix_refl ts⟩

/-- What is left of more tokens. -/
def Rest.within {ts us : List Token} (h : ts <:+ us) (rest : Rest ts) : Rest us :=
  ⟨rest.1, rest.2.trans h⟩

section

variable {m : Type → Type} [Monad m] [MonadExceptOf Error m] (leaf : Word → m α)

/-- The level after one more word, `leaf` making a leaf of a word that does not join others. -/
def Level.read (l : Level α) (index : Nat) (w : Word) : m (Level α) :=
  match w.logical? with
  | some word => MonadExcept.ofExcept (l.joined index word)
  | none => return l.term (.leaf (← leaf w))

/-- The terms of a level of which a part has been read, and the tokens that are left when it ends:
none, or a closing parenthesis and what follows it. -/
def descend (l : Level α) : (ts : List Token) → m (Option (Formula α) × Rest ts)
  | [] => do return (← MonadExcept.ofExcept l.close, .all _)
  | .closing _ :: _ => do return (← MonadExcept.ofExcept l.close, .all _)
  | .opening index :: ts => do
    match ← descend .empty ts with
    | (inner, ⟨.closing _ :: rest, left⟩) =>
      let (tree, left') ← descend (l.group inner) rest
      return (tree, left'.within (((List.suffix_cons ..).trans left).trans (List.suffix_cons ..)))
    | _ => throw (.unbalancedGroup index)
  | .word index w :: ts => do
    let (tree, left) ← descend (← l.read leaf index w) ts
    return (tree, left.within (List.suffix_cons ..))
termination_by ts => ts.length
decreasing_by
  · simp
  · have shorter := left.length_le
    simp only [List.length_cons] at shorter ⊢
    omega
  · simp

/-- All tokens as one level. -/
def descendAll (tokens : List Token) : m (Option (Formula α)) := do
  match ← descend leaf .empty tokens with
  | (tree, ⟨[], _⟩) => return tree
  | (_, ⟨t :: _, _⟩) => throw (.unbalancedGroup t.index)

end

/-! ## With a stack and by recursion -/

section

variable {m : Type → Type} [Monad m]

@[simp] theorem ofExcept_ok {β : Type} (b : β) :
    (MonadExcept.ofExcept (.ok b) : ExceptT Error m β) = pure b := rfl

@[simp] theorem ofExcept_error {β : Type} (e : Error) :
    (MonadExcept.ofExcept (.error e) : ExceptT Error m β) = throw e := rfl

variable [LawfulMonad m]

theorem ofExcept_bind {β γ : Type} (x : Except Error β) (f : β → Except Error γ) :
    (MonadExcept.ofExcept (x >>= f) : ExceptT Error m γ) =
      (do MonadExcept.ofExcept (f (← MonadExcept.ofExcept x))) := by
  cases x with
  | ok b => simp
  | error e =>
    show MonadExcept.ofExcept (.error e) = _
    simp

variable (leaf : Word → ExceptT Error m α) (l : Level α) (outer : List (Nat × Level α))
  (index : Nat) (ts : List Token)

/-- The formula that more tokens describe, read from a nesting on. -/
def readFrom (n : Nesting α) (ts : List Token) : ExceptT Error m (Option (Formula α)) := do
  MonadExcept.ofExcept (← ts.foldlM (readToken leaf) n).finish

/-- What comes after the end of a level: the level around it goes on, if there is one. -/
def resume (tree : Option (Formula α)) :
    List (Nat × Level α) → List Token → ExceptT Error m (Option (Formula α))
  | [], [] => return tree
  | [], t :: _ => throw (.unbalancedGroup t.index)
  | (_, level) :: outer, .closing _ :: rest => readFrom leaf ⟨level.group tree, outer⟩ rest
  | (index, _) :: _, _ => throw (.unbalancedGroup index)

theorem readFrom_nil : readFrom leaf ⟨l, outer⟩ [] =
    (do resume leaf (← MonadExcept.ofExcept l.close) outer []) := by
  unfold readFrom
  rw [List.foldlM_nil, pure_bind, Nesting.finish, ofExcept_bind]
  refine bind_congr fun tree => ?_
  cases outer <;> rfl

theorem readFrom_closing : readFrom leaf ⟨l, outer⟩ (.closing index :: ts) =
    (do resume leaf (← MonadExcept.ofExcept l.close) outer (.closing index :: ts)) := by
  unfold readFrom
  rw [List.foldlM_cons, readToken, Nesting.closed, ofExcept_bind]
  simp only [bind_assoc]
  refine bind_congr fun tree => ?_
  cases outer <;> simp [resume, readFrom, Token.index]

theorem readFrom_opening : readFrom leaf ⟨l, outer⟩ (.opening index :: ts) =
    readFrom leaf ⟨.empty, (index, l) :: outer⟩ ts := by
  simp [readFrom, readToken, Nesting.opened]

theorem readFrom_word (w : Word) : readFrom leaf ⟨l, outer⟩ (.word index w :: ts) =
    (do readFrom leaf ⟨← l.read leaf index w, outer⟩ ts) := by
  unfold readFrom
  rw [List.foldlM_cons, readToken, Level.read, bind_assoc]
  cases w.logical? with
  | none => simp [Nesting.term]
  | some word =>
    cases word with
    | not => simp [Nesting.joined, Level.joined]
    | connective c =>
      simp only [Nesting.joined, Level.joined, ofExcept_bind, bind_assoc]
      exact bind_congr fun level => pure_bind _ _

/-- Reading with a stack is reading the innermost level by recursion and then going on with the one
around it. -/
theorem readFrom_eq : readFrom leaf ⟨l, outer⟩ ts = (do
    let (tree, rest) ← descend leaf l ts
    resume leaf tree outer rest.1) := by
  -- The level after a group begins where the group ends, so the induction is on the length.
  induction h : ts.length using Nat.strong_induction_on generalizing l outer ts with
  | h n ih =>
    subst h
    unfold descend
    match ts with
    | [] => simp [readFrom_nil, Rest.all]
    | .closing index :: ts => simp [readFrom_closing, Rest.all]
    | .opening index :: ts =>
      rw [readFrom_opening, ih ts.length (by simp) _ _ ts rfl, bind_assoc]
      refine bind_congr fun ⟨inner, rest, left⟩ => ?_
      match rest with
      | [] | .opening _ :: _ | .word _ _ :: _ => simp [resume]
      | .closing _ :: rest =>
        have shorter := left.length_le
        rw [List.length_cons] at shorter
        show readFrom leaf ⟨l.group inner, outer⟩ rest = _
        rw [ih rest.length (by simp; omega) _ _ rest rfl]
        simp [Rest.within]
    | .word index w :: ts =>
      rw [readFrom_word, bind_assoc]
      refine bind_congr fun next => ?_
      rw [ih ts.length (by simp) _ _ ts rfl]
      simp [Rest.within]

/-- Tokens are combined with a stack as they are by recursion: with the same outcome, be it a
formula or an error, for tokens that are balanced or not. -/
theorem ofTokens_eq_descendAll : ofTokens leaf ts = descendAll leaf ts := by
  show readFrom leaf ⟨.empty, []⟩ ts = _
  rw [readFrom_eq]
  refine bind_congr fun ⟨tree, rest, left⟩ => ?_
  cases rest <;> rfl

end

/-! ## Levels of balanced tokens -/

section

variable {σ : Type} {leaf : Word → ExceptT Error (StateM σ) α} {l : Level α} {i : Nat} {s s' : σ}

theorem Level.close_ne_unbalancedGroup : l.close ≠ .error (.unbalancedGroup i) := by
  unfold close
  split <;> simp

theorem Level.joined_ne_unbalancedGroup {index : Nat} {w : LogicalWord} :
    l.joined index w ≠ .error (.unbalancedGroup i) := by
  cases w with
  | not => simp [joined]
  | connective c =>
    simp only [joined, connect]
    split <;> simp

theorem Level.read_unbalancedGroup {index : Nat} {w : Word}
    (h : (l.read leaf index w : ExceptT Error (StateM σ) _) s = (.error (.unbalancedGroup i), s')) :
    w.logical? = none ∧ leaf w s = (.error (.unbalancedGroup i), s') := by
  unfold Level.read at h
  cases logical : w.logical? with
  | some word =>
    rw [logical] at h
    exact absurd (Resolving.ofExcept_eq_error.mp h).1 joined_ne_unbalancedGroup
  | none =>
    rw [logical] at h
    rcases Resolving.bind_eq_error.mp h with thrown | ⟨a, s₁, _, h⟩
    · exact ⟨rfl, thrown⟩
    · cases h

/-- Where a level ends: at the end of the tokens or at a closing parenthesis. -/
inductive EndsLevel : List Token → Prop
  | nil : EndsLevel []
  | closing (index : Nat) (ts : List Token) : EndsLevel (.closing index :: ts)

theorem descend_of_endsLevel {rest : List Token} (ends : EndsLevel rest) (l : Level α) :
    descend leaf l rest = (do return (← MonadExcept.ofExcept l.close, .all rest)) := by
  cases ends <;> unfold descend <;> rfl

theorem terms_append (ts us : List Token) : terms (ts ++ us) = terms ts ++ terms us :=
  List.filterMap_append

theorem terms_cons (t : Token) (ts : List Token) :
    terms (t :: ts) = t.term?.toList ++ terms ts := by
  unfold terms
  cases h : t.term? <;> simp [h]

/-- The leaf made of one of the words complains of a parenthesis. -/
def Blames (leaf : Word → ExceptT Error (StateM σ) α) (words : List Word) (i : Nat) (s' : σ) :
    Prop :=
  ∃ w ∈ words, ∃ s, leaf w s = (.error (.unbalancedGroup i), s')

theorem Blames.mono {us vs : List Word} (h : Blames leaf us i s') (all : us ⊆ vs) :
    Blames leaf vs i s' := by
  obtain ⟨w, mem, thrown⟩ := h
  exact ⟨w, all mem, thrown⟩

/-- A level that goes on with balanced tokens goes on exactly so far, and the only complaints of a
parenthesis are those of the leaves. -/
theorem descend_balanced (leaf : Word → ExceptT Error (StateM σ) α) {ts rest : List Token}
    (balanced : Token.Balanced ts) (ends : EndsLevel rest) (l : Level α) (s : σ) :
    (∀ tree left s', descend leaf l (ts ++ rest) s = (.ok (tree, left), s') → left.1 = rest) ∧
    ∀ i s', descend leaf l (ts ++ rest) s = (.error (.unbalancedGroup i), s') →
      Blames leaf (terms ts) i s' := by
  induction balanced generalizing rest l s with
  | nil =>
    rw [List.nil_append, descend_of_endsLevel ends]
    constructor
    · intro tree left s' h
      obtain ⟨_, _, _, h⟩ := Resolving.bind_eq_ok.mp h
      cases h
      rfl
    · intro i s' h
      rcases Resolving.bind_eq_error.mp h with h | ⟨_, _, _, h⟩
      · exact absurd (Resolving.ofExcept_eq_error.mp h).1 Level.close_ne_unbalancedGroup
      · cases h
  | @word index w ts _ ih =>
    have later : terms ts ⊆ terms (.word index w :: ts) := by
      rw [terms_cons]
      exact List.subset_append_right ..
    rw [List.cons_append]
    unfold descend
    constructor
    · intro tree left s' h
      obtain ⟨next, s₁, _, h⟩ := Resolving.bind_eq_ok.mp h
      obtain ⟨_, s₂, h, done⟩ := Resolving.bind_eq_ok.mp h
      cases done
      exact (ih ends next s₁).1 _ _ _ h
    · intro i s' h
      rcases Resolving.bind_eq_error.mp h with h | ⟨next, s₁, _, h⟩
      · obtain ⟨term, thrown⟩ := Level.read_unbalancedGroup h
        exact ⟨w, by simp [terms_cons, Token.term?, term], s, thrown⟩
      · rcases Resolving.bind_eq_error.mp h with h | ⟨_, _, _, h⟩
        · exact ((ih ends next s₁).2 _ _ h).mono later
        · cases h
  | @group first last ts us _ _ ihInner ihAfter =>
    have inside : terms ts ⊆ terms (.opening first :: ts ++ .closing last :: us) := by
      rw [terms_append, terms_cons]
      exact List.subset_append_of_subset_left _ (List.subset_append_right ..)
    have later : terms us ⊆ terms (.opening first :: ts ++ .closing last :: us) := by
      rw [terms_append, terms_cons _ us]
      exact List.subset_append_of_subset_right _ (List.subset_append_right ..)
    have closed : EndsLevel (.closing last :: (us ++ rest)) := .closing ..
    rw [List.append_assoc, List.cons_append, List.cons_append]
    unfold descend
    constructor
    · intro tree left s' h
      obtain ⟨⟨inner, rest', left'⟩, s₁, read, h⟩ := Resolving.bind_eq_ok.mp h
      obtain rfl : rest' = _ := (ihInner closed .empty s).1 _ _ _ read
      obtain ⟨_, s₂, h, done⟩ := Resolving.bind_eq_ok.mp h
      cases done
      exact (ihAfter ends _ s₁).1 _ _ _ h
    · intro i s' h
      rcases Resolving.bind_eq_error.mp h with h | ⟨⟨inner, rest', left'⟩, s₁, read, h⟩
      · exact ((ihInner closed .empty s).2 _ _ h).mono inside
      · obtain rfl : rest' = _ := (ihInner closed .empty s).1 _ _ _ read
        rcases Resolving.bind_eq_error.mp h with h | ⟨_, _, _, h⟩
        · exact ((ihAfter ends _ s₁).2 _ _ h).mono later
        · cases h

/-- Balanced tokens are read without a complaint of a parenthesis but those of the leaves, and if a
formula comes of them, then by reading them all. -/
theorem descendAll_balanced {tokens : List Token} (balanced : Token.Balanced tokens) :
    (∀ tree, descendAll leaf tokens s = (.ok tree, s') →
      descend leaf .empty tokens s = (.ok (tree, ⟨[], List.nil_suffix⟩), s')) ∧
    ∀ i, descendAll leaf tokens s = (.error (.unbalancedGroup i), s') →
      Blames leaf (terms tokens) i s' := by
  have level := descend_balanced leaf balanced .nil .empty s
  rw [List.append_nil] at level
  obtain ⟨all, blames⟩ := level
  constructor
  · intro tree h
    obtain ⟨⟨tree', rest, left⟩, s₁, read, h⟩ := Resolving.bind_eq_ok.mp h
    obtain rfl : rest = [] := all _ _ _ read
    cases h
    exact read
  · intro i h
    rcases Resolving.bind_eq_error.mp h with h | ⟨⟨tree', rest, left⟩, s₁, read, h⟩
    · exact blames i s' h
    · obtain rfl : rest = [] := all _ _ _ read
      cases h

end

end Formula

/-- **Whether the parentheses of a filter match is settled by cutting it.** The parentheses that
count are those outside quotations and square brackets. If they do not match, cutting fails with the
offset of the first that has no partner, and it fails in no other way. Otherwise the tokens are
balanced, they stand in the order of the text, and their parentheses are those that count, each at
its offset; and to combine them is to read them by recursive descent, to the last of them if a
formula comes of it, and with no complaint of a parenthesis unless a leaf makes one. -/
theorem scan_settles_parentheses (text : String) :
    ((∃ index, scan text = .error (.unbalancedGroup index)) ↔
      ¬ Token.Balanced (parentheses text.toList)) ∧
    (∀ e, scan text = .error e ↔
      ∃ index, e = .unbalancedGroup index ∧ Token.FirstAlone (parentheses text.toList) index) ∧
    ∀ tokens, scan text = .ok tokens →
      Token.Balanced tokens ∧
      tokens.Pairwise (fun t u => t.index < u.index) ∧
      (∀ index, .opening index ∈ tokens ↔ ∃ before after, text.toList = before ++ '(' :: after ∧
        Text.byteSize before = index ∧ Place.after before = .outside) ∧
      (∀ index, .closing index ∈ tokens ↔ ∃ before after, text.toList = before ++ ')' :: after ∧
        Text.byteSize before = index ∧ Place.after before = .outside) ∧
      ∀ (α σ : Type) (leaf : Word → ExceptT Error (StateM σ) α) (s s' : σ),
        Formula.ofTokens leaf tokens s = Formula.descendAll leaf tokens s ∧
        (∀ tree, Formula.ofTokens leaf tokens s = (.ok tree, s') →
          Formula.descend leaf .empty tokens s = (.ok (tree, ⟨[], List.nil_suffix⟩), s')) ∧
        ∀ index, Formula.ofTokens leaf tokens s = (.error (.unbalancedGroup index), s') →
          Formula.Blames leaf (terms tokens) index s' := by
  refine ⟨?_, fun e => scan_eq_error_iff, fun tokens h => ?_⟩
  · rw [← succeeds_scan_iff]
    constructor
    · rintro ⟨index, h⟩
      rw [h]
      exact not_succeeds_error _
    · intro fails
      cases h : scan text with
      | ok tokens => exact absurd ⟨tokens, h⟩ fails
      | error e =>
        obtain ⟨index, rfl, _⟩ := scan_eq_error_iff.mp h
        exact ⟨index, rfl⟩
  · refine ⟨balanced_of_scan h, pairwise_scan h, fun _ => opening_mem_scan_iff h,
      fun _ => closing_mem_scan_iff h, fun α σ leaf s s' => ?_⟩
    rw [Formula.ofTokens_eq_descendAll]
    exact ⟨rfl, Formula.descendAll_balanced (balanced_of_scan h)⟩

/-- A group after a quotation with a parenthesis, and one that is left open. -/
theorem scan_settles_parentheses_sampled :
    Token.Balanced [.word 0 ⟨"a:".toList, some "(".toList⟩, .opening 6, .word 7 (.plain "b"),
      .closing 8] ∧
    Token.FirstAlone (parentheses "x (a or (b)".toList) 2 := by
  have cut : scan "a:\"(\" (b)" = .ok [.word 0 ⟨"a:".toList, some "(".toList⟩, .opening 6,
      .word 7 (.plain "b"), .closing 8] := by rfl
  have fails : scan "x (a or (b)" = .error (.unbalancedGroup 2) := by rfl
  obtain ⟨_, same, alone⟩ := ((scan_settles_parentheses "x (a or (b)").2.1 _).mp fails
  cases same
  exact ⟨((scan_settles_parentheses "a:\"(\" (b)").2.2 _ cut).1, alone⟩

end EntityQuery
