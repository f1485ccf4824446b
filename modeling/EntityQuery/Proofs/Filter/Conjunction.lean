import EntityQuery.Proofs.Filter.Grammar
import EntityQuery.Proofs.Filter.Sharing

/-!
# Terms that are joined by `and`

A filter that is a sequence of terms with `and` between them is the conjunction of their formulas,
folded from the left (`Conjoined.ofWords`). Each of the terms becomes there what it becomes by
itself, apart from the numbers of its joins (`compileFilter_conjunction`): so **it does not depend
on the others, nor on where it stands, whether the filter can be compiled**
(`succeeds_compileFilter_conjunction`).

A term (`IsTermOf`) is a text in which all quotations and brackets are closed and which reduces to
one term of the grammar. The argument has three layers: tokens after tokens are the tokens of the
text (`scan_conjunction`), their formula is the conjunction by the grammar (`Conjoined.describes`),
and the leaves are made one term after the other among joins that only grow (`Conjoins`).
-/

namespace EntityQuery

/-- The filter that joins the terms by `and`. -/
def conjunction (terms : List String) : String := String.intercalate " and " terms

/-! ## The formula -/

namespace Formula

/-- Without its empty groups and pairs of `not` the tokens are a term, perhaps after a `not`. -/
def IsSigned (ts : List Token) (x : Formula Word) : Prop :=
  ∃ left, Relation.ReflTransGen Deletes ts left ∧ Describes .signed left x

/-- The tokens of several terms with `and` between them. -/
inductive Conjoined : List (Formula Word) → List Token → Prop
  | last {ts : List Token} {x : Formula Word} (term : IsSigned ts x) : Conjoined [x] ts
  | more {ts us : List Token} {x : Formula Word} {xs : List (Formula Word)} (term : IsSigned ts x)
      (index : Nat) (rest : Conjoined xs us) :
    Conjoined (x :: xs) (ts ++ .word index (.plain "and") :: us)

theorem deletes_append {ts us : List Token} (before after : List Token)
    (h : Relation.ReflTransGen Deletes ts us) :
    Relation.ReflTransGen Deletes (before ++ ts ++ after) (before ++ us ++ after) := by
  refine h.lift (before ++ · ++ after) fun ts us deletes => ?_
  obtain ⟨left, right, cancels⟩ := deletes
  have within := Deletes.pair (before ++ left) (right ++ after) cancels
  show Deletes _ _
  simpa using within

/-- What is deleted on one side of a word is deleted whatever stands on the other. -/
theorem deletes_around {ts us left right : List Token}
    (h : Relation.ReflTransGen Deletes ts left) (h' : Relation.ReflTransGen Deletes us right)
    (token : Token) :
    Relation.ReflTransGen Deletes (ts ++ token :: us) (left ++ token :: right) := by
  have first := deletes_append [] (token :: us) h
  have second := deletes_append (left ++ [token]) [] h'
  simp only [List.nil_append, List.append_nil, List.append_assoc, List.cons_append] at first second
  exact first.trans second

theorem cancels_later (k : Nat) (a b : Token) : cancels (a.later k) (b.later k) = cancels a b := by
  cases a <;> cases b <;> rfl

theorem deletes_later {ts us : List Token} (k : Nat) (h : Relation.ReflTransGen Deletes ts us) :
    Relation.ReflTransGen Deletes (ts.map (.later k)) (us.map (.later k)) := by
  refine h.lift (List.map (Token.later k)) fun ts us deletes => ?_
  obtain ⟨left, right, cancels⟩ := deletes
  show Deletes _ _
  rw [List.map_append, List.map_cons, List.map_cons, List.map_append]
  exact .pair _ _ ((cancels_later k _ _).trans cancels)

theorem Describes.later {part : Part} {ts : List Token} {x : Formula Word}
    (h : Describes part ts x) (k : Nat) : Describes part (ts.map (.later k)) x := by
  induction h with
  | word index hw => exact .word (index + k) hw
  | group first last _ ih =>
    rw [List.map_append, List.map_cons]
    exact .group (first + k) (last + k) ih
  | plain _ ih => exact .plain ih
  | negated index hw _ ih => exact .negated (index + k) hw ih
  | first _ ih => exact .first ih
  | adjacent _ _ ihb iht =>
    rw [List.map_append]
    exact .adjacent ihb iht
  | connected index hw _ _ ihb iht =>
    rw [List.map_append, List.map_cons]
    exact .connected (index + k) hw ihb iht

theorem IsSigned.later {ts : List Token} {x : Formula Word} (h : IsSigned ts x) (k : Nat) :
    IsSigned (ts.map (.later k)) x := by
  obtain ⟨left, steps, describes⟩ := h
  exact ⟨_, deletes_later k steps, describes.later k⟩

/-- Terms that go on from terms that have been read are joined with them one after the other. -/
theorem Conjoined.describes {xs : List (Formula Word)} {us : List Token} (h : Conjoined xs us)
    {before : List Token} {t : Formula Word} (read : Describes .level before t) (index : Nat) :
    ∃ left, Relation.ReflTransGen Deletes us left ∧
      Describes .level (before ++ .word index (.plain "and") :: left) (xs.foldl .and t) := by
  have is_and : (Word.plain "and").logical? = some (.connective .and) := by decide +kernel
  induction h generalizing before t index with
  | last term =>
    obtain ⟨left, steps, describes⟩ := term
    exact ⟨left, steps, .connected index is_and read describes⟩
  | @more ts us x xs term index' _ ih =>
    obtain ⟨left, steps, describes⟩ := term
    obtain ⟨rest, steps', whole⟩ := ih (.connected index is_and read describes) index'
    exact ⟨_, deletes_around steps steps' _, by simpa [join] using whole⟩

theorem ofWords_of_describes {ts left : List Token} {x : Formula Word}
    (steps : Relation.ReflTransGen Deletes ts left) (h : Describes .level left x) :
    ofWords ts = .ok (some x) :=
  ofWords_eq_ok_iff.mpr ((readsFrom_iff_of_deletes steps).mpr ⟨_, h.read [], rfl⟩)

theorem IsSigned.ofWords {ts : List Token} {x : Formula Word} (h : IsSigned ts x) :
    ofWords ts = .ok (some x) := by
  obtain ⟨left, steps, describes⟩ := h
  exact ofWords_of_describes steps (.first describes)

/-- The formula of terms with `and` between them. -/
theorem Conjoined.ofWords {x : Formula Word} {xs : List (Formula Word)} {ts : List Token}
    (h : Conjoined (x :: xs) ts) : ofWords ts = .ok (some (xs.foldl .and x)) := by
  cases h with
  | last term => exact term.ofWords
  | @more ts us _ _ term index rest =>
    obtain ⟨left, steps, describes⟩ := term
    obtain ⟨left', steps', whole⟩ := rest.describes (.first describes) index
    exact ofWords_of_describes (deletes_around steps steps' _) whole

end Formula

open Formula

/-- The text is a term, perhaps after a `not`, in which all quotations and brackets are closed. -/
def IsTermOf (text : String) (x : Formula Word) : Prop :=
  IsClosed text ∧ ∃ tokens, scan text = .ok tokens ∧ IsSigned tokens x

/-- A word that is no connective is a term. -/
theorem isTermOf_word {text : String} {index : Nat} {w : Word} (closed : IsClosed text)
    (scanned : scan text = .ok [.word index w]) (hw : w.logical? = none) :
    IsTermOf text (.leaf w) :=
  ⟨closed, _, scanned, _, .refl, .plain (.word index hw)⟩

theorem exists_formulas {texts : List String} (h : ∀ t ∈ texts, ∃ x, IsTermOf t x) :
    ∃ xs, List.Forall₂ IsTermOf texts xs := by
  induction texts with
  | nil => exact ⟨[], .nil⟩
  | cons t texts ih =>
    obtain ⟨⟨x, term⟩, h⟩ := List.forall_mem_cons.mp h
    obtain ⟨xs, terms⟩ := ih h
    exact ⟨x :: xs, .cons term terms⟩

/-! ## The text -/

namespace Scanner

/-- The connective between two terms, of which the first may end with a word. -/
theorem reads_and (word : Option OpenWord) (index : Nat) :
    Reads ⟨word, .outside, 0, []⟩ index " and ".toList
      (flush ⟨word, .outside, 0, []⟩ ++ [.word (index + 1) (.plain "and")]) start (index + 5) := by
  have blank : Scanner.step ⟨word, .outside, 0, []⟩ index ' ' =
      .ok (start, flush ⟨word, .outside, 0, []⟩) := rfl
  have a : start.step (index + 1) 'a' =
      .ok (⟨some ⟨index + 1, ['a'], none⟩, .outside, 0, []⟩, []) := rfl
  have n : Scanner.step ⟨some ⟨index + 1, ['a'], none⟩, .outside, 0, []⟩ (index + 2) 'n' =
      .ok (⟨some ⟨index + 1, ['n', 'a'], none⟩, .outside, 0, []⟩, []) := rfl
  have d : Scanner.step ⟨some ⟨index + 1, ['n', 'a'], none⟩, .outside, 0, []⟩ (index + 3) 'd' =
      .ok (⟨some ⟨index + 1, ['d', 'n', 'a'], none⟩, .outside, 0, []⟩, []) := rfl
  have blank' : Scanner.step ⟨some ⟨index + 1, ['d', 'n', 'a'], none⟩, .outside, 0, []⟩
      (index + 4) ' ' = .ok (start, [.word (index + 1) (.plain "and")]) := rfl
  exact .step blank (.step a (.step n (.step d (.step blank' (.done start (index + 5))))))

/-- From the start of a term on, terms with `and` between them are read to their end. -/
theorem reads_conjunction {text : String} {x : Formula Word} (first : IsTermOf text x)
    {texts : List String} {xs : List (Formula Word)} (h : List.Forall₂ IsTermOf texts xs)
    (k : Nat) :
    ∃ ts word index', Reads start k (conjunction (text :: texts)).toList ts
        ⟨word, .outside, 0, []⟩ index' ∧
      Conjoined (x :: xs) (ts ++ flush ⟨word, .outside, 0, []⟩) := by
  induction h generalizing text x k with
  | nil =>
    obtain ⟨closed, tokens, scanned, signed⟩ := first
    obtain ⟨word, ts, index', reads, flushed⟩ := reads_closed scanned closed k []
    have alone : conjunction [text] = text := by simp [conjunction]
    rw [alone]
    exact ⟨ts, word, index', reads, flushed ▸ .last (signed.later k)⟩
  | @cons text' x' texts xs next _ ih =>
    obtain ⟨closed, tokens, scanned, signed⟩ := first
    obtain ⟨word, ts, index', reads, flushed⟩ := reads_closed scanned closed k []
    obtain ⟨us, word', last, rest, conjoined⟩ := ih next (index' + 5)
    have between := reads_and word index'
    have whole := (reads.append between).append rest
    have text_eq : (conjunction (text :: text' :: texts)).toList =
        text.toList ++ " and ".toList ++ (conjunction (text' :: texts)).toList := by
      simp [conjunction, String.toList_intercalate]
    rw [text_eq]
    refine ⟨_, word', last, whole, ?_⟩
    have terms := Conjoined.more (signed.later k) (index' + 1) conjoined
    rw [← flushed] at terms
    simpa using terms

/-- The tokens of terms with `and` between them. -/
theorem scan_conjunction {text : String} {x : Formula Word} {texts : List String}
    {xs : List (Formula Word)} (h : List.Forall₂ IsTermOf (text :: texts) (x :: xs)) :
    ∃ tokens, scan (conjunction (text :: texts)) = .ok tokens ∧ Conjoined (x :: xs) tokens := by
  obtain ⟨first, rest⟩ := List.forall₂_cons.mp h
  obtain ⟨ts, word, index', reads, conjoined⟩ := reads_conjunction first rest 0
  exact ⟨_, run_eq_ok_iff.mpr ⟨ts, _, _, index', reads, rfl, rfl⟩, conjoined⟩

end Scanner

/-! ## What the terms become -/

section

open Resolving

theorem Resolving.mapM_cons_eq_ok {α β : Type} {f : α → Resolving β} {a : α} {l : List α}
    {bs : List β} {joins joins' : Joins} :
    (a :: l).mapM f joins = (.ok bs, joins') ↔ ∃ b rest joins₁, f a joins = (.ok b, joins₁) ∧
      l.mapM f joins₁ = (.ok rest, joins') ∧ b :: rest = bs := by
  rw [List.mapM_cons]
  constructor
  · intro h
    obtain ⟨b, joins₁, first, h⟩ := Resolving.bind_eq_ok.mp h
    obtain ⟨rest, _, others, h⟩ := Resolving.bind_eq_ok.mp h
    obtain ⟨rfl, rfl⟩ := Resolving.pure_eq_ok.mp h
    exact ⟨b, rest, joins₁, first, others, rfl⟩
  · rintro ⟨b, rest, joins₁, first, others, rfl⟩
    exact Resolving.bind_eq_ok.mpr
      ⟨b, joins₁, first, Resolving.bind_eq_ok.mpr ⟨rest, joins', others, rfl⟩⟩

theorem Formula.mapM_foldl_and {α β : Type} {m : Type → Type} [Monad m] [LawfulMonad m]
    (f : α → m β) (xs : List (Formula α)) (x : Formula α) :
    (xs.foldl .and x).mapM f = do
      let p ← x.mapM f
      return (← xs.mapM fun y => y.mapM f).foldl .and p := by
  induction xs generalizing x with
  | nil => simp
  | cons y xs ih => simp [ih, Formula.mapM]

namespace Schema

variable {s : Schema} {name : String} {root : Entity} {nullSafe : Bool} {joins joins' : Joins}

theorem compileFilter_iff_of_ofWords (hroot : s.entity name = .ok root) {filter : String}
    {tokens : List Token} {x : Formula Word} {f : CompiledFilter}
    (scanned : scan filter = .ok tokens)
    (words : Formula.ofWords tokens = .ok (some x)) :
    s.compileFilter nullSafe filter name = .ok f ↔
      ∃ q own, x.mapM (s.compileWord name nullSafe) [] = (.ok q, own) ∧
        f = .ofPredicate (some q) own := by
  constructor
  · intro h
    obtain ⟨_, _, _, _, _, scanned', run, rfl⟩ := compileFilter_eq_ok_iff.mp h
    cases scanned.symm.trans scanned'
    obtain ⟨_, words', made⟩ := Formula.ofTokens_eq_ok_iff.mp run
    cases words.symm.trans words'
    obtain ⟨q, own, made, h⟩ := Resolving.bind_eq_ok.mp made
    cases h
    exact ⟨q, _, made, rfl⟩
  · rintro ⟨q, own, made, rfl⟩
    exact compileFilter_of_words hroot scanned words made

/-- A term is compiled by itself to what its formula becomes by itself. -/
theorem compileFilter_iff_of_isTermOf (hroot : s.entity name = .ok root) {text : String}
    {x : Formula Word} (term : IsTermOf text x) {f : CompiledFilter} :
    s.compileFilter nullSafe text name = .ok f ↔
      ∃ q own, x.mapM (s.compileWord name nullSafe) [] = (.ok q, own) ∧
        f = .ofPredicate (some q) own := by
  obtain ⟨_, tokens, scanned, signed⟩ := term
  exact compileFilter_iff_of_ofWords hroot scanned signed.ofWords

/-- A term has become `p` among other joins: by itself it becomes the same but for the numbers of
its joins. -/
def Becomes (s : Schema) (name : String) (nullSafe : Bool) (root : Entity) (joins : Joins)
    (text : String) (p : Predicate) : Prop :=
  ∃ q own, s.compileFilter nullSafe text name = .ok (.ofPredicate (some q) own) ∧
    Joins.Within s root own joins ∧ Predicate.Alike own joins q p

/-- The terms have been compiled one after the other: each has become what it becomes by itself, but
for the numbers of its joins, and no other joins have been entered. -/
structure Conjoins (s : Schema) (name : String) (nullSafe : Bool) (root : Entity) (joins : Joins)
    (texts : List String) (ps : List Predicate) (joins' : Joins) : Prop where
  sound : joins'.Sound s root
  grown : joins <+: joins'
  become : List.Forall₂ (s.Becomes name nullSafe root joins') texts ps
  added : ∀ k ∈ joins', k ∈ joins ∨ ∃ t ∈ texts, ∃ q own,
    s.compileFilter nullSafe t name = .ok (.ofPredicate (some q) own) ∧ ∃ j ∈ own, j.path = k.path

/-- Terms that are among others enter no other joins than these. -/
theorem Conjoins.within {ts us : List String} {ps qs : List Predicate}
    (h : s.Conjoins name nullSafe root [] ts ps joins)
    (h' : s.Conjoins name nullSafe root [] us qs joins') (among : ∀ t ∈ ts, t ∈ us) :
    Joins.Within s root joins joins' := by
  refine ⟨h.sound, h'.sound, fun k hk => ?_⟩
  obtain ⟨t, ht, q, own, compiled, j, hj, path⟩ := (h.added k hk).resolve_left nofun
  obtain ⟨_, _, _, own', compiled', within, _⟩ := exists_of_forall₂ h'.become.flip (among t ht)
  cases compiled.symm.trans compiled'
  obtain ⟨k', hk', path'⟩ := within.covered j hj
  exact ⟨k', hk', path'.trans path⟩

/-- One term that has been compiled among other joins. -/
theorem conjoins_single (hroot : s.entity name = .ok root) (sound : joins.Sound s root)
    {text : String} {x : Formula Word} (term : IsTermOf text x) {p : Predicate}
    (made : x.mapM (s.compileWord name nullSafe) joins = (.ok p, joins')) :
    s.Conjoins name nullSafe root joins [text] [p] joins' := by
  obtain ⟨q, own, alone, _, _, _⟩ :=
    matches_compileWords hroot nullSafe x ⟨sound, Joins.sound_nil⟩ p joins' made
  obtain ⟨p', _, made', beside, grown, alike⟩ :=
    matches_compileWords hroot nullSafe x ⟨Joins.sound_nil, sound⟩ q own alone
  cases made.symm.trans made'
  have compiled : s.compileFilter nullSafe text name = .ok (.ofPredicate (some q) own) :=
    (compileFilter_iff_of_isTermOf hroot term).mpr ⟨q, own, alone, rfl⟩
  refine ⟨beside.soundMany, grown.manyGrown, ?_, fun k hk => ?_⟩
  · exact .cons ⟨q, own, compiled, grown.within beside, alike⟩ .nil
  · exact (grown.added k hk).imp_right fun h =>
      ⟨text, List.mem_singleton_self _, q, own, compiled, h⟩

/-- Terms that are compiled after another. -/
theorem Conjoins.after {joins₁ joins₂ : Joins} {text : String} {texts : List String} {p : Predicate}
    {ps : List Predicate} (rest : s.Conjoins name nullSafe root joins₁ texts ps joins₂)
    (first : s.Conjoins name nullSafe root joins [text] [p] joins₁) :
    s.Conjoins name nullSafe root joins (text :: texts) (p :: ps) joins₂ := by
  obtain ⟨⟨q, own, compiled, within, alike⟩, _⟩ := List.forall₂_cons.mp first.become
  refine ⟨rest.sound, first.grown.trans rest.grown,
    .cons ⟨q, own, compiled, ?_, ?_⟩ rest.become, ?_⟩
  · refine ⟨within.soundFew, rest.sound, fun j hj => ?_⟩
    obtain ⟨k, hk, path⟩ := within.covered j hj
    exact ⟨k, rest.grown.subset hk, path⟩
  · exact alike.mono (List.prefix_refl _) rest.grown
  · intro k hk
    rcases rest.added k hk with hk | ⟨t, ht, h⟩
    · refine (first.added k hk).imp_right fun ⟨t, ht, h⟩ => ⟨t, ?_, h⟩
      rw [List.mem_singleton.mp ht]
      exact List.mem_cons_self
    · exact .inr ⟨t, List.mem_cons_of_mem text ht, h⟩

theorem conjoins_of_mapM (hroot : s.entity name = .ok root) (sound : joins.Sound s root)
    {texts : List String} {xs : List (Formula Word)} (terms : List.Forall₂ IsTermOf texts xs)
    {ps : List Predicate}
    (made : xs.mapM (fun x => x.mapM (s.compileWord name nullSafe)) joins = (.ok ps, joins')) :
    s.Conjoins name nullSafe root joins texts ps joins' := by
  induction terms generalizing joins ps with
  | nil =>
    obtain ⟨rfl, rfl⟩ := Resolving.pure_eq_ok.mp made
    exact ⟨sound, List.prefix_refl _, .nil, fun _ hk => .inl hk⟩
  | cons term _ ih =>
    obtain ⟨p, ps, joins₁, first, rest, rfl⟩ := Resolving.mapM_cons_eq_ok.mp made
    have single := conjoins_single hroot sound term first
    exact (ih single.sound rest).after single

/-- Among other joins the terms become something if each does so by itself. -/
theorem exists_mapM (hroot : s.entity name = .ok root) (sound : joins.Sound s root)
    {texts : List String} {xs : List (Formula Word)} (terms : List.Forall₂ IsTermOf texts xs)
    (alone : ∀ t ∈ texts, Succeeds (s.compileFilter nullSafe t name)) :
    ∃ ps joins', xs.mapM (fun x => x.mapM (s.compileWord name nullSafe)) joins =
      (.ok ps, joins') := by
  induction terms generalizing joins with
  | nil => exact ⟨[], joins, rfl⟩
  | @cons t x texts xs term _ ih =>
    obtain ⟨⟨f, compiled⟩, alone⟩ := List.forall_mem_cons.mp alone
    obtain ⟨q, own, made, rfl⟩ := (compileFilter_iff_of_isTermOf hroot term).mp compiled
    obtain ⟨p, joins₁, first, beside, _⟩ :=
      matches_compileWords hroot nullSafe x ⟨Joins.sound_nil, sound⟩ q own made
    obtain ⟨ps, joins₂, rest⟩ := ih beside.soundMany alone
    exact ⟨p :: ps, joins₂, Resolving.mapM_cons_eq_ok.mpr ⟨p, ps, joins₁, first, rest, rfl⟩⟩

/-- Terms with `and` between them are compiled one after the other, and their predicates joined. -/
theorem compileFilter_conjunction (hroot : s.entity name = .ok root) {text : String}
    {texts : List String} (terms : ∀ t ∈ text :: texts, ∃ x, IsTermOf t x) {f : CompiledFilter}
    (h : s.compileFilter nullSafe (conjunction (text :: texts)) name = .ok f) :
    ∃ p ps joins, f = .ofPredicate (some (ps.foldl .and p)) joins ∧
      s.Conjoins name nullSafe root [] (text :: texts) (p :: ps) joins := by
  obtain ⟨xs, forms⟩ := exists_formulas terms
  obtain ⟨x, xs, term, rest, rfl⟩ := List.forall₂_cons_left_iff.mp forms
  obtain ⟨tokens, scanned, conjoined⟩ := Scanner.scan_conjunction forms
  obtain ⟨_, joins, made, rfl⟩ :=
    (compileFilter_iff_of_ofWords hroot scanned conjoined.ofWords).mp h
  rw [Formula.mapM_foldl_and] at made
  obtain ⟨p, _, first, made⟩ := Resolving.bind_eq_ok.mp made
  obtain ⟨ps, _, others, made⟩ := Resolving.bind_eq_ok.mp made
  obtain ⟨rfl, rfl⟩ := Resolving.pure_eq_ok.mp made
  have single := conjoins_single hroot Joins.sound_nil term first
  exact ⟨p, ps, _, rfl, (conjoins_of_mapM hroot single.sound rest others).after single⟩

/-- Terms whose formulas become predicates one after the other are compiled with `and` between them
to the conjunction of these. -/
theorem compileFilter_conjunction_of_mapM (hroot : s.entity name = .ok root) {text : String}
    {texts : List String} {x : Formula Word} {xs : List (Formula Word)}
    (terms : List.Forall₂ IsTermOf (text :: texts) (x :: xs)) {p : Predicate} {ps : List Predicate}
    (first : x.mapM (s.compileWord name nullSafe) [] = (.ok p, joins))
    (others : xs.mapM (fun x => x.mapM (s.compileWord name nullSafe)) joins = (.ok ps, joins')) :
    s.compileFilter nullSafe (conjunction (text :: texts)) name =
      .ok (.ofPredicate (some (ps.foldl .and p)) joins') := by
  obtain ⟨tokens, scanned, conjoined⟩ := Scanner.scan_conjunction terms
  have whole : (xs.foldl .and x).mapM (s.compileWord name nullSafe) [] =
      (.ok (ps.foldl .and p), joins') := by
    rw [Formula.mapM_foldl_and]
    exact Resolving.bind_eq_ok.mpr
      ⟨p, joins, first, Resolving.bind_eq_ok.mpr ⟨ps, joins', others, rfl⟩⟩
  exact (compileFilter_iff_of_ofWords hroot scanned conjoined.ofWords).mpr ⟨_, _, whole, rfl⟩

/-- Terms that can be compiled by themselves can be compiled with `and` between them. -/
theorem succeeds_compileFilter_conjunction (hroot : s.entity name = .ok root) {text : String}
    {texts : List String} (terms : ∀ t ∈ text :: texts, ∃ x, IsTermOf t x)
    (alone : ∀ t ∈ text :: texts, Succeeds (s.compileFilter nullSafe t name)) :
    Succeeds (s.compileFilter nullSafe (conjunction (text :: texts)) name) := by
  obtain ⟨xs, forms⟩ := exists_formulas terms
  obtain ⟨x, xs, term, rest, rfl⟩ := List.forall₂_cons_left_iff.mp forms
  obtain ⟨_, _, made⟩ := exists_mapM hroot Joins.sound_nil forms alone
  obtain ⟨_, _, _, first, others, _⟩ := Resolving.mapM_cons_eq_ok.mp made
  exact ⟨_, compileFilter_conjunction_of_mapM hroot forms first others⟩

end Schema

end

end EntityQuery
