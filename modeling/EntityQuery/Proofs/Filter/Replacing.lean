import EntityQuery.Proofs.Filter.Parentheses
import EntityQuery.Proofs.Filter.Quotation

/-!
# Other text in a word

What stands in a word before its first quotation stands in the filter as it is (`run_bare`). So **a
part of it can be replaced there by other characters that mean nothing to the scanner**: another
word comes of it, and but for the offsets all other tokens are the same (`exists_scan_replaced`).

The word is found in the text first: a word among the tokens begins where none is being read
(`exists_begin`). Then the two filters are read side by side: up to the part in the same way, and
after it by scanners that differ in the word alone (`Scanner.Alike`, kept by `Alike.step` and so by
`Alike.run`), which ends in either part until more is read.
-/

namespace EntityQuery

namespace Scanner

variable {s next s' : Scanner} {index index' start i : Nat} {c : Char} {cs bare : List Char}
  {q : List Char} {ts tokens : List Token} {o : OpenWord}

/-! ## The word that is being read -/

/-- Only in a word that has a quotation does the next character stand in one. -/
def Coherent (s : Scanner) : Prop :=
  s.quotation ≠ .outside → ∃ start bare q, s.word = some ⟨start, bare, some q⟩

theorem Coherent.step (h : s.Coherent) (stepped : s.step index c = .ok (next, ts)) :
    next.Coherent := by
  intro quoted
  obtain ⟨place, kind⟩ := step_of_ok stepped
  have here : (s.place.next c).quotation ≠ .outside := place ▸ quoted
  by_cases outside : s.quotation = .outside
  · have quote : s.place.effect c = .quote := by
      by_contra other
      exact here (Place.outside_next outside other)
    rcases kind with ⟨effect, _⟩ | ⟨_, word, _⟩ | ⟨effect, _⟩ | ⟨effect, _⟩
    case quoted => exact ⟨_, _, _, word⟩
    all_goals simp [quote] at effect
  · obtain ⟨start, bare, q, opened⟩ := h outside
    rcases kind with ⟨_, word, _⟩ | ⟨_, word, _⟩ | ⟨_, word, _⟩ | ⟨effect, _⟩
    · exact ⟨start, bare, c :: q, by simp [word, wordAt, opened, OpenWord.push]⟩
    · exact ⟨_, _, _, word⟩
    · exact ⟨start, bare, q, word.trans opened⟩
    · rcases Place.effect_of_quoted (p := s.place) outside c with push | mark
      · simp [push] at effect
      · simp [mark] at effect

theorem flush_of_word (word : s.word = some o) : s.flush = [o.token] := by
  rw [flush, word]
  rfl

/-- The word that is being read becomes the next token; if it has a quotation, nothing more stands
before that. -/
theorem run_word (h : s.run index cs = .ok tokens) (word : s.word = some o) :
    ∃ x q us, tokens = .word o.start ⟨o.bare.reverse ++ x, q⟩ :: us ∧
      (o.quoted ≠ none → x = []) := by
  induction cs generalizing s index tokens o with
  | nil =>
    unfold run finish at h
    split at h
    · cases h
    · cases h
      refine ⟨[], o.quoted.map List.reverse, [], ?_, fun _ => rfl⟩
      rw [flush_of_word word, OpenWord.token, List.append_nil]
  | cons c cs ih =>
    obtain ⟨next, ts, us, stepped, run, rfl⟩ := exists_of_run_cons h
    have here : s.wordAt index = o := by simp [wordAt, word]
    rcases (step_of_ok stepped).2 with ⟨_, word', _, rfl⟩ | ⟨_, word', _, rfl⟩ |
      ⟨_, word', _, rfl⟩ | ⟨_, _, _, rfl⟩
    · rw [here] at word'
      obtain ⟨x, q, us, rfl, ends⟩ := ih run word'
      obtain ⟨start, bare, quoted⟩ := o
      cases quoted with
      | none => exact ⟨c :: x, q, us, by simp [OpenWord.push], by simp⟩
      | some v => exact ⟨x, q, us, rfl, fun _ => ends (by simp [OpenWord.push])⟩
    · rw [here] at word'
      obtain ⟨x, q, us, rfl, ends⟩ := ih run word'
      exact ⟨x, q, us, rfl, fun _ => ends (by simp [OpenWord.quote])⟩
    · exact ih run (word'.trans word)
    · refine ⟨[], o.quoted.map List.reverse, (Token.parenthesis? s.place index c).toList ++ us, ?_,
        fun _ => rfl⟩
      rw [flush_of_word word, OpenWord.token, List.append_nil]
      rfl

theorem outside_of_pushed (place : next.place = s.place.next c) (outside : s.quotation = .outside)
    (effect : s.place.effect c = .push) : next.quotation = .outside := by
  have after := Place.outside_next (p := s.place) (c := c) outside (by simp [effect])
  rwa [← place] at after

/-- What stands in the word before its first quotation is read as it stands. -/
theorem run_bare {y z : List Char} {q : Option (List Char)} {us : List Token}
    (h : s.run index cs = .ok (.word start ⟨bare.reverse ++ y ++ z, q⟩ :: us))
    (outside : s.quotation = .outside) (word : s.word = some ⟨start, bare, none⟩) :
    ∃ after brackets, cs = y ++ after ∧ Reads s index y []
      ⟨some ⟨start, y.reverse ++ bare, none⟩, .outside, brackets, s.groups⟩
      (index + Text.byteSize y) := by
  induction y generalizing s index cs bare with
  | nil =>
    have same : s = ⟨some ⟨start, bare, none⟩, .outside, s.brackets, s.groups⟩ := by
      rw [← word, ← outside]
    have done := Reads.done s index
    refine ⟨cs, s.brackets, rfl, ?_⟩
    rw [same] at done ⊢
    exact done
  | cons d y ih =>
    cases cs with
    | nil =>
      unfold run finish at h
      split at h
      · cases h
      · simp [flush_of_word word, OpenWord.token] at h
    | cons c cs =>
      obtain ⟨next, ts, us', stepped, run, tokens⟩ := exists_of_run_cons h
      obtain ⟨place, kind⟩ := step_of_ok stepped
      have here : s.wordAt index = ⟨start, bare, none⟩ := by simp [wordAt, word]
      rcases kind with ⟨effect, word', groups, rfl⟩ | ⟨_, word', _, rfl⟩ | ⟨effect, _⟩ |
        ⟨_, _, _, rfl⟩
      · rw [here] at word'
        have outside' := outside_of_pushed place outside effect
        obtain ⟨x, q', us'', rfl, _⟩ := run_word run word'
        obtain ⟨⟨⟨rfl, rfl⟩, rfl⟩, rfl⟩ : ((d = c ∧ y ++ z = x) ∧ q = q') ∧ us = us'' := by
          simpa [OpenWord.push] using tokens
        rw [← List.append_assoc] at run
        obtain ⟨after, brackets, rfl, reads⟩ := ih run outside' word'
        refine ⟨after, brackets, rfl, ?_⟩
        have whole := Reads.step stepped reads
        rw [groups, Nat.add_assoc] at whole
        simpa [OpenWord.push] using whole
      · rw [here] at word'
        obtain ⟨x, q', us'', rfl, ends⟩ := run_word run word'
        obtain rfl := ends (by simp [OpenWord.quote])
        simp [OpenWord.quote] at tokens
      · exact absurd effect (Place.effect_ne_mark outside c)
      · simp [flush_of_word word, OpenWord.token] at tokens

/-! ## Where a word begins -/

/-- After a part has been read, the rest is run from there. -/
theorem Reads.run_append (h : Reads s index cs ts s' index') (rest : List Char) :
    s.run index (cs ++ rest) = (s'.run index' rest).map (ts ++ ·) := by
  induction h with
  | done s index => cases run : s.run index rest <;> simp [run, Except.map]
  | @step s next s' index index' c cs ts us first _ ih =>
    rw [List.cons_append, run_cons_of_ok first, ih]
    cases s'.run index' rest <;> simp [Except.map]

theorem Coherent.outside (h : s.Coherent) (word : s.word = none) : s.quotation = .outside := by
  by_contra quoted
  obtain ⟨_, _, _, opened⟩ := h quoted
  rw [word] at opened
  cases opened

/-- Of the tokens that end with a character only the word that has been read is a word. -/
theorem Step.word_mem (h : Step s index c next ts) {w : Word} (mem : .word i w ∈ ts) :
    ∃ o, s.word = some o ∧ o.start = i := by
  rcases h with ⟨_, _, _, rfl⟩ | ⟨_, _, _, rfl⟩ | ⟨_, _, _, rfl⟩ | ⟨_, _, _, rfl⟩
  case ended =>
    rcases List.mem_append.mp mem with mem | mem
    · obtain ⟨o, word, same⟩ := mem_flush mem
      cases same
      exact ⟨o, word, rfl⟩
    · have parenthesis := (isParenthesis_of_parenthesis? (Option.mem_toList.mp mem)).1
      cases parenthesis
  all_goals cases mem

/-- A word among the tokens has been begun before, or it begins where none is being read. -/
theorem exists_begin (h : s.run index cs = .ok tokens) (coherent : s.Coherent) {w : Word}
    (mem : .word i w ∈ tokens) :
    (∃ o, s.word = some o ∧ o.start = i) ∨
      ∃ before after ts us s', cs = before ++ after ∧ tokens = ts ++ us ∧
        Reads s index before ts s' i ∧ i = index + Text.byteSize before ∧
        s'.word = none ∧ s'.quotation = .outside ∧ s'.run i after = .ok us ∧ .word i w ∈ us := by
  induction cs generalizing s index tokens with
  | nil =>
    unfold run finish at h
    split at h
    · cases h
    · cases h
      obtain ⟨o, word, same⟩ := mem_flush mem
      cases same
      exact .inl ⟨o, word, rfl⟩
  | cons c cs ih =>
    obtain ⟨next, ts, us, stepped, run, rfl⟩ := exists_of_run_cons h
    have kind := (step_of_ok stepped).2
    rcases List.mem_append.mp mem with mem | mem
    · exact .inl (kind.word_mem mem)
    rcases ih run (coherent.step stepped) mem with
      ⟨o, word, rfl⟩ | ⟨before, after, ts', us', s', rfl, rfl, reads, rfl, at_end⟩
    · rcases kind.ends with ⟨rfl, start⟩ | ⟨none_, _⟩
      · cases here : s.word with
        | some o' => exact .inl ⟨o', rfl, by simp [start o word, wordAt, here]⟩
        | none =>
          -- The word begins with this character.
          have begun : o.start = index := by simp [start o word, wordAt, here]
          rw [begun] at mem ⊢
          exact .inr ⟨[], c :: cs, [], us, s, rfl, rfl, .done s index, rfl, here,
            coherent.outside here, h, mem⟩
      · rw [none_] at word
        cases word
    · refine .inr ⟨c :: before, after, ts ++ ts', us', s', rfl, (List.append_assoc ..).symm,
        .step stepped reads, ?_, at_end⟩
      rw [Text.byteSize_cons, Nat.add_assoc]

theorem eq_of_index_eq (ordered : tokens.Pairwise fun t u => t.index < u.index) {t u : Token}
    (ht : t ∈ tokens) (hu : u ∈ tokens) (same : t.index = u.index) : t = u := by
  refine List.Pairwise.forall_of_forall_of_flip (R := fun t u => t.index = u.index → t = u)
    (fun _ _ _ => rfl) ?_ ?_ ht hu same
  · exact ordered.imp fun before same => absurd same before.ne
  · exact ordered.imp fun before same => absurd same before.ne'

/-- What stands before the first quotation of a word that begins here is read as it stands. -/
theorem run_begin {x y : List Char} {q : Option (List Char)} (h : s.run index cs = .ok tokens)
    (none_ : s.word = none) (outside : s.quotation = .outside) (present : x ≠ [])
    (mem : .word index ⟨x ++ y, q⟩ ∈ tokens) :
    ∃ after brackets, cs = x ++ after ∧ Reads s index x []
      ⟨some ⟨index, x.reverse, none⟩, .outside, brackets, s.groups⟩ (index + Text.byteSize x) := by
  have begun : s.Begun index := by simp [Begun, none_]
  cases cs with
  | nil =>
    unfold run finish at h
    split at h
    · cases h
    · cases h
      obtain ⟨o, word, _⟩ := mem_flush mem
      rw [none_] at word
      cases word
  | cons c cs =>
    obtain ⟨next, ts, us, stepped, run, rfl⟩ := exists_of_run_cons h
    have ordered := pairwise_run run (begun.step stepped)
    obtain ⟨place, kind⟩ := step_of_ok stepped
    have here : s.wordAt index = ⟨index, [], none⟩ := by simp [wordAt, none_]
    have mem : .word index ⟨x ++ y, q⟩ ∈ us := by
      refine (List.mem_append.mp mem).resolve_left fun ended => ?_
      obtain ⟨o, word, _⟩ := kind.word_mem ended
      rw [none_] at word
      cases word
    -- The word is the first token that ends after this character.
    have first {o : OpenWord} (word : next.word = some o) (start : o.start = index) :
        ∃ z us', us = .word index ⟨x ++ y, q⟩ :: us' ∧ x ++ y = o.bare.reverse ++ z ∧
          (o.quoted ≠ none → z = []) := by
      obtain ⟨z, q', us', rfl, ends⟩ := run_word run word
      have same := eq_of_index_eq ordered mem List.mem_cons_self start.symm
      exact ⟨z, us', by rw [same], (Word.mk.inj (Token.word.inj same).2).1, ends⟩
    rcases kind with ⟨effect, word, groups, rfl⟩ | ⟨_, word, _⟩ | ⟨effect, _⟩ | ⟨_, none_', _⟩
    · rw [here] at word
      obtain ⟨z, us', rfl, split, _⟩ := first word rfl
      obtain ⟨d, x, rfl⟩ := List.exists_cons_of_ne_nil present
      obtain rfl : d = c := by simpa [OpenWord.push] using congrArg List.head? split
      have outside' := outside_of_pushed place outside effect
      obtain ⟨after, brackets, rfl, reads⟩ := run_bare run outside' word
      refine ⟨after, brackets, rfl, ?_⟩
      have whole := Reads.step stepped reads
      rw [groups, Nat.add_assoc] at whole
      simpa using whole
    · rw [here] at word
      obtain ⟨z, _, _, split, ends⟩ := first word rfl
      rw [ends (by simp [OpenWord.quote])] at split
      simp [OpenWord.quote, present] at split
    · exact absurd effect (Place.effect_ne_mark outside c)
    · rcases index_of_mem_run run mem with ⟨o, word, _⟩ | later
      · rw [none_'] at word
        cases word
      · have size := c.utf8Size_pos
        simp only [Token.index] at later
        omega

end Scanner

/-! ## Two filters side by side -/

/-- The tokens are of the same kind, at whatever offsets, and their words are related. -/
inductive Token.Alike (R : Nat → Word → Word → Prop) : Token → Token → Prop
  | opening (i j : Nat) : Alike R (.opening i) (.opening j)
  | closing (i j : Nat) : Alike R (.closing i) (.closing j)
  | word {i : Nat} {w w' : Word} (j : Nat) (h : R i w w') : Alike R (.word i w) (.word j w')

/-- The words are the same, or they start at the offset, one with `x` and the other with `x'`, and
go on in the same way. -/
def Word.AlikeFrom (start : Nat) (x x' : List Char) (i : Nat) (w w' : Word) : Prop :=
  w' = w ∨ i = start ∧ ∃ v q, w = ⟨x ++ v, q⟩ ∧ w' = ⟨x' ++ v, q⟩

/-- What has been read of two words that are alike in this way. -/
structure OpenWord.Alike (start : Nat) (x x' : List Char) (o o' : OpenWord) : Prop where
  quoted : o'.quoted = o.quoted
  bare : o'.bare = o.bare ∨
    o.start = start ∧ ∃ v, o.bare = v ++ x.reverse ∧ o'.bare = v ++ x'.reverse

section

variable {start : Nat} {x x' : List Char} {o o' : OpenWord}

theorem OpenWord.Alike.push (h : Alike start x x' o o') (c : Char) :
    Alike start x x' (o.push c) (o'.push c) := by
  obtain ⟨first, bare, q⟩ := o
  obtain ⟨first', bare', q'⟩ := o'
  obtain ⟨quoted, same⟩ := h
  obtain rfl : q' = q := quoted
  cases q' with
  | some q => exact ⟨rfl, same⟩
  | none =>
    refine ⟨rfl, ?_⟩
    rcases same with same | ⟨here, v, same, same'⟩
    · exact .inl (congrArg (c :: ·) same)
    · exact .inr ⟨here, c :: v, congrArg (c :: ·) same, congrArg (c :: ·) same'⟩

theorem OpenWord.Alike.quote (h : Alike start x x' o o') : Alike start x x' o.quote o'.quote := by
  refine ⟨?_, h.bare⟩
  rw [OpenWord.quote, OpenWord.quote, h.quoted]

theorem OpenWord.Alike.token (h : Alike start x x' o o') :
    Token.Alike (Word.AlikeFrom start x x') o.token o'.token := by
  refine .word _ ?_
  rw [h.quoted]
  rcases h.bare with same | ⟨here, v, bare, bare'⟩
  · exact .inl (by rw [same])
  · exact .inr ⟨here, v.reverse, o.quoted.map List.reverse, by simp [bare], by simp [bare']⟩

end

namespace Scanner

/-- Scanners that go on in the same way, but for offsets and for how the word that starts at the
offset begins. -/
structure Alike (start : Nat) (x x' : List Char) (s s' : Scanner) : Prop where
  place : s'.place = s.place
  groups : s'.groups.length = s.groups.length
  word : Option.Rel (OpenWord.Alike start x x') s.word s'.word

variable {start : Nat} {x x' : List Char} {s s' next : Scanner} {index : Nat} {c : Char}
  {cs : List Char} {ts tokens : List Token}

theorem Alike.wordAt (h : Alike start x x' s s') (index index' : Nat) :
    OpenWord.Alike start x x' (s.wordAt index) (s'.wordAt index') := by
  obtain ⟨word, _, _, _⟩ := s
  obtain ⟨word', _, _, _⟩ := s'
  cases h.word with
  | some words => exact words
  | none => exact ⟨rfl, .inl rfl⟩

theorem Alike.flush (h : Alike start x x' s s') :
    List.Forall₂ (Token.Alike (Word.AlikeFrom start x x')) s.flush s'.flush := by
  obtain ⟨word, _, _, _⟩ := s
  obtain ⟨word', _, _, _⟩ := s'
  cases h.word with
  | some words => exact .cons words.token .nil
  | none => exact .nil

theorem Alike.moved (h : Alike start x x' s s') (c : Char) {word word' : Option OpenWord}
    {groups groups' : List Nat} (words : Option.Rel (OpenWord.Alike start x x') word word')
    (length : groups'.length = groups.length) :
    Alike start x x' (s.moved c word groups) (s'.moved c word' groups') := by
  refine ⟨?_, length, words⟩
  rw [Scanner.moved, Scanner.moved, h.place]
  rfl

theorem Alike.step (h : Alike start x x' s s') (index' : Nat)
    (stepped : s.step index c = .ok (next, ts)) :
    ∃ next' ts', s'.step index' c = .ok (next', ts') ∧ Alike start x x' next next' ∧
      List.Forall₂ (Token.Alike (Word.AlikeFrom start x x')) ts ts' := by
  rw [step_eq] at stepped ⊢
  rw [h.place]
  generalize s.place.effect c = effect at stepped ⊢
  cases effect with
  | push =>
    cases stepped
    exact ⟨_, _, rfl, h.moved c (.some ((h.wordAt index index').push c)) h.groups, .nil⟩
  | quote =>
    cases stepped
    exact ⟨_, _, rfl, h.moved c (.some (h.wordAt index index').quote) h.groups, .nil⟩
  | mark =>
    cases stepped
    exact ⟨_, _, rfl, h.moved c h.word h.groups, .nil⟩
  | blank =>
    cases stepped
    exact ⟨_, _, rfl, h.moved c .none h.groups, h.flush⟩
  | opening =>
    cases stepped
    exact ⟨_, _, rfl, h.moved c .none (congrArg (· + 1) h.groups),
      List.rel_append h.flush (.cons (.opening ..) .nil)⟩
  | closing =>
    have length := h.groups
    unfold perform at stepped ⊢
    cases groups : s.groups with
    | nil =>
      rw [groups] at stepped
      cases stepped
    | cons first outer =>
      rw [groups] at stepped length
      cases stepped
      obtain ⟨first', outer', groups'⟩ := List.exists_cons_of_length_eq_add_one length
      rw [groups'] at length ⊢
      exact ⟨_, _, rfl, h.moved c .none (Nat.succ.inj length),
        List.rel_append h.flush (.cons (.closing ..) .nil)⟩

theorem Alike.run (h : Alike start x x' s s') (index' : Nat) (ran : s.run index cs = .ok tokens) :
    ∃ tokens', s'.run index' cs = .ok tokens' ∧
      List.Forall₂ (Token.Alike (Word.AlikeFrom start x x')) tokens tokens' := by
  induction cs generalizing s s' index index' tokens with
  | nil =>
    have length := h.groups
    unfold Scanner.run finish at ran ⊢
    split at ran
    · cases ran
    · next none_ =>
      cases ran
      rw [List.getLast?_eq_none_iff.mp none_] at length
      rw [List.eq_nil_of_length_eq_zero length]
      exact ⟨_, rfl, h.flush⟩
  | cons c cs ih =>
    obtain ⟨next, ts, us, stepped, rest, rfl⟩ := exists_of_run_cons ran
    obtain ⟨next', ts', stepped', alike, ended⟩ := h.step index' stepped
    obtain ⟨us', rest', later⟩ := ih alike (index' + c.utf8Size) rest
    refine ⟨ts' ++ us', ?_, List.rel_append ended later⟩
    rw [run_cons_of_ok stepped', rest']
    rfl

/-- A part of the word that is being read, in which every character is plain, can be another one. -/
theorem exists_run_replaced {field m m' : List Char} {brackets : Nat} {groups : List Nat}
    (plain : ∀ c ∈ m, Word.IsPlain c) (plain' : ∀ c ∈ m', Word.IsPlain c)
    (ran : run ⟨some ⟨start, field.reverse, none⟩, .outside, brackets, groups⟩ index (m ++ cs) =
      .ok tokens) :
    ∃ tokens', run ⟨some ⟨start, field.reverse, none⟩, .outside, brackets, groups⟩ index
        (m' ++ cs) = .ok tokens' ∧
      List.Forall₂ (Token.Alike (Word.AlikeFrom start (field ++ m) (field ++ m')))
        tokens tokens' := by
  have read := reads_plain groups brackets plain ⟨start, field.reverse, none⟩ index
  have read' := reads_plain groups brackets plain' ⟨start, field.reverse, none⟩ index
  rw [read.run_append, foldl_push_bare] at ran
  rw [read'.run_append, foldl_push_bare]
  obtain ⟨us, rest, rfl⟩ := map_eq_ok.mp ran
  have alike : Alike start (field ++ m) (field ++ m')
      ⟨some ⟨start, m.reverse ++ field.reverse, none⟩, .outside, brackets, groups⟩
      ⟨some ⟨start, m'.reverse ++ field.reverse, none⟩, .outside, brackets, groups⟩ := by
    refine ⟨rfl, rfl, .some ⟨rfl, .inr ⟨rfl, [], ?_, ?_⟩⟩⟩
    all_goals simp
  obtain ⟨us', rest', related⟩ := alike.run (index + Text.byteSize m') rest
  rw [rest']
  exact ⟨us', rfl, related⟩

end Scanner

section

variable {R R' : Nat → Word → Word → Prop} {t u : Token}

theorem Token.Alike.refl (h : ∀ i w, R i w w) (t : Token) : Token.Alike R t t := by
  cases t with
  | opening i => exact .opening i i
  | closing i => exact .closing i i
  | word i w => exact .word i (h i w)

theorem Token.Alike.imp (h : Token.Alike R t u)
    (imp : ∀ i w w', t = .word i w → R i w w' → R' i w w') : Token.Alike R' t u := by
  cases h with
  | opening i j => exact .opening i j
  | closing i j => exact .closing i j
  | word j h => exact .word j (imp _ _ _ rfl h)

theorem Token.Alike.symm {R : Word → Word → Prop} (h : Token.Alike (fun _ => R) t u) :
    Token.Alike (fun _ w w' => R w' w) u t := by
  cases h with
  | opening i j => exact .opening j i
  | closing i j => exact .closing j i
  | word j h => exact .word _ h

end

/-- The word is the same, or the new one in the place of the old. -/
def Word.Replaced (old new w w' : Word) : Prop := w' = w ∨ w = old ∧ w' = new

section

variable {filter : String} {tokens : List Token} {index : Nat} {field m m' value : List Char}
  {quoted : Option (List Char)}

/-- At the offset of the word there is no other token, so it is this word that begins in another
way. -/
theorem Token.Alike.replaced {x x' : List Char}
    (ordered : tokens.Pairwise fun t u => t.index < u.index)
    (mem : .word index ⟨x ++ value, quoted⟩ ∈ tokens) {t t' : Token} (here : t ∈ tokens)
    (alike : Token.Alike (Word.AlikeFrom index x x') t t') :
    Token.Alike (fun _ => Word.Replaced ⟨x ++ value, quoted⟩ ⟨x' ++ value, quoted⟩) t t' := by
  refine alike.imp fun i w w' same words => ?_
  subst same
  rcases words with same | ⟨rfl, v, q, rfl, rfl⟩
  · exact .inl same
  · have one := Scanner.eq_of_index_eq ordered here mem rfl
    simp only [Token.word.injEq, Word.mk.injEq, List.append_cancel_left_eq, true_and] at one
    obtain ⟨rfl, rfl⟩ := one
    exact .inr ⟨rfl, rfl⟩

/-- Plain characters in a word, after what the word begins with, can be replaced by others: all
other words stay the same. -/
theorem exists_scan_replaced (h : scan filter = .ok tokens) (present : field ≠ [])
    (plain : ∀ c ∈ m, Word.IsPlain c) (plain' : ∀ c ∈ m', Word.IsPlain c)
    (mem : .word index ⟨field ++ m ++ value, quoted⟩ ∈ tokens) :
    ∃ before after tokens', filter.toList = before ++ field ++ m ++ after ∧
      Text.byteSize before = index ∧
      scan (String.ofList (before ++ field ++ m' ++ after)) = .ok tokens' ∧
      List.Forall₂ (Token.Alike fun _ =>
        Word.Replaced ⟨field ++ m ++ value, quoted⟩ ⟨field ++ m' ++ value, quoted⟩)
        tokens tokens' := by
  have coherent : Scanner.start.Coherent := fun quoted => absurd rfl quoted
  have ordered := pairwise_scan h
  obtain ⟨before, rest, ts, us, s, text, split, reads, rfl, none_, outside, ran, mem'⟩ :=
    (Scanner.exists_begin h coherent mem).resolve_left (by simp [Scanner.start])
  -- The word is read as it stands, up to the characters and then to their end.
  obtain ⟨after₁, brackets, rfl, reads₁⟩ := Scanner.run_begin ran none_ outside present
    (y := m ++ value) (by rwa [← List.append_assoc])
  obtain ⟨after, _, whole, _⟩ := Scanner.run_begin ran none_ outside (x := field ++ m)
    (by simp [present]) mem'
  obtain rfl : after₁ = m ++ after := by simpa using whole
  rw [reads₁.run_append] at ran
  obtain ⟨us, read, rfl⟩ := map_eq_ok.mp ran
  obtain ⟨us', read', related⟩ := Scanner.exists_run_replaced plain plain' read
  refine ⟨before, after, ts ++ us', by simp [text], by simp, ?_, ?_⟩
  · have replaced : before ++ field ++ m' ++ after = before ++ (field ++ (m' ++ after)) := by simp
    rw [scan, String.toList_ofList, replaced, reads.run_append, reads₁.run_append, read']
    rfl
  · subst split
    refine List.rel_append (List.forall₂_same.mpr fun t _ => .refl (fun _ _ => .inl rfl) t) ?_
    have known := (List.forall₂_and_left _ _).mpr
      ⟨fun t (ht : t ∈ us) => List.mem_append_right ts ht, related⟩
    exact known.imp fun t t' both => both.2.replaced ordered mem both.1

end

end EntityQuery
