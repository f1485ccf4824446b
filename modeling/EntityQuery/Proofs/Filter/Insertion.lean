import EntityQuery.Proofs.Filter.Replacing

/-!
# Words put into a filter

Where no word is being read, the scanner is as it was at the start, but for the groups that are open
(`Reads.eq_of_no_word`). So **what is read as one word by itself is one word between any others**,
and the words after it stay the same, at other offsets (`scan_between`). Such a place is found in
the text (`StandsBetween`): after a blank or a parenthesis, if the quotations and square brackets
before it are closed.

A word can also get another one directly before it, with a blank between them
(`exists_scan_preceded`). Then the scanner is in the middle of a word on one side only, and what it
reads besides the word does not depend on what it has read of it (`run_other_word`).
-/

namespace EntityQuery

/-- The character ends the word before it, if it stands outside quotations and brackets. -/
def Delimits (c : Char) : Prop := Text.isBlank c = true ∨ c = '(' ∨ c = ')'

instance (c : Char) : Decidable (Delimits c) := inferInstanceAs (Decidable (_ ∨ _))

/-- What is put between the two texts stands by itself there: the text before it is closed, and
neither of them has a character of a word next to it. -/
structure StandsBetween (before after : String) : Prop where
  closed : IsClosed before
  left : ∀ c ∈ before.toList.getLast?, Delimits c
  right : ∀ c ∈ after.toList.head?, Delimits c

/-- The tokens are the same but for their offsets. -/
def Token.SameWords : List Token → List Token → Prop :=
  List.Forall₂ (Token.Alike fun _ w w' => w' = w)

theorem Token.SameWords.symm {ts us : List Token} (h : SameWords ts us) : SameWords us ts :=
  h.flip.imp fun _ _ alike => alike.symm.imp fun _ _ _ _ same => same.symm

theorem Token.SameWords.trans {ts us vs : List Token} (h : SameWords ts us) (h' : SameWords us vs) :
    SameWords ts vs := by
  induction h generalizing vs with
  | nil => exact h'
  | cons first _ ih =>
    cases h' with
    | cons first' rest' =>
      refine .cons ?_ (ih rest')
      cases first with
      | opening => cases first'; exact .opening ..
      | closing => cases first'; exact .closing ..
      | word _ same =>
        cases first' with
        | word _ same' => exact .word _ (same'.trans same)

theorem Delimits.ne_mark {c : Char} (h : Delimits c) : c ≠ '"' ∧ c ≠ '[' ∧ c ≠ ']' := by
  refine ⟨?_, ?_, ?_⟩
  all_goals
    rintro rfl
    exact absurd h (by decide)

namespace Place

variable {p : Place} {c : Char}

theorem effect_of_delimits (h : Delimits c) :
    outside.effect c = .blank ∨ outside.effect c = .opening ∨ outside.effect c = .closing := by
  rcases h with blank | rfl | rfl
  · obtain ⟨quote, openList, closeList⟩ := Delimits.ne_mark (.inl blank)
    simp [effect, outside, quote, openList, closeList, blank]
  · exact .inr (.inl rfl)
  · exact .inr (.inr rfl)

/-- After a character that delimits one is outside only if one was outside before it. -/
theorem eq_outside_of_next (h : Delimits c) (next : p.next c = outside) : p = outside := by
  obtain ⟨quote, openList, closeList⟩ := h.ne_mark
  obtain ⟨quotation, brackets⟩ := p
  cases quotation with
  | outside => simpa [Place.next, quote, openList, closeList] using next
  | inside => by_cases escape : c = '\\' <;> simp [Place.next, outside, escape, quote] at next
  | escaped => simp [Place.next, outside] at next

/-- A word ends only outside quotations and brackets, and so does what ends it. -/
theorem eq_outside_of_effect (h : p.effect c ∉ [.push, .quote, .mark]) :
    p = outside ∧ p.next c = outside := by
  obtain ⟨quotation, brackets⟩ := p
  cases quotation with
  | escaped => simp [effect] at h
  | inside =>
    have quoted : (⟨.inside, brackets⟩ : Place).quotation ≠ .outside := by simp
    rcases effect_of_quoted quoted c with e | e <;> simp [e] at h
  | outside =>
    by_cases quote : c = '"'
    · simp [effect, quote] at h
    by_cases list : c = '[' ∨ c = ']' ∨ 0 < brackets
    · simp [effect, quote, list] at h
    simp only [not_or] at list
    obtain ⟨openList, closeList, none_⟩ := list
    obtain rfl : brackets = 0 := by omega
    simp [outside, next, quote, openList, closeList]

end Place

/-- What a character adds to a word, and where, depends on whether the word has a quotation. -/
theorem OpenWord.exists_push (o : OpenWord) (c : Char) : ∃ d, ∀ o' : OpenWord,
    o'.quoted = o.quoted → (o'.push c).start = o'.start ∧
      (o'.push c).bare.reverse = o'.bare.reverse ++ d ∧ (o'.push c).quoted = (o.push c).quoted := by
  obtain ⟨start, bare, quoted⟩ := o
  cases quoted with
  | none =>
    refine ⟨[c], fun ⟨_, _, _⟩ same => ?_⟩
    cases same
    exact ⟨rfl, List.reverse_cons, rfl⟩
  | some q =>
    refine ⟨[], fun ⟨_, _, _⟩ same => ?_⟩
    cases same
    exact ⟨rfl, (List.append_nil _).symm, rfl⟩

namespace Scanner

variable {s s' : Scanner} {index index' : Nat} {c : Char} {cs xs ys : List Char}
  {ts tokens : List Token} {groups : List Nat} {o : OpenWord}

/-! ## A run from part to part -/

theorem Reads.exists_of_append (h : Reads s index (xs ++ ys) ts s' index') :
    ∃ us vs s₁, Reads s index xs us s₁ (index + Text.byteSize xs) ∧
      Reads s₁ (index + Text.byteSize xs) ys vs s' index' ∧ ts = us ++ vs := by
  induction xs generalizing s index ts with
  | nil => exact ⟨[], ts, s, .done s index, h, rfl⟩
  | cons c xs ih =>
    cases h with
    | @step _ _ _ _ _ _ _ ts _ first later =>
      obtain ⟨us, vs, s₁, reads, rest, rfl⟩ := ih later
      rw [Nat.add_assoc] at reads rest
      exact ⟨ts ++ us, vs, s₁, .step first reads, rest, (List.append_assoc ..).symm⟩

theorem exists_of_run_append (h : s.run index (xs ++ ys) = .ok tokens) :
    ∃ ts us s', Reads s index xs ts s' (index + Text.byteSize xs) ∧
      s'.run (index + Text.byteSize xs) ys = .ok us ∧ tokens = ts ++ us := by
  obtain ⟨_, last, s', _, whole, finished, rfl⟩ := run_eq_ok_iff.mp h
  obtain ⟨ts, us, s₁, reads, rest, rfl⟩ := whole.exists_of_append
  exact ⟨ts, us ++ last, s₁, reads, run_eq_ok_iff.mpr ⟨us, last, s', _, rest, finished, rfl⟩,
    List.append_assoc ..⟩

theorem Reads.run_append_nil (h : Reads s index cs [] s' index') (rest : List Char) :
    s.run index (cs ++ rest) = s'.run index' rest := by
  rw [h.run_append]
  cases s'.run index' rest <;> rfl

/-- The rest of a filter is cut in the same way further on or further back. -/
theorem exists_run_moved (ran : s.run index cs = .ok tokens) (index' : Nat) :
    ∃ tokens', s.run index' cs = .ok tokens' ∧ Token.SameWords tokens tokens' := by
  have words : Option.Rel (OpenWord.Alike 0 [] []) s.word s.word := by
    cases s.word with
    | none => exact .none
    | some o => exact .some ⟨rfl, .inl rfl⟩
  have alike : Alike 0 [] [] s s := ⟨rfl, rfl, words⟩
  obtain ⟨tokens', ran', related⟩ := alike.run index' ran
  refine ⟨tokens', ran', related.imp fun t u alike => alike.imp fun i w w' _ same => ?_⟩
  rcases same with same | ⟨_, v, q, rfl, rfl⟩
  · exact same
  · rfl

/-- Where no word is being read, the next character stands outside. -/
def Resting (s : Scanner) : Prop := s.word = none → s.place = .outside

theorem Resting.step {next : Scanner} (h : s.Resting) (stepped : s.step index c = .ok (next, ts)) :
    next.Resting := by
  intro none_
  obtain ⟨place, kind⟩ := step_of_ok stepped
  rcases kind with ⟨_, word, _⟩ | ⟨_, word, _⟩ | ⟨effect, word, _⟩ | ⟨effect, _⟩
  · cases word.symm.trans none_
  · cases word.symm.trans none_
  · have outside : s.place = .outside := h (word.symm.trans none_)
    exact absurd effect (Place.effect_ne_mark (congrArg Place.quotation outside) c)
  · rw [place, (Place.eq_outside_of_effect effect).2]

theorem Reads.resting (h : Reads s index cs ts s' index') (resting : s.Resting) : s'.Resting := by
  induction h with
  | done => exact resting
  | step first _ ih => exact ih (resting.step first)

/-- Where no word is being read, the scanner is as at the start, but for the groups. -/
theorem Reads.eq_of_no_word (h : Reads start 0 cs ts s index) (none_ : s.word = none) :
    s = ⟨none, .outside, 0, s.groups⟩ := by
  have place : s.place = .outside := h.resting (fun _ => rfl) none_
  obtain ⟨word, quotation, brackets, groups⟩ := s
  obtain rfl : word = none := none_
  obtain ⟨rfl, rfl⟩ := Place.mk.inj place
  rfl

/-- After closed text whose last character delimits no word is being read. -/
theorem Reads.eq_outside {before : List Char} (h : Reads start 0 before ts s index)
    (closed : Quotation.outside.closes 0 before = true)
    (left : ∀ c ∈ before.getLast?, Delimits c) : s = ⟨none, .outside, 0, s.groups⟩ := by
  refine h.eq_of_no_word ?_
  rcases List.eq_nil_or_concat' before with rfl | ⟨rest, c, rfl⟩
  · cases h
    rfl
  · have delimits : Delimits c := left c (by simp)
    obtain ⟨quotation, brackets⟩ := h.closed closed
    have here : s.place = .outside := by
      rw [place, quotation, brackets]
      rfl
    obtain ⟨_, _, s₁, _, last, _⟩ := h.exists_of_append
    cases last with
    | step stepped done =>
      cases done
      obtain ⟨place, kind⟩ := step_of_ok stepped
      have before : s₁.place = .outside := Place.eq_outside_of_next delimits (place ▸ here)
      have effect := Place.effect_of_delimits delimits
      rw [← before] at effect
      rcases kind with ⟨kind, _⟩ | ⟨kind, _⟩ | ⟨kind, _⟩ | ⟨_, word, _⟩
      case ended => exact word
      all_goals simp [kind] at effect

/-- What ends a word is read as without the word, which is the first token then. -/
theorem run_ended (effect : s.place.effect c ∉ [.push, .quote, .mark]) :
    s.run index (c :: cs) =
      (run { s with word := none } index (c :: cs)).map (s.flush ++ ·) := by
  have stepped : s.step index c =
      (step { s with word := none } index c).map fun p => (p.1, s.flush ++ p.2) := by
    rw [step_eq, step_eq, show place { s with word := none } = s.place from rfl]
    obtain ⟨word, quotation, brackets, groups⟩ := s
    cases kind : place ⟨word, quotation, brackets, groups⟩ |>.effect c with
    | push | quote | mark => simp [kind] at effect
    | blank => simp [perform, flush, moved, place, Except.map]
    | opening => simp [perform, flush, moved, place, Except.map]
    | closing => cases groups <;> simp [perform, flush, moved, place, Except.map]
  rw [run, run, stepped]
  cases step { s with word := none } index c with
  | error e => rfl
  | ok result =>
    obtain ⟨next, ts⟩ := result
    show (next.run (index + c.utf8Size) cs >>= fun rest => pure (s.flush ++ ts ++ rest)) =
      (next.run (index + c.utf8Size) cs >>= fun rest => pure (ts ++ rest)).map (s.flush ++ ·)
    cases next.run (index + c.utf8Size) cs with
    | error e => rfl
    | ok rest => exact congrArg Except.ok (List.append_assoc ..)

/-- The word that is being read ends where a character delimits, or with the filter. -/
theorem run_delimited (right : ∀ c ∈ cs.head?, Delimits c) :
    run ⟨some o, .outside, 0, groups⟩ index cs =
      (run ⟨none, .outside, 0, groups⟩ index cs).map (o.token :: ·) := by
  cases cs with
  | nil =>
    unfold run finish
    cases groups.getLast? <;> rfl
  | cons c cs =>
    refine run_ended ?_
    rw [show place ⟨some o, .outside, 0, groups⟩ = .outside from rfl]
    rcases Place.effect_of_delimits (right c (by simp)) with effect | effect | effect
    all_goals simp [effect]

/-! ## One more word -/

/-- The text is read as the word wherever no word is being read. -/
def ReadsWord (text : List Char) (w : Word) : Prop :=
  ∀ groups index, ∃ o, Reads ⟨none, .outside, 0, groups⟩ index text []
    ⟨some o, .outside, 0, groups⟩ (index + Text.byteSize text) ∧ o.token = .word index w

theorem readsWord_of_plain {text : List Char} (plain : ∀ c ∈ text, Word.IsPlain c)
    (present : text ≠ []) : ReadsWord text ⟨text, none⟩ := by
  intro groups index
  have read := reads_word groups (w := ⟨text, none⟩) ⟨plain, .inl present⟩ index
  rwa [Word.written, Option.map_none, Option.getD_none, List.append_nil] at read

/-- What is read as a word by itself is one word between others, which stay the same. -/
theorem scan_between {before text after : String} {w : Word}
    (h : scan (before ++ after) = .ok tokens) (stands : StandsBetween before after)
    (reads : ReadsWord text.toList w) :
    ∃ ts us us', tokens = ts ++ us ∧
      scan (before ++ text ++ after) = .ok (ts ++ .word (Text.byteSize before.toList) w :: us') ∧
      Token.SameWords us us' := by
  rw [scan, String.toList_append] at h
  obtain ⟨ts, us, s, read, rest, rfl⟩ := exists_of_run_append h
  rw [Nat.zero_add] at read rest
  have outside := read.eq_outside stands.closed stands.left
  rw [outside] at read rest
  obtain ⟨o, word, token⟩ := reads s.groups (Text.byteSize before.toList)
  obtain ⟨us', rest', alike⟩ :=
    exists_run_moved rest (Text.byteSize before.toList + Text.byteSize text.toList)
  refine ⟨ts, us, us', rfl, ?_, alike⟩
  rw [scan, String.toList_append, String.toList_append, List.append_assoc, read.run_append,
    word.run_append, run_delimited stands.right, rest', token]
  rfl

/-! ## One more word before a word -/

/-- A character that does not end the word does the same to all words that have a quotation, and to
all that have none. -/
theorem exists_step_word (effect : s.place.effect c ∈ [.push, .quote, .mark]) (index : Nat)
    (o : OpenWord) : ∃ (next : Scanner) (f : OpenWord → OpenWord) (d : List Char),
      ∀ o' : OpenWord, o'.quoted = o.quoted →
        step { s with word := some o' } index c = .ok ({ next with word := some (f o') }, []) ∧
          (f o').start = o'.start ∧ (f o').bare.reverse = o'.bare.reverse ++ d ∧
          (f o').quoted = (f o).quoted := by
  have stepped (o' : OpenWord) : step { s with word := some o' } index c =
      perform { s with word := some o' } index c (s.place.effect c) := step_eq ..
  cases kind : s.place.effect c with
  | push =>
    obtain ⟨d, pushed⟩ := o.exists_push c
    refine ⟨s.moved c none s.groups, fun o' => o'.push c, d, fun o' quoted =>
      ⟨?_, pushed o' quoted⟩⟩
    rw [stepped, kind]
    rfl
  | quote =>
    refine ⟨s.moved c none s.groups, OpenWord.quote, [], fun o' quoted => ⟨?_, rfl, ?_, ?_⟩⟩
    · rw [stepped, kind]
      rfl
    · exact (List.append_nil _).symm
    · rw [OpenWord.quote, OpenWord.quote, quoted]
  | mark =>
    refine ⟨s.moved c none s.groups, id, [], fun o' quoted => ⟨?_, rfl, ?_, quoted⟩⟩
    · rw [stepped, kind]
      rfl
    · exact (List.append_nil _).symm
  | blank | opening | closing => simp [kind] at effect

/-- What is read besides a word does not depend on what has been read of the word. -/
theorem run_other_word (h : s.run index cs = .ok tokens) (word : s.word = some o) :
    ∃ x q us, ∀ o' : OpenWord, o'.quoted = o.quoted → run { s with word := some o' } index cs =
      .ok (.word o'.start ⟨o'.bare.reverse ++ x, q⟩ :: us) := by
  induction cs generalizing s index tokens o with
  | nil =>
    refine ⟨[], o.quoted.map List.reverse, [], fun o' quoted => ?_⟩
    unfold run finish at h ⊢
    split at h
    · cases h
    · next none_ => simp [none_, flush, OpenWord.token, quoted]
  | cons c cs ih =>
    by_cases ends : s.place.effect c ∉ [.push, .quote, .mark]
    · rw [run_ended ends] at h
      obtain ⟨us, rest, -⟩ := map_eq_ok.mp h
      refine ⟨[], o.quoted.map List.reverse, us, fun o' quoted => ?_⟩
      have ended := @run_ended { s with word := some o' } index c cs ends
      rw [ended, rest, ← quoted]
      simp [flush, OpenWord.token, Except.map]
    · obtain ⟨next, f, d, stepped⟩ := exists_step_word (not_not.mp ends) index o
      obtain ⟨next', _, us, step', run, -⟩ := exists_of_run_cons h
      have same : s = { s with word := some o } := by rw [← word]
      rw [same, (stepped o rfl).1] at step'
      cases step'
      obtain ⟨x, q, us, others⟩ := ih run rfl
      refine ⟨d ++ x, q, us, fun o' quoted => ?_⟩
      obtain ⟨step', start, bare, quoted'⟩ := stepped o' quoted
      have rest := others (f o') quoted'
      rw [start, bare, List.append_assoc] at rest
      rw [run_cons_of_ok step', rest]
      rfl

section

variable {field m m' value : List Char} {quoted : Option (List Char)}

/-- Of a word that begins here, plain characters can be replaced: all other tokens stay the same. -/
theorem exists_run_begin (ran : s.run index cs = .ok tokens) (none_ : s.word = none)
    (outside : s.quotation = .outside) (present : field ≠ [])
    (plain : ∀ c ∈ m, Word.IsPlain c) (plain' : ∀ c ∈ m', Word.IsPlain c)
    (ordered : tokens.Pairwise fun t u => t.index < u.index)
    (mem : .word index ⟨field ++ m ++ value, quoted⟩ ∈ tokens) :
    ∃ after us us', cs = field ++ m ++ after ∧
      tokens = .word index ⟨field ++ m ++ value, quoted⟩ :: us ∧
      s.run index (field ++ m' ++ after) = .ok us' ∧
      Token.SameWords (.word index ⟨field ++ m' ++ value, quoted⟩ :: us) us' := by
  have mem_field : .word index ⟨field ++ (m ++ value), quoted⟩ ∈ tokens := by
    rwa [← List.append_assoc]
  obtain ⟨_, brackets, rfl, toField⟩ := run_begin ran none_ outside present mem_field
  obtain ⟨after, _, text, _⟩ :=
    run_begin ran none_ outside (x := field ++ m) (by simp [present]) mem
  rw [List.append_assoc, List.append_cancel_left_eq] at text
  subst text
  have old := reads_plain s.groups brackets plain ⟨index, field.reverse, none⟩
    (index + Text.byteSize field)
  have new := reads_plain s.groups brackets plain' ⟨index, field.reverse, none⟩
    (index + Text.byteSize field)
  rw [foldl_push_bare] at old new
  rw [toField.run_append_nil, old.run_append_nil] at ran
  obtain ⟨x, q, us, others⟩ := run_other_word ran rfl
  -- No other token has this offset.
  have first := Except.ok.inj (ran.symm.trans (others _ rfl))
  have here : .word index ⟨(m.reverse ++ field.reverse).reverse ++ x, q⟩ ∈ tokens :=
    first ▸ List.mem_cons_self
  have same := eq_of_index_eq ordered here mem rfl
  simp only [List.reverse_append, List.reverse_reverse, Token.word.injEq, Word.mk.injEq,
    List.append_cancel_left_eq, true_and] at same
  obtain ⟨rfl, rfl⟩ := same
  obtain ⟨us', ran', alike⟩ :=
    exists_run_moved (others ⟨index, m'.reverse ++ field.reverse, none⟩ rfl)
      (index + Text.byteSize field + Text.byteSize m')
  refine ⟨after, us, us', (List.append_assoc ..).symm, by simpa using first, ?_,
    by simpa using alike⟩
  rw [List.append_assoc, toField.run_append_nil, new.run_append_nil, ran']

end

/-- A word with a blank after it is read before what comes then. -/
theorem run_word_blank {text : List Char} {w : Word} (reads : ReadsWord text w) :
    run ⟨none, .outside, 0, groups⟩ index (text ++ ' ' :: cs) =
      (run ⟨none, .outside, 0, groups⟩ (index + Text.byteSize text + ' '.utf8Size) cs).map
        (.word index w :: ·) := by
  obtain ⟨o, word, token⟩ := reads groups index
  have blank : step ⟨none, .outside, 0, groups⟩ (index + Text.byteSize text) ' ' =
      .ok (⟨none, .outside, 0, groups⟩, []) := rfl
  have delimits : Delimits ' ' := by decide
  rw [word.run_append_nil, run_delimited (by simp [delimits]), run_cons_of_ok blank, token]
  cases run ⟨none, .outside, 0, groups⟩ (index + Text.byteSize text + ' '.utf8Size) cs <;> rfl

/-- A word can get another one before it, with a blank between them, and plain characters in it can
be replaced there: all other tokens stay the same. -/
theorem exists_scan_preceded {filter : String} {field m m' value added : List Char} {v : Word}
    {quoted : Option (List Char)} (h : scan filter = .ok tokens) (present : field ≠ [])
    (plain : ∀ c ∈ m, Word.IsPlain c) (plain' : ∀ c ∈ m', Word.IsPlain c)
    (reads : ReadsWord added v) (mem : .word index ⟨field ++ m ++ value, quoted⟩ ∈ tokens) :
    ∃ before after ts us us', filter.toList = before ++ field ++ m ++ after ∧
      Text.byteSize before = index ∧
      tokens = ts ++ .word index ⟨field ++ m ++ value, quoted⟩ :: us ∧
      scan (String.ofList (before ++ added ++ ' ' :: field ++ m' ++ after)) =
        .ok (ts ++ .word index v :: us') ∧
      Token.SameWords (.word index ⟨field ++ m' ++ value, quoted⟩ :: us) us' := by
  have coherent : Scanner.start.Coherent := fun quoted => absurd rfl quoted
  have ordered := pairwise_scan h
  obtain ⟨before, rest, ts, us, s, text, rfl, read, begins, none_, outside, ran, mem'⟩ :=
    (exists_begin h coherent mem).resolve_left (by simp [Scanner.start])
  obtain ⟨after, us, us₁, rfl, rfl, ran₁, alike₁⟩ := exists_run_begin ran none_ outside present
    plain plain' (List.pairwise_append.mp ordered).2.1 mem'
  obtain ⟨us', ran', alike'⟩ :=
    exists_run_moved ran₁ (index + Text.byteSize added + ' '.utf8Size)
  have here := read.eq_of_no_word none_
  refine ⟨before, after, ts, us, us', by simp [text], by simp [begins], rfl, ?_,
    alike₁.trans alike'⟩
  have split : before ++ added ++ ' ' :: field ++ m' ++ after =
      before ++ (added ++ ' ' :: (field ++ m' ++ after)) := by simp
  rw [here] at read ran'
  rw [scan, String.toList_ofList, split, read.run_append, run_word_blank reads, ran']
  rfl

end Scanner

end EntityQuery
