import EntityQuery.Filter.Token
import EntityQuery.Proofs.Outcome

/-!
# Cutting a part of a filter

A part of a filter in which all quotations and square brackets are closed (`IsClosed`) is cut as it
is cut by itself (`reads_closed`): what stands before it only moves the offsets, and the parentheses
that are open around it stay open. So **a filter between parentheses becomes its own tokens between
those of the parentheses** (`reads_group`, `scan_or`).

`Reads` is a run of the scanner over a part of the text, with the tokens that end in it. Runs are
put together by `Reads.append`, and moved among more parentheses by `Reads.within`.
-/

namespace EntityQuery

/-! ## Closed texts -/

/-- Whether all quotations and square brackets are closed at the end of a text. -/
def Quotation.closes : Quotation → Nat → List Char → Bool
  | q, brackets, [] => q = .outside && brackets = 0
  | .outside, brackets, c :: s =>
    if c = '"' then closes .inside brackets s
    else if c = '[' then closes .outside (brackets + 1) s
    else if c = ']' then closes .outside (brackets - 1) s
    else closes .outside brackets s
  | .inside, brackets, c :: s =>
    if c = '\\' then closes .escaped brackets s
    else if c = '"' then closes .outside brackets s
    else closes .inside brackets s
  | .escaped, brackets, _ :: s => closes .inside brackets s

/-- The quotations and the square brackets of a filter are closed. -/
def IsClosed (filter : String) : Prop := Quotation.outside.closes 0 filter.toList = true

instance (filter : String) : Decidable (IsClosed filter) := inferInstanceAs (Decidable (_ = true))

/-! ## Further on in a filter -/

/-- The token at an offset that is `k` larger. -/
def Token.later (k : Nat) : Token → Token
  | opening index => opening (index + k)
  | closing index => closing (index + k)
  | word index w => word (index + k) w

/-- The tokens of a filter that stands `k` further on, between parentheses at the offsets. -/
def Token.grouped (first k last : Nat) (tokens : List Token) : List Token :=
  .opening first :: tokens.map (.later k) ++ [.closing last]

/-- The word at an offset that is `k` larger. -/
def OpenWord.later (k : Nat) (w : OpenWord) : OpenWord := { w with start := w.start + k }

namespace Scanner

variable {s s' next : Scanner} {index index' : Nat} {cs : List Char} {ts : List Token}

/-- The scanner at an offset that is `k` larger, with more parentheses open around it. -/
def within (k : Nat) (outer : List Nat) (s : Scanner) : Scanner :=
  { s with word := s.word.map (.later k), groups := s.groups.map (· + k) ++ outer }

variable {k : Nat} {outer : List Nat}

theorem flush_within : (s.within k outer).flush = s.flush.map (.later k) := by
  obtain ⟨word, _, _, _⟩ := s
  cases word <;> rfl

theorem wordAt_within : (s.within k outer).wordAt (index + k) = (s.wordAt index).later k := by
  obtain ⟨word, _, _, _⟩ := s
  cases word <;> rfl

theorem push_within {c : Char} :
    (s.within k outer).push (index + k) c = (s.push index c).within k outer := by
  have pushed (w : OpenWord) : (w.later k).push c = (w.push c).later k := by
    obtain ⟨_, _, quoted⟩ := w
    cases quoted <;> rfl
  unfold push
  rw [wordAt_within, pushed]
  rfl

theorem plainStep_within {c : Char} (h : s.plainStep index c = .ok (next, ts)) :
    (s.within k outer).plainStep (index + k) c = .ok (next.within k outer, ts.map (.later k)) := by
  have brackets : (s.within k outer).brackets = s.brackets := rfl
  unfold plainStep at h ⊢
  rw [push_within, wordAt_within, flush_within, brackets]
  split_ifs at h ⊢
  any_goals
    cases h
    rfl
  -- Only parentheses look at those that are open around them.
  · cases h
    simp [within, Token.later]
  · cases hgroups : s.groups with
    | nil =>
      rw [hgroups] at h
      cases h
    | cons =>
      rw [hgroups] at h
      cases h
      simp [within, hgroups, Token.later]

theorem step_within {c : Char} (h : s.step index c = .ok (next, ts)) :
    (s.within k outer).step (index + k) c = .ok (next.within k outer, ts.map (.later k)) := by
  unfold step at h ⊢
  rw [push_within, show (s.within k outer).quotation = s.quotation from rfl]
  split at h
  · exact plainStep_within h
  · split at h
    · next escape =>
      cases h
      exact if_pos escape
    next escape =>
    rw [if_neg escape]
    split at h
    · next quote =>
      cases h
      exact if_pos quote
    · next quote =>
      cases h
      exact if_neg quote
  · cases h
    rfl

/-! ## Reading a part -/

/-- From an offset on the scanner reads the characters, with the tokens that end with them. -/
inductive Reads : Scanner → Nat → List Char → List Token → Scanner → Nat → Prop
  | done (s : Scanner) (index : Nat) : Reads s index [] [] s index
  | step {s next s' : Scanner} {index index' : Nat} {c : Char} {cs : List Char}
      {ts us : List Token} (first : s.step index c = .ok (next, ts))
      (rest : Reads next (index + c.utf8Size) cs us s' index') :
      Reads s index (c :: cs) (ts ++ us) s' index'

theorem Reads.append {s₂ : Scanner} {index₂ : Nat} {cs' : List Char} {ts' : List Token}
    (first : Reads s index cs ts s' index') (rest : Reads s' index' cs' ts' s₂ index₂) :
    Reads s index (cs ++ cs') (ts ++ ts') s₂ index₂ := by
  induction first with
  | done => exact rest
  | step first _ ih =>
    rw [List.append_assoc]
    exact .step first (ih rest)

theorem run_eq_ok_iff {tokens : List Token} :
    s.run index cs = .ok tokens ↔
      ∃ ts us s' index',
        Reads s index cs ts s' index' ∧ s'.finish = .ok us ∧ tokens = ts ++ us := by
  constructor
  · intro h
    induction cs generalizing s index tokens with
    | nil => exact ⟨[], tokens, s, index, .done s index, h, rfl⟩
    | cons c cs ih =>
      obtain ⟨⟨next, ts⟩, first, h⟩ := bind_eq_ok.mp h
      obtain ⟨rest, hrest, h⟩ := bind_eq_ok.mp h
      cases h
      obtain ⟨us, vs, s', index', reads, finished, rfl⟩ := ih hrest
      exact ⟨ts ++ us, vs, s', index', .step first reads, finished, (List.append_assoc ..).symm⟩
  · rintro ⟨ts, us, s', index', reads, finished, rfl⟩
    induction reads with
    | done => exact finished
    | step first _ ih =>
      refine bind_eq_ok.mpr ⟨_, first, bind_eq_ok.mpr ⟨_, ih finished, ?_⟩⟩
      rw [List.append_assoc]
      rfl

theorem Reads.within (h : Reads s index cs ts s' index') (k : Nat) (outer : List Nat) :
    Reads (s.within k outer) (index + k) cs (ts.map (.later k)) (s'.within k outer)
      (index' + k) := by
  induction h with
  | done => exact .done _ _
  | step first _ ih =>
    rw [List.map_append]
    refine .step (step_within first) ?_
    rwa [Nat.add_right_comm]

theorem closes_step {c : Char} (h : s.step index c = .ok (next, ts))
    (closed : s.quotation.closes s.brackets (c :: cs) = true) :
    next.quotation.closes next.brackets cs = true := by
  obtain ⟨word, quotation, brackets, groups⟩ := s
  cases quotation with
  | outside =>
    simp only [step, plainStep, Quotation.closes] at h closed
    split_ifs at h closed
    any_goals
      cases h
      exact closed
    · cases groups with
      | nil => cases h
      | cons =>
        cases h
        exact closed
  | inside =>
    simp only [step, Quotation.closes] at h closed
    split_ifs at h closed
    all_goals
      cases h
      exact closed
  | escaped =>
    cases h
    exact closed

/-- What is closed is read to its end outside quotations and brackets. -/
theorem Reads.closed (h : Reads s index cs ts s' index')
    (closed : s.quotation.closes s.brackets cs = true) :
    s'.quotation = .outside ∧ s'.brackets = 0 := by
  induction h with
  | done => simpa [Quotation.closes] using closed
  | step first _ ih => exact ih (closes_step first closed)

/-- A closed filter is read further on in another as it is read by itself, but for the word with
which it may end. -/
theorem reads_closed {filter : String} {tokens : List Token} (h : scan filter = .ok tokens)
    (closed : IsClosed filter) (k : Nat) (outer : List Nat) :
    ∃ word ts index', Reads ⟨none, .outside, 0, outer⟩ k filter.toList ts
        ⟨word, .outside, 0, outer⟩ index' ∧
      ts ++ flush ⟨word, .outside, 0, outer⟩ = tokens.map (.later k) := by
  obtain ⟨ts, us, s', index', reads, finished, rfl⟩ := run_eq_ok_iff.mp h
  obtain ⟨quotation, brackets⟩ := reads.closed closed
  obtain ⟨word, _, _, groups⟩ := s'
  cases quotation
  cases brackets
  have inner := reads.within k outer
  rw [Nat.zero_add] at inner
  cases groups with
  | cons first rest =>
    unfold finish at finished
    rw [List.getLast?_cons] at finished
    cases finished
  | nil =>
    cases finished
    refine ⟨word.map (.later k), _, _, inner, ?_⟩
    rw [List.map_append, ← @flush_within ⟨word, .outside, 0, []⟩ k outer]
    rfl

/-! ## Filters between parentheses -/

/-- A closed filter between parentheses leaves the scanner as it was at the start. -/
theorem reads_group {filter : String} {tokens : List Token} (h : scan filter = .ok tokens)
    (closed : IsClosed filter) (index : Nat) :
    ∃ last, Reads start index ('(' :: filter.toList ++ [')'])
      (Token.grouped index (index + 1) last tokens) start (last + 1) := by
  obtain ⟨word, ts, last, inner, flushed⟩ := reads_closed h closed (index + 1) [index]
  have opens : start.step index '(' = .ok (⟨none, .outside, 0, [index]⟩, [.opening index]) := rfl
  have closes : Scanner.step ⟨word, .outside, 0, [index]⟩ last ')' =
      .ok (start, flush ⟨word, .outside, 0, [index]⟩ ++ [.closing last]) := rfl
  have whole := Reads.step opens (inner.append (.step closes (.done start _)))
  refine ⟨last, ?_⟩
  rw [Token.grouped, ← flushed]
  simpa [show ')'.utf8Size = 1 from rfl] using whole

/-- Two closed filters between parentheses with `or` between them. -/
theorem scan_or {left right : String} {ts us : List Token} (hleft : scan left = .ok ts)
    (hright : scan right = .ok us) (closedLeft : IsClosed left) (closedRight : IsClosed right) :
    ∃ first last, scan ("(" ++ left ++ ") or (" ++ right ++ ")") =
      .ok (Token.grouped 0 1 first ts ++ .word (first + 2) (.plain "or") ::
        Token.grouped (first + 5) (first + 6) last us) := by
  obtain ⟨first, readsLeft⟩ := reads_group hleft closedLeft 0
  obtain ⟨last, readsRight⟩ := reads_group hright closedRight (first + 5)
  refine ⟨first, last, run_eq_ok_iff.mpr
    ⟨_, [], start, last + 1, ?_, rfl, (List.append_nil _).symm⟩⟩
  have between : Reads start (first + 1) " or ".toList [.word (first + 2) (.plain "or")] start
      (first + 5) := by
    have blank : start.step (first + 1) ' ' = .ok (start, []) := rfl
    have o : start.step (first + 2) 'o' =
        .ok (⟨some ⟨first + 2, ['o'], none⟩, .outside, 0, []⟩, []) := rfl
    have r : Scanner.step ⟨some ⟨first + 2, ['o'], none⟩, .outside, 0, []⟩ (first + 3) 'r' =
        .ok (⟨some ⟨first + 2, ['r', 'o'], none⟩, .outside, 0, []⟩, []) := rfl
    have blank' : Scanner.step ⟨some ⟨first + 2, ['r', 'o'], none⟩, .outside, 0, []⟩
        (first + 4) ' ' = .ok (start, [.word (first + 2) (.plain "or")]) := rfl
    exact .step blank (.step o (.step r (.step blank' (.done start (first + 5)))))
  have whole := (readsLeft.append between).append readsRight
  have text : ("(" ++ left ++ ") or (" ++ right ++ ")").toList =
      '(' :: left.toList ++ [')'] ++ " or ".toList ++ ('(' :: right.toList ++ [')']) := by
    simp
  rw [text]
  simpa using whole

end Scanner

end EntityQuery
