import EntityQuery.Proofs.Filter.Matching
import EntityQuery.Proofs.Filter.Places

/-!
# The parentheses of a filter

Which parentheses of a text count can be said without words and tokens: those outside quotations and
square brackets (`parentheses`). **A filter is cut exactly if these match** (`succeeds_scan_iff`);
otherwise the offset reported is that of the first one without a partner (`scan_eq_error_iff`). When
a filter is cut, its parentheses are the same as those of its tokens (`filter_scan`), and all tokens
stand in the order of the text (`pairwise_scan`).

All that can happen in a step is listed once (`step_cases`), and both parts are carried through a
run from there: the groups that are open (`run_groups`), and where the tokens begin
(`index_of_mem_run`).
-/

namespace EntityQuery

/-! ## Parentheses that count -/

/-- The parenthesis that the character is where it stands, if it is one that counts. -/
def Token.parenthesis? (p : Place) (index : Nat) (c : Char) : Option Token :=
  if p = .outside then
    if c = '(' then some (.opening index) else if c = ')' then some (.closing index) else none
  else none

theorem Token.parenthesis?_eq (p : Place) (index : Nat) (c : Char) :
    parenthesis? p index c =
      match p.effect c with
      | .opening => some (.opening index)
      | .closing => some (.closing index)
      | _ => none := by
  obtain ⟨quotation, brackets⟩ := p
  cases quotation with
  | escaped => simp [parenthesis?, Place.outside, Place.effect]
  | inside =>
    by_cases mark : c = '\\' ∨ c = '"' <;>
      simp [parenthesis?, Place.outside, Place.effect, mark]
  | outside =>
    by_cases within : 0 < brackets
    · by_cases quote : c = '"' <;>
        simp [parenthesis?, Place.outside, Place.effect, within, within.ne', quote]
    obtain rfl : brackets = 0 := by omega
    by_cases openGroup : c = '('
    · subst openGroup
      rfl
    by_cases closeGroup : c = ')'
    · subst closeGroup
      rfl
    simp only [parenthesis?, Place.effect, openGroup, closeGroup, if_false, ite_self]
    split_ifs <;> rfl

theorem Token.parenthesis?_eq_opening_iff {p : Place} {index i : Nat} {c : Char} :
    parenthesis? p index c = some (.opening i) ↔ p = .outside ∧ c = '(' ∧ index = i := by
  by_cases h : c = '('
  · simp [parenthesis?, h]
  · simp [parenthesis?, h]

theorem Token.parenthesis?_eq_closing_iff {p : Place} {index i : Nat} {c : Char} :
    parenthesis? p index c = some (.closing i) ↔ p = .outside ∧ c = ')' ∧ index = i := by
  by_cases h : c = '('
  · simp [parenthesis?, h]
  · simp [parenthesis?, h]

/-- The parentheses that count in the rest of a text, from a place at an offset on. -/
def parenthesesFrom (p : Place) (index : Nat) : List Char → List Token
  | [] => []
  | c :: cs =>
    (Token.parenthesis? p index c).toList ++ parenthesesFrom (p.next c) (index + c.utf8Size) cs

/-- The parentheses of a text that stand outside quotations and square brackets. -/
def parentheses (text : List Char) : List Token := parenthesesFrom .outside 0 text

/-- A parenthesis that counts stands at its offset, and in a place where it counts. -/
theorem mem_parenthesesFrom {p : Place} {index : Nat} {cs : List Char} {t : Token} :
    t ∈ parenthesesFrom p index cs ↔ ∃ before c after, cs = before ++ c :: after ∧
      Token.parenthesis? (before.foldl Place.next p) (index + Text.byteSize before) c = some t := by
  induction cs generalizing p index with
  | nil => simp [parenthesesFrom]
  | cons d cs ih =>
    rw [parenthesesFrom, List.mem_append, ih, Option.mem_toList]
    constructor
    · rintro (here | ⟨before, c, after, rfl, later⟩)
      · exact ⟨[], d, cs, rfl, here⟩
      · exact ⟨d :: before, c, after, rfl, by simpa [Nat.add_assoc] using later⟩
    · rintro ⟨before, c, after, split, found⟩
      rcases List.cons_eq_append_iff.mp split with ⟨rfl, same⟩ | ⟨before, rfl, rfl⟩
      · cases same
        exact .inl found
      · exact .inr ⟨before, c, after, rfl, by simpa [Nat.add_assoc] using found⟩

/-- Whether the token is a parenthesis. -/
def Token.isParenthesis : Token → Bool
  | word _ _ => false
  | _ => true

namespace Scanner

variable {s next : Scanner} {index : Nat} {c : Char} {cs : List Char} {ts us : List Token}

/-! ## One step -/

/-- What a step has done to the word that is read and to the groups that are open, with the tokens
that have ended with its character. -/
inductive Step (s : Scanner) (index : Nat) (c : Char) (next : Scanner) (ts : List Token) : Prop
  | pushed (effect : s.place.effect c = .push)
      (word : next.word = some ((s.wordAt index).push c)) (groups : next.groups = s.groups)
      (tokens : ts = [])
  | quoted (effect : s.place.effect c = .quote) (word : next.word = some (s.wordAt index).quote)
      (groups : next.groups = s.groups) (tokens : ts = [])
  | marked (effect : s.place.effect c = .mark) (word : next.word = s.word)
      (groups : next.groups = s.groups) (tokens : ts = [])
  /-- The word has ended, perhaps with a parenthesis. -/
  | ended (effect : s.place.effect c ∉ [.push, .quote, .mark]) (word : next.word = none)
      (groups : Token.groupsAfter s.groups (Token.parenthesis? s.place index c).toList =
        .ok next.groups)
      (tokens : ts = s.flush ++ (Token.parenthesis? s.place index c).toList)

/-- All that can happen in a step: the place moves on, and the step is of one of the kinds; or a
closing parenthesis finds no group open. -/
theorem step_cases (s : Scanner) (index : Nat) (c : Char) :
    (∃ next ts, s.step index c = .ok (next, ts) ∧ next.place = s.place.next c ∧
      Step s index c next ts) ∨
    (s.step index c = .error (.unbalancedGroup index) ∧ s.groups = [] ∧
      Token.parenthesis? s.place index c = some (.closing index)) := by
  have group := Token.parenthesis?_eq s.place index c
  rw [step_eq]
  cases effect : s.place.effect c with
  | push => exact .inl ⟨_, _, rfl, rfl, .pushed effect rfl rfl rfl⟩
  | quote => exact .inl ⟨_, _, rfl, rfl, .quoted effect rfl rfl rfl⟩
  | mark => exact .inl ⟨_, _, rfl, rfl, .marked effect rfl rfl rfl⟩
  | blank =>
    rw [effect] at group
    exact .inl ⟨_, _, rfl, rfl,
      .ended (by simp [effect]) rfl (by rw [group]; rfl) (by simp [group])⟩
  | opening =>
    rw [effect] at group
    exact .inl ⟨_, _, rfl, rfl,
      .ended (by simp [effect]) rfl (by rw [group]; rfl) (by simp [group])⟩
  | closing =>
    rw [effect] at group
    cases groups : s.groups with
    | nil => exact .inr ⟨by simp [perform, groups], rfl, group⟩
    | cons first outer =>
      refine .inl ⟨s.moved c none outer, s.flush ++ [.closing index], by simp [perform, groups],
        rfl, .ended (by simp [effect]) rfl ?_ ?_⟩
      · rw [group, groups]
        rfl
      · simp [group]

theorem step_of_ok (h : s.step index c = .ok (next, ts)) :
    next.place = s.place.next c ∧ Step s index c next ts := by
  rcases step_cases s index c with ⟨next', ts', stepped, place, kind⟩ | ⟨failed, _⟩
  · cases stepped.symm.trans h
    exact ⟨place, kind⟩
  · cases failed.symm.trans h

/-! ## Groups -/

theorem filter_flush (s : Scanner) : s.flush.filter Token.isParenthesis = [] := by
  obtain ⟨word, _, _, _⟩ := s
  cases word <;> rfl

theorem isParenthesis_of_parenthesis? {p : Place} {t : Token}
    (h : Token.parenthesis? p index c = some t) : t.isParenthesis = true ∧ t.index = index := by
  unfold Token.parenthesis? at h
  split_ifs at h
  all_goals
    cases h
    exact ⟨rfl, rfl⟩

theorem Step.groups (h : Step s index c next ts) :
    Token.groupsAfter s.groups (Token.parenthesis? s.place index c).toList = .ok next.groups ∧
      ts.filter Token.isParenthesis = (Token.parenthesis? s.place index c).toList := by
  have group := Token.parenthesis?_eq s.place index c
  rcases h with ⟨effect, _, groups, rfl⟩ | ⟨effect, _, groups, rfl⟩ | ⟨effect, _, groups, rfl⟩ |
    ⟨_, _, groups, rfl⟩
  case ended =>
    refine ⟨groups, ?_⟩
    rw [List.filter_append, filter_flush, List.nil_append, List.filter_eq_self]
    intro t ht
    exact (isParenthesis_of_parenthesis? (Option.mem_toList.mp ht)).1
  all_goals
    rw [effect] at group
    rw [group, groups]
    exact ⟨rfl, rfl⟩

/-- What a run comes to is what reading the parentheses with a stack comes to. -/
theorem run_groups (s : Scanner) (index : Nat) (cs : List Char) :
    (∀ tokens, s.run index cs = .ok tokens →
      Token.groupsAfter s.groups (parenthesesFrom s.place index cs) = .ok [] ∧
        tokens.filter Token.isParenthesis = parenthesesFrom s.place index cs) ∧
    ∀ e, s.run index cs = .error e → ∃ i, e = .unbalancedGroup i ∧
      (Token.groupsAfter s.groups (parenthesesFrom s.place index cs) = .error i ∨
        ∃ groups, Token.groupsAfter s.groups (parenthesesFrom s.place index cs) = .ok groups ∧
          groups.getLast? = some i) := by
  induction cs generalizing s index with
  | nil =>
    unfold run finish
    cases last : s.groups.getLast? with
    | none =>
      refine ⟨fun tokens h => ?_, fun e h => by cases h⟩
      cases h
      exact ⟨congrArg _ (List.getLast?_eq_none_iff.mp last), filter_flush s⟩
    | some i =>
      refine ⟨fun tokens h => (by cases h), fun e h => ?_⟩
      cases h
      exact ⟨i, rfl, .inr ⟨s.groups, rfl, last⟩⟩
  | cons c cs ih =>
    unfold parenthesesFrom
    rcases step_cases s index c with ⟨next, ts, stepped, place, kind⟩ | ⟨failed, groups, group⟩
    · obtain ⟨after, marks⟩ := kind.groups
      obtain ⟨succeeds, fails⟩ := ih next (index + c.utf8Size)
      rw [place] at succeeds fails
      rw [run_cons_of_ok stepped, Token.groupsAfter_append, after, ok_bind]
      constructor
      · intro tokens h
        obtain ⟨rest, run, rfl⟩ := map_eq_ok.mp h
        obtain ⟨read, same⟩ := succeeds rest run
        exact ⟨read, by rw [List.filter_append, marks, same]⟩
      · intro e h
        cases run : next.run (index + c.utf8Size) cs with
        | ok rest =>
          rw [run] at h
          cases h
        | error e' =>
          rw [run] at h
          cases h
          exact fails e run
    · rw [run, failed, groups, group]
      refine ⟨fun tokens h => (by cases h), fun e h => ?_⟩
      cases h
      exact ⟨index, rfl, .inl rfl⟩

/-! ## The order of the tokens -/

theorem mem_flush {t : Token} (h : t ∈ s.flush) : ∃ o, s.word = some o ∧ t = o.token := by
  obtain ⟨o, word, rfl⟩ := Option.map_eq_some_iff.mp (Option.mem_toList.mp h)
  exact ⟨o, word, rfl⟩

/-- The tokens that end with a character are the word before it and perhaps a parenthesis, and then
no word is left. -/
theorem Step.ends (h : Step s index c next ts) :
    (ts = [] ∧ ∀ o, next.word = some o → o.start = (s.wordAt index).start) ∨
      (next.word = none ∧
        ∃ us, ts = s.flush ++ us ∧ us.length ≤ 1 ∧ ∀ t ∈ us, t.index = index) := by
  rcases h with ⟨_, word, _, rfl⟩ | ⟨_, word, _, rfl⟩ | ⟨_, word, _, rfl⟩ | ⟨_, word, _, rfl⟩
  · refine .inl ⟨rfl, fun o h => ?_⟩
    cases word.symm.trans h
    cases hq : (s.wordAt index).quoted <;> simp [OpenWord.push, hq]
  · refine .inl ⟨rfl, fun o h => ?_⟩
    cases word.symm.trans h
    rfl
  · exact .inl ⟨rfl, fun o h => by simp [wordAt, word.symm.trans h]⟩
  · refine .inr ⟨word, _, rfl, ?_, fun t ht => ?_⟩
    · cases Token.parenthesis? s.place index c <;> simp
    · exact (isParenthesis_of_parenthesis? (Option.mem_toList.mp ht)).2

/-- A token of the rest of a filter is the word that has been begun, or begins later. -/
theorem index_of_mem_run {tokens : List Token} (h : s.run index cs = .ok tokens) {t : Token}
    (ht : t ∈ tokens) : (∃ o, s.word = some o ∧ t.index = o.start) ∨ index ≤ t.index := by
  induction cs generalizing s index tokens with
  | nil =>
    unfold run finish at h
    split at h
    · cases h
    · cases h
      obtain ⟨o, word, rfl⟩ := mem_flush ht
      exact .inl ⟨o, word, rfl⟩
  | cons c cs ih =>
    obtain ⟨next, ts, us, stepped, run, rfl⟩ := exists_of_run_cons h
    obtain ⟨_, kind⟩ := step_of_ok stepped
    have later : index ≤ index + c.utf8Size := Nat.le_add_right ..
    rcases kind.ends with ⟨rfl, same⟩ | ⟨none_, marks, rfl, _, here⟩
    · rcases ih run ht with ⟨o, word, begun⟩ | after
      · have start := same o word
        cases hword : s.word with
        | none =>
          right
          rw [begun, start, wordAt, hword]
          exact Nat.le_refl _
        | some o' =>
          left
          refine ⟨o', rfl, ?_⟩
          rw [begun, start, wordAt, hword]
          rfl
      · exact .inr (later.trans after)
    · rcases List.mem_append.mp ht with ht | ht
      · rcases List.mem_append.mp ht with ht | ht
        · obtain ⟨o, word, rfl⟩ := mem_flush ht
          exact .inl ⟨o, word, rfl⟩
        · exact .inr (here t ht).ge
      · rcases ih run ht with ⟨o, word, _⟩ | after
        · rw [none_] at word
          cases word
        · exact .inr (later.trans after)

/-- The word that has been begun starts before the offset. -/
def Begun (s : Scanner) (index : Nat) : Prop := ∀ o, s.word = some o → o.start < index

theorem Begun.step (h : s.Begun index) (stepped : s.step index c = .ok (next, ts)) :
    next.Begun (index + c.utf8Size) := by
  intro o word
  have size := c.utf8Size_pos
  rcases (step_of_ok stepped).2.ends with ⟨rfl, same⟩ | ⟨none_, _⟩
  · rw [same o word]
    cases hword : s.word with
    | none =>
      rw [wordAt, hword]
      exact Nat.lt_add_of_pos_right size
    | some o' =>
      rw [wordAt, hword]
      exact (h o' hword).trans (Nat.lt_add_of_pos_right size)
  · rw [none_] at word
    cases word

/-- The tokens that end with a character stand in the order of the text. -/
theorem pairwise_ended (begun : s.Begun index) (short : us.length ≤ 1)
    (here : ∀ t ∈ us, t.index = index) :
    (s.flush ++ us).Pairwise fun t u => t.index < u.index := by
  refine List.pairwise_append.mpr ⟨?_, ?_, ?_⟩
  · unfold flush
    cases s.word <;> simp
  · match us, short with
    | [], _ => exact .nil
    | [t], _ => exact List.pairwise_singleton ..
  · intro t ht u hu
    obtain ⟨o, word, rfl⟩ := mem_flush ht
    rw [here u hu]
    exact begun o word

/-- The tokens stand in the order of the text. -/
theorem pairwise_run {tokens : List Token} (h : s.run index cs = .ok tokens)
    (begun : s.Begun index) : tokens.Pairwise fun t u => t.index < u.index := by
  induction cs generalizing s index tokens with
  | nil =>
    unfold run finish at h
    split at h
    · cases h
    · cases h
      unfold flush
      cases s.word <;> simp
  | cons c cs ih =>
    obtain ⟨next, ts, us, stepped, run, rfl⟩ := exists_of_run_cons h
    have rest := ih run (begun.step stepped)
    rcases (step_of_ok stepped).2.ends with ⟨rfl, _⟩ | ⟨none_, marks, rfl, short, here⟩
    · exact rest
    · refine List.pairwise_append.mpr ⟨pairwise_ended begun short here, rest, fun t ht u hu => ?_⟩
      have size := c.utf8Size_pos
      have early : t.index ≤ index := by
        rcases List.mem_append.mp ht with ht | ht
        · obtain ⟨o, word, rfl⟩ := mem_flush ht
          exact (begun o word).le
        · exact (here t ht).le
      have late : index + c.utf8Size ≤ u.index := by
        rcases index_of_mem_run run hu with ⟨o, word, _⟩ | after
        · rw [none_] at word
          cases word
        · exact after
      omega

end Scanner

/-- A filter is cut exactly if its parentheses are balanced. -/
theorem succeeds_scan_iff {text : String} :
    Succeeds (scan text) ↔ Token.Balanced (parentheses text.toList) := by
  obtain ⟨succeeds, fails⟩ := Scanner.run_groups .start 0 text.toList
  constructor
  · rintro ⟨tokens, h⟩
    exact Token.groupsAfter_eq_nil_iff.mp (succeeds tokens h).1
  · intro balanced
    cases h : scan text with
    | ok tokens => exact succeeds_ok tokens
    | error e =>
      obtain ⟨index, _, ends⟩ := fails e h
      exact absurd (Token.firstAlone_iff.mpr ends) balanced.not_firstAlone

/-- A filter that is not cut has a parenthesis without a partner, and the error is the offset of the
first such parenthesis. -/
theorem scan_eq_error_iff {text : String} {e : Error} : scan text = .error e ↔
    ∃ index, e = .unbalancedGroup index ∧ Token.FirstAlone (parentheses text.toList) index := by
  have fails := (Scanner.run_groups .start 0 text.toList).2
  constructor
  · intro h
    obtain ⟨index, rfl, ends⟩ := fails e h
    exact ⟨index, rfl, Token.firstAlone_iff.mpr ends⟩
  · rintro ⟨index, rfl, alone⟩
    cases h : scan text with
    | ok tokens => exact absurd alone (succeeds_scan_iff.mp ⟨tokens, h⟩).not_firstAlone
    | error e' =>
      obtain ⟨index', rfl, ends⟩ := fails e' h
      rw [(Token.firstAlone_iff.mpr ends).unique alone]

theorem Token.groupsAfter_filter (groups : List Nat) (ts : List Token) :
    groupsAfter groups (ts.filter isParenthesis) = groupsAfter groups ts := by
  induction ts generalizing groups with
  | nil => rfl
  | cons t ts ih =>
    cases t with
    | opening index => exact ih (index :: groups)
    | word => exact ih groups
    | closing index =>
      cases groups with
      | nil => rfl
      | cons first outer => exact ih outer

section

variable {text : String} {tokens : List Token}

/-- The parentheses among the tokens of a filter are those of its text. -/
theorem filter_scan (h : scan text = .ok tokens) :
    tokens.filter Token.isParenthesis = parentheses text.toList :=
  ((Scanner.run_groups .start 0 text.toList).1 tokens h).2

/-- The tokens of a filter are balanced. -/
theorem balanced_of_scan (h : scan text = .ok tokens) : Token.Balanced tokens := by
  have read := ((Scanner.run_groups .start 0 text.toList).1 tokens h).1
  have same : Token.groupsAfter [] (parentheses text.toList) = .ok [] := read
  rw [← filter_scan h, Token.groupsAfter_filter] at same
  exact Token.groupsAfter_eq_nil_iff.mp same

/-- The tokens of a filter stand in the order of the text. -/
theorem pairwise_scan (h : scan text = .ok tokens) :
    tokens.Pairwise fun t u => t.index < u.index :=
  Scanner.pairwise_run h (by simp [Scanner.Begun, Scanner.start])

/-- A parenthesis among the tokens of a filter is a parenthesis of its text at that offset, outside
quotations and square brackets. -/
theorem mem_scan_iff (h : scan text = .ok tokens) {t : Token} (parenthesis : t.isParenthesis) :
    t ∈ tokens ↔ ∃ before c after, text.toList = before ++ c :: after ∧
      Token.parenthesis? (Place.after before) (Text.byteSize before) c = some t := by
  have kept : t ∈ tokens ↔ t ∈ tokens.filter Token.isParenthesis := by
    rw [List.mem_filter, and_iff_left parenthesis]
  rw [kept, filter_scan h, parentheses, mem_parenthesesFrom]
  simp only [Nat.zero_add]
  rfl

theorem opening_mem_scan_iff (h : scan text = .ok tokens) {index : Nat} :
    .opening index ∈ tokens ↔ ∃ before after, text.toList = before ++ '(' :: after ∧
      Text.byteSize before = index ∧ Place.after before = .outside := by
  rw [mem_scan_iff h rfl]
  simp only [Token.parenthesis?_eq_opening_iff]
  constructor
  · rintro ⟨before, c, after, split, outside, rfl, here⟩
    exact ⟨before, after, split, here, outside⟩
  · rintro ⟨before, after, split, here, outside⟩
    exact ⟨before, '(', after, split, outside, rfl, here⟩

theorem closing_mem_scan_iff (h : scan text = .ok tokens) {index : Nat} :
    .closing index ∈ tokens ↔ ∃ before after, text.toList = before ++ ')' :: after ∧
      Text.byteSize before = index ∧ Place.after before = .outside := by
  rw [mem_scan_iff h rfl]
  simp only [Token.parenthesis?_eq_closing_iff]
  constructor
  · rintro ⟨before, c, after, split, outside, rfl, here⟩
    exact ⟨before, after, split, here, outside⟩
  · rintro ⟨before, after, split, here, outside⟩
    exact ⟨before, ')', after, split, outside, rfl, here⟩

end

end EntityQuery
