import EntityQuery.Proofs.Filter.Scanning

/-!
# What a character does where it stands

A character of a filter means what its `Place` makes it mean: whether it stands in a quotation, and
in how many square brackets. Where it stands depends on the text before it alone (`Place.after`),
and what it does, on its place alone (`Place.effect`). **A step of the scanner is what its character
does where it stands** (`step_eq`); all that is said of runs goes through this equation.
-/

namespace EntityQuery

/-! ## Places in a text -/

/-- Where a character of a filter stands: in a quotation or not, and in how many square
brackets. -/
structure Place where
  quotation : Quotation
  brackets : Nat
deriving DecidableEq

namespace Place

/-- Outside all quotations and square brackets. -/
def outside : Place := ⟨.outside, 0⟩

/-- Where the character after this one stands. Square brackets are counted outside quotations only,
and never below zero. -/
def next (p : Place) (c : Char) : Place :=
  match p.quotation with
  | .outside =>
    if c = '"' then { p with quotation := .inside }
    else if c = '[' then { p with brackets := p.brackets + 1 }
    else if c = ']' then { p with brackets := p.brackets - 1 }
    else p
  | .inside =>
    if c = '\\' then { p with quotation := .escaped }
    else if c = '"' then { p with quotation := .outside }
    else p
  | .escaped => { p with quotation := .inside }

/-- Where the character after a text stands. -/
def after (cs : List Char) : Place := cs.foldl next outside

/-- What a character does to the word that is read and to the groups that are open. -/
inductive Effect where
  /-- The character becomes part of the word. -/
  | push
  /-- A quotation begins in the word. -/
  | quote
  /-- The mark of a quotation, which ends or escapes. -/
  | mark
  | blank
  | opening
  | closing

/-- What the character does here. -/
def effect (p : Place) (c : Char) : Effect :=
  match p.quotation with
  | .outside =>
    if c = '"' then .quote
    else if c = '[' ∨ c = ']' ∨ 0 < p.brackets then .push
    else if Text.isBlank c then .blank
    else if c = '(' then .opening
    else if c = ')' then .closing
    else .push
  | .inside => if c = '\\' ∨ c = '"' then .mark else .push
  | .escaped => .push

variable {p : Place} {c : Char}

theorem effect_of_quoted (quoted : p.quotation ≠ .outside) (c : Char) :
    p.effect c = .push ∨ p.effect c = .mark := by
  obtain ⟨quotation, brackets⟩ := p
  cases quotation with
  | outside => exact absurd rfl quoted
  | escaped => exact .inl rfl
  | inside => by_cases mark : c = '\\' ∨ c = '"' <;> simp [effect, mark]

theorem effect_ne_mark (outside : p.quotation = .outside) (c : Char) : p.effect c ≠ .mark := by
  unfold effect
  rw [outside]
  split_ifs <;> nofun

/-- Outside quotations it takes a quotation mark to begin one. -/
theorem outside_next (outside : p.quotation = .outside) (effect : p.effect c ≠ .quote) :
    (p.next c).quotation = .outside := by
  have other : c ≠ '"' := by
    rintro rfl
    simp [Place.effect, outside] at effect
  obtain ⟨quotation, brackets⟩ := p
  obtain rfl : quotation = .outside := outside
  simp only [next, other, if_false]
  split_ifs <;> rfl

end Place

namespace Scanner

variable {s next : Scanner} {index : Nat} {c : Char} {cs : List Char} {ts : List Token}

/-- Where the next character stands. -/
def place (s : Scanner) : Place := ⟨s.quotation, s.brackets⟩

/-- The scanner after a character, with what that has made of its word and its groups. -/
def moved (s : Scanner) (c : Char) (word : Option OpenWord) (groups : List Nat) : Scanner :=
  ⟨word, (s.place.next c).quotation, (s.place.next c).brackets, groups⟩

/-- The scanner after a character with the effect, and the tokens that end with it. -/
def perform (s : Scanner) (index : Nat) (c : Char) :
    Place.Effect → Except Error (Scanner × List Token)
  | .push => .ok (s.moved c (some ((s.wordAt index).push c)) s.groups, [])
  | .quote => .ok (s.moved c (some (s.wordAt index).quote) s.groups, [])
  | .mark => .ok (s.moved c s.word s.groups, [])
  | .blank => .ok (s.moved c none s.groups, s.flush)
  | .opening => .ok (s.moved c none (index :: s.groups), s.flush ++ [.opening index])
  | .closing =>
    match s.groups with
    | [] => .error (.unbalancedGroup index)
    | _ :: outer => .ok (s.moved c none outer, s.flush ++ [.closing index])

/-- A step is what its character does where it stands. -/
theorem step_eq (s : Scanner) (index : Nat) (c : Char) :
    s.step index c = s.perform index c (s.place.effect c) := by
  obtain ⟨word, quotation, brackets, groups⟩ := s
  cases quotation with
  | escaped => rfl
  | inside =>
    by_cases escape : c = '\\'
    · subst escape
      rfl
    by_cases quote : c = '"'
    · subst quote
      rfl
    simp [step, place, Place.effect, perform, moved, push, Place.next, escape, quote]
  | outside =>
    by_cases quote : c = '"'
    · subst quote
      rfl
    by_cases openList : c = '['
    · subst openList
      rfl
    by_cases closeList : c = ']'
    · subst closeList
      rfl
    -- No other character moves the place.
    have same (word' : Option OpenWord) (groups' : List Nat) :
        moved ⟨word, .outside, brackets, groups⟩ c word' groups' =
          ⟨word', .outside, brackets, groups'⟩ := by
      simp [moved, place, Place.next, quote, openList, closeList]
    by_cases within : 0 < brackets
    · simp [step, plainStep, place, Place.effect, perform, same, push, quote, openList, closeList,
        within]
    obtain rfl : brackets = 0 := by omega
    by_cases blank : Text.isBlank c = true
    · simp [step, plainStep, place, Place.effect, perform, same, quote, openList, closeList, blank]
    by_cases openGroup : c = '('
    · subst openGroup
      rfl
    by_cases closeGroup : c = ')'
    · subst closeGroup
      cases groups <;> rfl
    simp [step, plainStep, place, Place.effect, perform, same, push, quote, openList, closeList,
      blank, openGroup, closeGroup]

theorem run_cons_of_ok (h : s.step index c = .ok (next, ts)) :
    s.run index (c :: cs) = (next.run (index + c.utf8Size) cs).map (ts ++ ·) := by
  rw [run, h, ok_bind]
  show (next.run (index + c.utf8Size) cs >>= fun rest => pure (ts ++ rest)) = _
  cases next.run (index + c.utf8Size) cs <;> rfl

theorem exists_of_run_cons {tokens : List Token} (h : s.run index (c :: cs) = .ok tokens) :
    ∃ next ts us, s.step index c = .ok (next, ts) ∧
      next.run (index + c.utf8Size) cs = .ok us ∧ tokens = ts ++ us := by
  obtain ⟨⟨next, ts⟩, first, rest⟩ := bind_eq_ok.mp h
  obtain ⟨us, run, rest⟩ := bind_eq_ok.mp rest
  cases rest
  exact ⟨next, ts, us, first, run, rfl⟩

end Scanner

end EntityQuery
