import EntityQuery.Proofs.Filter.Typing
import EntityQuery.Sql.Statement

/-!
# Placeholders

The placeholders in the text of a statement are numbered in the order in which they stand there, and
the values are sent in that order. Fragments keep the two together: a fragment that `Sends` given
constants has a placeholder for each of them, in their order, and no dollar sign anywhere else.
**Its placeholders are then numbered from left to right, one for each value**
(`placeholders_textFrom`).

The placeholders of a text are found in the text itself (`placeholders`), as the digits after a
dollar sign. So texts around fragments must not begin with digits and have no dollar signs
(`Inert`); every text that a statement is made of is such a text.
-/

namespace EntityQuery

/-! ## Constants -/

/-- Whether a value is sent for the operand: for a literal, and for a list that is not empty. -/
def Operand.isConstant : Operand → Bool
  | literal _ => true
  | list vs => !vs.isEmpty
  | attr _ | aggregate _ _ | none => false

/-- The operand with the operator that it stands beside, if a value is sent for it. -/
def Operand.constants (op : Operator) (o : Operand) : List (Operator × Operand) :=
  if o.isConstant then [(op, o)] else []

/-- The constants of a comparison, from left to right. -/
def Comparison.constants (c : Comparison) : List (Operator × Operand) :=
  c.left.constants c.operator ++ c.right.constants c.operator

/-- The constants of a predicate, from left to right. -/
def Predicate.constants (p : Predicate) : List (Operator × Operand) :=
  p.leaves.flatMap Comparison.constants

theorem Predicate.constants_leaf (c : Comparison) : constants (.leaf c) = c.constants :=
  List.flatMap_singleton _ c

theorem Predicate.constants_and (p q : Predicate) :
    constants (.and p q) = p.constants ++ q.constants := List.flatMap_append

theorem Predicate.constants_or (p q : Predicate) :
    constants (.or p q) = p.constants ++ q.constants := List.flatMap_append

theorem Operand.HasType.not_isConstant {s : Schema} {root : Entity} {joins : Joins} {o : Operand}
    {type : ScalarType} (h : o.HasType s root joins type) : o.isConstant = false := by
  cases h <;> rfl

theorem Operand.constants_of_not {op : Operator} {o : Operand} (h : o.isConstant = false) :
    o.constants op = [] := by
  rw [constants, if_neg (by simp [h])]

theorem Operand.FitsRight.ne_nil {s : Schema} {root : Entity} {joins : Joins} {o : Operand}
    {type : ScalarType} {op : Operator} (h : o.FitsRight s root joins type op)
    (notIn : op ≠ .isIn) : o ≠ .list [] := by
  rintro rfl
  cases h with
  | list => exact notIn rfl
  | read _ _ read => cases read

namespace Sql

/-- The value is how a constant is sent beside a statement: a literal by itself or, for an operator
that looks for a text, as its pattern, and a list as an array of its type. -/
inductive Encodes : Operator × Operand → Bind → Prop where
  | literal {op : Operator} (v : Value) (noPattern : op.isPattern = false) :
      Encodes (op, .literal v) (.scalar v)
  | pattern {op : Operator} (needle : String) (isPattern : op.isPattern = true) :
      Encodes (op, .literal (.text needle)) (.scalar (.text (literalPattern op needle)))
  | list {op : Operator} {type : ScalarType} {vs : List Value}
      (types : ∀ v ∈ vs, v.type? = some type) : Encodes (op, .list vs) (.array type vs)

/-! ## Texts -/

/-- The digits after each dollar sign of a text, from left to right. -/
def placeholders : List Char → List (List Char)
  | [] => []
  | c :: s =>
    if c = '$' then s.takeWhile Char.isDigit :: placeholders s else placeholders s

/-- There is no dollar sign in the text. -/
def Quiet (s : String) : Prop := '$' ∉ s.toList

/-- The text begins with a character that is no digit. -/
def Opens (s : String) : Prop := (s.toList.head?.any fun c => !c.isDigit) = true

/-- The text adds no placeholder to those before it and after it, nor digits to one before it. -/
structure Inert (s : String) : Prop where
  quiet : Quiet s
  opens : s = "" ∨ Opens s

instance (s : String) : Decidable (Quiet s) := inferInstanceAs (Decidable (_ ∉ _))

instance (s : String) : Decidable (Opens s) := inferInstanceAs (Decidable (_ = true))

theorem quiet_append {a b : String} : Quiet (a ++ b) ↔ Quiet a ∧ Quiet b := by
  unfold Quiet
  rw [String.toList_append, List.mem_append, not_or]

theorem Opens.append {a : String} (h : Opens a) (b : String) : Opens (a ++ b) := by
  unfold Opens at h ⊢
  rw [String.toList_append]
  cases ha : a.toList with
  | nil => simp [ha] at h
  | cons c s => simpa [ha] using h

theorem quiet_digits (n : Nat) : Quiet (String.ofList (Decimal.text n)) := by
  unfold Quiet
  rw [String.toList_ofList]
  intro mem
  exact absurd (Decimal.isDigit_of_mem_text mem) (by decide)

theorem quiet_commaText {texts : List String} (h : ∀ t ∈ texts, Quiet t) :
    Quiet (commaText texts) := by
  unfold commaText
  induction texts with
  | nil => decide
  | cons t rest ih =>
    obtain ⟨ht, hrest⟩ := List.forall_mem_cons.mp h
    cases rest with
    | nil => simpa using ht
    | cons next rest =>
      rw [String.intercalate_cons_cons]
      exact quiet_append.mpr ⟨quiet_append.mpr ⟨ht, by decide⟩, ih hrest⟩

theorem quiet_join {texts : List String} (h : ∀ t ∈ texts, Quiet t) :
    Quiet (String.join texts) := by
  unfold Quiet
  rw [String.toList_join]
  intro mem
  obtain ⟨t, ht, mem⟩ := List.mem_flatMap.mp mem
  exact h t ht mem

theorem quiet_quoteName {name : String} (h : Quiet name) : Quiet (quoteName name) := by
  unfold Quiet at h ⊢
  simp only [quoteName, String.toList_ofList, List.mem_cons, List.mem_append, List.mem_flatMap,
    List.not_mem_nil, or_false, List.cons_append, not_or]
  refine ⟨by decide, ?_, by decide⟩
  rintro ⟨c, hc, mem⟩
  split at mem
  · exact absurd mem (by decide)
  · rw [List.mem_singleton.mp mem] at h
    exact h hc

theorem plain_alias (row : Alias) : Quiet row.text ∧ Opens row.text := by
  cases row with
  | root | link => exact ⟨by decide, by decide⟩
  | join id | between id =>
    exact ⟨quiet_append.mpr ⟨by decide, quiet_digits id⟩, Opens.append (by decide) _⟩

theorem plain_column {ref : ColumnRef} (h : Quiet ref.column) :
    Quiet ref.text ∧ Opens ref.text := by
  obtain ⟨quiet, opens⟩ := plain_alias ref.row
  refine ⟨?_, (opens.append _).append _⟩
  exact quiet_append.mpr ⟨quiet_append.mpr ⟨quiet, by decide⟩, quiet_quoteName h⟩

theorem plain_call (f : Aggregate) {ref : ColumnRef} (h : Quiet ref.column) :
    Quiet (callText f ref.text) ∧ Opens (callText f ref.text) := by
  have quiet := (plain_column h).1
  have called {start : String} (hs : Quiet start) (opens : Opens start) :
      Quiet (start ++ ref.text ++ ")") ∧ Opens (start ++ ref.text ++ ")") :=
    ⟨quiet_append.mpr ⟨quiet_append.mpr ⟨hs, quiet⟩, by decide⟩, (opens.append _).append _⟩
  cases f <;> exact called (by decide) (by decide)

theorem quiet_joinClause {clause : JoinClause} (table : Quiet clause.table)
    (column : Quiet clause.column) (other : Quiet clause.other.column) : Quiet clause.text := by
  unfold JoinClause.text
  have kind : Quiet (if clause.required then " JOIN " else " LEFT JOIN ") := by
    split <;> decide
  simp only [quiet_append]
  exact ⟨⟨⟨⟨⟨⟨⟨kind, quiet_quoteName table⟩, by decide⟩, (plain_alias _).1⟩, by decide⟩,
    (plain_column column).1⟩, by decide⟩, (plain_column other).1⟩

theorem quiet_fromText {table : String} {clauses : List JoinClause} (ht : Quiet table)
    (h : ∀ clause ∈ clauses, Quiet clause.text) : Quiet (fromText table clauses) := by
  refine quiet_append.mpr ⟨quiet_append.mpr ⟨quiet_quoteName ht, by decide⟩, quiet_join ?_⟩
  exact List.forall_mem_map.mpr h

theorem quiet_commaColumns {refs : List ColumnRef} (h : ∀ ref ∈ refs, Quiet ref.column) :
    Quiet (commaText (refs.map ColumnRef.text)) :=
  quiet_commaText (List.forall_mem_map.mpr fun ref hr => (plain_column (h ref hr)).1)

theorem Inert.append {a b : String} (ha : Inert a) (hb : Inert b) : Inert (a ++ b) where
  quiet := quiet_append.mpr ⟨ha.quiet, hb.quiet⟩
  opens := by
    rcases ha.opens with rfl | opens
    · rw [String.empty_append]
      exact hb.opens
    · exact .inr (opens.append b)

theorem inert_phrase {a b : String} (quiet : Quiet a) (opens : Opens a) (hb : Quiet b) :
    Inert (a ++ b) := ⟨quiet_append.mpr ⟨quiet, hb⟩, .inr (opens.append b)⟩

theorem inert_partText (limit : Option Nat) (offset : Nat) : Inert (partText limit offset) := by
  refine Inert.append ?_ ?_
  · cases limit with
    | none => exact ⟨by decide, .inl rfl⟩
    | some n => exact inert_phrase (by decide) (by decide) (quiet_digits n)
  · split
    · exact ⟨by decide, .inl rfl⟩
    · exact inert_phrase (by decide) (by decide) (quiet_digits offset)

theorem inert_orderText {order : List OrderTerm} (h : ∀ t ∈ order, Quiet t.column.column) :
    Inert (orderText order) := by
  unfold orderText
  split
  · exact ⟨by decide, .inl rfl⟩
  · refine inert_phrase (by decide) (by decide) (quiet_commaText (List.forall_mem_map.mpr ?_))
    intro t ht
    have keyword : Quiet t.direction.keyword := by cases t.direction <;> decide
    have nulls : Quiet (if t.nullsLast then " NULLS LAST" else "") := by split <;> decide
    simp only [OrderTerm.text, quiet_append]
    exact ⟨⟨⟨(plain_column (h t ht)).1, by decide⟩, keyword⟩, nulls⟩

theorem placeholders_append_of_quiet {s t : List Char} (h : '$' ∉ s) :
    placeholders (s ++ t) = placeholders t := by
  induction s with
  | nil => rfl
  | cons c s ih =>
    obtain ⟨hc, hs⟩ := not_or.mp (List.mem_cons.not.mp h)
    rw [List.cons_append, placeholders, if_neg (Ne.symm hc), ih hs]

/-! ## Fragments -/

/-- Nothing but placeholders looks like one, and every value has its own. -/
def Piece.Inert : Piece → Prop
  | text s => Sql.Inert s
  | placeholder _ => True
  | unused _ => False

namespace Fragment

variable {f g : Fragment} {cs ds : List (Operator × Operand)}

/-- The text of an inert fragment can follow a placeholder. -/
theorem opens_textFrom (inert : ∀ p ∈ f, p.Inert) (used : Nat) :
    textFrom used f = "" ∨ Opens (textFrom used f) := by
  induction f generalizing used with
  | nil => exact .inl rfl
  | cons p f ih =>
    obtain ⟨hp, rest⟩ := List.forall_mem_cons.mp inert
    cases p with
    | text s =>
      rcases hp.opens with rfl | opens
      · rw [textFrom, String.empty_append]
        exact ih rest used
      · exact .inr (opens.append _)
    | placeholder b =>
      right
      rw [textFrom]
      exact Opens.append (Opens.append (by decide) _) _
    | unused b => exact hp.elim

theorem takeWhile_digits {digits : List Char} (h : ∀ c ∈ digits, c.isDigit = true) {s : String}
    (opens : s = "" ∨ Opens s) : (digits ++ s.toList).takeWhile Char.isDigit = digits := by
  rw [List.takeWhile_append_of_pos h]
  rcases opens with rfl | opens
  · simp
  · unfold Opens at opens
    cases hs : s.toList with
    | nil => simp
    | cons c rest =>
      have hc : c.isDigit = false := by simpa [hs] using opens
      rw [List.takeWhile_cons_of_neg (by simp [hc]), List.append_nil]

/-- The placeholders of an inert fragment are numbered from left to right, one for each value. -/
theorem placeholders_textFrom (inert : ∀ p ∈ f, p.Inert) (used : Nat) :
    placeholders (textFrom used f).toList =
      (List.range' (used + 1) f.binds.length).map Decimal.text := by
  induction f generalizing used with
  | nil => rfl
  | cons p f ih =>
    obtain ⟨hp, rest⟩ := List.forall_mem_cons.mp inert
    cases p with
    | text s =>
      rw [textFrom, String.toList_append, placeholders_append_of_quiet hp.quiet, ih rest,
        binds_text]
    | placeholder b =>
      have digits : ∀ c ∈ Decimal.text (used + 1), c.isDigit = true :=
        fun c => Decimal.isDigit_of_mem_text
      have quiet := quiet_digits (used + 1)
      unfold Quiet at quiet
      rw [String.toList_ofList] at quiet
      have text : (textFrom used (.placeholder b :: f)).toList =
          '$' :: (Decimal.text (used + 1) ++ (textFrom (used + 1) f).toList) := by
        simp [textFrom]
      rw [text, placeholders, if_pos rfl, takeWhile_digits digits (opens_textFrom rest _),
        placeholders_append_of_quiet quiet, ih rest, binds_placeholder, List.length_cons,
        List.range'_succ, List.map_cons]
    | unused b => exact hp.elim

/-- The fragment has a placeholder for each of the constants, in their order, and nothing else that
looks like one. -/
structure Sends (f : Fragment) (cs : List (Operator × Operand)) : Prop where
  inert : ∀ p ∈ f, p.Inert
  encodes : List.Forall₂ Encodes cs f.binds

theorem Sends.nil : Sends [] [] := ⟨List.forall_mem_nil _, .nil⟩

theorem Sends.text {s : String} (h : Inert s) : Sends [.text s] [] :=
  ⟨List.forall_mem_singleton.mpr h, .nil⟩

/-- A text that is known by how it begins. -/
theorem Sends.phrase (s : String) (quiet : Quiet s) (opens : Opens s) : Sends [.text s] [] :=
  .text ⟨quiet, .inr opens⟩

theorem Sends.placeholder {c : Operator × Operand} {b : Bind} (h : Encodes c b) :
    Sends [.placeholder b] [c] :=
  ⟨List.forall_mem_singleton.mpr trivial, .cons h .nil⟩

theorem Sends.append (hf : f.Sends cs) (hg : g.Sends ds) : (f ++ g).Sends (cs ++ ds) where
  inert := List.forall_mem_append.mpr ⟨hf.inert, hg.inert⟩
  encodes := by
    rw [binds_append]
    exact List.rel_append hf.encodes hg.encodes

/-- A text after a fragment sends nothing. -/
theorem Sends.followed (hf : f.Sends cs) (s : String) (quiet : Quiet s) (opens : Opens s) :
    Sends (f ++ [.text s]) cs := by
  simpa using hf.append (.phrase s quiet opens)

/-- Texts around a fragment send nothing. -/
theorem Sends.around {before after : Fragment} (hb : before.Sends []) (hf : f.Sends cs)
    (ha : after.Sends []) : (before ++ f ++ after).Sends cs := by
  simpa using (hb.append hf).append ha

/-- Two fragments with a word between them, in parentheses. -/
theorem Sends.connected (hf : f.Sends cs) (hg : g.Sends ds) (word : String) (quiet : Quiet word)
    (opens : Opens word) :
    Sends ([.text "("] ++ f ++ [.text word] ++ g ++ [.text ")"]) (cs ++ ds) := by
  have first := ((Sends.phrase "(" (by decide) (by decide)).append hf).followed word quiet opens
  exact (first.append hg).followed ")" (by decide) (by decide)

theorem Sends.lowered {f : Fragment} (h : f.Sends cs) (ignoreCase : Bool) :
    (Sql.lowered ignoreCase f).Sends cs := by
  unfold Sql.lowered
  split
  · exact .around (.phrase _ (by decide) (by decide)) h (.phrase _ (by decide) (by decide))
  · exact h

end Fragment

end Sql

end EntityQuery
