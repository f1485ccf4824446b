import EntityQuery.Proofs.Filter.Compilation
import EntityQuery.Proofs.Filter.Correspondence
import EntityQuery.Proofs.Filter.Words

/-!
# Two ways to ask for equality

A colon between a field and a value means equality, as the operator written out does (`IsEquality`).
The words are taken apart differently and come to the same (`parse_equality`); so **in a filter
either of them can stand for the other** (`equality_written_either_way`). In the text the one word
is put in the place of the other by `exists_scan_replaced`, as what differs stands before the
quotation.
-/

namespace EntityQuery

/-- What stands between a field and a value that are to be equal. -/
inductive IsEquality : List Char → Prop
  | short : IsEquality ":".toList
  | long : IsEquality "::eq:".toList

theorem IsEquality.plain {m : List Char} (h : IsEquality m) : ∀ c ∈ m, Word.IsPlain c := by
  rw [← List.forall_iff_forall_mem]
  cases h <;> decide

section

variable {field value : List Char} {quoted : Option (List Char)} {m : List Char}

namespace Expression

/-- That a field has a value. -/
def equal (field value : List Char) (quoted : Option (List Char)) : Except Error Expression := do
  let left ← function? field
  let right ← rightSide ⟨value, quoted⟩ false (some (value ++ quoted.getD []))
  return ofSides field .default left right

/-- Both ways of asking for equality are read in the same way, with an error or without. -/
theorem parse_equality (h : IsEquality m) (present : field ≠ []) (colonless : ':' ∉ field)
    (single : value.head? ≠ some ':') :
    parse ⟨field ++ m ++ value, quoted⟩ = equal field value quoted := by
  cases h with
  | short =>
    have split : parts ⟨field ++ ":".toList ++ value, quoted⟩ =
        ⟨field, none, some (value ++ quoted.getD [])⟩ :=
      parts_short colonless single (by simp)
    rw [parse_eq (by rw [split]; exact present), split]
    rfl
  | long =>
    have split : parts ⟨field ++ "::eq:".toList ++ value, quoted⟩ =
        ⟨field, some "eq".toList, some (value ++ quoted.getD [])⟩ :=
      parts_long colonless (by decide) (by simp)
    have operator : operatorSpec "eq".toList = .ok .default := by decide +kernel
    rw [parse_eq (by rw [split]; exact present), split]
    simp only [operatorOf, operator]
    rfl

end Expression

/-- A word of a filter that asks for equality is found in the text of the filter, and what stands
there between its field and its value can be written in either way. -/
theorem Schema.compileFilter_equality {m' : List Char} (h : IsEquality m) (h' : IsEquality m')
    (present : field ≠ []) (colonless : ':' ∉ field) (single : value.head? ≠ some ':')
    {filter : String} {tokens : List Token} {index : Nat} (cut : scan filter = .ok tokens)
    (mem : .word index ⟨field ++ m ++ value, quoted⟩ ∈ tokens) :
    ∃ before after, filter.toList = before ++ field ++ m ++ after ∧ Text.byteSize before = index ∧
      ∀ (s : Schema) (nullSafe : Bool) (entity : String) (f : CompiledFilter),
        s.compileFilter nullSafe filter entity = .ok f ↔
          s.compileFilter nullSafe (String.ofList (before ++ field ++ m' ++ after)) entity =
            .ok f := by
  obtain ⟨before, after, tokens', text, begins, cut', alike⟩ :=
    exists_scan_replaced cut present h.plain h'.plain mem
  refine ⟨before, after, text, begins, fun s nullSafe entity f => ?_⟩
  have colon {m : List Char} (h : IsEquality m) : ':' ∈ field ++ m ++ value := by
    cases h <;> simp
  -- Words that are the same or ask for the same equality are of one use.
  have same {w w' : Word}
      (related : Word.Replaced ⟨field ++ m ++ value, quoted⟩ ⟨field ++ m' ++ value, quoted⟩ w w') :
      w'.logical? = w.logical? ∧
        s.compileWord entity nullSafe w' = s.compileWord entity nullSafe w := by
    rcases related with rfl | ⟨rfl, rfl⟩
    · exact ⟨rfl, rfl⟩
    · constructor
      · rw [Word.logical?_of_colon (colon h'), Word.logical?_of_colon (colon h)]
      · rw [compileWord, compileWord, Expression.parse_equality h present colonless single,
          Expression.parse_equality h' present colonless single]
  rw [compileFilter_eq_ok_iff, compileFilter_eq_ok_iff]
  constructor
  · rintro ⟨root, ts, predicate, joins, hroot, hts, made, rfl⟩
    cases cut.symm.trans hts
    exact ⟨root, tokens', predicate, joins, hroot, cut',
      Formula.ofTokens_moved (fun _ _ _ => same) alike made, rfl⟩
  · rintro ⟨root, ts, predicate, joins, hroot, hts, made, rfl⟩
    cases cut'.symm.trans hts
    have back := List.Forall₂.flip (alike.imp fun t u related => related.symm)
    refine ⟨root, tokens, predicate, joins, hroot, cut, ?_, rfl⟩
    exact Formula.ofTokens_moved
      (fun _ _ _ related => ⟨(same related).1.symm, (same related).2.symm⟩) back made

/-- **`field:value` and `field::eq:value` are the same**, whatever the value is and wherever its
quotation begins, if it does not begin with a colon that is not quoted. As words they are read as
the same expression or with the same error, and the quotation begins four bytes later in the longer
one. And where a filter has one of them for a word, it compiles to what it compiles to with the
other one in that place. -/
theorem equality_written_either_way (present : field ≠ []) (colonless : ':' ∉ field)
    (single : value.head? ≠ some ':') :
    Expression.parse ⟨field ++ ":".toList ++ value, quoted⟩ =
      Expression.parse ⟨field ++ "::eq:".toList ++ value, quoted⟩ ∧
    Word.quotedFrom ⟨field ++ "::eq:".toList ++ value, quoted⟩ =
      (Word.quotedFrom ⟨field ++ ":".toList ++ value, quoted⟩).map (· + 4) ∧
    ∀ m m', IsEquality m → IsEquality m' → ∀ filter tokens index, scan filter = .ok tokens →
      .word index ⟨field ++ m ++ value, quoted⟩ ∈ tokens →
      ∃ before after, filter.toList = before ++ field ++ m ++ after ∧
        Text.byteSize before = index ∧
        ∀ (s : Schema) (nullSafe : Bool) (entity : String) (f : CompiledFilter),
          s.compileFilter nullSafe filter entity = .ok f ↔
            s.compileFilter nullSafe (String.ofList (before ++ field ++ m' ++ after)) entity =
              .ok f := by
  refine ⟨?_, ?_, fun m m' h h' filter tokens index cut mem =>
    Schema.compileFilter_equality h h' present colonless single cut mem⟩
  · rw [Expression.parse_equality .short present colonless single,
      Expression.parse_equality .long present colonless single]
  · cases quoted with
    | none => rfl
    | some q =>
      have short : Text.byteSize ":".toList = 1 := rfl
      have long : Text.byteSize "::eq:".toList = 5 := rfl
      simp only [Word.quotedFrom, Option.map_some, Text.byteSize_append, short, long,
        Option.some.injEq]
      omega

theorem equality_written_either_way_named :
    Expression.parse ⟨"name:".toList, some "a b".toList⟩ =
      Expression.parse ⟨"name::eq:".toList, some "a b".toList⟩ ∧
    ∃ before after,
      "(name::eq:\"a b\")".toList = before ++ "name".toList ++ "::eq:".toList ++ after ∧
      Text.byteSize before = 1 ∧
      ∀ (s : Schema) (nullSafe : Bool) (entity : String) (f : CompiledFilter),
        s.compileFilter nullSafe "(name::eq:\"a b\")" entity = .ok f ↔
          s.compileFilter nullSafe
            (String.ofList (before ++ "name".toList ++ ":".toList ++ after)) entity = .ok f := by
  have present : "name".toList ≠ [] := by decide
  have colonless : ':' ∉ "name".toList := by decide
  have cut : scan "(name::eq:\"a b\")" =
      .ok [.opening 0, .word 1 ⟨"name::eq:".toList, some "a b".toList⟩, .closing 15] := by rfl
  have single : ([] : List Char).head? ≠ some ':' := by decide
  obtain ⟨parsed, _, filters⟩ :=
    @equality_written_either_way "name".toList [] (some "a b".toList) present colonless single
  exact ⟨parsed, filters _ _ .long .short _ _ 1 cut (by decide)⟩

end

end EntityQuery
