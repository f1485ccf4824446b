import EntityQuery.Dataset.Evaluation
import EntityQuery.Proofs.Filter.Compilation
import EntityQuery.Proofs.Filter.Insertion
import EntityQuery.Proofs.Filter.Writing
import EntityQuery.Proofs.Value.Order

/-!
# Lists in a filter

Square brackets keep the items of a list together in one word, and single quotes keep the commas in
an item. So **a list of items in single quotes is read as these items, whatever stands in them
besides quotes and square brackets** (`single_quoted_items_stay`). Double quotes do not mix with
square brackets: a word remembers only where its first quotation begins, and a value in which one
begins is a literal, brackets and all. So **a list of items in double quotes is read as one text**
(`double_quoted_items_become_text`), and not all such lists are read as their items
(`double_quoted_items_lost`).

Both kinds of lists are followed through the same stations: the term is one word wherever it stands
by itself (`readsWord_inTerm`, `readsWord_doubleQuoted`), the word is read as an expression
(`parse_singleQuoted`, `parse_doubleQuoted`), and the expression is compiled to a comparison with
its items (`Expression.compile_in`).
-/

namespace EntityQuery

namespace Expression

/-- The term that asks whether a field is one of the items, as they are written. -/
def inTerm (field : List Char) (items : List (List Char)) : List Char :=
  field ++ "::in:[".toList ++ List.intercalate [','] items ++ [']']

end Expression

namespace Scanner

open Expression

variable {field : List Char} {items : List (List Char)} {groups : List Nat}

/-- A word that is read without a quotation has all its characters before one. -/
theorem ReadsWord.bare (h : ReadsWord field ⟨field, none⟩) (groups : List Nat) (index : Nat) :
    Reads ⟨none, .outside, 0, groups⟩ index field []
      ⟨some ⟨index, field.reverse, none⟩, .outside, 0, groups⟩ (index + Text.byteSize field) := by
  obtain ⟨⟨start, bare, quoted⟩, reads, token⟩ := h groups index
  simp only [OpenWord.token, Token.word.injEq, Word.mk.injEq, Option.map_eq_none_iff] at token
  obtain ⟨rfl, rfl, rfl⟩ := token
  rwa [List.reverse_reverse]

theorem ReadsWord.ne_nil (h : ReadsWord field ⟨field, none⟩) : field ≠ [] := by
  rintro rfl
  have reads := h.bare [] 0
  cases reads

/-- The list is opened. -/
theorem reads_opened (h : ReadsWord field ⟨field, none⟩) (groups : List Nat) (index : Nat) :
    Reads ⟨none, .outside, 0, groups⟩ index (field ++ "::in:[".toList) []
      ⟨some ⟨index, (field ++ "::in:[".toList).reverse, none⟩, .outside, 1, groups⟩
      (index + Text.byteSize (field ++ "::in:[".toList)) := by
  have plain : ∀ c ∈ "::in:".toList, Word.IsPlain c := by
    rw [← List.forall_iff_forall_mem]
    decide
  have operator := reads_plain groups 0 plain ⟨index, field.reverse, none⟩
    (index + Text.byteSize field)
  rw [foldl_push_bare] at operator
  have opens : step ⟨some ⟨index, "::in:".toList.reverse ++ field.reverse, none⟩, .outside, 0,
      groups⟩ (index + Text.byteSize field + Text.byteSize "::in:".toList) '[' =
      .ok (⟨some ⟨index, '[' :: ("::in:".toList.reverse ++ field.reverse), none⟩, .outside, 1,
        groups⟩, []) := rfl
  have whole := (h.bare groups index).append (operator.append (.one opens))
  simpa [Nat.add_assoc] using whole

/-- The list is closed. -/
theorem closes (groups : List Nat) (w : OpenWord) (index : Nat) :
    step ⟨some w, .outside, 1, groups⟩ index ']' =
      .ok (⟨some (w.push ']'), .outside, 0, groups⟩, []) := rfl

/-! ## Items in single quotes -/

/-- Between square brackets these characters alone mean something. -/
def IsListed (c : Char) : Prop := c ∉ ['"', '[', ']']

instance (c : Char) : Decidable (IsListed c) := inferInstanceAs (Decidable (_ ∉ _))

theorem step_listed (brackets : Nat) {c : Char} (h : IsListed c) (w : OpenWord) (index : Nat) :
    step ⟨some w, .outside, brackets + 1, groups⟩ index c =
      .ok (⟨some (w.push c), .outside, brackets + 1, groups⟩, []) := by
  simp only [IsListed, List.mem_cons, List.not_mem_nil, or_false, not_or] at h
  obtain ⟨quote, openList, closeList⟩ := h
  simp [step, plainStep, quote, openList, closeList, push, wordAt]

theorem forall_mem_intercalate {P : Char → Prop} {sep : List Char} (hsep : ∀ c ∈ sep, P c)
    (h : ∀ t ∈ items, ∀ c ∈ t, P c) : ∀ c ∈ List.intercalate sep items, P c := by
  induction items with
  | nil => simp
  | cons t items ih =>
    obtain ⟨ht, h⟩ := List.forall_mem_cons.mp h
    cases items with
    | nil => rwa [List.intercalate_singleton]
    | cons u items =>
      rw [List.intercalate_cons_cons, List.forall_mem_append, List.forall_mem_append]
      exact ⟨⟨ht, hsep⟩, ih h⟩

/-- A list without double quotes and square brackets in it is read as it stands. -/
theorem readsWord_inTerm (bare : ReadsWord field ⟨field, none⟩)
    (listed : ∀ t ∈ items, ∀ c ∈ t, IsListed c) :
    ReadsWord (inTerm field items) ⟨inTerm field items, none⟩ := by
  intro groups index
  have inner : ∀ c ∈ List.intercalate [','] items, IsListed c :=
    forall_mem_intercalate (List.forall_mem_singleton.mpr (by decide)) listed
  have opened := reads_opened bare groups index
  have read := reads_pushed groups
    (fun c hc w index => step_listed 0 (inner c hc) w index)
    ⟨index, (field ++ "::in:[".toList).reverse, none⟩
    (index + Text.byteSize (field ++ "::in:[".toList))
  rw [foldl_push_bare] at read
  have whole := opened.append (read.append (.one (closes _ _ _)))
  refine ⟨⟨index, (inTerm field items).reverse, none⟩, ?_, by simp [OpenWord.token]⟩
  simpa [inTerm, OpenWord.push, Nat.add_assoc] using whole

end Scanner

/-! ## Items in double quotes -/

namespace Expression

/-- A text between double quotes. -/
def doubleQuoted (t : List Char) : List Char := '"' :: escapeQuoted t ++ ['"']

end Expression

namespace Scanner

open Expression

variable {field : List Char} {items : List (List Char)} {groups : List Nat} {start : Nat}
  {bare : List Char} {quoted : Option (List Char)}

theorem reads_doubleQuoted (t : List Char) (index : Nat) :
    Reads ⟨some ⟨start, bare, quoted⟩, .outside, 1, groups⟩ index (doubleQuoted t) []
      ⟨some ⟨start, bare, some (t.reverse ++ quoted.getD [])⟩, .outside, 1, groups⟩
      (index + Text.byteSize (doubleQuoted t)) := by
  have opens : step ⟨some ⟨start, bare, quoted⟩, .outside, 1, groups⟩ index '"' =
      .ok (⟨some ⟨start, bare, some (quoted.getD [])⟩, .inside, 1, groups⟩, []) := rfl
  have inner := reads_quoted groups 1 t ⟨start, bare, some (quoted.getD [])⟩ (index + 1)
  rw [foldl_push_quoted] at inner
  have closes (at' : Nat) : Reads ⟨some ⟨start, bare, some (t.reverse ++ quoted.getD [])⟩, .inside,
      1, groups⟩ at' ['"'] [] ⟨some ⟨start, bare, some (t.reverse ++ quoted.getD [])⟩, .outside, 1,
      groups⟩ (at' + Text.byteSize ['"']) := .one rfl
  have whole := Reads.step opens (inner.append (closes _))
  simpa [doubleQuoted, Nat.add_assoc, show '"'.utf8Size = 1 from rfl] using whole

/-- From its first item on a list is part of the quotation, and so are its commas. -/
theorem reads_doubleQuoted_items (t : List Char) (items : List (List Char)) (index : Nat) :
    Reads ⟨some ⟨start, bare, quoted⟩, .outside, 1, groups⟩ index
      (List.intercalate [','] ((t :: items).map doubleQuoted)) []
      ⟨some ⟨start, bare, some ((List.intercalate [','] (t :: items)).reverse ++ quoted.getD [])⟩,
        .outside, 1, groups⟩
      (index + Text.byteSize (List.intercalate [','] ((t :: items).map doubleQuoted))) := by
  induction items generalizing t quoted index with
  | nil => simpa using reads_doubleQuoted t index
  | cons u items ih =>
    have first := @reads_doubleQuoted groups start bare quoted t index
    have comma (at' : Nat) : Reads ⟨some ⟨start, bare, some (t.reverse ++ quoted.getD [])⟩,
        .outside, 1, groups⟩ at' [','] [] ⟨some ⟨start, bare, some (',' :: (t.reverse ++
          quoted.getD []))⟩, .outside, 1, groups⟩ (at' + Text.byteSize [',']) := .one rfl
    have whole := first.append ((comma _).append (ih u _))
    rw [List.map_cons, List.map_cons, List.intercalate_cons_cons, List.intercalate_cons_cons]
    simpa [Nat.add_assoc] using whole

/-- A list of items in double quotes makes one word, whose quotation begins with the first item. -/
theorem readsWord_doubleQuoted (h : ReadsWord field ⟨field, none⟩) (t : List Char)
    (items : List (List Char)) : ReadsWord (inTerm field ((t :: items).map doubleQuoted))
      ⟨field ++ "::in:[".toList, some (List.intercalate [','] (t :: items) ++ [']'])⟩ := by
  intro groups index
  have opened := reads_opened h groups index
  have read := @reads_doubleQuoted_items groups index (field ++ "::in:[".toList).reverse none t
    items (index + Text.byteSize (field ++ "::in:[".toList))
  have whole := opened.append (read.append (.one (closes _ _ _)))
  refine ⟨⟨index, (field ++ "::in:[".toList).reverse,
    some (List.intercalate [','] (t :: items) ++ [']']).reverse⟩, ?_, by simp [OpenWord.token]⟩
  simpa [inTerm, OpenWord.push, Nat.add_assoc] using whole

end Scanner

/-! ## What the lists ask for -/

namespace Expression

variable {field : List Char} {items : List (List Char)}

theorem parse_in {value : List Char} {quoted : Option (List Char)} {right : RightSide}
    (present : field ≠ []) (colonless : ':' ∉ field) (no_call : ¬ IsCall field)
    (read : rightSide ⟨field ++ "::in:".toList ++ value, quoted⟩ false
      (some (value ++ quoted.getD [])) = .ok right) (plain : appliesFunction right = false) :
    parse ⟨field ++ "::in:".toList ++ value, quoted⟩ =
      .ok ⟨String.ofList field, none, .isIn, false, false, right⟩ := by
  have split : parts ⟨field ++ "::in:".toList ++ value, quoted⟩ =
      ⟨field, some "in".toList, some (value ++ quoted.getD [])⟩ :=
    parts_long colonless (by decide) (by simp)
  have operator : operatorSpec "in".toList = .ok ⟨.isIn, false, false⟩ := by decide +kernel
  rw [parse_eq_ok_iff, split]
  refine ⟨present, _, none, right, operator, function?_of_not_isCall no_call, read, ?_⟩
  simp [ofSides, plain]

theorem parse_singleQuoted (present : field ≠ []) (colonless : ':' ∉ field)
    (no_call : ¬ IsCall field) (unquoted : ∀ t ∈ items, singleQuote ∉ t) :
    parse ⟨inTerm field (items.map quotedItem), none⟩ =
      .ok ⟨String.ofList field, none, .isIn, false, false, .list (items.map String.ofList)⟩ := by
  have text : inTerm field (items.map quotedItem) =
      field ++ "::in:".toList ++ ('[' :: listText [] items ++ [']']) := by
    simp [inTerm, listText]
  rw [text]
  refine parse_in present colonless no_call ?_ rfl
  rw [rightSide_bare rfl, Option.getD_none, List.append_nil, bareValue_list,
    listItems_listText Text.blanks_nil unquoted]

theorem parse_doubleQuoted (present : field ≠ []) (colonless : ':' ∉ field)
    (no_call : ¬ IsCall field) (rest : List Char) :
    parse ⟨field ++ "::in:[".toList, some rest⟩ =
      .ok ⟨String.ofList field, none, .isIn, false, false,
        .literal (String.ofList ('[' :: rest))⟩ := by
  have text : field ++ "::in:[".toList = field ++ "::in:".toList ++ ['['] := by simp
  rw [text]
  exact parse_in present colonless no_call (rightSide_quoted rfl) rfl

end Expression

/-- What is asked to be in a list makes a comparison with its items. -/
theorem Expression.compile_in {s : Schema} {name attr : String} {function : Option Aggregate}
    {nullSafe negate propertyCompare : Bool} {right : RightSide} {o : Operand} {type : ScalarType}
    {vs : List Value} {joins joins' : Joins}
    (left : operand s name attr function joins = (.ok (o, type), joins'))
    (compiled : rightOperand s name type ⟨attr, function, .isIn, negate, propertyCompare, right⟩
      joins' = (.ok (.list vs, negate), joins')) :
    compile s name nullSafe ⟨attr, function, .isIn, negate, propertyCompare, right⟩ joins =
      (.ok ⟨o, .isIn, negate, false, .list vs⟩, joins') := by
  refine Resolving.bind_eq_ok.mpr ⟨_, _, left, ?_⟩
  refine Resolving.guard_eq_ok.mpr ⟨by simp [Operator.isPattern], ?_⟩
  refine Resolving.bind_eq_ok.mpr ⟨_, _, compiled, ?_⟩
  exact Resolving.pure_eq_ok.mpr ⟨by simp, rfl⟩

namespace Schema

variable {s : Schema} {name attr : String} {nullSafe : Bool} {w : Word} {right : RightSide}
  {vs : List Value} {joins joins' : Joins} {r : ResolvedPath}

theorem compileWord_in (parsed : Expression.parse w = .ok ⟨attr, none, .isIn, false, false, right⟩)
    (resolved : s.resolve name attr joins = (.ok r, joins'))
    (compiled : Expression.rightOperand s name r.type ⟨attr, none, .isIn, false, false, right⟩
      joins' = (.ok (.list vs, false), joins')) :
    s.compileWord name nullSafe w joins =
      (.ok ⟨.attr r.attr, .isIn, false, false, .list vs⟩, joins') := by
  have left : Expression.operand s name attr none joins =
      (.ok (.attr r.attr, r.type), joins') := Resolving.bind_eq_ok.mpr ⟨_, _, resolved, rfl⟩
  exact compileWord_eq_ok_iff.mpr ⟨_, parsed, Expression.compile_in left compiled⟩

theorem compileWord_in_texts {items : List String} (text : r.type = .text)
    (parsed : Expression.parse w = .ok ⟨attr, none, .isIn, false, false, .list items⟩)
    (resolved : s.resolve name attr joins = (.ok r, joins')) :
    s.compileWord name nullSafe w joins =
      (.ok ⟨.attr r.attr, .isIn, false, false, .list (items.map .text)⟩, joins') := by
  have coerced : items.mapM (fun raw => ScalarType.text.coerce attr raw) =
      .ok (items.map .text) := by
    rw [mapM_eq_ok, List.forall₂_map_right_iff, List.forall₂_same]
    exact fun _ _ => rfl
  refine compileWord_in parsed resolved ?_
  rw [text]
  exact Resolving.bind_eq_ok.mpr ⟨_, _, Resolving.mapM_lift_eq_ok.mpr ⟨coerced, rfl⟩, rfl⟩

theorem compileWord_in_text {raw : String} (text : r.type = .text)
    (parsed : Expression.parse w = .ok ⟨attr, none, .isIn, false, false, .literal raw⟩)
    (resolved : s.resolve name attr joins = (.ok r, joins')) :
    s.compileWord name nullSafe w joins =
      (.ok ⟨.attr r.attr, .isIn, false, false, .list [.text raw]⟩, joins') := by
  refine compileWord_in parsed resolved ?_
  rw [text]
  exact Resolving.bind_eq_ok.mpr ⟨_, _, Resolving.lift_eq_ok.mpr ⟨rfl, rfl⟩, rfl⟩

end Schema

/-- A text is among a list of one exactly if it is that one. -/
theorem Evaluator.rowTruth_in_text {root : Record} {b : Binding} {a : AttrRef} {v : String}
    (value : Evaluator.value root b a = .text v) (item : String) :
    rowTruth root b (.leaf ⟨.attr a, .isIn, false, false, .list [.text item]⟩) =
      .ofBool (v = item) := by
  have equals : (Value.text v).equals (.text item) = decide (v = item) := by
    rw [Value.equals, Value.compare, decide_eq_decide, Option.some.injEq]
    exact Std.LawfulEqCmp.compare_eq_iff_eq
  show Comparison.truth _ (.one (Evaluator.value root b a)) (.many [.text item]) = _
  simp [value, Comparison.truth, Comparison.positive, Value.among, Value.isNull, equals]

namespace Expression

/-- What can stand before an operator as it is: one word for the scanner, without a quotation, and
neither cut by a colon nor taken for a function. -/
structure IsBareField (field : List Char) : Prop where
  word : Scanner.ReadsWord field ⟨field, none⟩
  colonless : ':' ∉ field
  no_call : ¬ IsCall field

theorem isBareField_of_plain {field : List Char} (plain : ∀ c ∈ field, Word.IsPlain c)
    (present : field ≠ []) (colonless : ':' ∉ field) (brace : '\x7d' ∉ field) :
    IsBareField field where
  word := Scanner.readsWord_of_plain plain present
  colonless := colonless
  no_call := by
    rintro ⟨name, inner, _, rfl⟩
    simp at brace

variable {field : List Char} {items : List (List Char)}

theorem length_le_intercalate (sep : List Char) {t : List Char} (h : t ∈ items) :
    t.length ≤ (List.intercalate sep items).length := by
  induction items with
  | nil => cases h
  | cons u items ih =>
    cases items with
    | nil => rw [List.mem_singleton.mp h, List.intercalate_singleton]
    | cons v items =>
      rw [List.intercalate_cons_cons, List.length_append, List.length_append]
      rcases List.mem_cons.mp h with rfl | later
      · omega
      · have shorter := ih later
        omega

/-- **Items in single quotes keep their text**, whatever stands in them besides quotes and square
brackets. The term that asks for them is one word wherever it stands by itself in a filter, and the
other words stay the same; it is read as the list of just these texts; and if the field is a text,
it compares it with these. -/
theorem single_quoted_items_stay (bare : IsBareField field)
    (unmarked : ∀ t ∈ items, ∀ c ∈ t, c ∉ ['"', singleQuote, '[', ']']) :
    (∀ before after tokens, StandsBetween before after → scan (before ++ after) = .ok tokens →
      ∃ ts us us', tokens = ts ++ us ∧
        scan (before ++ String.ofList (inTerm field (items.map quotedItem)) ++ after) = .ok (ts ++
          .word (Text.byteSize before.toList) ⟨inTerm field (items.map quotedItem), none⟩ :: us') ∧
        Token.SameWords us us') ∧
    Word.logical? ⟨inTerm field (items.map quotedItem), none⟩ = none ∧
    parse ⟨inTerm field (items.map quotedItem), none⟩ =
      .ok ⟨String.ofList field, none, .isIn, false, false, .list (items.map String.ofList)⟩ ∧
    ∀ (s : Schema) (name : String) (nullSafe : Bool) (joins joins' : Joins) (r : ResolvedPath),
      s.resolve name (String.ofList field) joins = (.ok r, joins') → r.type = .text →
      s.compileWord name nullSafe ⟨inTerm field (items.map quotedItem), none⟩ joins =
        (.ok ⟨.attr r.attr, .isIn, false, false,
          .list (items.map fun t => .text (String.ofList t))⟩, joins') := by
  have unquoted : ∀ t ∈ items, singleQuote ∉ t := by
    intro t ht hc
    exact unmarked t ht singleQuote hc (by decide)
  have listed : ∀ t ∈ items.map quotedItem, ∀ c ∈ t, Scanner.IsListed c := by
    rw [List.forall_mem_map]
    intro t ht c hc
    simp only [quotedItem, List.cons_append, List.mem_cons, List.mem_append, List.not_mem_nil,
      or_false] at hc
    rcases hc with rfl | hc | rfl
    · decide
    · have free := unmarked t ht c hc
      simp only [List.mem_cons, List.not_mem_nil, or_false, not_or] at free
      simp [Scanner.IsListed, free]
    · decide
  have parsed := parse_singleQuoted bare.word.ne_nil bare.colonless bare.no_call unquoted
  refine ⟨fun before after tokens stands cut => ?_, ?_, parsed, ?_⟩
  · refine Scanner.scan_between cut stands ?_
    rw [String.toList_ofList]
    exact Scanner.readsWord_inTerm bare.word listed
  · exact Word.logical?_of_colon (by simp [inTerm])
  · intro s name nullSafe joins joins' r resolved text
    rw [s.compileWord_in_texts text parsed resolved, List.map_map]
    rfl

namespace Labels

def schema : Schema :=
  ⟨[⟨"Author", "author", "id",
      [⟨"id", "id", false, .scalar .integer⟩, ⟨"label", "label", true, .scalar .text⟩]⟩]⟩

/-- Items with everything in them that means something outside quotes. -/
def texts : List (List Char) := ["a, b) or (x:1 and".toList, [], "\x7d é:".toList]

def word : Word := .plain "label::in:['a, b) or (x:1 and','','\x7d é:']"

theorem isBareField_label : IsBareField "label".toList := by
  refine isBareField_of_plain ?_ (by decide) (by decide) (by decide)
  rw [← List.forall_iff_forall_mem]
  decide

theorem resolve_label : schema.resolve "Author" "label" [] =
    (.ok ⟨⟨.root, .attribute "label" "label"⟩, .text, false⟩, []) := by
  have segments : Path.segments "label" = ["label"] := by rfl
  rw [Schema.resolve, segments]
  rfl

end Labels

open Labels in
theorem single_quoted_items_stay_labels :
    (∃ ts us us', [.opening 0, .word 1 (.plain "x:1"), .word 5 (.plain "or"), .closing 8] =
        ts ++ us ∧
      scan "(x:1 or label::in:['a, b) or (x:1 and','','\x7d é:'])" =
        .ok (ts ++ .word 8 word :: us') ∧ Token.SameWords us us') ∧
    parse word = .ok ⟨"label", none, .isIn, false, false,
      .list ["a, b) or (x:1 and", "", "\x7d é:"]⟩ ∧
    schema.compileWord "Author" false word [] =
      (.ok ⟨.attr ⟨.root, .attribute "label" "label"⟩, .isIn, false, false,
        .list [.text "a, b) or (x:1 and", .text "", .text "\x7d é:"]⟩, []) := by
  have unmarked : ∀ t ∈ texts, ∀ c ∈ t, c ∉ ['"', singleQuote, '[', ']'] := by
    simp only [← List.forall_iff_forall_mem]
    decide +kernel
  have same : (⟨inTerm "label".toList (texts.map quotedItem), none⟩ : Word) = word := by
    decide +kernel
  have text : "(x:1 or " ++ String.ofList (inTerm "label".toList (texts.map quotedItem)) ++ ")" =
      "(x:1 or label::in:['a, b) or (x:1 and','','\x7d é:'])" := by decide +kernel
  have stands : StandsBetween "(x:1 or " ")" :=
    ⟨by decide, by rintro _ ⟨⟩; decide, by rintro _ ⟨⟩; decide⟩
  have cut : scan ("(x:1 or " ++ ")") =
      .ok [.opening 0, .word 1 (.plain "x:1"), .word 5 (.plain "or"), .closing 8] := by rfl
  obtain ⟨scanned, _, parsed, compiled⟩ := single_quoted_items_stay isBareField_label unmarked
  rw [same] at scanned parsed compiled
  have whole := scanned _ _ _ stands cut
  rw [text] at whole
  exact ⟨whole, parsed, compiled schema "Author" false [] [] _ resolve_label rfl⟩

/-- **Items in double quotes do not stay items.** A list of them, whatever their texts are, is read
as the one text that consists of all of them with the commas and the brackets. So a field that is a
text is compared with that alone, and none of the items is found. -/
theorem double_quoted_items_become_text (bare : IsBareField field) (present : items ≠ []) :
    (∀ before after tokens, StandsBetween before after → scan (before ++ after) = .ok tokens →
      ∃ ts us us', tokens = ts ++ us ∧
        scan (before ++ String.ofList (inTerm field (items.map doubleQuoted)) ++ after) = .ok (ts ++
          .word (Text.byteSize before.toList)
            ⟨field ++ "::in:[".toList, some (List.intercalate [','] items ++ [']'])⟩ :: us') ∧
        Token.SameWords us us') ∧
    parse ⟨field ++ "::in:[".toList, some (List.intercalate [','] items ++ [']'])⟩ =
      .ok ⟨String.ofList field, none, .isIn, false, false,
        .literal (String.ofList ('[' :: List.intercalate [','] items ++ [']']))⟩ ∧
    ∀ (s : Schema) (name : String) (nullSafe : Bool) (joins joins' : Joins) (r : ResolvedPath),
      s.resolve name (String.ofList field) joins = (.ok r, joins') → r.type = .text →
      ∃ c : Comparison, s.compileWord name nullSafe
          ⟨field ++ "::in:[".toList, some (List.intercalate [','] items ++ [']'])⟩ joins =
            (.ok c, joins') ∧
        ∀ (root : Record) (b : Binding) (v : String), Evaluator.value root b r.attr = .text v →
          Evaluator.rowTruth root b (.leaf c) =
              .ofBool (v = String.ofList ('[' :: List.intercalate [','] items ++ [']'])) ∧
            (v.toList ∈ items → Evaluator.rowTruth root b (.leaf c) = .fails) := by
  obtain ⟨t, items, rfl⟩ := List.exists_cons_of_ne_nil present
  have parsed := parse_doubleQuoted bare.word.ne_nil bare.colonless bare.no_call
    (List.intercalate [','] (t :: items) ++ [']'])
  refine ⟨fun before after tokens stands cut => ?_, parsed, ?_⟩
  · refine Scanner.scan_between cut stands ?_
    rw [String.toList_ofList]
    exact Scanner.readsWord_doubleQuoted bare.word t items
  · intro s name nullSafe joins joins' r resolved text
    refine ⟨_, s.compileWord_in_text text parsed resolved, fun root b v value => ?_⟩
    have truth := Evaluator.rowTruth_in_text value
      (String.ofList ('[' :: List.intercalate [','] (t :: items) ++ [']']))
    refine ⟨truth, fun listed => ?_⟩
    have other : v ≠ String.ofList ('[' :: List.intercalate [','] (t :: items) ++ [']']) := by
      rintro rfl
      have longer := length_le_intercalate [','] listed
      simp only [String.toList_ofList, List.cons_append, List.length_cons, List.length_append,
        List.length_nil] at longer
      omega
    exact truth.trans (by rw [decide_eq_false other]; rfl)

open Labels in
/-- Neither of the two items is found. -/
theorem double_quoted_items_become_text_labels :
    parse ⟨"label::in:[".toList, some "a,b]".toList⟩ =
      .ok ⟨"label", none, .isIn, false, false, .literal "[a,b]"⟩ ∧
    ∃ c : Comparison,
      schema.compileWord "Author" false ⟨"label::in:[".toList, some "a,b]".toList⟩ [] =
        (.ok c, []) ∧
      ∀ v ∈ ["a", "b"], Evaluator.rowTruth
        ⟨"Author", .int 1, [("id", .int 1), ("label", .text v)], [], []⟩ [] (.leaf c) = .fails := by
  have present : ["a".toList, "b".toList] ≠ [] := by decide
  obtain ⟨_, parsed, compiled⟩ := double_quoted_items_become_text isBareField_label present
  obtain ⟨c, made, truth⟩ := compiled schema "Author" false [] [] _ resolve_label rfl
  refine ⟨parsed, c, made, fun v hv => ?_⟩
  refine (truth _ [] v rfl).2 ?_
  rw [show ["a".toList, "b".toList] = ["a", "b"].map String.toList from rfl]
  exact List.mem_map_of_mem hv

/-- Not all lists of texts in double quotes are read as these texts, not even where nothing in the
texts means anything in a list. -/
theorem double_quoted_items_lost : ¬ ∀ (field : List Char) (items : List (List Char)),
    IsBareField field → (∀ t ∈ items, ',' ∉ t ∧ singleQuote ∉ t ∧ Text.trim t = t) →
      (∃ t ∈ items, t ≠ []) → ∀ w,
      scan (String.ofList (inTerm field (items.map doubleQuoted))) = .ok [.word 0 w] →
        parse w = .ok ⟨String.ofList field, none, .isIn, false, false,
          .list (items.map String.ofList)⟩ := by
  intro h
  have cut : scan (String.ofList (inTerm "label".toList (["a".toList, "b".toList].map
      doubleQuoted))) = .ok [.word 0 ⟨"label::in:[".toList, some "a,b]".toList⟩] := by
    decide +kernel
  have parsed : parse ⟨"label::in:[".toList, some "a,b]".toList⟩ =
      .ok ⟨"label", none, .isIn, false, false, .literal "[a,b]"⟩ := by decide +kernel
  have listed := h "label".toList ["a".toList, "b".toList] Labels.isBareField_label
    (by decide +kernel) (by decide) _ cut
  cases parsed.symm.trans listed

end Expression

end EntityQuery
