import EntityQuery.Proofs.Dataset.Counting
import EntityQuery.Proofs.Filter.Conjunction
import EntityQuery.Proofs.Filter.Quotation
import EntityQuery.Proofs.Path.Segments

/-!
# Asking whether an association leads nowhere

The name of an association with `::isnull` after it asks whether the identifier of what the
association leads to is null (`leadsNowhere`). As long as the name can be written in a filter
(`IsPlainName`), **that is the one comparison of the filter, and the association its one join**
(`compileFilter_isNull`).
-/

namespace EntityQuery

/-- A name that stands for itself in a filter: it is one segment of a path, and nothing in it ends a
word, a field or the name of a function. -/
structure IsPlainName (name : String) : Prop where
  segment : Path.IsSegment name
  plain : ∀ c ∈ name.toList, Word.IsPlain c ∧ c ∉ [':', '\x7b']

namespace IsPlainName

variable {attr : String}

/-- The word of the name with `::isnull`. -/
def word (attr : String) : Word := ⟨attr.toList ++ "::isnull".toList, none⟩

theorem logical?_word (attr : String) : (word attr).logical? = none :=
  Word.logical?_of_colon (by simp [word])

theorem scan_isNull (h : IsPlainName attr) :
    scan (attr ++ "::isnull") = .ok [.word 0 (word attr)] := by
  have operator : ∀ c ∈ "::isnull".toList, Word.IsPlain c := by
    rw [← List.forall_iff_forall_mem]
    decide
  have plain : ∀ c ∈ (word attr).bare, Word.IsPlain c := by
    intro c hc
    rcases List.mem_append.mp hc with name | mark
    · exact (h.plain c name).1
    · exact operator c mark
  have writable : ∀ w, Item.word w ∈ [Item.word (word attr)] → w.Writable := by
    intro w hw
    cases List.mem_singleton.mp hw
    exact ⟨plain, .inl (by simp [word])⟩
  have written : Item.filter [.word (word attr)] = attr ++ "::isnull" := by
    simp [Item.filter, Item.written, Word.written, word]
  exact written ▸ Scanner.scan_filter writable rfl

theorem parse_isNull (h : IsPlainName attr) : Expression.parse (word attr) =
    .ok ⟨attr, none, .isNull, false, false, .literal "true"⟩ := by
  have colon : ':' ∉ attr.toList := fun hc => (h.plain _ hc).2 (by decide)
  have brace : '\x7b' ∉ attr.toList := fun hc => (h.plain _ hc).2 (by decide)
  have cut : Text.cut ':' (word attr).bare = some (attr.toList, ':' :: "isnull".toList) :=
    Text.cut_append_cons colon
  have parted : Expression.parts (word attr) = ⟨attr.toList, some "isnull".toList, none⟩ := by
    unfold Expression.parts
    rw [cut]
    rfl
  have function : Expression.functionParts? attr.toList = none := by
    unfold Expression.functionParts?
    rw [Text.cut_eq_none_iff.mpr brace]
  have spec : Expression.operatorSpec "isnull".toList = .ok ⟨.isNull, false, false⟩ := by
    decide +kernel
  have some_ : attr.toList ≠ [] := fun empty => h.segment.1 (String.toList_eq_nil_iff.mp empty)
  generalize "isnull".toList = operator at parted spec
  simp [Expression.parse, parted, some_, spec, Expression.function?, function,
    Expression.rightSide, Expression.appliesFunction]

end IsPlainName

namespace Schema

variable {s : Schema} {root target : Entity} {name attr : String} {a : Attribute} {r : Association}

/-- The join along an association of the root. -/
def firstJoin (root : Entity) (attr : String) (target : Entity) : JoinNode :=
  ⟨0, .root, root.name, attr, attr, .entity target.name⟩

/-- Whether the identifier of what the first join leads to is null. -/
def leadsNowhere (target : Entity) : Comparison :=
  ⟨.attr ⟨.join 0, .attribute target.id target.idColumn⟩, .isNull, false, false, .none⟩

theorem resolve_association (hroot : s.entity name = .ok root) (segment : Path.IsSegment attr)
    (ha : root.attribute? attr = some a) (kind : a.kind = .association r)
    (htarget : s.entity r.target = .ok target) :
    s.resolve name attr [] =
      (.ok ⟨⟨.join 0, .attribute target.id target.idColumn⟩, target.idType, true⟩,
        [firstJoin root attr target]) := by
  have routed : s.route attr root "" [attr] =
      ([⟨attr, root.name, attr, .entity target.name⟩],
        .ok ⟨.attribute target.id target.idColumn, target.idType, true⟩) := by
    rw [route, ha]
    simp only [kind, htarget, Path.extend_empty, ← name_idAttribute]
    rfl
  unfold resolve
  dsimp only
  rw [Path.segments_of_isSegment segment, hroot]
  simp [routed, segment.1]
  rfl

theorem compileFilter_isNull {nullSafe : Bool} (hroot : s.entity name = .ok root)
    (plain : IsPlainName attr) (ha : root.attribute? attr = some a)
    (kind : a.kind = .association r) (htarget : s.entity r.target = .ok target) :
    s.compileFilter nullSafe (attr ++ "::isnull") name =
      .ok (.ofPredicate (some (.leaf (leadsNowhere target))) [firstJoin root attr target]) := by
  have scanned := plain.scan_isNull
  have words : Formula.ofWords [.word 0 (IsPlainName.word attr)] =
      .ok (some (.leaf (IsPlainName.word attr))) :=
    Formula.IsSigned.ofWords ⟨_, .refl, .plain (.word 0 (IsPlainName.logical?_word attr))⟩
  have resolved := resolve_association hroot plain.segment ha kind htarget
  have truth : ScalarType.boolean.coerce attr "true" = .ok (.bool true) := by
    rfl
  refine compileFilter_word hroot scanned words (compileWord_eq_ok plain.parse_isNull ?_)
  refine Resolving.bind_eq_ok.mpr ⟨_, _, Resolving.bind_eq_ok.mpr ⟨_, _, resolved, rfl⟩, ?_⟩
  refine Resolving.guard_eq_ok.mpr ⟨by simp [Operator.isPattern], ?_⟩
  refine Resolving.bind_eq_ok.mpr ⟨(.none, false), [firstJoin root attr target], ?_, ?_⟩
  · exact Resolving.bind_eq_ok.mpr ⟨_, _, Resolving.lift_eq_ok.mpr ⟨truth, rfl⟩, rfl⟩
  · refine Resolving.pure_eq_ok.mpr ⟨?_, rfl⟩
    simp [leadsNowhere]

end Schema

end EntityQuery
