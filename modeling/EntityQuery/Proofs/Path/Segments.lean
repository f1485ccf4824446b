import EntityQuery.Path
import Mathlib.Data.List.Induction

/-!
# Segments of a path

A path is the texts of its segments with dots between them. Segments that are not empty and hold no
dot (`IsSegment`) can be read back from the path that they make (`segments_ofSegments`), so that
**two such lists of segments never make the same path** (`ofSegments_inj`); and a path of which no
segment is empty is made of its segments (`ofSegments_segments`).
-/

namespace EntityQuery.Path

/-- A text that can stand between the dots of a path. -/
def IsSegment (segment : String) : Prop := segment ≠ "" ∧ '.' ∉ segment.toList

/-- The path that goes through these segments. -/
def ofSegments (segs : List String) : String := segs.foldl extend ""

@[simp] theorem ofSegments_nil : ofSegments [] = "" := rfl

@[simp] theorem ofSegments_concat (segs : List String) (segment : String) :
    ofSegments (segs ++ [segment]) = extend (ofSegments segs) segment := by
  simp [ofSegments]

@[simp] theorem extend_empty (segment : String) : extend "" segment = segment := rfl

theorem extend_of_ne {path segment : String} (h : path ≠ "") :
    extend path segment = path ++ "." ++ segment := by
  rw [extend, if_neg]
  rwa [String.isEmpty_iff]

theorem extend_ne_empty {path segment : String} (h : segment ≠ "") : extend path segment ≠ "" := by
  by_cases hp : path = ""
  · rwa [hp, extend_empty]
  · rw [extend_of_ne hp]
    simp [hp]

theorem ofSegments_eq_empty_iff {segs : List String} (h : ∀ x ∈ segs, IsSegment x) :
    ofSegments segs = "" ↔ segs = [] := by
  constructor
  · intro he
    rcases List.eq_nil_or_concat segs with rfl | ⟨init, last, rfl⟩
    · rfl
    · rw [List.concat_eq_append] at h he
      rw [ofSegments_concat] at he
      exact absurd he (extend_ne_empty (h last (by simp)).1)
  · rintro rfl
    rfl

theorem segments_of_isSegment {segment : String} (h : IsSegment segment) :
    segments segment = [segment] := by
  rw [segments, List.splitOn_eq_singleton h.2]
  simp

theorem segments_extend {path segment : String} (hp : path ≠ "") (h : IsSegment segment) :
    segments (extend path segment) = segments path ++ [segment] := by
  rw [extend_of_ne hp, ← segments_of_isSegment h]
  simp only [segments, String.toList_append, ← List.map_append]
  rw [← List.splitOn_append_cons_self, show ".".toList = ['.'] from rfl]
  simp

/-- The segments of a path can be read back from it. -/
theorem segments_ofSegments {segs : List String} (h : ∀ x ∈ segs, IsSegment x)
    (ne : segs ≠ []) : segments (ofSegments segs) = segs := by
  induction segs using List.reverseRecOn with
  | nil => exact absurd rfl ne
  | append_singleton init last ih =>
    have hi : ∀ x ∈ init, IsSegment x := fun x hx => h x (List.mem_append_left _ hx)
    have hl : IsSegment last := h last (by simp)
    rw [ofSegments_concat]
    by_cases hn : init = []
    · subst hn
      exact segments_of_isSegment hl
    · rw [segments_extend (mt (ofSegments_eq_empty_iff hi).mp hn) hl, ih hi hn]

theorem ofSegments_inj {a b : List String} (ha : ∀ x ∈ a, IsSegment x)
    (hb : ∀ x ∈ b, IsSegment x) (h : ofSegments a = ofSegments b) : a = b := by
  by_cases hn : a = []
  · subst hn
    exact ((ofSegments_eq_empty_iff hb).mp h.symm).symm
  · have hm : b ≠ [] := by
      rintro rfl
      exact hn ((ofSegments_eq_empty_iff ha).mp h)
    rw [← segments_ofSegments ha hn, h, segments_ofSegments hb hm]

/-- A path is determined by its segments. -/
theorem segments_injective : Function.Injective segments := by
  intro a b h
  have parts : a.toList.splitOn '.' = b.toList.splitOn '.' :=
    (List.map_inj_right fun _ _ => String.ofList_injective).mp h
  have whole (path : String) : ['.'].intercalate (path.toList.splitOn '.') = path.toList :=
    List.intercalate_splitOn '.'
  rw [← String.toList_inj, ← whole a, parts, whole b]

theorem not_mem_of_mem_splitOn {c : Char} {s part : List Char} (h : part ∈ s.splitOn c) :
    c ∉ part := by
  induction s generalizing part with
  | nil => simp_all
  | cons d s ih =>
    rw [List.splitOn_cons_eq_if_modifyHead] at h
    obtain ⟨first, rest, hs⟩ := List.exists_cons_of_ne_nil (List.splitOn_ne_nil c s)
    have hfirst : c ∉ first := ih (hs ▸ List.mem_cons_self)
    split at h
    · rcases List.mem_cons.mp h with rfl | h
      · exact List.not_mem_nil
      · exact ih h
    · next hd =>
      rw [hs, List.modifyHead_cons] at h
      rcases List.mem_cons.mp h with rfl | h
      · simp only [beq_iff_eq] at hd
        simp [hfirst, Ne.symm hd]
      · exact ih (hs ▸ List.mem_cons_of_mem _ h)

/-- No segment of a path holds a dot. -/
theorem isSegment_of_mem_segments {path segment : String} (h : segment ∈ segments path)
    (ne : segment ≠ "") : IsSegment segment := by
  refine ⟨ne, ?_⟩
  obtain ⟨cs, hc, rfl⟩ := List.mem_map.mp h
  rw [String.toList_ofList]
  exact not_mem_of_mem_splitOn hc

/-- A path of which no segment is empty is made of its segments. -/
theorem ofSegments_segments {path : String} (h : "" ∉ segments path) :
    ofSegments (segments path) = path := by
  have proper : ∀ x ∈ segments path, IsSegment x := fun x hx =>
    isSegment_of_mem_segments hx fun empty => h (empty ▸ hx)
  have ne : segments path ≠ [] := by simp [segments, List.splitOn_ne_nil]
  exact segments_injective (segments_ofSegments proper ne)

end EntityQuery.Path
