import EntityQuery.Proofs.Outcome
import EntityQuery.Schema.Declaration
import EntityQuery.Schema.Projection

/-!
# Looking things up in a schema

Each lookup gives a value exactly if the names that it is given stand for something
(`entity_eq_ok_iff`, `attributeOf_eq_ok_iff`). In a schema that has been declared no association
leads out of the schema (`closed_of_declare`), so that the columns read of the rows of an entity are
known for every entity (`Closed.succeeds_projection`).
-/

namespace EntityQuery

theorem Entity.name_of_attribute? {e : Entity} {name : String} {a : Attribute}
    (h : e.attribute? name = some a) : a.name = name := by
  simpa using List.find?_some h

theorem Entity.mem_of_attribute? {e : Entity} {name : String} {a : Attribute}
    (h : e.attribute? name = some a) : a ∈ e.attributes := List.mem_of_find?_eq_some h

theorem Attribute.association?_eq_some_iff {a : Attribute} {r : Association} :
    a.association? = some r ↔ a.kind = .association r := by
  unfold Attribute.association?
  cases a.kind <;> simp

namespace Schema

variable {s : Schema} {owner attr : String}

theorem entity_eq_ok_iff {name : String} {e : Entity} :
    s.entity name = .ok e ↔ s.entity? name = some e := by
  unfold entity
  cases s.entity? name <;> simp

theorem name_of_entity {name : String} {e : Entity} (h : s.entity name = .ok e) :
    e.name = name := by
  simpa using List.find?_some (entity_eq_ok_iff.mp h)

theorem attributeOf_eq_ok_iff {a : Attribute} :
    s.attributeOf owner attr = .ok a ↔
      ∃ e, s.entity owner = .ok e ∧ e.attribute? attr = some a := by
  unfold attributeOf
  simp only [bind_eq_ok]
  refine exists_congr fun e => and_congr_right fun _ => ?_
  cases e.attribute? attr <;> simp

theorem association_eq_ok_iff {r : Association} :
    s.association owner attr = .ok r ↔
      ∃ a, s.attributeOf owner attr = .ok a ∧ a.kind = .association r := by
  unfold association
  simp only [bind_eq_ok]
  refine exists_congr fun a => and_congr_right fun _ => ?_
  rw [← Attribute.association?_eq_some_iff]
  cases a.association? <;> simp

/-! ## Declared schemas -/

/-- Every association leads to an entity of the schema. -/
def Closed (s : Schema) : Prop :=
  ∀ e ∈ s.entities, ∀ a ∈ e.attributes, ∀ r, a.kind = .association r →
    Succeeds (s.entity r.target)

theorem closed_of_declare {entities : List EntityDeclaration} {s : Schema}
    (h : declare entities = .ok s) : s.Closed := by
  obtain ⟨known, _, h⟩ := bind_eq_ok.mp h
  dsimp only at h
  split at h
  · cases h
  · next stray =>
    cases h
    intro e he a ha r hr
    have he := List.findSome?_eq_none_iff.mp stray e he
    have ha := List.findSome?_eq_none_iff.mp he a ha
    rw [Attribute.association?_eq_some_iff.mpr hr] at ha
    cases ht : Schema.entity? ⟨known⟩ r.target with
    | none => simp [ht] at ha
    | some t => exact ⟨t, entity_eq_ok_iff.mpr ht⟩

/-- The target of an association that is found is found as well. -/
theorem Closed.succeeds_target (closed : s.Closed) {r : Association}
    (h : s.association owner attr = .ok r) : Succeeds (s.entity r.target) := by
  obtain ⟨a, ha, hr⟩ := association_eq_ok_iff.mp h
  obtain ⟨e, he, ha⟩ := attributeOf_eq_ok_iff.mp ha
  have he := List.mem_of_find?_eq_some (entity_eq_ok_iff.mp he)
  exact closed e he a (Entity.mem_of_attribute? ha) r hr

theorem Closed.succeeds_projection (closed : s.Closed) {name : String} {e : Entity}
    (h : s.entity name = .ok e) : Succeeds (s.projection e) := by
  have he := List.mem_of_find?_eq_some (entity_eq_ok_iff.mp h)
  unfold projection
  rw [succeeds_bind_of_forall fun _ _ => succeeds_pure _, succeeds_mapM_iff]
  intro a ha
  have ha := List.mem_of_mem_filter ha
  unfold referenceColumn
  split
  · next r _ hr _ =>
    rw [succeeds_bind_of_forall fun _ _ => succeeds_pure _]
    exact closed e he a ha r (Attribute.association?_eq_some_iff.mp hr)
  · exact succeeds_ok _

end Schema

end EntityQuery
