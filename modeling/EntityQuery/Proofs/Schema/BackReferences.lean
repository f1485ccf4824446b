import EntityQuery.Proofs.Schema.Identifiers
import EntityQuery.Schema.Link

/-!
# Associations that lead back

An association that is stored on the other side is matched through the one that leads back. That one
is an association of the target with the owner, and **its own link says the same from its end**
(`LeadsBack.reverses`): where the target keeps the identifier of its owner, it is followed by that
identifier, and where there is a table between the two, it goes along the same table with the
columns exchanged. `Link.Reverses` says so of two links, and `LeadsBack` of two associations as they
are declared; the link of either is read off its declaration (`link_of_foreignKey`,
`link_of_joinTable`).
-/

namespace EntityQuery

/-- The second link, of an association `back`, tells the same as the first from the other end. -/
inductive Link.Reverses (back : String) : Link → Link → Prop
  | identity (column : String) : Reverses back (.foreignKey back column) .identity
  | joinTable (t : JoinTable) : Reverses back (.joinTable t) (.joinTable t.flipped)

namespace Schema

variable {s : Schema} {owner attr : String}

theorem backReference_eq_ok {back : Attribute} (h : s.backReference owner attr = .ok back) :
    ∃ r target r', s.association owner attr = .ok r ∧ s.entity r.target = .ok target ∧
      back ∈ target.attributes ∧ back.kind = .association r' ∧ r'.target = owner := by
  obtain ⟨r, hr, h⟩ := bind_eq_ok.mp h
  obtain ⟨target, htarget, h⟩ := bind_eq_ok.mp h
  suffices found : back ∈ target.attributes ∧
      ∃ r', back.kind = .association r' ∧ r'.target = owner by
    obtain ⟨hback, r', kind, leads⟩ := found
    exact ⟨r, target, r', hr, htarget, hback, kind, leads⟩
  split at h
  · split at h
    · cases h
    · next declared =>
      split at h
      · next leads =>
        cases h
        obtain ⟨r', hr', leads⟩ := (Option.any_eq_true _ _).mp leads
        exact ⟨Entity.mem_of_attribute? declared, r', Attribute.association?_eq_some_iff.mp hr',
          of_decide_eq_true leads⟩
      · cases h
  · split at h
    · next only =>
      cases h
      have candidate : back ∈ backCandidates owner attr r.kind target :=
        only ▸ List.mem_singleton_self back
      obtain ⟨hback, fits⟩ := List.mem_filter.mp candidate
      split at fits
      · next r' hr' =>
        simp only [Bool.and_eq_true, decide_eq_true_eq] at fits
        exact ⟨hback, r', Attribute.association?_eq_some_iff.mp hr', fits.1.1⟩
      · cases fits
    · cases h
    · cases h

/-- Where the names of attributes are distinct, the association that leads back is found by its
name. -/
theorem association_of_backReference (distinct : ∀ e ∈ s.entities, e.Distinct) {back : Attribute}
    (h : s.backReference owner attr = .ok back) :
    ∃ r r', s.association owner attr = .ok r ∧ s.association r.target back.name = .ok r' ∧
      back.kind = .association r' ∧ r'.target = owner := by
  obtain ⟨r, target, r', hr, htarget, hback, kind, leads⟩ := backReference_eq_ok h
  have known := List.mem_of_find?_eq_some (entity_eq_ok_iff.mp htarget)
  have named := (distinct target known).attribute? hback
  have found := attributeOf_eq_ok_iff.mpr ⟨target, htarget, named⟩
  exact ⟨r, r', hr, association_eq_ok_iff.mpr ⟨back, found, kind⟩, kind, leads⟩

theorem link_of_isReference {r : Association} (association : s.association owner attr = .ok r)
    (reference : r.isReference = true) : s.link owner attr = .ok .identity := by
  obtain ⟨kind, _, _, owning, _, _⟩ := r
  unfold link
  rw [association, ok_bind]
  cases kind with
  | manyToOne => rfl
  | oneToOne => exact if_pos reference
  | oneToMany | manyToMany => simp [Association.isReference, RelationKind.isToMany] at reference

/-- Where the targets keep the identifier of their owner, the association by which they do is
followed by it. -/
theorem link_of_foreignKey (distinct : ∀ e ∈ s.entities, e.Distinct) {back column : String}
    (h : s.link owner attr = .ok (.foreignKey back column)) :
    ∃ r r', s.association owner attr = .ok r ∧ s.association r.target back = .ok r' ∧
      r'.target = owner ∧ s.link r.target back = .ok .identity := by
  have resolved : ∃ a, s.backReference owner attr = .ok a ∧ a.name = back ∧
      a.foreignKeyColumn? = some column := by
    obtain ⟨r, hr, h⟩ := bind_eq_ok.mp h
    split at h
    · cases h
    · obtain ⟨t, _, h⟩ := bind_eq_ok.mp h
      cases h
    all_goals
      split at h
      · cases h
      · obtain ⟨a, ha, h⟩ := bind_eq_ok.mp h
        obtain ⟨column', hcolumn, h⟩ := bind_eq_ok.mp h
        cases h
        obtain ⟨a', ha', hcolumn⟩ := bind_eq_ok.mp hcolumn
        cases ha.symm.trans ha'
        refine ⟨a, ha, rfl, ?_⟩
        split at hcolumn
        · next known =>
          cases hcolumn
          exact known
        · obtain ⟨_, _, hcolumn⟩ := bind_eq_ok.mp hcolumn
          cases hcolumn
  obtain ⟨a, ha, rfl, column⟩ := resolved
  obtain ⟨r, r', hr, hr', kind, leads⟩ := association_of_backReference distinct ha
  have reference : r'.isReference = true := by
    unfold Attribute.foreignKeyColumn? at column
    rw [Attribute.association?_eq_some_iff.mpr kind] at column
    by_contra no
    simp [no] at column
  exact ⟨r, r', hr, hr', leads, link_of_isReference hr' reference⟩

/-! ## Tables between two entities -/

/-- A table is named by the association itself, or else by the one that leads back. -/
theorem joinTable_eq_ok {t : JoinTable} (h : s.joinTable owner attr = .ok t) :
    ∃ r, s.association owner attr = .ok r ∧ r.kind = .manyToMany ∧
      (r.joinTable = some t ∨ r.joinTable = none ∧ ∃ back r',
        s.backReference owner attr = .ok back ∧ back.kind = .association r' ∧
        r'.joinTable = some t.flipped) := by
  obtain ⟨r, hr, h⟩ := bind_eq_ok.mp h
  split at h
  · cases h
  · next many =>
    refine ⟨r, hr, not_not.mp many, ?_⟩
    split at h
    · next own =>
      cases h
      exact .inl own
    · next none =>
      obtain ⟨back, hback, h⟩ := bind_eq_ok.mp h
      split at h
      · next t' found =>
        cases h
        obtain ⟨r', hr', ht⟩ := Option.bind_eq_some_iff.mp found
        exact .inr ⟨none, back, r', hback, Attribute.association?_eq_some_iff.mp hr', ht⟩
      · cases h

theorem link_of_joinTable {t : JoinTable} (h : s.joinTable owner attr = .ok t) :
    s.link owner attr = .ok (.joinTable t) := by
  obtain ⟨r, hr, many, -⟩ := joinTable_eq_ok h
  unfold link
  rw [hr, ok_bind, many]
  dsimp only
  rw [h]
  rfl

/-- The association `back` of the target is declared to lead back along the other one, which names
the table between the two. -/
structure MappedBy (s : Schema) (owner attr : String) (r : Association) (back : String)
    (r' : Association) (t : JoinTable) : Prop where
  association : s.association owner attr = .ok r
  many : r.kind = .manyToMany
  table : r.joinTable = some t
  back : s.association r.target back = .ok r'
  manyBack : r'.kind = .manyToMany
  target : r'.target = owner
  inverse : r'.inverse = some attr
  tableless : r'.joinTable = none

namespace MappedBy

variable {r r' : Association} {back : String} {t : JoinTable}
  (mapped : s.MappedBy owner attr r back r' t)

include mapped

theorem joinTable : s.joinTable owner attr = .ok t := by
  unfold Schema.joinTable
  rw [mapped.association, ok_bind, if_neg (not_not_intro mapped.many), mapped.table]

theorem joinTable_back : s.joinTable r.target back = .ok t.flipped := by
  obtain ⟨a, ha, kind⟩ := association_eq_ok_iff.mp mapped.association
  obtain ⟨e, he, found⟩ := attributeOf_eq_ok_iff.mp ha
  have association := Attribute.association?_eq_some_iff.mpr kind
  have leads : s.backReference r.target back = .ok a := by
    unfold backReference
    rw [mapped.back, ok_bind, mapped.target, he, ok_bind, mapped.inverse]
    dsimp only
    rw [found]
    simp [association]
  unfold Schema.joinTable
  rw [mapped.back, ok_bind, if_neg (not_not_intro mapped.manyBack), mapped.tableless]
  dsimp only
  rw [leads, ok_bind, association]
  simp [mapped.table]

end MappedBy

/-! ## Either end -/

/-- The association `back` of the target leads the other way: the target keeps the identifier of its
owner for it, or it is declared to lead back along a table between the two. -/
inductive LeadsBack (s : Schema) (owner attr : String) (r : Association) (back : String) : Prop
  | column {column : String} (association : s.association owner attr = .ok r)
      (linked : s.link owner attr = .ok (.foreignKey back column))
  | table {r' : Association} {t : JoinTable} (mapped : s.MappedBy owner attr r back r' t)

/-- Both ends have a link, and the two links tell the same. -/
theorem LeadsBack.reverses (distinct : ∀ e ∈ s.entities, e.Distinct) {r : Association}
    {back : String} (leads : s.LeadsBack owner attr r back) :
    ∃ l r' l', s.association owner attr = .ok r ∧ s.link owner attr = .ok l ∧
      s.association r.target back = .ok r' ∧ r'.target = owner ∧
      s.link r.target back = .ok l' ∧ l.Reverses back l' := by
  cases leads with
  | @column column association linked =>
    obtain ⟨r₁, r', association', hr', target, reference⟩ := link_of_foreignKey distinct linked
    cases association.symm.trans association'
    exact ⟨_, r', _, association, linked, hr', target, reference, .identity column⟩
  | @table r' t mapped =>
    exact ⟨_, r', _, mapped.association, link_of_joinTable mapped.joinTable, mapped.back,
      mapped.target, link_of_joinTable mapped.joinTable_back, .joinTable t⟩

end Schema

end EntityQuery
