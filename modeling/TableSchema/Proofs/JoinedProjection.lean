import TableSchema.Proofs.NarrowedLookup
import TableSchema.Proofs.Projection
import TableSchema.Proofs.Survivors

/-!
# Projections join

More numbers can make a projection fail: the keys of a map are refused without its values, and a
list or a map by its own number is never allowed.  But two projections that both succeed can be had
as one (`Schema.project_join`).  Which fields are kept by themselves is decided for each on its own,
so what is kept by the joint projection is what either of the two keeps.  A map that neither of them
tears has two sides that agree for the one and for the other, and then they agree for both together.
-/

namespace TableSchema

/-! ## Keeping what either keeps -/

section Either
variable {kept kept' joint : ColumnType → Hop → Bool}

theorem ColumnType.finds_or (h : ∀ t hop, joint t hop = (kept t hop || kept' t hop))
    (t : ColumnType) : t.finds joint = (t.finds kept || t.finds kept') := by
  rw [Bool.eq_iff_iff]
  simp only [finds, h, List.any_eq_true, Bool.or_eq_true, and_or_left, exists_or]

theorem Hop.leads_or (h : ∀ t hop, joint t hop = (kept t hop || kept' t hop)) (t : ColumnType)
    (hop : Hop) : hop.leads joint t = (hop.leads kept t || hop.leads kept' t) := by
  rw [leads, leads, leads, h, ColumnType.finds_or h]
  ac_rfl

/-- **A map is torn by two together only if one of them tears it.** -/
theorem ColumnType.isHalf_or (h : ∀ t hop, joint t hop = (kept t hop || kept' t hop))
    {t : ColumnType} (hhalf : t.isHalf joint = true) :
    t.isHalf kept = true ∨ t.isHalf kept' = true := by
  cases t with
  | map keyId key valueId value optional =>
    rw [← Bool.or_eq_true_iff]
    by_contra hnone
    obtain ⟨hone, hother⟩ := Bool.or_eq_false_iff.1 (Bool.eq_false_iff.2 hnone)
    refine bne_iff_ne.1 hhalf ?_
    rw [Hop.leads_or h, Hop.leads_or h, bne_eq_false_iff_eq.1 hone, bne_eq_false_iff_eq.1 hother]
  | _ => cases hhalf

end Either

section Join
variable {ids ids' both : List FieldId} (hboth : ∀ id, id ∈ both ↔ id ∈ ids ∨ id ∈ ids')
include hboth

theorem Hop.keptItself_join (h : Hop) :
    h.keptItself both = (h.keptItself ids || h.keptItself ids') := by
  rw [keptItself, keptItself, keptItself, ← Bool.and_or_distrib_right]
  simp only [hboth, Bool.decide_or]

/-- A list or a map that two together ask for is asked for by one of them. -/
theorem Place.IsRefused.of_join {p : Place} (h : p.IsRefused both) :
    p.IsRefused ids ∨ p.IsRefused ids' :=
  ((hboth p.id).1 h.1).imp (fun hid => ⟨hid, h.2⟩) fun hid => ⟨hid, h.2⟩

theorem Place.IsTorn.of_join {p : Place} (h : p.IsTorn both) : p.IsTorn ids ∨ p.IsTorn ids' :=
  ColumnType.isHalf_or (fun _ hop => hop.keptItself_join hboth) h

/-- **What two keep together is what either keeps.** -/
theorem Selection.keeps_join (t : ColumnType) (pos : List Nat) :
    keeps ⟨both, .exact⟩ t pos = (keeps ⟨ids, .exact⟩ t pos || keeps ⟨ids', .exact⟩ t pos) := by
  have hkept (parent : ColumnType) (h : Hop) : kept ⟨both, .exact⟩ parent h =
      (kept ⟨ids, .exact⟩ parent h || kept ⟨ids', .exact⟩ parent h) := h.keptItself_join hboth
  rw [Bool.eq_iff_iff]
  simp only [keeps, inside_exact, Bool.or_false, hkept, List.any_eq_true, Bool.or_eq_true,
    Bool.and_eq_true, or_and_right, and_or_left, exists_or]

end Join

/-- The numbers left in a narrowed schema are those of the fields that are kept. -/
theorem Derived.NarrowsTo.exists_id_iff {d : Derived} {s : Schema} {keep : List Nat → Bool}
    (h : d.NarrowsTo s keep) (id : FieldId) :
    (∃ q ∈ d.schema.root.places, q.id = id) ↔
      ∃ p ∈ s.root.places, p.id = id ∧ keep p.position = true := by
  constructor
  · rintro ⟨q, hq, hid⟩
    obtain ⟨p, hp, hkeep, houtline⟩ := h.exists_source hq
    exact ⟨p, hp, (Place.id_eq_of_outline_eq houtline).trans hid, hkeep⟩
  · rintro ⟨p, hp, hid, hkeep⟩
    obtain ⟨q, hq, houtline, -⟩ := h.exists_place hp hkeep
    exact ⟨q, hq, (Place.id_eq_of_outline_eq houtline).trans hid⟩

namespace Schema
variable {s : Schema} {ids ids' both : List FieldId} {d d' : Derived}

/-- **Two projections that succeed join.**  If both succeed then so does the projection to the
numbers of the two together.  A field of the source survives in it just if it survives in one of the
two, and it is the source narrowed to these fields.  So the numbers that are left are those that are
left in one of the two. -/
theorem project_join (hboth : ∀ id, id ∈ both ↔ id ∈ ids ∨ id ∈ ids')
    (h : s.project ids = .ok d) (h' : s.project ids' = .ok d') :
    ∃ joint, s.project both = .ok joint ∧
      (∀ p ∈ s.root.places,
        joint.survives p.position = (d.survives p.position || d'.survives p.position)) ∧
      d.NarrowsTo s d.survives ∧ d'.NarrowsTo s d'.survives ∧
      joint.NarrowsTo s (fun pos => d.survives pos || d'.survives pos) ∧
      ∀ id, (∃ q ∈ joint.schema.root.places, q.id = id) ↔
        (∃ q ∈ d.schema.root.places, q.id = id) ∨ ∃ q ∈ d'.schema.root.places, q.id = id := by
  have hnone {e : SchemaError} : s.project both ≠ .error e := by
    intro he
    -- A failure of the two together would be a failure of one of them.
    have hfails : (∃ e, s.project ids = .error e) ∨ ∃ e, s.project ids' = .error e := by
      rw [exists_project_eq_error_iff, exists_project_eq_error_iff]
      rcases exists_project_eq_error_iff.1 ⟨e, he⟩ with ⟨p, hp, hask⟩ | ⟨p, hp, htorn⟩
      · exact (hask.of_join hboth).imp (fun h => .inl ⟨p, hp, h⟩) fun h => .inl ⟨p, hp, h⟩
      · exact (htorn.of_join hboth).imp (fun h => .inr ⟨p, hp, h⟩) fun h => .inr ⟨p, hp, h⟩
    rw [h, h'] at hfails
    simp at hfails
  cases hjoint : s.project both with
  | error e => exact absurd hjoint hnone
  | ok joint =>
    have hsurvives (p : Place) (hp : p ∈ s.root.places) :
        joint.survives p.position = (d.survives p.position || d'.survives p.position) := by
      rw [survives_eq_keeps hjoint hp, survives_eq_keeps h hp, survives_eq_keeps h' hp,
        Selection.keeps_join hboth]
    have hnarrow := narrowsTo_survives h
    have hnarrow' := narrowsTo_survives h'
    have hnarrows : joint.NarrowsTo s fun pos => d.survives pos || d'.survives pos :=
      (narrowsTo_survives hjoint).congr hsurvives
    refine ⟨joint, rfl, hsurvives, hnarrow, hnarrow', hnarrows, fun id => ?_⟩
    rw [hnarrows.exists_id_iff, hnarrow.exists_id_iff, hnarrow'.exists_id_iff]
    simp only [Bool.or_eq_true, and_or_left, exists_or]

/-- The keys of a map with a leaf of the structs in it, and the keys with a leaf further down: the
keys alone could not be had. -/
theorem project_join_mapOfStructs :
    ∃ d d' joint, (⟨none, Samples.mapOfStructs⟩ : Schema).project [7, 5] = .ok d ∧
      (⟨none, Samples.mapOfStructs⟩ : Schema).project [1, 7] = .ok d' ∧
      (⟨none, Samples.mapOfStructs⟩ : Schema).project ([7, 5] ++ [1, 7]) = .ok joint ∧
      ∀ p ∈ (root ⟨none, Samples.mapOfStructs⟩).places,
        joint.survives p.position = (d.survives p.position || d'.survives p.position) := by
  obtain ⟨d, h⟩ : ∃ d, (⟨none, Samples.mapOfStructs⟩ : Schema).project [7, 5] = .ok d := ⟨_, rfl⟩
  obtain ⟨d', h'⟩ : ∃ d, (⟨none, Samples.mapOfStructs⟩ : Schema).project [1, 7] = .ok d := ⟨_, rfl⟩
  obtain ⟨joint, hjoint, hsurvives, -⟩ := project_join (fun _ => List.mem_append) h h'
  exact ⟨d, d', joint, h, h', hjoint, hsurvives⟩

end Schema
end TableSchema
