import TableSchema.Proofs.Pruned
import TableSchema.Schema

/-!
# Schemas narrowed to some of their fields

`Derived.NarrowsTo` is the plain meaning of a narrowed schema: its columns are those of the source
restricted to the kept positions, and its places are the kept places of the source, in order.  What
pruning makes of a schema narrows it to the positions that the selection keeps
(`Schema.narrowsTo_of_prune`), and pruning fails with the first failure from the bottom up
(`Schema.prune_eq_error_iff`).
-/

namespace TableSchema

/-- **A schema narrowed to the fields of its source at the kept positions.** -/
structure Derived.NarrowsTo (d : Derived) (s : Schema) (keep : List Nat → Bool) : Prop where
  /-- It has the number of its source. -/
  schemaId_eq : d.schema.schemaId = s.schemaId
  /-- Its columns are those of the source, restricted. -/
  root_eq : d.schema.root = s.root.keepOnly keep
  /-- Its places are the kept ones of the source in the same order.  All slots on the way to each
  have the same role, number, name, mark, note and kind of type, and the field is the same but for
  what was dropped below it. -/
  places_eq : d.schema.root.places.map (fun q => (q.outline, q.field)) =
    (s.root.places.filter fun p => keep p.position).map fun p => (p.outline, p.remnant keep)
  /-- A struct of which no field is kept is left empty. -/
  struct_eq_empty : ∀ p ∈ s.root.places, p.field.type.isStruct = true →
    (∀ q ∈ s.root.places, (∃ i, q.position = p.position ++ [i]) → keep q.position = false) →
    p.remnant keep = p.field.withType (.struct [])
  /-- If nothing is kept there are no columns. -/
  eq_empty : (∀ p ∈ s.root.places, keep p.position = false) → d.schema = ⟨s.schemaId, []⟩

/-- A kept place is still there, with what is kept of its field. -/
theorem Derived.NarrowsTo.exists_place {d : Derived} {s : Schema} {keep : List Nat → Bool}
    (h : d.NarrowsTo s keep) {p : Place} (hp : p ∈ s.root.places) (hkeep : keep p.position = true) :
    ∃ q ∈ d.schema.root.places, q.outline = p.outline ∧ q.field = p.remnant keep := by
  have hmem : (p.outline, p.remnant keep) ∈
      d.schema.root.places.map fun q => (q.outline, q.field) := by
    rw [h.places_eq]
    exact List.mem_map_of_mem (List.mem_filter.2 ⟨hp, hkeep⟩)
  obtain ⟨q, hq, hsame⟩ := List.mem_map.1 hmem
  exact ⟨q, hq, Prod.mk.inj hsame⟩

/-- A place below which everything is kept is still there with the field that it had. -/
theorem Derived.NarrowsTo.exists_place_of_all {d : Derived} {s : Schema} {keep : List Nat → Bool}
    (h : d.NarrowsTo s keep) {p : Place} (hp : p ∈ s.root.places)
    (hkeep : ∀ pos, keep (p.position ++ pos) = true) :
    ∃ q ∈ d.schema.root.places, q.outline = p.outline ∧ q.field = p.field := by
  obtain ⟨q, hq, houtline, hfield⟩ := h.exists_place hp (by simpa using hkeep [])
  exact ⟨q, hq, houtline, hfield.trans (Place.remnant_eq_field hkeep)⟩

namespace Schema

/-- What is restricted to positions that can be kept narrows its source to them. -/
theorem narrowsTo_of_keepable {s : Schema} {d : Derived} {keep : List Nat → Bool}
    (hid : d.schema.schemaId = s.schemaId) (hroot : d.schema.root = s.root.keepOnly keep)
    (hkeep : s.root.Keepable keep) : d.NarrowsTo s keep where
  schemaId_eq := hid
  root_eq := hroot
  places_eq := by
    rw [hroot]
    exact hkeep.map_outline_places
  struct_eq_empty p hp hstruct hnone := by
    have hslots (i : Nat) (h : Hop) (hi : p.field.type.hops[i]? = some h) :
        keep (p.position ++ [i]) = false := by
      obtain ⟨q, hq, hpos, -⟩ := ColumnType.exists_place_append hp (ColumnType.child_mem_places hi)
      rw [← Place.position_child i h, ← hpos]
      exact hnone q hq ⟨i, hpos⟩
    rw [Place.remnant]
    cases htype : p.field.type with
    | struct fields =>
      rw [htype] at hslots
      rw [ColumnType.keepOnly_struct_of_none hslots]
    | _ =>
      rw [htype] at hstruct
      cases hstruct
  eq_empty hnone := by
    have hfields : d.schema.root = .struct [] := by
      rw [hroot]
      exact ColumnType.keepOnly_struct_of_none fun i hop hi =>
        hnone _ (ColumnType.child_mem_places hi)
    have hnil : d.schema.fields = [] := ColumnType.struct.inj hfields
    rw [← hid, ← hnil]

/-- A cut of the columns of a schema leaves columns. -/
theorem exists_restrict_root_eq_struct (s : Schema) (c : Cut) :
    ∃ fields, s.root.restrict c = .struct fields := by
  cases c with
  | whole => exact ⟨s.fields, ColumnType.restrict_whole _⟩
  | part slots => exact ⟨_, by rw [root, ColumnType.restrict]⟩

/-- **Pruning a schema that succeeds narrows it to the positions that the selection keeps.** -/
theorem narrowsTo_of_prune {s : Schema} {sel : Selection} {d : Derived} (h : s.prune sel = .ok d) :
    d.NarrowsTo s (sel.keeps s.root) := by
  obtain ⟨cut, hcut, h⟩ := bind_eq_ok_iff.1 h
  have hsettles := ColumnType.settles_of_prune hcut
  cases cut with
  | none =>
    cases h
    have hnone := Selection.keeps_of_finds_eq_false hsettles.isSome_eq.symm
    have hbare : Cut.bare.Leaves s.root (sel.keeps s.root) :=
      Cut.bare_leaves rfl fun p _ => hnone p.position
    refine narrowsTo_of_keepable rfl ?_ hbare.keepable
    rw [← hbare.restrict_eq, root, root, ColumnType.restrict_bare]
  | some c =>
    obtain ⟨fields, hfields⟩ := s.exists_restrict_root_eq_struct c
    have hleaves := hsettles.leaves c rfl
    simp only [hfields, ofRoot_struct] at h
    cases h
    exact narrowsTo_of_keepable rfl (hfields.symm.trans hleaves.restrict_eq) hleaves.keepable

/-- **Pruning a schema fails with the first failure from the bottom up.** -/
theorem prune_eq_error_iff {s : Schema} {sel : Selection} {e : SchemaError} :
    s.prune sel = .error e ↔ s.root.placesUp.findSome? (sel.fault s.root) = some e := by
  have hroot : failure? (s.prune sel) = failure? (s.root.prune sel) := by
    rw [prune]
    cases s.root.prune sel with
    | error e => rfl
    | ok cut =>
      cases cut with
      | none => rfl
      | some c =>
        obtain ⟨fields, hfields⟩ := s.exists_restrict_root_eq_struct c
        change failure? (ofRoot (s.root.restrict c) s.schemaId >>= _) = none
        rw [hfields]
        rfl
  rw [← failure?_eq_some_iff, hroot, ColumnType.failure?_prune, Selection.firstFault]
  exact iff_of_eq (congrArg (· = some e) (Option.or_none ..))

/-- **Pruning a schema does not look at the number of a map's side that holds no leaf**, but for one
thing: with the extent `subtree`, whether both numbers of a map are selected. -/
theorem prune_congr {s : Schema} {sel sel' : Selection} (hext : sel.extent = sel'.extent)
    (hhas : ∀ p ∈ s.root.places, p.hop.role.isMapSide = false ∨ p.field.type.isPrimitive = true →
      sel.has p.id = sel'.has p.id)
    (hboth : sel.extent = .subtree → ∀ p ∈ s.root.places, p.hop.role.isMapSide = true →
      ((p.parent s.root).fields.all fun f => sel.has f.id) =
        (p.parent s.root).fields.all fun f => sel'.has f.id) :
    s.prune sel = s.prune sel' := by
  rw [prune, prune, ColumnType.prune_congr hext hhas hboth]

end Schema
end TableSchema
