import TableSchema.Proofs.NarrowedLookup
import TableSchema.Proofs.PathSelection
import TableSchema.Proofs.StagedProjection

/-!
# Selecting twice

Selecting some paths in what was selected by the same paths changes nothing
(`Schema.select_select`).  The paths are resolved anew among the fields that are left, and may well
stand for other numbers than before: a canonical path that is gone can uncover a short path of
another field.  What they stood for they still stand for as far as it is left, though, so the second
time no number that matters is missing, and the others must make no difference.

They make none because a selected schema is *filled*: every slot in it is kept for its own sake or
leads on to slots that are (`ColumnType.Filled`).  Numbers that are selected on top of that can drop
nothing, since every slot leads to a kept one already, and for the same reason they leave no map
half kept.
-/

namespace TableSchema

/-! ## Filled types -/

/-- **A type that holds nothing beyond what is kept**: each of its slots is kept for its own sake,
or else has slots below it and a type that is filled in turn. -/
inductive ColumnType.Filled (kept : ColumnType → Hop → Bool) : ColumnType → Prop
  | node {t : ColumnType}
      (leads : ∀ h ∈ t.hops, kept t h = false → h.field.type.hops ≠ [])
      (below : ∀ h ∈ t.hops, kept t h = false → Filled kept h.field.type) : Filled kept t

namespace ColumnType.Filled
variable {kept : ColumnType → Hop → Bool} {t : ColumnType}

/-- Every slot of a filled type leads to one that is kept for its own sake. -/
theorem leads_eq_true (ht : t.Filled kept) {h : Hop} (hh : h ∈ t.hops) :
    h.leads kept t = true := by
  induction ht generalizing h with
  | @node t leads _ ih =>
    rw [Hop.leads, Bool.or_eq_true]
    cases hkept : kept t h with
    | true => exact .inl rfl
    | false =>
      obtain ⟨h', hh'⟩ := List.exists_mem_of_ne_nil _ (leads h hh hkept)
      rw [finds_eq_any]
      exact .inr (List.any_eq_true.2 ⟨h', hh', ih h hh hkept hh'⟩)

/-- No map in a filled type is half kept. -/
theorem isHalf_eq_false (ht : t.Filled kept) : t.isHalf kept = false :=
  ColumnType.isHalf_eq_false _ fun _ hh => ht.leads_eq_true hh

end ColumnType.Filled

/-- More selected numbers keep more slots whole. -/
theorem Hop.keptWhole_mono {ids ids' : List FieldId} {parent : ColumnType} {h : Hop}
    (hh : h ∈ parent.hops) (hids : ∀ f ∈ parent.fields, f.id ∈ ids → f.id ∈ ids')
    (hkept : h.keptWhole ids parent = true) : h.keptWhole ids' parent = true := by
  rw [keptWhole, Bool.or_eq_true, Bool.and_eq_true, Bool.and_eq_true, decide_eq_true_eq,
    List.all_eq_true] at hkept ⊢
  refine hkept.imp (.imp_left (hids _ (field_mem_fields hh))) (.imp_right fun hall f hf => ?_)
  exact decide_eq_true (hids f hf (of_decide_eq_true (hall f hf)))

namespace Selection
variable {sel : Selection} {t : ColumnType}

/-- **Filled by some numbers is filled by more.**  Only the numbers in the type matter. -/
theorem filled_mono {ids ids' : List FieldId} (ht : t.Filled (kept ⟨ids, .subtree⟩))
    (hids : ∀ p ∈ t.places, p.id ∈ ids → p.id ∈ ids') : t.Filled (kept ⟨ids', .subtree⟩) := by
  induction ht with
  | @node t leads below ih =>
    have hslot {h : Hop} (hh : h ∈ t.hops) (hkept : kept ⟨ids', .subtree⟩ t h = false) :
        kept ⟨ids, .subtree⟩ t h = false := by
      rw [Bool.eq_false_iff] at hkept ⊢
      refine fun hwhole => hkept (Hop.keptWhole_mono hh (fun f hf => ?_) hwhole)
      rw [← ColumnType.map_field_hops] at hf
      obtain ⟨h', hh', rfl⟩ := List.mem_map.1 hf
      obtain ⟨i, hi⟩ := List.getElem?_of_mem hh'
      exact hids _ (ColumnType.child_mem_places hi)
    refine .node (fun h hh hkept => leads h hh (hslot hh hkept)) fun h hh hkept => ?_
    obtain ⟨i, hi⟩ := List.getElem?_of_mem hh
    exact ih h hh (hslot hh hkept) fun p hp =>
      hids (p.below i h) (ColumnType.below_mem_places hi hp)

/-- **Of a filled type nothing is dropped.** -/
theorem narrow_eq_self (hsel : sel.extent = .subtree) (ht : t.Filled sel.kept) :
    t.narrow sel = t := by
  induction ht with
  | @node t leads below ih =>
    have hfilled : t.Filled sel.kept := .node leads below
    have hslot : ∀ h ∈ t.hops,
        (if t.isStruct = true → h.leads sel.kept t = true then [h.narrow sel t] else []) = [h] := by
      intro h hh
      rw [if_pos fun _ => hfilled.leads_eq_true hh, Hop.narrow]
      cases hkept : sel.kept t h with
      | true => rw [if_pos ⟨hsel, rfl⟩]
      | false =>
        rw [if_neg fun hwhole => Bool.false_ne_true hwhole.2, ih h hh hkept, Field.withType_type]
    refine ColumnType.ext_hops (by simp) (by simp) ?_
    rw [ColumnType.hops_narrow, List.flatMap_congr hslot, List.flatMap_singleton']

theorem askFault_of_subtree (hsel : sel.extent = .subtree) (h : Hop) : sel.askFault h = none := by
  rw [askFault, if_neg]
  rintro ⟨hexact, -⟩
  rw [hsel] at hexact
  cases hexact

/-- **In a filled type nothing fails.** -/
theorem firstFault_of_filled (hsel : sel.extent = .subtree) (ht : t.Filled sel.kept) :
    sel.firstFault t = none := by
  induction ht with
  | @node t leads below ih =>
    have hfilled : t.Filled sel.kept := .node leads below
    rw [firstFault_eq, Option.or_eq_none_iff, List.findSome?_eq_none_iff]
    refine ⟨fun h hh => ?_, (ColumnType.halfFault_eq_none_iff _).2 hfilled.isHalf_eq_false⟩
    cases hkept : sel.kept t h with
    | true => rw [if_pos ⟨hsel, rfl⟩]
    | false =>
      rw [if_neg fun hwhole => Bool.false_ne_true hwhole.2, ih h hh hkept,
        askFault_of_subtree hsel, Option.or_none]

/-! ## What a selection leaves is filled -/

/-- A list or a map keeps its slots, with their labels. -/
theorem map_label_hops_narrow (sel : Selection) (ht : t.isStruct = false) :
    (t.narrow sel).hops.map Hop.label = t.hops.map Hop.label := by
  have hslot : ∀ h ∈ t.hops,
      (if t.isStruct = true → h.leads sel.kept t = true then [h.narrow sel t] else []) =
        [h.narrow sel t] :=
    fun h _ => if_pos fun hstruct => absurd (ht.symm.trans hstruct) Bool.false_ne_true
  rw [ColumnType.hops_narrow, List.flatMap_congr hslot, ← List.map_eq_flatMap, List.map_map]
  exact List.map_congr_left fun h _ => Hop.label_narrow sel t h

/-- **A slot is kept for its own sake after the selection just if it was before.** -/
theorem kept_narrow (hsel : sel.extent = .subtree) {h : Hop} (hh : h ∈ t.hops) :
    sel.kept (t.narrow sel) (h.narrow sel t) = sel.kept t h := by
  have hlabel := Hop.label_narrow sel t h
  have hid : (h.narrow sel t).field.id = h.field.id := congrArg Label.id hlabel
  have hrole : (h.narrow sel t).role = h.role := congrArg Label.role hlabel
  have hkind : (h.narrow sel t).field.type.kind = h.field.type.kind := congrArg Label.kind hlabel
  have hall (ht : t.isStruct = false) : ((t.narrow sel).fields.all fun f => f.id ∈ sel.ids) =
      t.fields.all fun f => f.id ∈ sel.ids := by
    have hlabels := congrArg (List.all · fun l => l.id ∈ sel.ids) (map_label_hops_narrow sel ht)
    rw [← ColumnType.map_field_hops, ← ColumnType.map_field_hops, List.all_map, List.all_map]
    rwa [List.all_map, List.all_map] at hlabels
  rw [kept, kept, hsel]
  simp only [Hop.keptWhole, ColumnType.isPrimitive, hid, hrole, hkind]
  cases hside : h.role.isMapSide with
  | false => rfl
  | true =>
    -- Only a map has sides, and it has both of them in any case.
    have ht : t.isStruct = false := by
      rw [ColumnType.isMapSide_of_mem_hops hh] at hside
      cases t <;> first | rfl | cases hside
    rw [hall ht]

/-- Where nothing fails every slot that stays leads to one that is kept for its own sake. -/
theorem leads_of_stays {h : Hop} (hh : h ∈ t.hops) (hnone : sel.firstFault t = none)
    (ht : t.isStruct = true ∨ t.finds sel.kept = true)
    (hstay : t.isStruct = true → h.leads sel.kept t = true) : h.leads sel.kept t = true := by
  cases hstruct : t.isStruct with
  | true => exact hstay hstruct
  | false =>
    rw [firstFault_eq, Option.or_eq_none_iff] at hnone
    have hfinds := ht.resolve_left (by rw [hstruct]; exact Bool.false_ne_true)
    exact Hop.leads_of_finds _ hstruct ((ColumnType.halfFault_eq_none_iff _).1 hnone.2) hfinds hh

/-- Something is left of a type in which something is kept. -/
theorem hops_narrow_ne_nil (hfinds : t.finds sel.kept = true) : (t.narrow sel).hops ≠ [] := by
  rw [ColumnType.finds_eq_any, List.any_eq_true] at hfinds
  obtain ⟨h, hh, hleads⟩ := hfinds
  rw [ColumnType.hops_narrow]
  refine List.ne_nil_of_mem (a := h.narrow sel t) (List.mem_flatMap.2 ⟨h, hh, ?_⟩)
  rw [if_pos fun _ => hleads]
  exact List.mem_singleton_self _

/-- **What a selection leaves is filled**, if nothing fails in it and something is kept. -/
theorem filled_narrow (hsel : sel.extent = .subtree) (hnone : sel.firstFault t = none)
    (ht : t.isStruct = true ∨ t.finds sel.kept = true) : (t.narrow sel).Filled sel.kept := by
  induction t using ColumnType.induction_hops with
  | node t ih =>
    -- A slot that is left and not kept for its own sake leads to one that is, in a type that has
    -- been narrowed and did not fail either.
    have hslot : ∀ h' ∈ (t.narrow sel).hops, sel.kept (t.narrow sel) h' = false →
        ∃ h ∈ t.hops, h'.field.type = h.field.type.narrow sel ∧
          h.field.type.finds sel.kept = true ∧ sel.firstFault h.field.type = none := by
      intro h' hh' hkept
      rw [ColumnType.hops_narrow] at hh'
      obtain ⟨h, hh, hh'⟩ := List.mem_flatMap.1 hh'
      split at hh'
      · rename_i hstay
        obtain rfl := List.mem_singleton.1 hh'
        rw [kept_narrow hsel hh] at hkept
        have hpart : ¬(sel.extent = .subtree ∧ sel.kept t h = true) :=
          fun hwhole => Bool.false_ne_true (hkept.symm.trans hwhole.2)
        have hleads := leads_of_stays hh hnone ht hstay
        rw [Hop.leads, hkept, Bool.false_or] at hleads
        rw [firstFault_eq, Option.or_eq_none_iff, List.findSome?_eq_none_iff] at hnone
        have hbelow := hnone.1 h hh
        rw [if_neg hpart, Option.or_eq_none_iff] at hbelow
        refine ⟨h, hh, ?_, hleads, hbelow.1⟩
        rw [Hop.narrow, if_neg hpart]
        rfl
      · cases hh'
    refine .node (fun h' hh' hkept => ?_) fun h' hh' hkept => ?_
    · obtain ⟨h, -, htype, hfinds, -⟩ := hslot h' hh' hkept
      rw [htype]
      exact hops_narrow_ne_nil hfinds
    · obtain ⟨h, hh, htype, hfinds, hbelow⟩ := hslot h' hh' hkept
      rw [htype]
      exact ih h hh hbelow (.inr hfinds)

end Selection

/-! ## Schemas -/

namespace Schema
variable {s : Schema} {d : Derived} {names : List String} {case : NameCase}

/-- **Selected numbers can be selected again, with others.**  If a schema is pruned to the subtrees
of some numbers, then pruning the outcome to at least those of them that are left changes nothing.
-/
theorem prune_prune_subtree {ids ids' : List FieldId} (h : s.prune ⟨ids, .subtree⟩ = .ok d)
    (hids : ∀ q ∈ d.schema.root.places, q.id ∈ ids → q.id ∈ ids') :
    ∃ again, d.schema.prune ⟨ids', .subtree⟩ = .ok again ∧ again.schema = d.schema := by
  have hroot : d.schema.root = s.root.narrow ⟨ids, .subtree⟩ := (narrowsTo_of_prune h).root_eq
  have hfilled : d.schema.root.Filled (Selection.kept ⟨ids', .subtree⟩) := by
    refine Selection.filled_mono ?_ hids
    rw [hroot]
    exact Selection.filled_narrow rfl (firstFault_eq_none_of_prune h) (.inl rfl)
  have hagain := map_schema_prune d.schema ⟨ids', .subtree⟩
  rw [Selection.firstFault_of_filled rfl hfilled, Selection.narrow_eq_self rfl hfilled] at hagain
  obtain ⟨again, hprune, hschema⟩ := bind_eq_ok_iff.1 hagain
  exact ⟨again, hprune, Except.ok.inj hschema⟩

/-- A schema without columns can always be looked up by paths. -/
theorem exists_idsAtPaths_of_fields_eq_nil (h : s.fields = []) :
    ∃ ids, s.idsAtPaths names case = .ok ids := by
  have hroot : s.root = .struct [] := congrArg ColumnType.struct h
  have hindex : s.idIndex = IdIndex.build (.struct []) := congrArg IdIndex.build hroot
  have hpaths : s.pathIndex case = PathIndex.build { case } (.struct []) :=
    congrArg (PathIndex.build { case }) hroot
  exact exists_idsAtPaths_eq_ok hindex hpaths names

/-- **Paths resolve in the selected schema**, and to everything that they stood for and that is
left, if to more. -/
theorem exists_idsAtPaths_of_select {ids : List FieldId} (hids : s.idsAtPaths names case = .ok ids)
    (h : s.prune ⟨ids, .subtree⟩ = .ok d) :
    ∃ ids', d.schema.idsAtPaths names case = .ok ids' ∧
      ∀ q ∈ d.schema.root.places, q.id ∈ ids → q.id ∈ ids' := by
  have hnarrow := narrowsTo_of_prune h
  cases hcase : ids with
  | nil =>
    -- Nothing is selected, so there are no columns left; the indexes of the source need not exist.
    have hfields : d.schema.fields = [] := by
      have hnone (p : Place) (_ : p ∈ s.root.places) :
          Selection.keeps ⟨ids, .subtree⟩ s.root p.position = false := by
        rw [Selection.keeps_subtree, List.any_eq_false]
        intro q hq hkept
        have hid := Hop.id_mem_of_keptWhole (ColumnType.hop_mem_hops_parent hq)
          (Bool.and_eq_true_iff.1 hkept).1
        rw [hcase] at hid
        cases hid
      rw [hnarrow.eq_empty hnone]
    obtain ⟨ids', hids'⟩ := exists_idsAtPaths_of_fields_eq_nil hfields
    exact ⟨ids', hids', fun q _ hq => nomatch hq⟩
  | cons id rest =>
    obtain ⟨path, -, f, hf, -⟩ := (mem_idsAtPaths_iff hids id).1 (by simp [hcase])
    obtain ⟨⟨index, hindex⟩, paths, hpaths⟩ := exists_indexes_of_fieldAtPath hf
    obtain ⟨index', hindex'⟩ := hnarrow.exists_idIndex hindex
    obtain ⟨paths', hpaths'⟩ := hnarrow.exists_pathIndex hpaths
    obtain ⟨ids', hids'⟩ := exists_idsAtPaths_eq_ok hindex' hpaths' names
    refine ⟨ids', hids', fun q hq hmem => (mem_idsAtPaths_iff hids' q.id).2 ?_⟩
    rw [← hcase] at hmem
    obtain ⟨path, hpath, f, hf, hid⟩ := (mem_idsAtPaths_iff hids q.id).1 hmem
    obtain ⟨g, hg, hgid⟩ := hnarrow.exists_fieldAtPath_eq_ok hindex hpaths hf hq hid.symm
    exact ⟨path, hpath, g, hg, hgid.trans hid⟩

/-- **Selection changes nothing the second time.**  If some paths can be selected in a schema, then
they can be selected in what comes out, in the same way of reading names, and the same schema comes
out again.  It makes no difference whether each path stands for something the first time, whether
something is kept for it, or whether it stands for another field the second time. -/
theorem select_select (h : s.select names case = .ok d) :
    ∃ again, d.schema.select names case = .ok again ∧ again.schema = d.schema := by
  by_cases hwild : wildcard ∈ names
  · rw [select_of_wildcard hwild]
    exact ⟨_, rfl, rfl⟩
  · rw [select_eq_bind hwild] at h ⊢
    obtain ⟨ids, hids, h⟩ := bind_eq_ok_iff.1 h
    obtain ⟨ids', hids', hmem⟩ := exists_idsAtPaths_of_select hids h
    rw [hids']
    exact prune_prune_subtree h hmem

/-- A path that stands for the values of a map, for which nothing is kept, and for a leaf in the
list next to the map when the map is gone. -/
theorem select_select_coveredPath :
    ∃ d again f g,
      select ⟨none, Samples.coveredPath⟩ ["points", "points.Foo.value", "Baz"] .asWritten = .ok d ∧
      fieldAtPath ⟨none, Samples.coveredPath⟩ "points.Foo.value" .asWritten = .ok (some f) ∧
      d.schema.fieldAtPath "points.Foo.value" .asWritten = .ok (some g) ∧
      f.id = 3 ∧ g.id = 7 ∧
      d.schema.select ["points", "points.Foo.value", "Baz"] .asWritten = .ok again ∧
      again.schema = d.schema := by
  have hselect : select ⟨none, Samples.coveredPath⟩ ["points", "points.Foo.value", "Baz"]
      .asWritten = .ok _ := rfl
  obtain ⟨again, hagain, hsame⟩ := select_select hselect
  exact ⟨_, again, _, _, hselect, rfl, rfl, rfl, rfl, hagain, hsame⟩

end Schema
end TableSchema
