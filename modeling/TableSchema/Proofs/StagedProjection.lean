import TableSchema.Proofs.Narrowing
import TableSchema.Samples

/-!
# Projection in stages

Projecting a schema and then projecting the outcome to some of the same numbers comes to the same
as projecting to these at once (`Schema.project_project`).  The second projection runs over what the
first one left: structs may have become empty, and slots are gone.  But a field that the second one
keeps for its own sake was kept by the first one too, with everything that leads to it, so each slot
of the type leads to a kept field after the first projection just if it did before.  From this the
rest follows slot by slot: the same slots stay, the same maps are half kept, and the first failure
is the same.  What is gone after the first projection never fails in the second one.
-/

namespace TableSchema

/-! ## Narrowing slot by slot -/

/-- **What a selection leaves of a type** if nothing in it fails. -/
def ColumnType.narrow (sel : Selection) (t : ColumnType) : ColumnType := t.keepOnly (sel.keeps t)

/-- What a selection leaves of a slot of `parent` that is not dropped. -/
def Hop.narrow (sel : Selection) (parent : ColumnType) (h : Hop) : Hop :=
  if sel.extent = .subtree ∧ sel.kept parent h = true then h
  else ⟨h.role, h.field.withType (h.field.type.narrow sel)⟩

namespace ColumnType

@[simp] theorem kind_narrow (sel : Selection) (t : ColumnType) : (t.narrow sel).kind = t.kind :=
  kind_keepOnly _ t

@[simp] theorem leaf?_narrow (sel : Selection) (t : ColumnType) : (t.narrow sel).leaf? = t.leaf? :=
  leaf?_keepOnly _ t

theorem isStruct_narrow (sel : Selection) (t : ColumnType) :
    (t.narrow sel).isStruct = t.isStruct := by
  rw [isStruct, isStruct, kind_narrow]

/-- **The slots that a selection leaves**: of a struct those that lead to a kept field, and of other
types all. -/
theorem hops_narrow (sel : Selection) (t : ColumnType) :
    (t.narrow sel).hops = t.hops.flatMap fun h =>
      if t.isStruct = true → h.leads sel.kept t = true then [h.narrow sel t] else [] := by
  conv_rhs => rw [← List.zipIdx_map_fst 0 t.hops, List.flatMap_map]
  rw [narrow, hops_keepOnly]
  refine List.flatMap_congr ?_
  rintro ⟨h, i⟩ hi
  replace hi : t.hops[i]? = some h := List.mem_zipIdx_iff_getElem?.1 hi
  have hslot : h.keepOnly (sel.keeps t) i = h.narrow sel t := by
    rw [Hop.keepOnly, Hop.narrow]
    split
    · rename_i hwhole
      rw [keepOnly_eq_self fun q _ => Selection.keeps_cons_of_subtree hi hwhole.1 hwhole.2 _,
        Field.withType_type]
    · rename_i hpart
      rw [narrow, keepOnly_congr fun pos hpos => Selection.keeps_cons_of_ne_nil hi hpart hpos]
  simp only [hslot, Selection.keeps_singleton hi]

end ColumnType

@[simp] theorem Hop.label_narrow (sel : Selection) (t : ColumnType) (h : Hop) :
    (h.narrow sel t).label = h.label := by
  rw [narrow]
  split
  · rfl
  · simp [label, Field.withType]

/-- With the extent `exact` no slot is left as it is for being kept. -/
theorem Hop.narrow_of_exact {sel : Selection} (hsel : sel.extent = .exact) (t : ColumnType)
    (h : Hop) : h.narrow sel t = ⟨h.role, h.field.withType (h.field.type.narrow sel)⟩ := by
  rw [narrow, if_neg]
  rintro ⟨hsub, -⟩
  rw [hsel] at hsub
  cases hsub

/-- What is left of a map, whose slots both stay. -/
theorem ColumnType.narrow_map {sel : Selection} (hsel : sel.extent = .exact) (keyId : FieldId)
    (key : ColumnType) (valueId : FieldId) (value : ColumnType) (optional : Bool) :
    (map keyId key valueId value optional).narrow sel =
      map keyId (key.narrow sel) valueId (value.narrow sel) optional := by
  have hexact {P : Prop} : ¬(sel.extent = .subtree ∧ P) := by simp [hsel]
  have hkey : (key.keepOnly fun pos =>
      sel.keeps (map keyId key valueId value optional) (0 :: pos)) = key.narrow sel :=
    keepOnly_congr fun pos hpos =>
      Selection.keeps_cons_of_ne_nil (h := ⟨.mapKey, .mapKey keyId key⟩) rfl hexact hpos
  have hvalue : (value.keepOnly fun pos =>
      sel.keeps (map keyId key valueId value optional) (1 :: pos)) = value.narrow sel :=
    keepOnly_congr fun pos hpos =>
      Selection.keeps_cons_of_ne_nil (h := ⟨.mapValue, .mapValue valueId value optional⟩) rfl
        hexact hpos
  rw [narrow, keepOnly, hkey, hvalue]

/-- Where nothing is kept for its own sake no map is half kept. -/
theorem ColumnType.isHalf_eq_false_of_finds {kept : ColumnType → Hop → Bool} {t : ColumnType}
    (hfinds : t.finds kept = false) : t.isHalf kept = false := by
  cases t with
  | map keyId key valueId value optional =>
    rw [finds_eq_any, hops, List.any_cons, List.any_cons, Bool.or_eq_false_iff,
      Bool.or_eq_false_iff] at hfinds
    exact bne_eq_false_iff_eq.2 (hfinds.1.trans hfinds.2.1.symm)
  | _ => rfl

/-! ## Fewer numbers -/

namespace Selection

/-- **A part of a selection**: fewer numbers, each selection keeping just what is selected. -/
structure PartOf (sub sel : Selection) : Prop where
  extent_sub : sub.extent = .exact
  extent : sel.extent = .exact
  ids : ∀ id ∈ sub.ids, id ∈ sel.ids

theorem kept_of_exact {sel : Selection} (hsel : sel.extent = .exact) (t : ColumnType) (h : Hop) :
    sel.kept t h = h.keptItself sel.ids := by
  rw [kept, hsel]

/-- With the extent `exact` whether a slot is kept can be seen without looking into its type. -/
theorem kept_congr_of_exact {sel : Selection} (hsel : sel.extent = .exact) {t t' : ColumnType}
    {h h' : Hop} (hlabel : h.label = h'.label) : sel.kept t h = sel.kept t' h' := by
  have hid : h.field.id = h'.field.id := congrArg Label.id hlabel
  have hrole : h.role = h'.role := congrArg Label.role hlabel
  have hkind : h.field.type.kind = h'.field.type.kind := congrArg Label.kind hlabel
  rw [kept_of_exact hsel, kept_of_exact hsel, Hop.keptItself, Hop.keptItself,
    ColumnType.isPrimitive, ColumnType.isPrimitive, ColumnType.isStruct, ColumnType.isStruct,
    hid, hrole, hkind]

namespace PartOf
variable {sub sel : Selection} {t : ColumnType} {h : Hop}

/-- What a part of a selection keeps for its own sake the selection keeps too. -/
theorem kept_mono (hpart : sub.PartOf sel) (hkept : sub.kept t h = true) :
    sel.kept t h = true := by
  rw [kept_of_exact hpart.extent_sub, Hop.keptItself, Bool.and_eq_true, decide_eq_true_eq] at hkept
  rw [kept_of_exact hpart.extent, Hop.keptItself, Bool.and_eq_true, decide_eq_true_eq]
  exact hkept.imp_left (hpart.ids _)

/-- Where it finds something the selection finds something too. -/
theorem finds_mono (hpart : sub.PartOf sel) (hfinds : t.finds sub.kept = true) :
    t.finds sel.kept = true := by
  obtain ⟨q, hq, hkept⟩ := List.any_eq_true.1 hfinds
  exact List.any_eq_true.2 ⟨q, hq, hpart.kept_mono hkept⟩

theorem leads_mono (hpart : sub.PartOf sel) (hleads : h.leads sub.kept t = true) :
    h.leads sel.kept t = true := by
  rw [Hop.leads, Bool.or_eq_true] at hleads ⊢
  exact hleads.imp hpart.kept_mono hpart.finds_mono

/-- Where the selection does not ask for a list or a map neither does a part of it. -/
theorem askFault_eq_none (hpart : sub.PartOf sel) (hask : sel.askFault h = none) {h' : Hop}
    (hlabel : h'.label = h.label) : sub.askFault h' = none := by
  have hid : h'.field.id = h.field.id := congrArg Label.id hlabel
  have hrole : h'.role = h.role := congrArg Label.role hlabel
  have hkind : h'.field.type.kind = h.field.type.kind := congrArg Label.kind hlabel
  rw [askFault, ite_eq_right_iff] at hask ⊢
  rintro ⟨-, hhas, hside, hnested⟩
  rw [hid] at hhas
  rw [hrole] at hside
  rw [ColumnType.isList, ColumnType.isMap, hkind] at hnested
  have hhas' : sel.has h.field.id = true := decide_eq_true (hpart.ids _ (of_decide_eq_true hhas))
  exact absurd (hask ⟨hpart.extent, hhas', hside, hnested⟩) (Option.some_ne_none _)

/-- A slot that the selection drops leads to nothing that a part of it keeps. -/
theorem leads_eq_false (hpart : sub.PartOf sel)
    (hdrop : ¬(t.isStruct = true → h.leads sel.kept t = true)) :
    t.isStruct = true ∧ h.leads sub.kept t = false := by
  obtain ⟨hstruct, hleads⟩ := Classical.not_imp.1 hdrop
  exact ⟨hstruct, Bool.eq_false_iff.2 fun hsub => hleads (hpart.leads_mono hsub)⟩

/-! ## What leads to a kept field, and what is left -/

/-- A slot leads to a kept field after the selection just if it did before, given that for its
type. -/
theorem leads_narrow (hpart : sub.PartOf sel) (t : ColumnType)
    (htype : (h.field.type.narrow sel).finds sub.kept = h.field.type.finds sub.kept) :
    (h.narrow sel t).leads sub.kept (t.narrow sel) = h.leads sub.kept t := by
  rw [Hop.leads, Hop.leads, ← htype,
    kept_congr_of_exact hpart.extent_sub (Hop.label_narrow sel t h),
    Hop.narrow_of_exact hpart.extent]
  rfl

/-- **In a type the same is found after the selection as before it.** -/
theorem finds_narrow (hpart : sub.PartOf sel) (t : ColumnType) :
    (t.narrow sel).finds sub.kept = t.finds sub.kept := by
  induction t using ColumnType.induction_hops with
  | node t ih =>
    rw [ColumnType.finds_eq_any, ColumnType.finds_eq_any, ColumnType.hops_narrow,
      List.any_flatMap, Bool.eq_iff_iff, List.any_eq_true, List.any_eq_true]
    refine exists_congr fun h => and_congr_right fun hh => ?_
    by_cases hstay : t.isStruct = true → h.leads sel.kept t = true
    · rw [if_pos hstay, List.any_cons, List.any_nil, Bool.or_false,
        hpart.leads_narrow t (ih h hh)]
    · rw [if_neg hstay, List.any_nil, (hpart.leads_eq_false hstay).2]

/-- **A part of a selection leaves the same after the selection as before it.** -/
theorem narrow_narrow (hpart : sub.PartOf sel) (t : ColumnType) :
    (t.narrow sel).narrow sub = t.narrow sub := by
  induction t using ColumnType.induction_hops with
  | node t ih =>
    refine ColumnType.ext_hops (by simp) (by simp) ?_
    rw [ColumnType.hops_narrow sub, ColumnType.hops_narrow, ColumnType.hops_narrow,
      List.flatMap_assoc]
    refine List.flatMap_congr fun h hh => ?_
    by_cases hstay : t.isStruct = true → h.leads sel.kept t = true
    · have hslot : (h.narrow sel t).narrow sub (t.narrow sel) = h.narrow sub t := by
        rw [Hop.narrow_of_exact hpart.extent_sub, Hop.narrow_of_exact hpart.extent_sub,
          Hop.narrow_of_exact hpart.extent, ← ih h hh]
        rfl
      rw [if_pos hstay, List.flatMap_cons, List.flatMap_nil, List.append_nil, hslot,
        ColumnType.isStruct_narrow, hpart.leads_narrow t (hpart.finds_narrow _)]
    · obtain ⟨hstruct, hleads⟩ := hpart.leads_eq_false hstay
      rw [if_neg hstay, List.flatMap_nil, if_neg]
      simp [hstruct, hleads]

/-! ## Failures -/

/-- **The same maps are half kept after the selection as before it.** -/
theorem halfFault_narrow (hpart : sub.PartOf sel) (t : ColumnType) :
    (t.narrow sel).halfFault sub.kept = t.halfFault sub.kept := by
  cases t with
  | map keyId key valueId value optional =>
    have hkey := hpart.leads_narrow (.map keyId key valueId value optional)
      (h := ⟨.mapKey, .mapKey keyId key⟩) (hpart.finds_narrow key)
    have hvalue := hpart.leads_narrow (.map keyId key valueId value optional)
      (h := ⟨.mapValue, .mapValue valueId value optional⟩) (hpart.finds_narrow value)
    rw [Hop.narrow_of_exact hpart.extent, ColumnType.narrow_map hpart.extent] at hkey hvalue
    rw [ColumnType.narrow_map hpart.extent, ColumnType.halfFault, ColumnType.halfFault,
      ColumnType.isHalf, ColumnType.isHalf, ← hkey, ← hvalue]
    rfl
  | _ => rfl

end PartOf

/-- **The first failure slot by slot**: that of the first slot that fails, in its type or for
itself, and after the slots that of the type. -/
theorem firstFault_eq (sel : Selection) (t : ColumnType) :
    sel.firstFault t = (t.hops.findSome? fun h =>
      if sel.extent = .subtree ∧ sel.kept t h = true then none
      else (sel.firstFault h.field.type).or (sel.askFault h)).or (t.halfFault sel.kept) := by
  rw [firstFault, ColumnType.placesUp_eq_flatMap, findSome?_flatMap]
  conv_rhs => rw [← List.zipIdx_map_fst 0 t.hops, List.findSome?_map]
  refine congrArg (Option.or · _) (findSome?_congr ?_)
  rintro ⟨h, i⟩ hi
  exact findSome?_placesUp_slot (List.mem_zipIdx_iff_getElem?.1 hi)

/-- With the extent `exact` every slot is looked at. -/
theorem firstFault_of_exact {sel : Selection} (hsel : sel.extent = .exact) (t : ColumnType) :
    sel.firstFault t = (t.hops.findSome? fun h =>
      (sel.firstFault h.field.type).or (sel.askFault h)).or (t.halfFault sel.kept) := by
  rw [firstFault_eq]
  simp [hsel]

theorem firstFault_eq_none_iff {sel : Selection} (hsel : sel.extent = .exact) {t : ColumnType} :
    sel.firstFault t = none ↔
      (∀ h ∈ t.hops, sel.firstFault h.field.type = none ∧ sel.askFault h = none) ∧
        t.halfFault sel.kept = none := by
  rw [firstFault_of_exact hsel, Option.or_eq_none_iff, List.findSome?_eq_none_iff]
  simp only [Option.or_eq_none_iff]

namespace PartOf
variable {sub sel : Selection} {t : ColumnType} {h : Hop}

/-- Where the selection does not fail and a part of it finds nothing, the part does not fail. -/
theorem firstFault_eq_none (hpart : sub.PartOf sel) (hsel : sel.firstFault t = none)
    (hfinds : t.finds sub.kept = false) : sub.firstFault t = none := by
  induction t using ColumnType.induction_hops with
  | node t ih =>
    obtain ⟨hslots, -⟩ := (firstFault_eq_none_iff hpart.extent).1 hsel
    refine (firstFault_eq_none_iff hpart.extent_sub).2 ⟨fun h hh => ?_, ?_⟩
    · obtain ⟨htype, hask⟩ := hslots h hh
      rw [ColumnType.finds_eq_any, List.any_eq_false] at hfinds
      have hleads : h.leads sub.kept t = false := Bool.eq_false_iff.2 (hfinds h hh)
      rw [Hop.leads, Bool.or_eq_false_iff] at hleads
      exact ⟨ih h hh htype hleads.2, hpart.askFault_eq_none hask rfl⟩
    · exact (ColumnType.halfFault_eq_none_iff _).2 (ColumnType.isHalf_eq_false_of_finds hfinds)

/-- **The first failure after the selection is the one before it**, if the selection itself does
not fail. -/
theorem firstFault_narrow (hpart : sub.PartOf sel) (hsel : sel.firstFault t = none) :
    sub.firstFault (t.narrow sel) = sub.firstFault t := by
  induction t using ColumnType.induction_hops with
  | node t ih =>
    obtain ⟨hslots, -⟩ := (firstFault_eq_none_iff hpart.extent).1 hsel
    rw [firstFault_of_exact hpart.extent_sub, firstFault_of_exact hpart.extent_sub,
      hpart.halfFault_narrow, ColumnType.hops_narrow, findSome?_flatMap]
    refine congrArg (Option.or · _) (findSome?_congr fun h hh => ?_)
    obtain ⟨htype, hask⟩ := hslots h hh
    have hnone : sub.askFault h = none := hpart.askFault_eq_none hask rfl
    by_cases hstay : t.isStruct = true → h.leads sel.kept t = true
    · have hslot : sub.firstFault (h.narrow sel t).field.type = sub.firstFault h.field.type := by
        rw [Hop.narrow_of_exact hpart.extent]
        exact ih h hh htype
      have hnone' : sub.askFault (h.narrow sel t) = none :=
        hpart.askFault_eq_none hask (Hop.label_narrow sel t h)
      rw [if_pos hstay, List.findSome?_singleton, hslot, hnone, hnone']
    · -- What is dropped led to nothing that the part keeps, so it had no failure to lose.
      obtain ⟨-, hleads⟩ := hpart.leads_eq_false hstay
      rw [Hop.leads, Bool.or_eq_false_iff] at hleads
      rw [if_neg hstay, List.findSome?_nil, hpart.firstFault_eq_none htype hleads.2, hnone]
      rfl

end PartOf
end Selection

/-! ## Schemas -/

namespace Schema
variable {s : Schema} {sel : Selection}

/-- Pruning a schema fails with the first failure in its struct. -/
theorem prune_eq_error_iff_firstFault {e : SchemaError} :
    s.prune sel = .error e ↔ sel.firstFault s.root = some e := by
  rw [prune_eq_error_iff, Selection.firstFault]
  exact iff_of_eq (congrArg (· = some e) (Option.or_none ..).symm)

theorem firstFault_eq_none_of_prune {d : Derived} (h : s.prune sel = .ok d) :
    sel.firstFault s.root = none := by
  rw [Option.eq_none_iff_forall_ne_some]
  intro e he
  rw [prune_eq_error_iff_firstFault.2 he] at h
  cases h

/-- **What pruning makes of a schema**: the first failure in its struct, or the schema of what the
selection leaves of the struct. -/
theorem map_schema_prune (s : Schema) (sel : Selection) :
    Derived.schema <$> s.prune sel =
      match sel.firstFault s.root with
      | some e => .error e
      | none => .ok ⟨s.schemaId, (s.root.narrow sel).fields⟩ := by
  cases hprune : s.prune sel with
  | error e =>
    rw [prune_eq_error_iff_firstFault.1 hprune]
    rfl
  | ok d =>
    have hnarrow := narrowsTo_of_prune hprune
    have hfields : d.schema.fields = (s.root.narrow sel).fields :=
      congrArg ColumnType.fields hnarrow.root_eq
    rw [firstFault_eq_none_of_prune hprune, ← hfields, ← hnarrow.schemaId_eq]
    rfl

/-- **Projecting in stages is projecting at once.**  If a schema is projected to some numbers, then
projecting the outcome to some of these gives the schema, or the failure, that projecting to them at
once gives.  In particular a projection changes nothing the second time. -/
theorem project_project {ids sub : List FieldId} {d : Derived} (hsub : ∀ id ∈ sub, id ∈ ids)
    (h : s.project ids = .ok d) :
    Derived.schema <$> d.schema.project sub = Derived.schema <$> s.project sub ∧
      Derived.schema <$> d.schema.project ids = .ok d.schema := by
  have hnone : Selection.firstFault ⟨ids, .exact⟩ s.root = none := by
    rw [Option.eq_none_iff_forall_ne_some]
    intro e he
    rw [project, prune_eq_error_iff_firstFault.2 he] at h
    cases h
  have hnarrow := narrowsTo_of_prune h
  have hroot : d.schema.root = s.root.narrow ⟨ids, .exact⟩ := hnarrow.root_eq
  have hstage {part : List FieldId} (hpart : ∀ id ∈ part, id ∈ ids) :
      Derived.schema <$> d.schema.project part = Derived.schema <$> s.project part := by
    have hof : Selection.PartOf ⟨part, .exact⟩ ⟨ids, .exact⟩ := ⟨rfl, rfl, hpart⟩
    rw [project, project, map_schema_prune, map_schema_prune, hroot, hof.firstFault_narrow hnone,
      hof.narrow_narrow, hnarrow.schemaId_eq]
  refine ⟨hstage hsub, ?_⟩
  rw [hstage fun _ hid => hid, h]
  rfl

/-- Of a user with an address of which no field was asked for, just the user is asked for again. -/
theorem project_project_people :
    ∃ d, (∀ id ∈ ([2] : List FieldId), id ∈ ([1, 2, 4] : List FieldId)) ∧
      project ⟨none, Samples.people⟩ [1, 2, 4] = .ok d ∧
      Derived.schema <$> d.schema.project [2] =
        .ok ⟨none, [.nullable 2 "user" (.struct [])]⟩ := by
  have hproject : project ⟨none, Samples.people⟩ [1, 2, 4] = .ok _ := rfl
  have hsub : ∀ id ∈ ([2] : List FieldId), id ∈ ([1, 2, 4] : List FieldId) := by decide
  obtain ⟨hstage, -⟩ := project_project hsub hproject
  exact ⟨_, hsub, hproject, hstage⟩

end Schema

end TableSchema
