import TableSchema.Proofs.Slots
import TableSchema.Pruning

/-!
# What a selection asks for

Which fields a selection keeps for their own sake is said here place by place, without the walk that
prunes.  With the extent `exact` these are the selected leaves and the selected structs that are not
the side of a map (`Hop.keptItself`).  With the extent `subtree` they are the selected fields that
are not the side of a map, the selected leaves, and both sides of a map of which both are selected
(`Hop.keptWhole`).  All else follows from the fields kept for their own sake:

* the positions that are kept are those of such fields and above them, and with the extent
  `subtree` also those below them (`Selection.keeps`);
* a map is half kept if just one of its sides is such a field or has one below
  (`ColumnType.isHalf`);
* a selection cannot be met at the places with a half-kept map and, with the extent `exact`, at
  selected lists and maps that are not the side of a map (`Selection.fault`).

Each of the three is also given slot by slot, in the form in which the walk meets it.
-/

namespace TableSchema

/-! ## Fields kept for their own sake -/

namespace Hop

/-- **Kept by itself**: a selected leaf, or a selected struct that is not the side of a map. -/
def keptItself (ids : List FieldId) (h : Hop) : Bool :=
  h.field.id ∈ ids && (h.field.type.isPrimitive || h.field.type.isStruct && !h.role.isMapSide)

/-- **Kept whole** as a slot of `parent`: a selected field that is not the side of a map, a selected
leaf, or a side of a map of which both sides are selected. -/
def keptWhole (ids : List FieldId) (parent : ColumnType) (h : Hop) : Bool :=
  h.field.id ∈ ids && (!h.role.isMapSide || h.field.type.isPrimitive) ||
    h.role.isMapSide && parent.fields.all fun f => f.id ∈ ids

variable {ids : List FieldId} {parent : ColumnType} {h : Hop}

theorem field_mem_fields (hh : h ∈ parent.hops) : h.field ∈ parent.fields := by
  rw [← ColumnType.map_field_hops]
  exact List.mem_map_of_mem hh

/-- Nothing is kept whole that is not selected. -/
theorem id_mem_of_keptWhole (hh : h ∈ parent.hops) (hkept : h.keptWhole ids parent = true) :
    h.field.id ∈ ids := by
  rcases Bool.or_eq_true_iff.1 hkept with hself | hboth
  · exact of_decide_eq_true (Bool.and_eq_true_iff.1 hself).1
  · have hall := List.all_eq_true.1 (Bool.and_eq_true_iff.1 hboth).2
    exact of_decide_eq_true (hall h.field (field_mem_fields hh))

/-- A selected field is kept whole unless it is a side of a map and holds no leaf. -/
theorem keptWhole_iff_id_mem (hh : h ∈ parent.hops)
    (hleaf : h.role.isMapSide = false ∨ h.field.type.isPrimitive = true) :
    h.keptWhole ids parent = true ↔ h.field.id ∈ ids := by
  refine ⟨id_mem_of_keptWhole hh, fun hid => ?_⟩
  rcases hleaf with hside | hprim
  · simp [keptWhole, hid, hside]
  · simp [keptWhole, hid, hprim]

/-- **All slots of a type are kept whole just if all are selected.**  For a map this is what its
sides have instead of being kept whole one by one. -/
theorem forall_keptWhole_iff (ids : List FieldId) (parent : ColumnType) :
    (∀ h ∈ parent.hops, h.keptWhole ids parent = true) ↔ ∀ f ∈ parent.fields, f.id ∈ ids := by
  constructor
  · intro hall f hf
    rw [← ColumnType.map_field_hops] at hf
    obtain ⟨h, hh, rfl⟩ := List.mem_map.1 hf
    exact id_mem_of_keptWhole hh (hall h hh)
  · intro hall h hh
    cases hside : h.role.isMapSide with
    | true =>
      have hboth : (parent.fields.all fun f => f.id ∈ ids) = true := by simpa using hall
      simp [keptWhole, hside, hboth]
    | false => exact (keptWhole_iff_id_mem hh (.inl hside)).2 (hall _ (field_mem_fields hh))

end Hop

section Leads
variable (kept : ColumnType → Hop → Bool)

/-- Whether some field of a type is kept. -/
def ColumnType.finds (t : ColumnType) : Bool := t.places.any fun q => kept (q.parent t) q.hop

/-- Whether a slot of `parent` is kept or has a kept field below. -/
def Hop.leads (parent : ColumnType) (h : Hop) : Bool := kept parent h || h.field.type.finds kept

theorem ColumnType.finds_eq_any (t : ColumnType) :
    t.finds kept = t.hops.any (Hop.leads kept t) := by
  rw [Bool.eq_iff_iff]
  simp only [finds, Hop.leads, List.any_eq_true, Bool.or_eq_true]
  constructor
  · rintro ⟨p, hp, hkept⟩
    obtain ⟨i, h, hi, rfl | ⟨q, hq, rfl⟩⟩ := mem_places.1 hp
    · exact ⟨h, List.mem_of_getElem? hi, .inl hkept⟩
    · exact ⟨h, List.mem_of_getElem? hi, .inr ⟨q, hq, by simpa using hkept⟩⟩
  · rintro ⟨h, hh, hkept⟩
    obtain ⟨i, hi⟩ := List.getElem?_of_mem hh
    rcases hkept with hkept | ⟨q, hq, hkept⟩
    · exact ⟨_, child_mem_places hi, hkept⟩
    · exact ⟨_, below_mem_places hi hq, by simpa using hkept⟩

/-- **A half-kept map**: exactly one of its two sides is kept or has a kept field below. -/
def ColumnType.isHalf (t : ColumnType) : Bool :=
  match t with
  | .map keyId key valueId value optional =>
    Hop.leads kept t ⟨.mapKey, .mapKey keyId key⟩ !=
      Hop.leads kept t ⟨.mapValue, .mapValue valueId value optional⟩
  | _ => false

/-- The failure at a half-kept map. -/
def ColumnType.halfFault (t : ColumnType) : Option SchemaError :=
  match t with
  | .map keyId _ valueId _ _ => if t.isHalf kept then some (.partialMap keyId valueId) else none
  | _ => none

theorem ColumnType.halfFault_eq_none_iff {t : ColumnType} :
    t.halfFault kept = none ↔ t.isHalf kept = false := by
  cases t <;> simp [halfFault, isHalf]

/-- Only maps are half kept, and the failure tells the numbers of both sides. -/
theorem ColumnType.halfFault_eq_some_iff {t : ColumnType} {e : SchemaError} :
    t.halfFault kept = some e ↔ t.isHalf kept = true ∧
      ∃ keyId key valueId value optional,
        t = .map keyId key valueId value optional ∧ e = .partialMap keyId valueId := by
  cases t with
  | map keyId key valueId value optional =>
    rw [halfFault]
    constructor
    · intro h
      obtain ⟨hhalf, he⟩ := Option.ite_none_right_eq_some.1 h
      exact ⟨hhalf, _, _, _, _, _, rfl, (Option.some.inj he).symm⟩
    · rintro ⟨hhalf, _, _, _, _, _, ht, rfl⟩
      cases ht
      exact if_pos hhalf
  | _ => simp [halfFault]

/-- A map of which all slots lead to a kept field is not half kept. -/
theorem ColumnType.isHalf_eq_false {t : ColumnType} (h : ∀ hop ∈ t.hops, hop.leads kept t = true) :
    t.isHalf kept = false := by
  cases t with
  | map keyId key valueId value optional =>
    have hkey := h ⟨.mapKey, .mapKey keyId key⟩ (by simp [hops])
    have hvalue := h ⟨.mapValue, .mapValue valueId value optional⟩ (by simp [hops])
    exact bne_eq_false_iff_eq.2 (hkey.trans hvalue.symm)
  | _ => rfl

/-- Of a list, and of a map that is not half kept, all slots lead to a kept field if one does. -/
theorem Hop.leads_of_finds {t : ColumnType} (ht : t.isStruct = false)
    (hhalf : t.isHalf kept = false) (hfinds : t.finds kept = true) {h : Hop} (hh : h ∈ t.hops) :
    h.leads kept t = true := by
  rw [ColumnType.finds_eq_any] at hfinds
  cases t with
  | primitive p => cases hh
  | struct fields => cases ht
  | list id type optional =>
    obtain rfl := List.mem_singleton.1 hh
    simpa [ColumnType.hops] using hfinds
  | map keyId key valueId value optional =>
    -- The two sides agree, so either both lead to a kept field or nothing in the map does.
    have hboth : Hop.leads kept _ _ = Hop.leads kept _ _ := bne_eq_false_iff_eq.1 hhalf
    simp only [ColumnType.hops, List.any_cons, List.any_nil, Bool.or_false, hboth,
      Bool.or_self] at hfinds
    obtain rfl | rfl : h = _ ∨ h = _ := by simpa [ColumnType.hops] using hh
    · exact hboth.trans hfinds
    · exact hfinds

end Leads

namespace Selection
variable (sel : Selection)

/-- Whether a slot of `parent` is kept for its own sake. -/
def kept (parent : ColumnType) (h : Hop) : Bool :=
  match sel.extent with
  | .subtree => h.keptWhole sel.ids parent
  | .exact => h.keptItself sel.ids

/-! ## Positions -/

/-- Whether a position is in or below a field that is kept with everything below it. -/
def inside (t : ColumnType) (pos : List Nat) : Bool :=
  sel.extent = .subtree &&
    t.places.any fun q => sel.kept (q.parent t) q.hop && q.position.isPrefixOf pos

/-- **Whether a position is kept**: a field that is kept for its own sake stands there or below, or
it is inside of one that is kept with everything. -/
def keeps (t : ColumnType) (pos : List Nat) : Bool :=
  (t.places.any fun q => sel.kept (q.parent t) q.hop && pos.isPrefixOf q.position) ||
    sel.inside t pos

variable {sel}

theorem inside_eq_true_iff {t : ColumnType} {pos : List Nat} :
    sel.inside t pos = true ↔ sel.extent = .subtree ∧
      ∃ q ∈ t.places, sel.kept (q.parent t) q.hop = true ∧ q.position <+: pos := by
  simp [inside]

theorem keeps_eq_true_iff {t : ColumnType} {pos : List Nat} :
    sel.keeps t pos = true ↔
      (∃ q ∈ t.places, sel.kept (q.parent t) q.hop = true ∧ pos <+: q.position) ∨
        sel.inside t pos = true := by
  simp [keeps]

/-- **Inside of something, slot by slot**: of the slot itself or of something below it. -/
theorem inside_cons {t : ColumnType} {i : Nat} {h : Hop} (hi : t.hops[i]? = some h)
    (pos : List Nat) :
    sel.inside t (i :: pos) =
      (sel.extent = .subtree && sel.kept t h || sel.inside h.field.type pos) := by
  rw [Bool.eq_iff_iff]
  simp only [Bool.or_eq_true, Bool.and_eq_true, decide_eq_true_eq, inside_eq_true_iff,
    ← and_or_left]
  refine and_congr_right fun _ => ?_
  rw [ColumnType.exists_place_iff hi fun p hp =>
    (List.prefix_cons_iff.1 hp.2).imp_right fun ⟨pos, hpos, _⟩ => ⟨pos, hpos⟩]
  simp

/-- **Kept, slot by slot**: what is kept in slot number `i` is the slot itself if it is kept for its
own sake, all below it if it is kept with everything, and what is kept in its type. -/
theorem keeps_cons {t : ColumnType} {i : Nat} {h : Hop} (hi : t.hops[i]? = some h)
    (pos : List Nat) :
    sel.keeps t (i :: pos) =
      (sel.kept t h && (pos = [] || sel.extent = .subtree) || sel.keeps h.field.type pos) := by
  rw [Bool.eq_iff_iff]
  simp only [Bool.or_eq_true, Bool.and_eq_true, decide_eq_true_eq, keeps_eq_true_iff,
    inside_cons hi]
  rw [ColumnType.exists_place_iff hi fun p hp =>
    .inr ((List.cons_prefix_iff.1 hp.2).imp fun _ h => h.1)]
  simp only [Place.parent_child, Place.hop_child, Place.position_child, Place.parent_below,
    Place.hop_below, Place.position_below, List.cons_prefix_cons, List.prefix_nil, true_and]
  grind

/-- Nothing is inside of the top of a type, which is no field. -/
theorem inside_nil (t : ColumnType) : sel.inside t [] = false := by
  rw [Bool.eq_false_iff]
  intro h
  obtain ⟨-, q, hq, -, hpos⟩ := inside_eq_true_iff.1 h
  exact ColumnType.position_ne_nil hq (List.prefix_nil.1 hpos)

theorem keeps_nil (t : ColumnType) : sel.keeps t [] = t.finds sel.kept := by
  simp [keeps, inside_nil, ColumnType.finds]

/-- **A slot is kept if it is kept for its own sake or has such a field below.** -/
theorem keeps_singleton {t : ColumnType} {i : Nat} {h : Hop} (hi : t.hops[i]? = some h) :
    sel.keeps t [i] = h.leads sel.kept t := by
  simp [keeps_cons hi, keeps_nil, Hop.leads]

/-- Below a slot that is kept with everything all is kept. -/
theorem keeps_cons_of_subtree {t : ColumnType} {i : Nat} {h : Hop} (hi : t.hops[i]? = some h)
    (hsub : sel.extent = .subtree) (hkept : sel.kept t h = true) (pos : List Nat) :
    sel.keeps t (i :: pos) = true := by
  simp [keeps_cons hi, hsub, hkept]

/-- Below a slot that is not kept with everything just what is kept in its type is kept. -/
theorem keeps_cons_of_ne_nil {t : ColumnType} {i : Nat} {h : Hop} (hi : t.hops[i]? = some h)
    (hsub : ¬(sel.extent = .subtree ∧ sel.kept t h = true)) {pos : List Nat} (hpos : pos ≠ []) :
    sel.keeps t (i :: pos) = sel.keeps h.field.type pos := by
  rw [keeps_cons hi]
  cases hk : sel.kept t h <;> simp_all

/-- Where nothing is kept for its own sake no position is kept. -/
theorem keeps_of_finds_eq_false {t : ColumnType} (h : t.finds sel.kept = false) (pos : List Nat) :
    sel.keeps t pos = false := by
  have hnone : ∀ q ∈ t.places, sel.kept (q.parent t) q.hop = false := by
    simpa [ColumnType.finds] using h
  rw [Bool.eq_false_iff]
  intro hpos
  rcases keeps_eq_true_iff.1 hpos with ⟨q, hq, hkept, -⟩ | hin
  · simp [hnone q hq] at hkept
  · obtain ⟨-, q, hq, hkept, -⟩ := inside_eq_true_iff.1 hin
    simp [hnone q hq] at hkept

/-- Below a position that is not kept none is. -/
theorem keeps_cons_eq_false {t : ColumnType} {i : Nat} {h : Hop} (hi : t.hops[i]? = some h)
    (hkeep : sel.keeps t [i] = false) (pos : List Nat) : sel.keeps t (i :: pos) = false := by
  rw [keeps_singleton hi, Hop.leads, Bool.or_eq_false_iff] at hkeep
  rw [keeps_cons hi, hkeep.1, keeps_of_finds_eq_false hkeep.2]
  rfl

/-! ## Failures -/

/-- The failure of a selected list or map that is not the side of a map, if selected fields are not
kept with everything. -/
def askFault (sel : Selection) (h : Hop) : Option SchemaError :=
  if sel.extent = .exact ∧ sel.has h.field.id = true ∧ h.role.isMapSide = false ∧
      (h.field.type.isList = true ∨ h.field.type.isMap = true) then
    some (.listOrMapSelected h.field.id h.field.name h.field.type)
  else none

/-- **The failure at a place**: that of a half-kept map there, or else that of the field.  Inside of
what is kept with everything nothing fails. -/
def fault (sel : Selection) (t : ColumnType) (p : Place) : Option SchemaError :=
  if sel.inside t p.position then none
  else (p.field.type.halfFault sel.kept).or (sel.askFault p.hop)

/-- The first failure in a type from the bottom up, its own as a map coming last. -/
def firstFault (sel : Selection) (t : ColumnType) : Option SchemaError :=
  (t.placesUp.findSome? (sel.fault t)).or (t.halfFault sel.kept)

theorem fault_child {t : ColumnType} {i : Nat} {h : Hop} (hi : t.hops[i]? = some h) :
    sel.fault t (.child i h) =
      if sel.extent = .subtree ∧ sel.kept t h = true then none
      else (h.field.type.halfFault sel.kept).or (sel.askFault h) := by
  simp [fault, inside_cons hi, inside_nil]

theorem fault_below {t : ColumnType} {i : Nat} {h : Hop} (hi : t.hops[i]? = some h) (q : Place) :
    sel.fault t (q.below i h) =
      if sel.extent = .subtree ∧ sel.kept t h = true then none
      else sel.fault h.field.type q := by
  by_cases hk : sel.extent = .subtree ∧ sel.kept t h = true
  · simp [fault, inside_cons hi, hk]
  · have hin : sel.inside t (i :: q.position) = sel.inside h.field.type q.position := by
      rw [inside_cons hi]
      cases hkept : sel.kept t h <;> simp_all
    simp [fault, hin, hk]

/-- **The first failure in or below a slot**: there is none if the slot is kept with everything, and
else it is the first one in its type, or that of the slot itself. -/
theorem findSome?_placesUp_slot {t : ColumnType} {i : Nat} {h : Hop} (hi : t.hops[i]? = some h) :
    (h.placesUp i h.field.type.placesUp).findSome? (sel.fault t) =
      if sel.extent = .subtree ∧ sel.kept t h = true then none
      else (sel.firstFault h.field.type).or (sel.askFault h) := by
  rw [Hop.placesUp, List.findSome?_append, List.findSome?_map, List.findSome?_singleton,
    fault_child hi]
  by_cases hk : sel.extent = .subtree ∧ sel.kept t h = true
  · rw [if_pos hk, if_pos hk, Option.or_none, List.findSome?_eq_none_iff]
    intro q _
    rw [Function.comp_apply, fault_below hi, if_pos hk]
  · have hbelow : sel.fault t ∘ Place.below i h = sel.fault h.field.type := by
      funext q
      rw [Function.comp_apply, fault_below hi, if_neg hk]
    rw [if_neg hk, if_neg hk, hbelow, firstFault, Option.or_assoc]

end Selection
end TableSchema
