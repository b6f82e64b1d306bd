import TableSchema.Proofs.Kept
import TableSchema.Proofs.Outcome
import TableSchema.Proofs.Restriction

/-!
# What pruning comes to

`ColumnType.prune` has a rule for each kind of type.  Seen slot by slot it is one and the same walk
for all of them (`ColumnType.prune_eq`): each slot is pruned with what was kept below it
(`Selection.keepSlot`), and the type is put together from its slots (`ColumnType.assemble`).  There
are three things that can come of a slot (`Selection.SlotCut`).  By induction slot by slot the walk
comes to what is said place by place in `TableSchema.Proofs.Kept`:

* if it succeeds, what it leaves are the kept positions (`ColumnType.settles_of_prune`);
* it fails with the first failure of a place from the bottom up (`ColumnType.failure?_prune`);
* all it asks of the selection is which fields of structs, which elements of lists and which leaves
  are selected, and with the extent `subtree` which maps have both sides selected
  (`ColumnType.prune_congr`).
-/

namespace TableSchema

/-! ## The walk slot by slot -/

namespace Selection

/-- What is kept of a slot, given what is kept below it. -/
def keepSlot (sel : Selection) (h : Hop) (below : Except SchemaError (Option Cut)) :
    Except SchemaError (Option Cut) :=
  if h.role.isMapSide then sel.keepSide h.field below else sel.keepField h.field below

/-- Whether a type is a map that is kept as it is, since both its sides are selected. -/
def takesMap (sel : Selection) (t : ColumnType) : Bool :=
  t.isMap && t.fields.all fun f => sel.takesWhole f.id

end Selection

namespace ColumnType

/-- A type put together from what is kept of its slots, the two of a map being kept or dropped
together. -/
def assemble (t : ColumnType) (slots : List (Option Cut)) : Except SchemaError (Option Cut) :=
  match t, slots with
  | map keyId _ valueId _ _, [key, value] =>
    if key.isSome = value.isSome then .ok (Cut.assemble [key, value])
    else .error (.partialMap keyId valueId)
  | _, slots => .ok (Cut.assemble slots)

end ColumnType

theorem Field.pruneEach_eq_mapM (sel : Selection) (fields : List Field) :
    pruneEach sel fields = fields.mapM fun f => sel.keepField f (f.type.prune sel) := by
  induction fields with
  | nil => rfl
  | cons f fields ih => rw [pruneEach_cons, List.mapM_cons, ih]

namespace ColumnType

/-- **Pruning slot by slot**: a map of which both sides are selected may be kept as it is; otherwise
the slots are pruned one after the other, and the type is put together from what is kept of them. -/
theorem prune_eq (sel : Selection) (t : ColumnType) :
    t.prune sel =
      if sel.takesMap t then .ok (some .whole)
      else t.hops.mapM (fun h => sel.keepSlot h (h.field.type.prune sel)) >>= t.assemble := by
  cases t with
  | primitive p => rfl
  | struct fields =>
    rw [prune, Field.pruneEach_eq_mapM, hops, List.mapM_map]
    rfl
  | list id type optional =>
    rw [prune, hops, List.mapM_cons, List.mapM_nil]
    change _ = (sel.keepField (.element id type optional) (type.prune sel) >>= _) >>= _
    cases sel.keepField (.element id type optional) (type.prune sel) <;> rfl
  | map keyId key valueId value optional =>
    rw [prune, hops, List.mapM_cons, List.mapM_cons, List.mapM_nil]
    -- The two sides are the whole pass, and what is done with them in the end is `assemble`.
    change sel.keepMap keyId valueId _ _ =
      if true && (sel.takesWhole keyId && (sel.takesWhole valueId && true)) then _
      else (sel.keepSide (.mapKey keyId key) (key.prune sel) >>= fun _ =>
        (sel.keepSide (.mapValue valueId value optional) (value.prune sel) >>= _) >>= _) >>= _
    rw [Selection.keepMap, Bool.true_and, Bool.and_true]
    split
    · rfl
    · cases sel.keepSide (.mapKey keyId key) (key.prune sel) with
      | error e => rfl
      | ok k =>
        cases sel.keepSide (.mapValue valueId value optional) (value.prune sel) <;> rfl

/-- Nothing is kept of a leaf for what is below it. -/
theorem prune_of_isPrimitive (sel : Selection) {t : ColumnType} (ht : t.isPrimitive = true) :
    t.prune sel = .ok none := by
  cases t with
  | primitive p => rfl
  | _ => cases ht

theorem exists_mem_hops_of_isMap {t : ColumnType} (ht : t.isMap = true) : ∃ h, h ∈ t.hops := by
  cases t with
  | map keyId key valueId value optional => exact ⟨_, List.mem_cons_self⟩
  | _ => cases ht

end ColumnType

/-! ## One slot -/

namespace Selection
variable {sel : Selection} {t : ColumnType} {h : Hop}

/-- Only with the extent `subtree` a map is kept as it is, and then both its sides are kept for
their own sake. -/
theorem kept_of_takesMap (ht : sel.takesMap t = true) (hh : h ∈ t.hops) :
    sel.extent = .subtree ∧ sel.kept t h = true := by
  simp only [takesMap, takesWhole, Bool.and_eq_true, List.all_eq_true, decide_eq_true_eq] at ht
  obtain ⟨hmap, hall⟩ := ht
  have hsub := (hall _ (Hop.field_mem_fields hh)).2
  refine ⟨hsub, ?_⟩
  simp only [kept, hsub, Hop.keptWhole, ColumnType.isMapSide_of_mem_hops hh, hmap]
  simp only [Bool.true_and, Bool.or_eq_true, List.all_eq_true, decide_eq_true_eq]
  exact .inr fun f hf => by simpa [has] using (hall f hf).1

/-- In a map that is kept as it is all positions are kept. -/
theorem keeps_of_takesMap {i : Nat} (ht : sel.takesMap t = true) (hi : t.hops[i]? = some h)
    (pos : List Nat) : sel.keeps t (i :: pos) = true := by
  obtain ⟨hsub, hkept⟩ := kept_of_takesMap ht (List.mem_of_getElem? hi)
  exact keeps_cons_of_subtree hi hsub hkept pos

/-- With the extent `exact` no map is kept as it is for having both sides selected. -/
theorem takesMap_of_exact (hext : sel.extent = .exact) : sel.takesMap t = false := by
  rw [Bool.eq_false_iff]
  intro ht
  obtain ⟨h, hh⟩ := ColumnType.exists_mem_hops_of_isMap (Bool.and_eq_true_iff.1 ht).1
  rw [(kept_of_takesMap ht hh).1] at hext
  cases hext

/-- A field of a struct or the element of a list that is selected is kept for its own sake unless it
cannot be. -/
theorem kept_of_not_isMapSide (hside : h.role.isMapSide = false) :
    sel.kept t h = (sel.has h.field.id &&
      (sel.extent = .subtree || h.field.type.isPrimitive || h.field.type.isStruct)) := by
  cases hext : sel.extent <;> simp [kept, hext, Hop.keptWhole, Hop.keptItself, hside, has]

/-- In a map that is not kept as it is just the selected leaves are kept for their own sake. -/
theorem kept_of_isMapSide (hh : h ∈ t.hops) (hside : h.role.isMapSide = true)
    (ht : sel.takesMap t = false) :
    sel.kept t h = (sel.has h.field.id && h.field.type.isPrimitive) := by
  cases hext : sel.extent with
  | exact => simp [kept, hext, Hop.keptItself, hside, has]
  | subtree =>
    have hmap : t.isMap = true := by rw [← ColumnType.isMapSide_of_mem_hops hh, hside]
    have hnot : (t.fields.all fun f => decide (f.id ∈ sel.ids)) = false := by
      simpa [takesMap, hmap, takesWhole, hext, has] using ht
    simp [kept, hext, Hop.keptWhole, hside, has, hnot]

/-- **What is kept of a slot** of a type that is not kept as it is: the slot as it is if it is
selected with everything below.  Otherwise what is kept below it decides, and after that the failure
of the slot itself. -/
theorem keepSlot_eq (hh : h ∈ t.hops) (ht : sel.takesMap t = false)
    (below : Except SchemaError (Option Cut)) :
    sel.keepSlot h below =
      if sel.takesWhole h.field.id = true ∧ h.role.isMapSide = false then .ok (some .whole)
      else below >>= fun cut =>
        match sel.askFault h with
        | some e => .error e
        | none => .ok (if sel.kept t h then
            some (if h.field.type.isStruct then cut.getD .bare else .whole) else cut) := by
  cases hside : h.role.isMapSide with
  | true =>
    have hask : sel.askFault h = none := by simp [askFault, hside]
    have hkeep (cut : Option Cut) :
        (if sel.has h.field.id && h.field.type.isPrimitive then some Cut.whole else cut) =
          if sel.kept t h then
            some (if h.field.type.isStruct then cut.getD .bare else .whole) else cut := by
      rw [kept_of_isMapSide hh hside ht]
      cases h.field.type <;> cases sel.has h.field.id <;> rfl
    rw [keepSlot, if_pos hside, if_neg (by simp), hask, keepSide]
    simp only [hkeep]
    rfl
  | false =>
    rw [keepSlot, if_neg (by simp [hside]), keepField]
    by_cases htake : sel.takesWhole h.field.id = true
    · rw [if_pos htake, if_pos ⟨htake, rfl⟩]
    · rw [if_neg htake, if_neg (fun hc => htake hc.1)]
      refine congrArg (below >>= ·) (funext fun cut => ?_)
      rw [askFault, kept_of_not_isMapSide hside]
      cases hhas : sel.has h.field.id with
      | false => simp [pure, Except.pure]
      | true =>
        have hext : sel.extent = .exact := by
          cases hext : sel.extent with
          | exact => rfl
          | subtree => simp [takesWhole, hhas, hext] at htake
        cases h.field.type <;> simp [hext, hside] <;> rfl

/-- A slot that is kept for its own sake but not with everything holds a leaf, or else a struct. -/
theorem primitive_or_struct_of_kept (hh : h ∈ t.hops) (ht : sel.takesMap t = false)
    (htake : ¬(sel.takesWhole h.field.id = true ∧ h.role.isMapSide = false))
    (hkept : sel.kept t h = true) :
    h.field.type.isPrimitive = true ∨ h.field.type.isStruct = true ∧ sel.extent = .exact := by
  cases hside : h.role.isMapSide with
  | true =>
    rw [kept_of_isMapSide hh hside ht, Bool.and_eq_true] at hkept
    exact .inl hkept.2
  | false =>
    rw [kept_of_not_isMapSide hside, Bool.and_eq_true] at hkept
    have hext : sel.extent = .exact := by
      cases hext : sel.extent with
      | exact => rfl
      | subtree => exact absurd ⟨by simp [takesWhole, hkept.1, hext], hside⟩ htake
    simpa [hext] using hkept.2

/-- What pruning comes to if it succeeds: something is kept just if some field is kept for its own
sake, and it is what is left at the kept positions. -/
structure Settles (sel : Selection) (t : ColumnType) (cut : Option Cut) : Prop where
  isSome_eq : cut.isSome = t.finds sel.kept
  leaves : ∀ c, cut = some c → c.Leaves t (sel.keeps t)

/-- **What can come of a slot** of a type that is not kept as it is, if pruning succeeds. -/
inductive SlotCut (sel : Selection) (t : ColumnType) (h : Hop) : Option Cut → Prop
  /-- The slot is kept for its own sake, with all that it has. -/
  | whole (kept : sel.kept t h = true)
      (all : sel.extent = .subtree ∨ h.field.type.isPrimitive = true) :
      SlotCut sel t h (some .whole)
  /-- A struct is kept for its own sake, and nothing below it. -/
  | bare (extent : sel.extent = .exact) (struct : h.field.type.isStruct = true)
      (kept : sel.kept t h = true) (below : h.field.type.prune sel = .ok none) :
      SlotCut sel t h (some .bare)
  /-- What is kept below the slot decides. -/
  | below {slot : Option Cut} (below : h.field.type.prune sel = .ok slot)
      (part : ¬(sel.extent = .subtree ∧ sel.kept t h = true))
      (kept : sel.kept t h = true → slot.isSome = true) : SlotCut sel t h slot

theorem slotCut_of_keepSlot {slot : Option Cut} (hh : h ∈ t.hops) (ht : sel.takesMap t = false)
    (hs : sel.keepSlot h (h.field.type.prune sel) = .ok slot) : sel.SlotCut t h slot := by
  rw [keepSlot_eq hh ht] at hs
  by_cases htake : sel.takesWhole h.field.id = true ∧ h.role.isMapSide = false
  · rw [if_pos htake] at hs
    cases hs
    obtain ⟨hhas, hsub⟩ : sel.has h.field.id = true ∧ sel.extent = .subtree := by
      simpa [takesWhole] using htake.1
    exact .whole (by simp [kept_of_not_isMapSide htake.2, hhas, hsub]) (.inl hsub)
  · rw [if_neg htake] at hs
    obtain ⟨cut, hcut, hs⟩ := bind_eq_ok_iff.1 hs
    cases hask : sel.askFault h with
    | some e =>
      rw [hask] at hs
      cases hs
    | none =>
      rw [hask] at hs
      cases hs
      cases hkept : sel.kept t h with
      | false => exact .below hcut (by simp [hkept]) (by simp [hkept])
      | true =>
        rw [if_pos rfl]
        rcases primitive_or_struct_of_kept hh ht htake hkept with hprim | ⟨hstruct, hext⟩
        · have hnot : h.field.type.isStruct = false := by
            cases htype : h.field.type with
            | struct fields =>
              rw [htype] at hprim
              cases hprim
            | _ => rfl
          rw [hnot, if_neg Bool.false_ne_true]
          exact .whole hkept (.inr hprim)
        · rw [if_pos hstruct]
          cases cut with
          | none => exact .bare hext hstruct hkept hcut
          | some c => exact .below hcut (by simp [hext]) fun _ => rfl

/-- **A slot leaves what is kept in it.** -/
theorem SlotCut.leaves {i : Nat} {slot : Option Cut} (hi : t.hops[i]? = some h)
    (hslot : sel.SlotCut t h slot)
    (ih : ∀ cut, h.field.type.prune sel = .ok cut → sel.Settles h.field.type cut) :
    h.Leaves (sel.keeps t) i slot := by
  have hsome : sel.keeps t [i] = h.leads sel.kept t := keeps_singleton hi
  cases hslot with
  | whole kept all =>
    refine ⟨by rw [hsome, Hop.leads, kept]; rfl, fun c hc => ?_⟩
    cases hc
    rcases all with hsub | hprim
    · exact Cut.whole_leaves fun j _ _ pos => keeps_cons_of_subtree hi hsub kept (j :: pos)
    · exact Cut.leaves_of_isPrimitive hprim _ _
  | bare extent struct kept below =>
    refine ⟨by rw [hsome, Hop.leads, kept]; rfl, fun c hc => ?_⟩
    cases hc
    refine Cut.bare_leaves struct fun p hp => ?_
    rw [keeps_cons_of_ne_nil hi (by simp [extent]) (ColumnType.position_ne_nil hp)]
    exact keeps_of_finds_eq_false (ih none below).isSome_eq.symm p.position
  | below below part kept =>
    have hbelow := ih slot below
    refine ⟨?_, fun c hc => ?_⟩
    · rw [hsome, Hop.leads, ← hbelow.isSome_eq]
      cases hkept : sel.kept t h with
      | true => rw [kept hkept, Bool.true_or]
      | false => rw [Bool.false_or]
    · exact (hbelow.leaves c hc).congr fun pos hpos => (keeps_cons_of_ne_nil hi part hpos).symm

/-- **What can come of all slots** of a type that is not kept as it is. -/
structure SlotCuts (sel : Selection) (t : ColumnType) (slots : List (Option Cut)) : Prop where
  length_eq : slots.length = t.hops.length
  slot : ∀ (i : Nat) (h : Hop), t.hops[i]? = some h →
    ∃ slot, slots[i]? = some slot ∧ sel.SlotCut t h slot

theorem slotCuts_of_mapM {slots : List (Option Cut)} (ht : sel.takesMap t = false)
    (hmap : t.hops.mapM (fun h => sel.keepSlot h (h.field.type.prune sel)) = .ok slots) :
    sel.SlotCuts t slots := by
  refine ⟨length_of_mapM_eq_ok hmap, fun i h hi => ?_⟩
  obtain ⟨slot, hslot, hs⟩ := getElem?_of_mapM_eq_ok hmap hi
  exact ⟨slot, hslot, slotCut_of_keepSlot (List.mem_of_getElem? hi) ht hs⟩

/-- All slots leave what is kept in them. -/
theorem SlotCuts.allLeave {slots : List (Option Cut)} (hslots : sel.SlotCuts t slots)
    (ih : ∀ h ∈ t.hops, ∀ cut, h.field.type.prune sel = .ok cut → sel.Settles h.field.type cut) :
    Cut.AllLeave slots t (sel.keeps t) := by
  refine ⟨hslots.length_eq, fun i h hi => ?_⟩
  obtain ⟨slot, hslot, hcut⟩ := hslots.slot i h hi
  exact ⟨slot, hslot, hcut.leaves hi (ih h (List.mem_of_getElem? hi))⟩

end Selection

/-! ## The whole type -/

namespace ColumnType

section Assemble
variable {sel : Selection} {t : ColumnType} {slots : List (Option Cut)}

/-- Something is kept of a type just if something is kept of a slot. -/
theorem isSome_assemble (hslots : Cut.AllLeave slots t (sel.keeps t)) :
    (Cut.assemble slots).isSome = t.finds sel.kept := by
  rw [Bool.eq_iff_iff, finds_eq_any, List.any_eq_true, Option.isSome_iff_ne_none, Ne,
    Cut.assemble_eq_none_iff]
  constructor
  · intro hne
    obtain ⟨slot, hmem, hsome⟩ : ∃ slot ∈ slots, slot ≠ none := by simpa using hne
    obtain ⟨i, hi⟩ := List.getElem?_of_mem hmem
    obtain ⟨h, hhop, hleaves⟩ := hslots.exists_hop hi
    refine ⟨h, List.mem_of_getElem? hhop, ?_⟩
    rw [← Selection.keeps_singleton hhop, ← hleaves.isSome_eq]
    exact Option.isSome_iff_ne_none.2 hsome
  · rintro ⟨h, hh, hleads⟩ hnone
    obtain ⟨i, hi⟩ := List.getElem?_of_mem hh
    obtain ⟨slot, hslot, hleaves⟩ := hslots.slot i h hi
    rw [← Selection.keeps_singleton hi, ← hleaves.isSome_eq,
      hnone slot (List.mem_of_getElem? hslot)] at hleads
    cases hleads

/-- **Putting a type together fails just if the type is a half-kept map**, and else gives the node
over the slots. -/
theorem assemble_eq (hslots : Cut.AllLeave slots t (sel.keeps t)) :
    t.assemble slots =
      match t.halfFault sel.kept with
      | some e => .error e
      | none => .ok (Cut.assemble slots) := by
  cases t with
  | map keyId key valueId value optional =>
    obtain ⟨k, hk, hkey⟩ := hslots.slot 0 _ rfl
    obtain ⟨v, hv, hvalue⟩ := hslots.slot 1 _ rfl
    have hpair : slots = [k, v] := by
      match slots, hslots.length_eq with
      | [_, _], _ => simpa using And.intro hk hv
    have hhalf : (map keyId key valueId value optional).isHalf sel.kept =
        (k.isSome != v.isSome) := by
      rw [hkey.isSome_eq, hvalue.isSome_eq, Selection.keeps_singleton rfl,
        Selection.keeps_singleton rfl]
      rfl
    rw [hpair, assemble, halfFault, hhalf]
    cases k <;> cases v <;> rfl
  | _ => rfl

/-- What is put together without a failure is no half-kept map. -/
theorem assemble_eq_ok {cut : Option Cut} (hslots : Cut.AllLeave slots t (sel.keeps t))
    (h : t.assemble slots = .ok cut) : t.isHalf sel.kept = false ∧ cut = Cut.assemble slots := by
  rw [assemble_eq hslots] at h
  cases hhalf : t.halfFault sel.kept with
  | some e =>
    rw [hhalf] at h
    cases h
  | none =>
    rw [hhalf] at h
    exact ⟨(halfFault_eq_none_iff _).1 hhalf, (Except.ok.inj h).symm⟩

end Assemble

variable {sel : Selection} {t : ColumnType} {cut : Option Cut}

/-- **How pruning comes to its cut**: a map of which both sides are taken is kept as it is, and any
other type is put together from what comes of its slots. -/
theorem prune_cases (h : t.prune sel = .ok cut) :
    sel.takesMap t = true ∧ cut = some .whole ∨
      ∃ slots, sel.SlotCuts t slots ∧ t.assemble slots = .ok cut := by
  rw [prune_eq] at h
  cases ht : sel.takesMap t with
  | true =>
    rw [ht, if_pos rfl] at h
    exact .inl ⟨rfl, (Except.ok.inj h).symm⟩
  | false =>
    rw [ht, if_neg Bool.false_ne_true] at h
    obtain ⟨slots, hmap, h⟩ := bind_eq_ok_iff.1 h
    exact .inr ⟨slots, Selection.slotCuts_of_mapM ht hmap, h⟩

/-- A map of which both sides are taken leaves all that is below it. -/
theorem settles_of_takesMap (ht : sel.takesMap t = true) : sel.Settles t (some .whole) := by
  refine ⟨?_, fun c hc => ?_⟩
  · obtain ⟨hop, hhop⟩ := exists_mem_hops_of_isMap (Bool.and_eq_true_iff.1 ht).1
    rw [finds_eq_any, eq_comm, Option.isSome_some, List.any_eq_true]
    exact ⟨hop, hhop, by simp [Hop.leads, Selection.kept_of_takesMap ht hhop]⟩
  · cases hc
    exact Cut.whole_leaves fun _ _ hi => Selection.keeps_of_takesMap ht hi

/-- **Pruning that succeeds leaves just the kept positions**, and keeps nothing just if there are
none. -/
theorem settles_of_prune (h : t.prune sel = .ok cut) : sel.Settles t cut := by
  -- Both halves of `Settles` go through together: which slots survive decides the node's checks.
  induction t using induction_hops generalizing cut with
  | node t ih =>
    rcases prune_cases h with ⟨ht, rfl⟩ | ⟨slots, hcuts, h⟩
    · exact settles_of_takesMap ht
    · have hslots := hcuts.allLeave fun hop hh _ hcut => ih hop hh hcut
      obtain ⟨hhalf, rfl⟩ := assemble_eq_ok hslots h
      have hsome := isSome_assemble hslots
      -- What keeps both slots of a map, or the one of a list, is that the map is not half kept.
      refine ⟨hsome, fun c hc => Cut.assemble_leaves hc hslots (fun hs i hop hi => ?_) ?_⟩
      · rw [hc] at hsome
        rw [Selection.keeps_singleton hi]
        exact Hop.leads_of_finds sel.kept hs hhalf hsome.symm (List.mem_of_getElem? hi)
      · exact fun i hop hi hkeep p _ => Selection.keeps_cons_eq_false hi hkeep p.position

/-- The slots of a type that is pruned leave what is kept in them. -/
theorem allLeave_of_slotCuts {slots : List (Option Cut)} (hslots : sel.SlotCuts t slots) :
    Cut.AllLeave slots t (sel.keeps t) :=
  hslots.allLeave fun _ _ _ hcut => settles_of_prune hcut

/-! ## Failures -/

/-- In a map that is kept as it is nothing fails. -/
theorem firstFault_of_takesMap {sel : Selection} {t : ColumnType} (ht : sel.takesMap t = true) :
    sel.firstFault t = none := by
  have hplaces : t.placesUp.findSome? (sel.fault t) = none := by
    rw [placesUp_eq_flatMap, findSome?_flatMap, List.findSome?_eq_none_iff]
    intro (h, i) hi
    replace hi := List.mem_zipIdx_iff_getElem?.1 hi
    rw [Selection.findSome?_placesUp_slot hi,
      if_pos (Selection.kept_of_takesMap ht (List.mem_of_getElem? hi))]
  have hleads (h : Hop) (hh : h ∈ t.hops) : h.leads sel.kept t = true := by
    simp [Hop.leads, Selection.kept_of_takesMap ht hh]
  have hhalf : t.halfFault sel.kept = none :=
    (halfFault_eq_none_iff _).2 (isHalf_eq_false _ hleads)
  rw [Selection.firstFault, hplaces, hhalf]
  rfl

/-- A slot of a type that is not kept as it is fails as its type does, or else for itself, unless it
is kept with everything. -/
theorem failure?_keepSlot {sel : Selection} {t : ColumnType} {h : Hop} (hh : h ∈ t.hops)
    (ht : sel.takesMap t = false)
    (ih : failure? (h.field.type.prune sel) = sel.firstFault h.field.type) :
    failure? (sel.keepSlot h (h.field.type.prune sel)) =
      if sel.extent = .subtree ∧ sel.kept t h = true then none
      else (sel.firstFault h.field.type).or (sel.askFault h) := by
  rw [Selection.keepSlot_eq hh ht]
  by_cases htake : sel.takesWhole h.field.id = true ∧ h.role.isMapSide = false
  · obtain ⟨hhas, hsub⟩ : sel.has h.field.id = true ∧ sel.extent = .subtree := by
      simpa [Selection.takesWhole] using htake.1
    have hkept : sel.kept t h = true := by
      simp [Selection.kept_of_not_isMapSide htake.2, hhas, hsub]
    rw [if_pos htake, if_pos ⟨hsub, hkept⟩, failure?_ok]
  · have hbody : failure? (h.field.type.prune sel >>= fun cut =>
          match sel.askFault h with
          | some e => .error e
          | none => .ok (if sel.kept t h then
              some (if h.field.type.isStruct then cut.getD .bare else .whole) else cut)) =
        (sel.firstFault h.field.type).or (sel.askFault h) := by
      rw [failure?_bind, ← ih]
      cases h.field.type.prune sel with
      | error e => rfl
      | ok cut => cases sel.askFault h <;> rfl
    rw [if_neg htake, hbody]
    by_cases hk : sel.extent = .subtree ∧ sel.kept t h = true
    · -- Only a selected leaf on one side of a map comes this way, and it cannot fail.
      obtain hprim | ⟨-, hext⟩ := Selection.primitive_or_struct_of_kept hh ht htake hk.2
      · rw [if_pos hk, ← ih, Selection.askFault, if_neg (by simp [hk.1]),
          prune_of_isPrimitive sel hprim]
        rfl
      · rw [hk.1] at hext
        cases hext
    · rw [if_neg hk]

/-- **Pruning fails with the first failure from the bottom up.** -/
theorem failure?_prune (sel : Selection) (t : ColumnType) :
    failure? (t.prune sel) = sel.firstFault t := by
  induction t using induction_hops with
  | node t ih =>
    rw [prune_eq]
    cases ht : sel.takesMap t with
    | true => rw [if_pos rfl, firstFault_of_takesMap ht, failure?_ok]
    | false =>
      have hslots : (t.hops.findSome? fun h => failure? (sel.keepSlot h (h.field.type.prune sel))) =
          t.placesUp.findSome? (sel.fault t) := by
        rw [placesUp_eq_flatMap, findSome?_flatMap]
        conv_lhs => rw [← List.zipIdx_map_fst 0 t.hops, List.findSome?_map]
        refine findSome?_congr fun (h, i) hi => ?_
        replace hi := List.mem_zipIdx_iff_getElem?.1 hi
        have hh := List.mem_of_getElem? hi
        rw [Selection.findSome?_placesUp_slot hi]
        exact failure?_keepSlot hh ht (ih h hh)
      rw [if_neg (by simp), failure?_bind, failure?_mapM, hslots, Selection.firstFault]
      -- The check of the type itself comes about only if no slot fails, with all slots settled.
      cases hmap : t.hops.mapM fun h => sel.keepSlot h (h.field.type.prune sel) with
      | error e =>
        have hfirst := failure?_mapM (fun h => sel.keepSlot h (h.field.type.prune sel)) t.hops
        rw [hmap, hslots, failure?_error] at hfirst
        rw [← hfirst]
        rfl
      | ok slots =>
        have hnode : failure? (t.assemble slots) = t.halfFault sel.kept := by
          rw [assemble_eq (allLeave_of_slotCuts (Selection.slotCuts_of_mapM ht hmap))]
          cases t.halfFault sel.kept <;> rfl
        rw [← hnode]
        rfl

/-! ## What pruning does not look at -/

/-- What is kept of a slot depends on whether its number is selected, and that only if it is not the
side of a map or holds a leaf. -/
theorem keepSlot_congr {sel sel' : Selection} {h : Hop} (hext : sel.extent = sel'.extent)
    (hhas : h.role.isMapSide = false ∨ h.field.type.isPrimitive = true →
      sel.has h.field.id = sel'.has h.field.id) :
    sel.keepSlot h = sel'.keepSlot h := by
  funext below
  cases hside : h.role.isMapSide with
  | false =>
    have hsame := hhas (.inl hside)
    rw [Selection.keepSlot, Selection.keepSlot, if_neg (by simp [hside]), if_neg (by simp [hside])]
    simp only [Selection.keepField, Selection.takesWhole, hsame, hext]
    rfl
  | true =>
    rw [Selection.keepSlot, Selection.keepSlot, if_pos hside, if_pos hside]
    cases hprim : h.field.type.isPrimitive with
    | true =>
      have hsame := hhas (.inr hprim)
      simp only [Selection.keepSide, hsame]
    | false => simp only [Selection.keepSide, hprim, Bool.and_false]

/-- **Pruning does not look at the number of a map's side that holds no leaf**, but for one thing:
with the extent `subtree`, whether both numbers of a map are selected. -/
theorem prune_congr {sel sel' : Selection} {t : ColumnType} (hext : sel.extent = sel'.extent)
    (hhas : ∀ p ∈ t.places, p.hop.role.isMapSide = false ∨ p.field.type.isPrimitive = true →
      sel.has p.id = sel'.has p.id)
    (hboth : sel.extent = .subtree → ∀ p ∈ t.places, p.hop.role.isMapSide = true →
      ((p.parent t).fields.all fun f => sel.has f.id) =
        (p.parent t).fields.all fun f => sel'.has f.id) :
    t.prune sel = t.prune sel' := by
  induction t using induction_hops with
  | node t ih =>
    have htakes : sel.takesMap t = sel'.takesMap t := by
      cases hmap : t.isMap with
      | false => simp [Selection.takesMap, hmap]
      | true =>
        obtain ⟨h, hh⟩ := exists_mem_hops_of_isMap hmap
        obtain ⟨i, hi⟩ := List.getElem?_of_mem hh
        have hside : h.role.isMapSide = true := (isMapSide_of_mem_hops hh).trans hmap
        cases hsub : sel.extent with
        | exact =>
          have hsub' : sel'.extent = .exact := hext.symm.trans hsub
          rw [Selection.takesMap_of_exact hsub, Selection.takesMap_of_exact hsub']
        | subtree =>
          have hsub' : sel'.extent = .subtree := hext.symm.trans hsub
          have hall := hboth hsub _ (child_mem_places hi) hside
          simpa [Selection.takesMap, hmap, Selection.takesWhole, hsub, hsub'] using hall
    have hslots (h : Hop) (hh : h ∈ t.hops) :
        sel.keepSlot h (h.field.type.prune sel) = sel'.keepSlot h (h.field.type.prune sel') := by
      obtain ⟨i, hi⟩ := List.getElem?_of_mem hh
      have hslot : sel.keepSlot h = sel'.keepSlot h :=
        keepSlot_congr hext (hhas _ (child_mem_places hi))
      rw [hslot, ih h hh]
      · exact fun p hp => hhas (p.below i h) (below_mem_places hi hp)
      · intro hsub p hp hside
        have hall := hboth hsub (p.below i h) (below_mem_places hi hp) hside
        rwa [Place.parent_below] at hall
    rw [prune_eq, prune_eq, htakes, mapM_congr hslots]

end ColumnType
end TableSchema
