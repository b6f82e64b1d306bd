import TableSchema.Proofs.CanonicalPaths
import TableSchema.Proofs.Projection
import TableSchema.Proofs.Survivors

/-!
# Where the two extents agree

Asking for fields with everything below them and asking for just these fields are the same thing as
long as there is nothing below them (`Selection.extents_agree`).  Then both fail alike, and what
they keep is the same node for node, be it shared or new.  So selecting paths that lead to leaves is
projecting to their numbers, unless one of the paths is the wildcard.  The wildcard stands for the
whole schema, even if a column happens to be called that (`Schema.select_starred_ne_project`).

Where fields with something below them are asked for the one or the other may fail, but if both
succeed then the extent `subtree` keeps at least what the extent `exact` keeps.
-/

namespace TableSchema

/-- What is kept by itself is kept whole. -/
theorem Hop.keptWhole_of_keptItself {ids : List FieldId} {parent : ColumnType} {h : Hop}
    (hkept : h.keptItself ids = true) : h.keptWhole ids parent = true := by
  rw [keptItself, Bool.and_eq_true] at hkept
  obtain ⟨hid, htype⟩ := hkept
  have hleaf : (!h.role.isMapSide || h.field.type.isPrimitive) = true := by
    rcases Bool.or_eq_true_iff.1 htype with hprim | hstruct
    · rw [hprim, Bool.or_true]
    · rw [(Bool.and_eq_true_iff.1 hstruct).2, Bool.true_or]
  rw [keptWhole, hid, hleaf]
  rfl

namespace Selection
variable {ids : List FieldId}

theorem kept_exact_le {parent : ColumnType} {h : Hop} (hkept : kept ⟨ids, .exact⟩ parent h = true) :
    kept ⟨ids, .subtree⟩ parent h = true :=
  Hop.keptWhole_of_keptItself hkept

/-- **The extent `subtree` keeps at least what the extent `exact` keeps.** -/
theorem keeps_exact_le {t : ColumnType} {pos : List Nat}
    (h : keeps ⟨ids, .exact⟩ t pos = true) : keeps ⟨ids, .subtree⟩ t pos = true := by
  rw [keeps_eq_true_iff, inside_exact] at h
  rcases h with ⟨q, hq, hkept, hpos⟩ | hin
  · exact keeps_eq_true_iff.2 (.inl ⟨q, hq, kept_exact_le hkept, hpos⟩)
  · cases hin

/-- The extent makes no difference for a slot that is not asked for or is a leaf. -/
theorem keepSlot_extent {h : Hop}
    (hprim : h.field.id ∈ ids → h.field.type.isPrimitive = true)
    (ih : h.field.type.prune ⟨ids, .subtree⟩ = h.field.type.prune ⟨ids, .exact⟩) :
    keepSlot ⟨ids, .subtree⟩ h (h.field.type.prune ⟨ids, .subtree⟩) =
      keepSlot ⟨ids, .exact⟩ h (h.field.type.prune ⟨ids, .exact⟩) := by
  rw [ih, keepSlot, keepSlot]
  split
  · rfl
  · by_cases hid : h.field.id ∈ ids
    · cases htype : h.field.type with
      | primitive p => simp [keepField, takesWhole, has, hid, htype, ColumnType.prune,
          ColumnType.kind]
      | _ =>
        rw [htype] at hprim
        cases hprim hid
    · simp [keepField, takesWhole, has, hid]

end Selection

namespace ColumnType
variable {ids : List FieldId} {t : ColumnType}

/-- A map of which both sides are leaves that are asked for is kept as it is with either extent. -/
theorem prune_exact_of_takesMap (ht : Selection.takesMap ⟨ids, .subtree⟩ t = true)
    (hprim : ∀ h ∈ t.hops, h.field.id ∈ ids → h.field.type.isPrimitive = true) :
    t.prune ⟨ids, .exact⟩ = .ok (some .whole) := by
  have hside (f : Field) (hid : f.id ∈ ids) (hf : f.type.isPrimitive = true) :
      Selection.keepSide ⟨ids, .exact⟩ f (f.type.prune ⟨ids, .exact⟩) = .ok (some .whole) := by
    rw [prune_of_isPrimitive _ hf, Selection.keepSide, Selection.has, hf, decide_eq_true hid]
    rfl
  have hids : ∀ f ∈ t.fields, f.id ∈ ids := by
    intro f hf
    have hall := List.all_eq_true.1 (Bool.and_eq_true_iff.1 ht).2 f hf
    exact of_decide_eq_true (Bool.and_eq_true_iff.1 hall).1
  cases t with
  | map keyId key valueId value optional =>
    have hkey : keyId ∈ ids := hids (.mapKey keyId key) List.mem_cons_self
    have hvalue : valueId ∈ ids :=
      hids (.mapValue valueId value optional) (List.mem_cons_of_mem _ List.mem_cons_self)
    have hkeep : Selection.keepSide ⟨ids, .exact⟩ (.mapKey keyId key) (key.prune _) = _ :=
      hside _ hkey (hprim ⟨.mapKey, _⟩ List.mem_cons_self hkey)
    have hkeep' : Selection.keepSide ⟨ids, .exact⟩ (.mapValue valueId value optional)
        (value.prune _) = _ :=
      hside _ hvalue (hprim ⟨.mapValue, _⟩ (List.mem_cons_of_mem _ List.mem_cons_self) hvalue)
    rw [prune, hkeep, hkeep', Selection.keepMap, if_neg (by simp [Selection.takesWhole])]
    rfl
  | _ => cases ht

/-- **The extent makes no difference if all that is asked for are leaves.** -/
theorem prune_extent (hprim : ∀ p ∈ t.places, p.id ∈ ids → p.field.type.isPrimitive = true) :
    t.prune ⟨ids, .subtree⟩ = t.prune ⟨ids, .exact⟩ := by
  induction t using induction_hops with
  | node t ih =>
    have hslot (h : Hop) (hh : h ∈ t.hops) (hid : h.field.id ∈ ids) :
        h.field.type.isPrimitive = true := by
      obtain ⟨i, hi⟩ := List.getElem?_of_mem hh
      exact hprim _ (child_mem_places hi) hid
    cases ht : Selection.takesMap ⟨ids, .subtree⟩ t with
    | true => rw [prune_exact_of_takesMap ht hslot, prune_eq, ht, if_pos rfl]
    | false =>
      rw [prune_eq, prune_eq, ht, Selection.takesMap_of_exact rfl]
      refine congrArg (· >>= t.assemble) (mapM_congr fun h hh => ?_)
      obtain ⟨i, hi⟩ := List.getElem?_of_mem hh
      refine Selection.keepSlot_extent (hslot h hh) (ih h hh fun q hq => ?_)
      exact hprim (q.below i h) (below_mem_places hi hq)

/-- **If both extents succeed then `subtree` keeps at least what `exact` keeps.** -/
theorem survives_of_prune_exact {kept whole : Option Cut}
    (hkept : t.prune ⟨ids, .exact⟩ = .ok kept) (hwhole : t.prune ⟨ids, .subtree⟩ = .ok whole) :
    (kept.isSome = true → whole.isSome = true) ∧
      ∀ c c', kept = some c → whole = some c' → ∀ p ∈ t.places,
        (c.at? p.position).isSome = true → (c'.at? p.position).isSome = true := by
  constructor
  · rw [(settles_of_prune hkept).isSome_eq, (settles_of_prune hwhole).isSome_eq]
    intro hfinds
    obtain ⟨q, hq, hself⟩ := List.any_eq_true.1 hfinds
    exact List.any_eq_true.2 ⟨q, hq, Selection.kept_exact_le hself⟩
  · rintro c c' rfl rfl p hp
    rw [(follows_of_prune hkept).isSome_at? p hp, (follows_of_prune hwhole).isSome_at? p hp]
    exact Selection.keeps_exact_le

end ColumnType

namespace Schema
variable {s : Schema} {case : NameCase} {names : List String} {ids : List FieldId}

/-- Where a path leads to a field, no other field has its number. -/
theorem field_eq_of_fieldAtPath {name : String} {f : Field}
    (hf : s.fieldAtPath name case = .ok (some f)) {p : Place} (hp : p ∈ s.root.places)
    (hid : f.id = p.id) : p.field = f := by
  obtain ⟨⟨index, hindex⟩, paths, hpaths⟩ := exists_indexes_of_fieldAtPath hf
  obtain ⟨q, hq, rfl⟩ := exists_place_of_fieldAtPath hindex hpaths hf
  rw [eq_of_id_eq hindex hp hq hid.symm]

/-- **Selecting paths that lead to leaves is projecting to their numbers.** -/
theorem select_eq_project (hnames : wildcard ∉ names)
    (hprim : ∀ name ∈ names, ∃ f, s.fieldAtPath name case = .ok (some f) ∧
      f.type.isPrimitive = true)
    (hids : ∀ id, id ∈ ids ↔ s.Resolves names case id) :
    s.select names case = s.project ids := by
  obtain ⟨found, hfound⟩ : ∃ found, s.idsAtPaths names case = .ok found := by
    obtain ⟨fields, hfields⟩ := exists_mapM_eq_ok fun name hname =>
      (hprim name hname).imp' some fun _ => And.left
    exact ⟨_, bind_eq_ok_iff.2 ⟨fields, hfields, rfl⟩⟩
  have hmem := mem_idsAtPaths_iff hfound
  -- The numbers are unique here, so a leaf is all that any of them stands for.
  have hleaf : ∀ p ∈ s.root.places, p.id ∈ found → p.field.type.isPrimitive = true := by
    intro p hp hid
    obtain ⟨name, hname, f, hf, hfid⟩ := (hmem p.id).1 hid
    obtain ⟨g, hg, hgprim⟩ := hprim name hname
    obtain rfl : f = g := Option.some.inj (Except.ok.inj (hf.symm.trans hg))
    rw [field_eq_of_fieldAtPath hf hp hfid]
    exact hgprim
  calc s.select names case
    _ = s.prune ⟨found, .subtree⟩ := by
      rw [select_eq_bind hnames, hfound]
      rfl
    _ = s.project found := by rw [project, prune, prune, ColumnType.prune_extent hleaf]
    _ = s.project ids := project_congr fun p _ _ => (hids p.id).trans (hmem p.id).symm

end Schema

/-- **The two extents agree where only leaves are asked for.**  They fail alike, and what they keep
is the same and shared alike, so selecting paths that lead to leaves is projecting to their numbers,
unless the wildcard is one of the paths.  If both succeed, whatever is asked for, then `subtree`
keeps at least what `exact` keeps. -/
theorem Selection.extents_agree :
    (∀ (t : ColumnType) (ids : List FieldId),
      (∀ p ∈ t.places, p.id ∈ ids → p.field.type.isPrimitive = true) →
        t.prune ⟨ids, .subtree⟩ = t.prune ⟨ids, .exact⟩) ∧
    (∀ (s : Schema) (names : List String) (case : NameCase) (ids : List FieldId),
      Schema.wildcard ∉ names →
      (∀ name ∈ names, ∃ f, s.fieldAtPath name case = .ok (some f) ∧ f.type.isPrimitive = true) →
      (∀ id, id ∈ ids ↔ s.Resolves names case id) → s.select names case = s.project ids) ∧
    ∀ (t : ColumnType) (ids : List FieldId) (kept whole : Option Cut),
      t.prune ⟨ids, .exact⟩ = .ok kept → t.prune ⟨ids, .subtree⟩ = .ok whole →
      (kept.isSome = true → whole.isSome = true) ∧
        ∀ c c', kept = some c → whole = some c' → ∀ p ∈ t.places,
          (c.at? p.position).isSome = true → (c'.at? p.position).isSome = true :=
  ⟨fun _ _ => ColumnType.prune_extent, fun _ _ _ _ => Schema.select_eq_project,
    fun _ _ _ _ => ColumnType.survives_of_prune_exact⟩

/-- The keys of a map and a leaf far down in its values are the same asked for by paths and by
numbers.  A struct that is asked for with a leaf in it is not, but it survives in both ways. -/
theorem Selection.extents_agree_mapOfLists :
    (ColumnType.struct Samples.mapOfLists).prune ⟨[5, 1], .subtree⟩ =
        (ColumnType.struct Samples.mapOfLists).prune ⟨[5, 1], .exact⟩ ∧
      (⟨none, Samples.mapOfLists⟩ : Schema).select ["Value.key", "Value.value.element.Foo"]
        .asWritten = (⟨none, Samples.mapOfLists⟩ : Schema).project [5, 1] ∧
      ∃ c c', (ColumnType.struct Samples.people).prune ⟨[2, 5], .exact⟩ = .ok (some c) ∧
        (ColumnType.struct Samples.people).prune ⟨[2, 5], .subtree⟩ = .ok (some c') ∧ c ≠ c' ∧
        ∀ p ∈ (ColumnType.struct Samples.people).places,
          (c.at? p.position).isSome = true → (c'.at? p.position).isSome = true := by
  obtain ⟨hprune, hselect, hkeeps⟩ := extents_agree
  refine ⟨hprune _ _ (by decide), hselect _ _ _ _ (by decide) ?_ ?_, _, _, rfl, rfl, by decide,
    (hkeeps _ [2, 5] _ _ rfl rfl).2 _ _ rfl rfl⟩
  · intro name hname
    rcases List.mem_pair.1 hname with rfl | rfl
    · exact ⟨_, rfl, rfl⟩
    · exact ⟨_, rfl, rfl⟩
  · exact Schema.mem_idsAtPaths_iff rfl

namespace Schema

/-- Two columns, one of them called like the wildcard. -/
def starred : Schema :=
  ⟨none, [.required 1 "*" (.primitive .int), .required 2 "a" (.primitive .int)]⟩

/-- The wildcard also leads to the column with its name, which is a leaf, but to select it keeps all
columns. -/
theorem select_starred_ne_project :
    (∀ name ∈ ["*"], ∃ f, starred.fieldAtPath name .asWritten = .ok (some f) ∧
      f.type.isPrimitive = true) ∧
    (∀ id, id ∈ ([1] : List FieldId) ↔ starred.Resolves ["*"] .asWritten id) ∧
      starred.select ["*"] .asWritten ≠ starred.project [1] := by
  refine ⟨?_, mem_idsAtPaths_iff rfl, by decide⟩
  intro name hname
  obtain rfl := List.mem_singleton.1 hname
  exact ⟨_, rfl, rfl⟩

end Schema
end TableSchema
