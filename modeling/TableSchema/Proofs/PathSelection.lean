import TableSchema.Proofs.Narrowing
import TableSchema.Proofs.Resolution
import TableSchema.Samples

/-!
# Selection by paths

What `Schema.select` does, said without the walk that prunes.  The paths stand for some numbers
(`Schema.Resolves`).  A field is kept whole if its number is among them and it is not the side of a
map or is a leaf, or if it is a side of a map of which both numbers are among them
(`Hop.keptWhole`).  The selected schema has the fields that are kept whole with everything below and
above them, and no others.

All that a selection refuses is a map of which just one side is kept whole or has something below
that is.  It does not look at maps inside of what is kept whole anyway (`Place.isCovered`), and
fails with the first failure of any other map from the bottom up.
-/

namespace TableSchema

/-- A map of which both sides are selected is not half kept. -/
theorem ColumnType.isHalf_keptWhole_eq_false {ids : List FieldId} {t : ColumnType}
    (h : ∀ f ∈ t.fields, f.id ∈ ids) : t.isHalf (Hop.keptWhole ids) = false := by
  refine isHalf_eq_false _ fun hop hhop => ?_
  rw [Hop.leads, (Hop.forall_keptWhole_iff ids t).2 h hop hhop]
  rfl

namespace Place

/-- Whether a place is inside of a field that is kept whole. -/
def isCovered (root : ColumnType) (ids : List FieldId) (p : Place) : Bool :=
  root.places.any fun q => q.hop.keptWhole ids (q.parent root) && q.position.isPrefixOf p.position

/-- **The failure that a place causes**: that of a map of which just one side leads to something
kept whole, unless the map is inside of something kept whole itself. -/
def selectFault (root : ColumnType) (ids : List FieldId) (p : Place) : Option SchemaError :=
  if p.isCovered root ids then none else p.field.type.halfFault (Hop.keptWhole ids)

variable {root : ColumnType} {ids : List FieldId} {p : Place}

theorem selectFault_eq_none_iff : p.selectFault root ids = none ↔
    ¬(p.isCovered root ids = false ∧ p.field.type.isHalf (Hop.keptWhole ids) = true) := by
  rw [selectFault]
  cases p.isCovered root ids with
  | true => simp
  | false =>
    rw [if_neg (by simp), ColumnType.halfFault_eq_none_iff]
    simp

/-- A failure tells the numbers of both sides of the map. -/
theorem exists_of_selectFault_eq_some {e : SchemaError} (h : p.selectFault root ids = some e) :
    ∃ key value, e = .partialMap key value := by
  obtain ⟨-, hhalf⟩ := Option.ite_none_left_eq_some.1 h
  obtain ⟨-, keyId, -, valueId, -, -, -, rfl⟩ := (ColumnType.halfFault_eq_some_iff _).1 hhalf
  exact ⟨keyId, valueId, rfl⟩

end Place

namespace Selection
variable (ids : List FieldId) (t : ColumnType)

theorem keeps_subtree : keeps ⟨ids, .subtree⟩ t = fun pos =>
    t.places.any fun q => q.hop.keptWhole ids (q.parent t) &&
      (q.position.isPrefixOf pos || pos.isPrefixOf q.position) := by
  funext pos
  rw [Bool.eq_iff_iff, keeps_eq_true_iff, inside_eq_true_iff]
  simp only [List.any_eq_true, Bool.and_eq_true, Bool.or_eq_true, List.isPrefixOf_iff_prefix,
    true_and, kept, ← exists_or, ← and_or_left]
  exact exists_congr fun q => and_congr_right fun _ => and_congr_right fun _ => or_comm

theorem fault_subtree : fault ⟨ids, .subtree⟩ t = Place.selectFault t ids := by
  funext p
  have hask : askFault ⟨ids, .subtree⟩ p.hop = none := if_neg fun h => by cases h.1
  rw [fault, hask, Option.or_none]
  rfl

end Selection

namespace Schema
variable {s : Schema} {case : NameCase} {names : List String}

theorem prune_subtree_eq_error_iff {ids : List FieldId} {e : SchemaError} :
    s.prune ⟨ids, .subtree⟩ = .error e ↔
      s.root.placesUp.findSome? (Place.selectFault s.root ids) = some e := by
  rw [prune_eq_error_iff, Selection.fault_subtree]

theorem exists_of_prune_subtree_eq_error {ids : List FieldId} {e : SchemaError}
    (h : s.prune ⟨ids, .subtree⟩ = .error e) : ∃ key value, e = .partialMap key value := by
  obtain ⟨p, -, hp⟩ := List.exists_of_findSome?_eq_some (prune_subtree_eq_error_iff.1 h)
  exact Place.exists_of_selectFault_eq_some hp

theorem exists_prune_subtree_eq_error_iff {ids : List FieldId} :
    (∃ e, s.prune ⟨ids, .subtree⟩ = .error e) ↔
      ∃ p ∈ s.root.places, p.isCovered s.root ids = false ∧
        (¬∀ f ∈ p.field.type.fields, f.id ∈ ids) ∧
        p.field.type.isHalf (Hop.keptWhole ids) = true := by
  simp only [prune_subtree_eq_error_iff, ← Option.isSome_iff_exists, List.findSome?_isSome_iff]
  simp only [Option.isSome_iff_ne_none, ne_eq, Place.selectFault_eq_none_iff, not_not,
    ColumnType.mem_placesUp]
  refine exists_congr fun p => and_congr_right fun _ => and_congr_right fun _ => ?_
  -- A half-kept map never has both sides selected, so the middle condition comes for free.
  refine (and_iff_right_of_imp fun hhalf hall => ?_).symm
  rw [ColumnType.isHalf_keptWhole_eq_false hall] at hhalf
  cases hhalf

/-- Selection fails for a clash in the schema or for a map of which just one side is kept. -/
theorem isClash_or_exists_of_select_eq_error {e : SchemaError}
    (h : s.select names case = .error e) : e.IsClash ∨ ∃ key value, e = .partialMap key value := by
  by_cases hwild : wildcard ∈ names
  · rw [select_of_wildcard hwild] at h
    cases h
  rw [select_eq_bind hwild] at h
  cases hids : s.idsAtPaths names case with
  | error e' =>
    rw [hids] at h
    cases h
    exact .inl (isClash_of_idsAtPaths_eq_error hids)
  | ok ids =>
    rw [hids] at h
    exact .inr (exists_of_prune_subtree_eq_error h)

/-- **Only what is kept whole matters**: numbers with which the same fields are kept whole give the
same schema. -/
theorem prune_subtree_congr {ids ids' : List FieldId}
    (h : ∀ p ∈ s.root.places,
      p.hop.keptWhole ids' (p.parent s.root) = p.hop.keptWhole ids (p.parent s.root)) :
    s.prune ⟨ids', .subtree⟩ = s.prune ⟨ids, .subtree⟩ := by
  refine prune_congr rfl (fun p hp hleaf => ?_) fun _ p hp _ => ?_
  · have hhop := ColumnType.hop_mem_hops_parent hp
    have hsame := h p hp
    rw [Bool.eq_iff_iff, Hop.keptWhole_iff_id_mem hhop hleaf,
      Hop.keptWhole_iff_id_mem hhop hleaf] at hsame
    exact decide_eq_decide.2 hsame
  · have hsides (h' : Hop) (hh' : h' ∈ (p.parent s.root).hops) :
        h'.keptWhole ids' (p.parent s.root) = h'.keptWhole ids (p.parent s.root) := by
      obtain ⟨q, hq, rfl, hparent⟩ := ColumnType.exists_place_of_mem_hops_parent hp hh'
      rw [← hparent]
      exact h q hq
    -- Whether both numbers of a map are selected shows in its two sides together.
    rw [Bool.eq_iff_iff]
    simp only [List.all_eq_true, Selection.has, decide_eq_true_eq]
    rw [← Hop.forall_keptWhole_iff ids, ← Hop.forall_keptWhole_iff ids']
    exact forall₂_congr fun h' hh' => by rw [hsides h' hh']

/-- **Selection keeps just the fields kept whole, with everything below and above them.**  A field
that the paths stand for is there with all that it had, if it is not the side of a map or is a leaf.
The number of a side that is not kept whole makes no difference. -/
theorem select_narrowsTo {d : Derived} (hnames : wildcard ∉ names)
    (h : s.select names case = .ok d) :
    ∃ ids, (∀ id, id ∈ ids ↔ s.Resolves names case id) ∧
      (d.NarrowsTo s fun pos => s.root.places.any fun q => q.hop.keptWhole ids (q.parent s.root) &&
        (q.position.isPrefixOf pos || pos.isPrefixOf q.position)) ∧
      (∀ p ∈ s.root.places, p.id ∈ ids →
        p.hop.role.isMapSide = false ∨ p.field.type.isPrimitive = true →
        ∃ q ∈ d.schema.root.places, q.outline = p.outline ∧ q.field = p.field) ∧
      ∀ ids', (∀ p ∈ s.root.places,
        p.hop.keptWhole ids' (p.parent s.root) = p.hop.keptWhole ids (p.parent s.root)) →
        s.prune ⟨ids', .subtree⟩ = .ok d := by
  rw [select_eq_bind hnames] at h
  obtain ⟨ids, hids, h⟩ := bind_eq_ok_iff.1 h
  have hnarrow := narrowsTo_of_prune h
  rw [Selection.keeps_subtree] at hnarrow
  refine ⟨ids, mem_idsAtPaths_iff hids, hnarrow, ?_, fun ids' hsame => ?_⟩
  · intro p hp hid hleaf
    have hkept : p.hop.keptWhole ids (p.parent s.root) = true :=
      (Hop.keptWhole_iff_id_mem (ColumnType.hop_mem_hops_parent hp) hleaf).2 hid
    exact hnarrow.exists_place_of_all hp fun pos => List.any_eq_true.2 ⟨p, hp, by simp [hkept]⟩
  · rw [prune_subtree_congr hsame]
    exact h

/-- The keys of a map and a leaf far down in its values: the map stays with just that leaf. -/
theorem select_narrowsTo_mapOfLists :
    wildcard ∉ ["Value.key", "Value.value.element.Foo"] ∧
    ∃ d, (⟨none, Samples.mapOfLists⟩ : Schema).select ["Value.key", "Value.value.element.Foo"]
        .asWritten = .ok d ∧
      ∃ ids, (∀ id, id ∈ ids ↔ Resolves ⟨none, Samples.mapOfLists⟩
        ["Value.key", "Value.value.element.Foo"] .asWritten id) ∧
      d.NarrowsTo ⟨none, Samples.mapOfLists⟩ fun pos =>
        (root ⟨none, Samples.mapOfLists⟩).places.any fun q =>
          q.hop.keptWhole ids (q.parent (root ⟨none, Samples.mapOfLists⟩)) &&
            (q.position.isPrefixOf pos || pos.isPrefixOf q.position) := by
  have hselect : (⟨none, Samples.mapOfLists⟩ : Schema).select
      ["Value.key", "Value.value.element.Foo"] .asWritten = .ok _ := rfl
  have hnames : wildcard ∉ ["Value.key", "Value.value.element.Foo"] := by decide
  obtain ⟨ids, hids, hnarrow, -⟩ := select_narrowsTo hnames hselect
  exact ⟨hnames, _, hselect, ids, hids, hnarrow⟩

/-- **Selection fails just at maps of which one side alone leads to something kept whole**, and with
the first of them from the bottom up, if the schema itself is in order.  Maps inside of what is kept
whole and maps of which both sides are selected never fail.  It never fails for a list or a map that
is selected by its own number, nor for a schema that is not a struct. -/
theorem select_failures (s : Schema) (names : List String) (case : NameCase) :
    (∀ e, s.select names case = .error e →
      (∀ id name type, e ≠ .listOrMapSelected id name type) ∧ ∀ found, e ≠ .rootNotStruct found) ∧
    ∀ index paths, s.idIndex = .ok index → s.pathIndex case = .ok paths → wildcard ∉ names →
      ∃ ids, (∀ id, id ∈ ids ↔ s.Resolves names case id) ∧
        ((∃ e, s.select names case = .error e) ↔
          ∃ p ∈ s.root.places, p.isCovered s.root ids = false ∧
            (¬∀ f ∈ p.field.type.fields, f.id ∈ ids) ∧
            p.field.type.isHalf (Hop.keptWhole ids) = true) ∧
        (∀ e, s.select names case = .error e ↔
          s.root.placesUp.findSome? (Place.selectFault s.root ids) = some e) ∧
        ∀ e, s.select names case = .error e → ∃ key value, e = .partialMap key value := by
  refine ⟨fun e he => ?_, fun index paths hindex hpaths hnames => ?_⟩
  · rcases isClash_or_exists_of_select_eq_error he with hclash | ⟨key, value, rfl⟩
    · cases hclash <;> exact ⟨nofun, nofun⟩
    · exact ⟨nofun, nofun⟩
  · obtain ⟨ids, hids⟩ := exists_idsAtPaths_eq_ok hindex hpaths names
    have hselect : s.select names case = s.prune ⟨ids, .subtree⟩ := by
      rw [select_eq_bind hnames, hids]
      rfl
    rw [hselect]
    exact ⟨ids, mem_idsAtPaths_iff hids, exists_prune_subtree_eq_error_iff,
      fun e => prune_subtree_eq_error_iff, fun e he => exists_of_prune_subtree_eq_error he⟩

/-- Keys asked for by themselves: the map is refused. -/
theorem select_failures_mapOfLists :
    (⟨none, Samples.mapOfLists⟩ : Schema).select ["Value.key"] .asWritten =
        .error (.partialMap 5 6) ∧
      ∃ ids, (∀ id, id ∈ ids ↔ Resolves ⟨none, Samples.mapOfLists⟩ ["Value.key"] .asWritten id) ∧
        ∃ p ∈ (root ⟨none, Samples.mapOfLists⟩).places,
          p.isCovered (root ⟨none, Samples.mapOfLists⟩) ids = false ∧
            (¬∀ f ∈ p.field.type.fields, f.id ∈ ids) ∧
            p.field.type.isHalf (Hop.keptWhole ids) = true := by
  have hselect : (⟨none, Samples.mapOfLists⟩ : Schema).select ["Value.key"] .asWritten =
      .error (.partialMap 5 6) := rfl
  obtain ⟨ids, hids, hiff, -⟩ := (select_failures ⟨none, Samples.mapOfLists⟩ ["Value.key"]
    .asWritten).2 _ _ rfl rfl (by decide)
  exact ⟨hselect, ids, hids, hiff.1 ⟨_, hselect⟩⟩

end Schema
end TableSchema
