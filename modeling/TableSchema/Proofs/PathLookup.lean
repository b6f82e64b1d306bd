import TableSchema.Proofs.IdLookup
import TableSchema.Proofs.Resolution
import TableSchema.Samples

/-!
# Looking fields up by path

A path leads to the first place with that canonical path, and if there is none to the first place
with that short path (`PathStyle.placeAt?`).  The index of paths can be built just if places with
the same canonical path have the same number (`PathIndex.build_eq_ok_iff`), and then finds under
every path the number of the place that the path leads to (`PathIndex.get?_of_build`).  It keeps
the canonical and the short paths in two tables; read one after the other they are the table of all
canonical paths followed by all short paths, in which the first entry stays.
-/

namespace TableSchema

namespace PathStyle
variable (style : PathStyle)

/-- **The place that a path leads to** among some places. -/
def placeAt? (places : List Place) (path : String) : Option Place :=
  (places.find? fun p => style.canonical p = style.case.key path).or
    (places.find? fun p => style.short p = style.case.key path)

/-- Whether places with the same canonical path have the same number. -/
def Agrees (root : ColumnType) : Prop :=
  ∀ p ∈ root.places, ∀ q ∈ root.places, style.canonical p = style.canonical q → p.id = q.id

variable {style} {places : List Place} {path : String} {p : Place}

theorem map_fst_canonicalEntry :
    (places.map style.canonicalEntry).map Prod.fst = places.map style.canonical := by
  rw [List.map_map]
  rfl

theorem mem_of_placeAt? (h : style.placeAt? places path = some p) : p ∈ places := by
  rcases Option.or_eq_some_iff.1 h with hp | ⟨-, hp⟩
  · exact List.mem_of_find?_eq_some hp
  · exact List.mem_of_find?_eq_some hp

/-- A path leads somewhere just if it is the canonical or the short path of some place. -/
theorem isSome_placeAt?_iff : (style.placeAt? places path).isSome = true ↔
    ∃ p ∈ places, style.canonical p = style.case.key path ∨
      style.short p = style.case.key path := by
  rw [placeAt?, Option.isSome_or, Bool.or_eq_true, List.find?_isSome, List.find?_isSome,
    ← exists_or]
  simp only [decide_eq_true_eq, ← and_or_left]

end PathStyle

namespace PathIndex
variable {style : PathStyle}

/-! ## The two tables -/

/-- **Canonical paths are assigned one after the other** just if each one belongs to the number that
had it first. -/
theorem foldlM_assign_eq_ok_iff {taken taken' : List (String × FieldId)} {ps : List Place} :
    ps.foldlM (assign style) taken = .ok taken' ↔
      (∀ p ∈ ps, (taken ++ ps.map style.canonicalEntry).lookup (style.canonical p) = some p.id) ∧
        taken' = (ps.map style.canonicalEntry).foldl insertNew taken := by
  induction ps generalizing taken with
  | nil =>
    rw [List.foldlM_nil]
    exact ⟨fun h => ⟨nofun, (Except.ok.inj h).symm⟩, fun h => congrArg Except.ok h.2.symm⟩
  | cons p ps ih =>
    -- What is found does not tell an entry that is left out from one that is found too late.
    have hlookup (k : String) :
        (insertNew taken (style.canonicalEntry p) ++ ps.map style.canonicalEntry).lookup k =
          (taken ++ (p :: ps).map style.canonicalEntry).lookup k := by
      rw [List.lookup_append, lookup_insertNew, ← List.lookup_append, List.append_assoc]
      rfl
    have hhead : (taken ++ (p :: ps).map style.canonicalEntry).lookup (style.canonical p) =
        (taken ++ [style.canonicalEntry p]).lookup (style.canonical p) := by
      simp [List.lookup_append, PathStyle.canonicalEntry]
    rw [List.foldlM_cons, bind_eq_ok_iff, List.forall_mem_cons, hhead]
    simp only [assign_eq_ok_iff, and_assoc, exists_and_left, exists_eq_left, ih, hlookup]
    rfl

/-- Under a canonical path the first place with the path is found. -/
theorem lookup_map_canonicalEntry (ps : List Place) (path : String) :
    (ps.map style.canonicalEntry).lookup path =
      (ps.find? fun p => style.canonical p = path).map Place.id :=
  lookup_map style.canonical Place.id ps path

/-- The first number with a canonical path is that of every place with the path just if these all
have the same number. -/
theorem forall_lookup_iff {ps : List Place} :
    (∀ p ∈ ps, (ps.map style.canonicalEntry).lookup (style.canonical p) = some p.id) ↔
      ∀ p ∈ ps, ∀ q ∈ ps, style.canonical p = style.canonical q → p.id = q.id := by
  simp only [lookup_map_canonicalEntry]
  constructor
  · intro h p hp q hq hpath
    have hsame := h p hp
    rw [hpath, h q hq] at hsame
    exact (Option.some.inj hsame).symm
  · intro h p hp
    obtain ⟨q, hq, hfind, hpath⟩ := exists_find?_key style.canonical hp
    rw [hfind, Option.map_some, h q hq p hp hpath]

/-- Offering short paths to the places adds those that are new to both tables. -/
theorem append_foldl_offer (canonical taken : List (String × FieldId)) (ps : List Place) :
    canonical ++ ps.foldl (offer style canonical) taken =
      (ps.map style.shortEntry).foldl insertNew (canonical ++ taken) := by
  induction ps generalizing taken with
  | nil => rfl
  | cons p ps ih =>
    have hstep : canonical ++ offer style canonical taken p =
        insertNew (canonical ++ taken) (style.shortEntry p) := by
      rw [offer, insertNew, PathStyle.shortEntry]
      split
      · rfl
      · rw [List.append_assoc]
    rw [List.foldl_cons, ih, hstep, List.map_cons, List.foldl_cons]

/-! ## Building the index -/

variable {root : ColumnType} {index : PathIndex}

/-- **The index of paths can be built just if places with the same canonical path have the same
number.**  The first one with a path then stands for it in the table of the canonical paths. -/
theorem build_eq_ok_iff : build style root = .ok index ↔ style.Agrees root ∧
    index = ⟨style.case, firstCome (root.places.map style.canonicalEntry),
      root.places.foldl (offer style (firstCome (root.places.map style.canonicalEntry))) []⟩ := by
  rw [build_eq_foldlM, bind_eq_ok_iff]
  simp only [foldlM_assign_eq_ok_iff, List.nil_append, forall_lookup_iff, and_assoc,
    exists_and_left, exists_eq_left]
  exact and_congr_right fun _ =>
    ⟨fun h => (Except.ok.inj h).symm, fun h => congrArg Except.ok h.symm⟩

theorem case_of_build (h : build style root = .ok index) : index.case = style.case :=
  congrArg PathIndex.case (build_eq_ok_iff.1 h).2

/-- **The table of the canonical paths** has the path of every place, with the number of the place.
-/
theorem mem_canonical_of_build (h : build style root = .ok index) {path : String} {id : FieldId} :
    (path, id) ∈ index.canonical ↔ ∃ p ∈ root.places, style.canonical p = path ∧ p.id = id := by
  obtain ⟨hagrees, rfl⟩ := build_eq_ok_iff.1 h
  change (path, id) ∈ firstCome (root.places.map style.canonicalEntry) ↔ _
  rw [mem_firstCome_iff]
  constructor
  · intro hlookup
    rw [lookup_map_canonicalEntry, Option.map_eq_some_iff] at hlookup
    obtain ⟨p, hfind, rfl⟩ := hlookup
    exact ⟨p, List.mem_of_find?_eq_some hfind, by simpa using List.find?_some hfind, rfl⟩
  · rintro ⟨p, hp, rfl, rfl⟩
    exact forall_lookup_iff.2 hagrees p hp

/-- If places have different canonical paths each of them keeps its entry. -/
theorem canonical_of_build (h : build style root = .ok index)
    (hnodup : (root.places.map style.canonical).Nodup) :
    index.canonical = root.places.map style.canonicalEntry := by
  obtain ⟨-, rfl⟩ := build_eq_ok_iff.1 h
  refine firstCome_eq_self ?_
  rwa [PathStyle.map_fst_canonicalEntry]

/-- Both tables together have all paths, the canonical ones before the short ones. -/
theorem append_of_build (h : build style root = .ok index) :
    index.canonical ++ index.short = firstCome
      (root.places.map style.canonicalEntry ++ root.places.map style.shortEntry) := by
  obtain ⟨-, rfl⟩ := build_eq_ok_iff.1 h
  rw [append_foldl_offer, List.append_nil, ← firstCome_append]

/-- What is found in both tables under a path as it is compared. -/
theorem lookup_of_build (h : build style root = .ok index) (path : String) :
    (index.canonical ++ index.short).lookup path =
      ((root.places.find? fun p => style.canonical p = path).or
        (root.places.find? fun p => style.short p = path)).map Place.id := by
  have hshort : (root.places.map style.shortEntry).lookup path =
      (root.places.find? fun p => style.short p = path).map Place.id :=
    lookup_map style.short Place.id root.places path
  rw [append_of_build h, lookup_firstCome, List.lookup_append, lookup_map_canonicalEntry, hshort,
    Option.map_or]

/-- The index finds under a path the number of the place that the path leads to. -/
theorem get?_of_build (h : build style root = .ok index) (path : String) :
    index.get? path = (style.placeAt? root.places path).map Place.id := by
  rw [get?, lookup_of_build h, case_of_build h]
  rfl

/-- The canonical path of a place leads to the number of the place. -/
theorem get?_eq_some_of_canonical (h : build style root = .ok index) {p : Place}
    (hp : p ∈ root.places) {path : String} (hpath : style.canonical p = style.case.key path) :
    index.get? path = some p.id := by
  have hlookup := forall_lookup_iff.2 (build_eq_ok_iff.1 h).1 p hp
  rw [get?, append_of_build h, lookup_firstCome, List.lookup_append, case_of_build h, ← hpath,
    hlookup, Option.some_or]

/-- The index knows as many paths as there are different ones, canonical and short. -/
theorem size_of_build (h : build style root = .ok index) :
    index.size =
      (root.places.map style.canonical ++ root.places.map style.short).dedup.length := by
  have hkeys : (root.places.map style.canonicalEntry ++ root.places.map style.shortEntry).map
      Prod.fst = root.places.map style.canonical ++ root.places.map style.short := by
    rw [List.map_append, PathStyle.map_fst_canonicalEntry, List.map_map]
    rfl
  rw [size, ← List.length_append, append_of_build h, length_firstCome, hkeys]

/-- **A path leads to the place whose canonical path it is, or else to the first place whose short
path it is.**  The index knows no other paths, so a path that leaves out just some of the hops that
may be left out leads nowhere, unless it is the canonical or the short path of some place. -/
theorem build_resolves {style : PathStyle} {root : ColumnType} {index : PathIndex}
    (h : build style root = .ok index) :
    (∀ path, index.get? path = (style.placeAt? root.places path).map Place.id) ∧
    (∀ path, ∀ p ∈ root.places, style.canonical p = style.case.key path →
      index.get? path = some p.id) ∧
    (∀ path, (index.get? path).isSome = true ↔ ∃ p ∈ root.places,
      style.canonical p = style.case.key path ∨ style.short p = style.case.key path) ∧
    index.size =
      (root.places.map style.canonical ++ root.places.map style.short).dedup.length := by
  refine ⟨get?_of_build h, fun path p hp hpath => ?_, fun path => ?_, size_of_build h⟩
  · obtain ⟨q, hq, hfind, hqpath⟩ := exists_find?_key style.canonical hp
    have hid : q.id = p.id := (build_eq_ok_iff.1 h).1 q hq p hp hqpath
    rw [get?_of_build h, PathStyle.placeAt?, ← hpath, hfind, Option.some_or, Option.map_some, hid]
  · rw [get?_of_build h, Option.isSome_map, PathStyle.isSome_placeAt?_iff]

/-- A column named `points.Foo` takes this path from the field `Foo` of the structs in the list
`points`, while the field `Bar` next to it keeps its short path. -/
theorem build_resolves_dottedName :
    ∃ index, build { case := .asWritten } (.struct Samples.dottedName) = .ok index ∧
      index.get? "points.Foo" = some 8 ∧ index.get? "points.Bar" = some 2 ∧
      index.get? "points.element.Foo" = some 1 ∧ index.get? "element.Foo" = none := by
  have h : build { case := .asWritten } (.struct Samples.dottedName) = .ok _ := rfl
  obtain ⟨hget, -⟩ := build_resolves h
  exact ⟨_, h, hget _, hget _, hget _, hget _⟩

/-- The fields of the structs in a list are reached through its element or right away. -/
example :
    ((⟨none, [.nullable 9 "points" Samples.capitalsList]⟩ : Schema).pathIndex .asWritten).map
      (fun index =>
        [index.get? "points.element.Foo", index.get? "points.Foo", index.get? "element.Foo"]) =
      .ok [some 1, some 1, none] := by
  rfl

end PathIndex

/-! ## Folded paths -/

theorem asciiFold_append (s t : String) : asciiFold (s ++ t) = asciiFold s ++ asciiFold t :=
  String.toList_injective (by simp)

/-- Folding a path is folding its segments, since the dots between them are no letters. -/
theorem asciiFold_intercalate (segments : List String) :
    asciiFold (".".intercalate segments) = ".".intercalate (segments.map asciiFold) := by
  induction segments with
  | nil => exact String.toList_injective (by simp)
  | cons first rest ih =>
    cases rest with
    | nil => rw [List.map_singleton, String.intercalate_singleton, String.intercalate_singleton]
    | cons second rest =>
      rw [String.intercalate_cons_cons, asciiFold_append, asciiFold_append, ih]
      have hdot : asciiFold "." = "." := String.toList_injective (by simp)
      rw [hdot, List.map_cons, List.map_cons, List.map_cons, String.intercalate_cons_cons]

/-- **A path under some case is the one as written in the form in which it is compared.** -/
theorem PathStyle.path_eq_key (style : PathStyle) (way : List Hop) :
    style.path way = style.case.key ({ style with case := .asWritten }.path way) := by
  cases hcase : style.case with
  | asWritten =>
    rw [NameCase.key_asWritten, ← hcase]
  | folded =>
    rw [NameCase.key_folded, path, path, asciiFold_intercalate, List.map_map]
    refine congrArg _ (List.map_congr_left fun h _ => ?_)
    rw [segment, hcase]
    rfl

theorem PathStyle.canonical_eq_key (style : PathStyle) (p : Place) :
    style.canonical p = style.case.key ({ style with case := .asWritten }.canonical p) :=
  style.path_eq_key p.way

theorem PathStyle.short_eq_key (style : PathStyle) (p : Place) :
    style.short p = style.case.key ({ style with case := .asWritten }.short p) :=
  style.path_eq_key p.shortWay

/-- Places that agree under some case agree as written. -/
theorem PathStyle.Agrees.asWritten {style : PathStyle} {root : ColumnType}
    (h : style.Agrees root) : { style with case := .asWritten }.Agrees root := by
  intro p hp q hq hpath
  refine h p hp q hq ?_
  rw [style.canonical_eq_key p, style.canonical_eq_key q, hpath]

/-! ## Paths in a schema -/

namespace Schema
variable {s : Schema} {case : NameCase} {index : IdIndex} {paths : PathIndex}

/-- **A path in a schema leads to the field of the place that it leads to.** -/
theorem fieldAtPath_eq_placeAt? (hids : s.idIndex = .ok index)
    (hpaths : s.pathIndex case = .ok paths) (path : String) :
    s.fieldAtPath path case =
      .ok ((PathStyle.placeAt? { case } s.root.places path).map Place.field) := by
  rw [fieldAtPath_eq_ok hids hpaths, PathIndex.get?_of_build hpaths]
  cases hplace : PathStyle.placeAt? { case } s.root.places path with
  | none => rfl
  | some p =>
    rw [Option.map_some, Option.bind_some, find?_root hids,
      find?_id_eq_some hids (PathStyle.mem_of_placeAt? hplace)]

/-- A path for which the index has the number of a place leads to the field of the place. -/
theorem fieldAtPath_of_get? (hids : s.idIndex = .ok index) (hpaths : s.pathIndex case = .ok paths)
    {p : Place} (hp : p ∈ s.root.places) {path : String} (hget : paths.get? path = some p.id) :
    s.fieldAtPath path case = .ok (some p.field) := by
  rw [fieldAtPath_eq_ok hids hpaths, hget, Option.bind_some, find?_root hids,
    find?_id_eq_some hids hp, Option.map_some]

/-- **The canonical path of a place leads to its field**, in the form in which it is compared. -/
theorem fieldAtPath_of_canonical (hids : s.idIndex = .ok index)
    (hpaths : s.pathIndex case = .ok paths) {p : Place} (hp : p ∈ s.root.places) {path : String}
    (hpath : PathStyle.canonical { case } p = case.key path) :
    s.fieldAtPath path case = .ok (some p.field) :=
  fieldAtPath_of_get? hids hpaths hp (PathIndex.get?_eq_some_of_canonical hpaths hp hpath)

/-- Different places have different canonical paths, if both indexes can be built. -/
theorem nodup_map_canonical {style : PathStyle} (hids : s.idIndex = .ok index)
    (hagrees : style.Agrees s.root) : (s.root.places.map style.canonical).Nodup := by
  have hnodup : s.root.places.Nodup := (IdIndex.build_eq_ok_iff.1 hids).1.of_map
  refine (List.nodup_map_iff_inj_on hnodup).2 fun p hp q hq hpath => ?_
  exact eq_of_id_eq hids hp hq (hagrees p hp q hq hpath)

/-- **The path of a number is the canonical path of the place with the number**, and there is none
if no place has it, provided that the index of numbers can be built and the index of paths under any
case. -/
theorem pathOf_eq_find? (hids : s.idIndex = .ok index) (hpaths : s.pathIndex case = .ok paths)
    (id : FieldId) : s.pathOf id = .ok ((s.root.places.find? fun p => p.id = id).map
      (PathStyle.canonical { case := .asWritten })) := by
  have hagrees : PathStyle.Agrees { case := .asWritten } s.root :=
    (PathIndex.build_eq_ok_iff.1 hpaths).1.asWritten
  have hwritten : s.pathIndex .asWritten = .ok _ := PathIndex.build_eq_ok_iff.2 ⟨hagrees, rfl⟩
  rw [pathOf, hwritten]
  change Except.ok (PathIndex.path? _ id) = _
  rw [PathIndex.path?, PathIndex.canonical_of_build hwritten (nodup_map_canonical hids hagrees),
    List.find?_map, Option.map_map]
  rfl

theorem pathOf_eq_ok (hids : s.idIndex = .ok index) (hpaths : s.pathIndex case = .ok paths)
    {p : Place} (hp : p ∈ s.root.places) :
    s.pathOf p.id = .ok (some (PathStyle.canonical { case := .asWritten } p)) := by
  rw [pathOf_eq_find? hids hpaths, find?_id_eq_some hids hp, Option.map_some]

end Schema
end TableSchema
