import TableSchema.Proofs.PathLookup

/-!
# Clashing paths

The index of paths cannot be built just if two places with different numbers have the same canonical
path (`PathIndex.build_clashes`).  The places need not be next to each other or equally deep down: a
name may have dots in it, and quoting and folding may make different names the same.  What is
reported is the first place from the front that clashes with an earlier one, together with the
earliest place that has its path (`PathStyle.FirstClash`).

Short paths never make a difference.  None of them is refused, so what fails depends on the
canonical paths and the numbers of the places alone.
-/

namespace TableSchema

/-- **The first clash** among some places: no two places before `later` clash, and `earlier` is the
first place with the canonical path of `later`, but has another number. -/
def PathStyle.FirstClash (style : PathStyle) (places : List Place) (earlier later : Place) : Prop :=
  ∃ before after, places = before ++ later :: after ∧
    (∀ p ∈ before, ∀ q ∈ before, style.canonical p = style.canonical q → p.id = q.id) ∧
    (before.find? fun p => style.canonical p = style.canonical later) = some earlier ∧
    earlier.id ≠ later.id

namespace PathIndex
variable {style : PathStyle} {root : ColumnType} {e : SchemaError}

/-- **Assigning canonical paths one after the other fails at the first clash.** -/
theorem foldlM_assign_eq_error_iff {ps : List Place} :
    ps.foldlM (assign style) [] = .error e ↔ ∃ earlier later, style.FirstClash ps earlier later ∧
      e = .duplicatePath (style.canonical later) earlier.id later.id := by
  -- The table of the places before finds under a path the first of them that has it.
  have hlookup (before : List Place) (path : String) :
      ((before.map style.canonicalEntry).foldl insertNew []).lookup path =
        (before.find? fun p => style.canonical p = path).map Place.id := by
    rw [lookup_foldl_insertNew, List.nil_append, lookup_map_canonicalEntry]
  rw [foldlM_eq_error_iff]
  constructor
  · rintro ⟨before, later, after, taken, rfl, hbefore, hfails⟩
    obtain ⟨hagree, rfl⟩ := foldlM_assign_eq_ok_iff.1 hbefore
    obtain ⟨id, hid, hne, rfl⟩ := assign_eq_error_iff.1 hfails
    rw [hlookup] at hid
    obtain ⟨earlier, hfind, rfl⟩ := Option.map_eq_some_iff.1 hid
    exact ⟨earlier, later, ⟨before, after, rfl, forall_lookup_iff.1 hagree, hfind, hne⟩, rfl⟩
  · rintro ⟨earlier, later, ⟨before, after, rfl, hagree, hfind, hne⟩, rfl⟩
    have hbefore : before.foldlM (assign style) [] = .ok _ :=
      foldlM_assign_eq_ok_iff.2 ⟨forall_lookup_iff.2 hagree, rfl⟩
    refine ⟨before, later, after, _, rfl, hbefore, assign_eq_error_iff.2 ⟨earlier.id, ?_, hne, rfl⟩⟩
    rw [hlookup, hfind, Option.map_some]

/-- **Building the index fails with the first clash.** -/
theorem build_eq_error_iff : build style root = .error e ↔
    ∃ earlier later, style.FirstClash root.places earlier later ∧
      e = .duplicatePath (style.canonical later) earlier.id later.id := by
  rw [← foldlM_assign_eq_error_iff, ← failure?_eq_some_iff, failure?_build, failure?_eq_some_iff]

/-- Building fails just if two places with different numbers have the same canonical path. -/
theorem exists_build_eq_error_iff : (∃ e, build style root = .error e) ↔
    ∃ p ∈ root.places, ∃ q ∈ root.places, p.id ≠ q.id ∧ style.canonical p = style.canonical q := by
  have hok : (∃ index, build style root = .ok index) ↔ style.Agrees root := by
    simp only [build_eq_ok_iff, exists_and_left, exists_eq, and_true]
  have hfails : (∃ e, build style root = .error e) ↔ ¬∃ index, build style root = .ok index := by
    cases build style root <;> simp
  rw [hfails, hok, PathStyle.Agrees]
  push Not
  simp only [and_comm]

/-- Assigning canonical paths looks at nothing else of the places than their canonical paths and
numbers. -/
theorem foldlM_assign_congr {ps qs : List Place} {taken : List (String × FieldId)}
    (h : ps.map style.canonicalEntry = qs.map style.canonicalEntry) :
    ps.foldlM (assign style) taken = qs.foldlM (assign style) taken := by
  induction ps generalizing qs taken with
  | nil => rw [List.map_eq_nil_iff.1 h.symm]
  | cons p ps ih =>
    obtain ⟨q, qs, rfl, hhead, htail⟩ := List.map_eq_cons_iff.1 h.symm
    obtain ⟨hpath, hid⟩ := Prod.mk.inj hhead
    have hstep : assign style taken p = assign style taken q := by
      rw [assign, assign, hpath, hid]
    rw [List.foldlM_cons, List.foldlM_cons, hstep]
    exact congrArg _ (funext fun taken => ih htail.symm)

/-- **Building fails just at a clash of canonical paths, and reports the first one.**  Of two places
that clash it is the one further back that counts; the number next to its own is that of the first
place with the path.  Whatever the short paths are, types whose places have the same canonical paths
and numbers fail alike. -/
theorem build_clashes (style : PathStyle) (root : ColumnType) :
    ((∃ e, build style root = .error e) ↔ ∃ p ∈ root.places, ∃ q ∈ root.places,
      p.id ≠ q.id ∧ style.canonical p = style.canonical q) ∧
    (∀ e, build style root = .error e ↔
      ∃ earlier later, style.FirstClash root.places earlier later ∧
        e = .duplicatePath (style.canonical later) earlier.id later.id) ∧
    ∀ root', root'.places.map style.canonicalEntry = root.places.map style.canonicalEntry →
      ∀ e, build style root' = .error e ↔ build style root = .error e := by
  refine ⟨exists_build_eq_error_iff, fun e => build_eq_error_iff, fun root' hsame e => ?_⟩
  rw [← failure?_eq_some_iff, ← failure?_eq_some_iff, failure?_build, failure?_build,
    foldlM_assign_congr hsame]

/-- A struct with a leaf, and a column named like the path of the leaf. -/
def dottedPoint : ColumnType :=
  .struct [.nullable 1 "point" (.struct [.nullable 2 "x" (.primitive .int)]),
    .nullable 3 "point.x" (.primitive .int)]

/-- A column clashes with a leaf further down unless names are put in brackets.  A column whose path
is short for that of a leaf clashes with nothing. -/
theorem build_clashes_dottedPoint :
    build { case := .asWritten } dottedPoint = .error (.duplicatePath "point.x" 2 3) ∧
      (¬∃ e, build { case := .asWritten, quote := fun name => "[" ++ name ++ "]" } dottedPoint =
        .error e) ∧
      ¬∃ e, build { case := .asWritten } (.struct Samples.dottedName) = .error e := by
  obtain ⟨-, hplain, -⟩ := build_clashes { case := .asWritten } dottedPoint
  obtain ⟨hquoted, -, -⟩ := build_clashes
    { case := .asWritten, quote := fun name => "[" ++ name ++ "]" } dottedPoint
  obtain ⟨hshort, -, -⟩ := build_clashes { case := .asWritten } (.struct Samples.dottedName)
  refine ⟨(hplain _).2 ?_, fun h => ?_, fun h => ?_⟩
  · exact ⟨_, _, ⟨dottedPoint.places.take 2, [], rfl, by decide, rfl, by decide⟩, rfl⟩
  · exact absurd (hquoted.1 h) (by decide)
  · exact absurd (hshort.1 h) (by decide)

end PathIndex
end TableSchema
