import TableSchema.Proofs.PathSelection
import TableSchema.Proofs.Remembered

/-!
# Paths in any order

What is selected depends on which paths are given, not on their order or on how often each of them
is given (`Schema.select_determined`).  Of the paths only the numbers matter that the index of paths
has for them.

Failures are no exception, although a selection ends at the first path that cannot be looked up.  A
schema has only one failure to offer to all paths (`Schema.eq_of_fieldAtPath_eq_error`): that of the
index of paths if it cannot be built, and else that of the index of numbers, which only the paths
that are known get to see.  So it makes no difference which path comes to it first.
-/

namespace TableSchema
namespace Schema
variable {s : Schema} {case : NameCase} {names names' : List String}

/-! ## Failures -/

/-- **All paths that cannot be looked up fail alike.** -/
theorem eq_of_fieldAtPath_eq_error {path path' : String} {e e' : SchemaError}
    (h : s.fieldAtPath path case = .error e) (h' : s.fieldAtPath path' case = .error e') :
    e = e' := by
  rcases fieldAtPath_eq_error_iff.1 h with hpaths | ⟨paths, hpaths, -, hids⟩
  · rcases fieldAtPath_eq_error_iff.1 h' with hpaths' | ⟨paths, hpaths', -⟩
    · exact Except.error.inj (hpaths.symm.trans hpaths')
    · cases hpaths.symm.trans hpaths'
  · rcases fieldAtPath_eq_error_iff.1 h' with hpaths' | ⟨-, -, -, hids'⟩
    · cases hpaths.symm.trans hpaths'
    · exact Except.error.inj (hids.symm.trans hids')

/-- **Some paths cannot be looked up just if one of them cannot.** -/
theorem idsAtPaths_eq_error_iff {e : SchemaError} :
    s.idsAtPaths names case = .error e ↔ ∃ name ∈ names, s.fieldAtPath name case = .error e := by
  rw [idsAtPaths, ← failure?_eq_some_iff, failure?_bind_pure, failure?_eq_some_iff,
    mapM_eq_error_iff_of_unique fun _ _ _ _ => eq_of_fieldAtPath_eq_error]

/-! ## What a selection depends on -/

/-- Numbers in any order and any number of times are pruned to the same. -/
theorem prune_congr_of_mem_iff {ids ids' : List FieldId} {extent : Extent}
    (h : ∀ id, id ∈ ids ↔ id ∈ ids') : s.prune ⟨ids, extent⟩ = s.prune ⟨ids', extent⟩ := by
  have hhas (id : FieldId) : Selection.has ⟨ids, extent⟩ id = Selection.has ⟨ids', extent⟩ id :=
    decide_eq_decide.2 (h id)
  exact prune_congr rfl (fun p _ _ => hhas p.id) fun _ p _ _ => by simp only [hhas]

/-- **A selection depends on the failure of its paths and on the numbers that they stand for**, if
the wildcard is not among them. -/
theorem select_congr (hwild : wildcard ∉ names) (hwild' : wildcard ∉ names')
    (hfails : ∀ e, s.idsAtPaths names case = .error e ↔ s.idsAtPaths names' case = .error e)
    (hresolves : ∀ id, s.Resolves names case id ↔ s.Resolves names' case id) :
    s.select names case = s.select names' case := by
  rw [select_eq_bind hwild, select_eq_bind hwild']
  cases hids : s.idsAtPaths names case with
  | error e => rw [(hfails e).1 hids]
  | ok ids =>
    cases hids' : s.idsAtPaths names' case with
    | error e => cases hids.symm.trans ((hfails e).2 hids')
    | ok ids' =>
      refine prune_congr_of_mem_iff fun id => ?_
      rw [mem_idsAtPaths_iff hids, mem_idsAtPaths_iff hids', hresolves]

/-- **The order of the paths makes no difference**, nor does giving a path more than once. -/
theorem select_congr_of_mem_iff (h : ∀ name, name ∈ names ↔ name ∈ names') :
    s.select names case = s.select names' case := by
  by_cases hwild : wildcard ∈ names
  · rw [select_of_wildcard hwild, select_of_wildcard ((h wildcard).1 hwild)]
  · refine select_congr hwild (mt (h wildcard).2 hwild) (fun e => ?_) fun id => ?_
    · simp only [idsAtPaths_eq_error_iff, h]
    · simp only [Resolves, h]

/-- **A path that leads nowhere makes no difference**, wherever it is put in. -/
theorem select_insert {before after : List String} {name : String} (hname : name ≠ wildcard)
    (hnone : s.fieldAtPath name case = .ok none) :
    s.select (before ++ name :: after) case = s.select (before ++ after) case := by
  have hmem (other : String) :
      other ∈ before ++ name :: after ↔ other = name ∨ other ∈ before ++ after := by
    simp only [List.mem_append, List.mem_cons]
    exact or_left_comm
  by_cases hwild : wildcard ∈ before ++ after
  · rw [select_of_wildcard hwild, select_of_wildcard ((hmem wildcard).2 (.inr hwild))]
  · have hwild' : wildcard ∉ before ++ name :: after := by
      rw [hmem]
      exact not_or.2 ⟨hname.symm, hwild⟩
    refine select_congr hwild' hwild (fun e => ?_) fun id => ?_
    · simp only [idsAtPaths_eq_error_iff, hmem, exists_eq_or_imp, hnone]
      exact or_iff_right nofun
    · simp only [Resolves, hmem, exists_eq_or_imp, hnone]
      exact or_iff_right nofun

/-- **Only the numbers matter that the index has for the paths.** -/
theorem select_congr_of_get? {paths : PathIndex} (hpaths : s.pathIndex case = .ok paths)
    (hwild : wildcard ∉ names) (hwild' : wildcard ∉ names')
    (h : ∀ id, (∃ name ∈ names, paths.get? name = some id) ↔
      ∃ name ∈ names', paths.get? name = some id) :
    s.select names case = s.select names' case := by
  have hfails (names : List String) (e : SchemaError) : s.idsAtPaths names case = .error e ↔
      (∃ id, ∃ name ∈ names, paths.get? name = some id) ∧ s.idIndex = .error e := by
    simp only [idsAtPaths_eq_error_iff, fieldAtPath_eq_error_iff, hpaths, reduceCtorEq, false_or,
      Except.ok.injEq, exists_eq_left']
    constructor
    · rintro ⟨name, hname, ⟨id, hget⟩, hids⟩
      exact ⟨⟨id, name, hname, hget⟩, hids⟩
    · rintro ⟨⟨id, name, hname, hget⟩, hids⟩
      exact ⟨name, hname, ⟨id, hget⟩, hids⟩
  have hresolves (names : List String) (id : FieldId) : s.Resolves names case id ↔
      ∃ id', (∃ name ∈ names, paths.get? name = some id') ∧
        ∃ f, s.fieldWithId id' = .ok (some f) ∧ f.id = id := by
    simp only [Resolves, fieldAtPath_eq_some_iff hpaths]
    constructor
    · rintro ⟨name, hname, f, ⟨id', hget, hf⟩, hid⟩
      exact ⟨id', ⟨name, hname, hget⟩, f, hf, hid⟩
    · rintro ⟨id', ⟨name, hname, hget⟩, f, hf, hid⟩
      exact ⟨name, hname, f, ⟨id', hget, hf⟩, hid⟩
  refine select_congr hwild hwild' (fun e => ?_) fun id => ?_
  · rw [hfails, hfails]
    simp only [h]
  · rw [hresolves, hresolves]
    simp only [h]

/-- **A selection is determined by the set of its paths.**  The same paths in another order or
number come to the same: the same schema sharing the same part of its source, or the same failure,
whether or not the schema has clashes and whatever of it is remembered.  If the index of paths can
be built, then a path that it does not know changes nothing wherever it is put in, as long as it is
not the wildcard, and without the wildcard just the set of numbers matters that the index has for
the paths.  Paths that can be looked up and stand for the same numbers come to the same in any
case. -/
theorem select_determined (s : Schema) (case : NameCase) :
    (∀ names names' : List String, (∀ name, name ∈ names ↔ name ∈ names') →
      s.select names case = s.select names' case ∧
      ∀ memo memo' : IndexMemo, memo.Faithful s → memo'.Faithful s →
        ((s.look (.select names case)).runFrom memo).1 =
          ((s.look (.select names' case)).runFrom memo').1) ∧
    (∀ paths, s.pathIndex case = .ok paths →
      (∀ before after name, name ≠ wildcard → paths.get? name = none →
        s.select (before ++ name :: after) case = s.select (before ++ after) case) ∧
      ∀ names names', wildcard ∉ names → wildcard ∉ names' →
        (∀ id, (∃ name ∈ names, paths.get? name = some id) ↔
          ∃ name ∈ names', paths.get? name = some id) →
        s.select names case = s.select names' case) ∧
    ∀ names names' ids ids', wildcard ∉ names → wildcard ∉ names' →
      s.idsAtPaths names case = .ok ids → s.idsAtPaths names' case = .ok ids' →
      (∀ id, id ∈ ids ↔ id ∈ ids') → s.select names case = s.select names' case := by
  refine ⟨fun names names' hmem => ?_, fun paths hpaths => ⟨?_, ?_⟩, ?_⟩
  · have hselect : s.select names case = s.select names' case := select_congr_of_mem_iff hmem
    refine ⟨hselect, fun memo memo' hmemo hmemo' => ?_⟩
    rw [s.fst_runFrom_look hmemo, s.fst_runFrom_look hmemo', answer, answer, hselect]
  · intro before after name hname hget
    exact select_insert hname (fieldAtPath_of_unknown hpaths hget)
  · intro names names' hwild hwild' hget
    exact select_congr_of_get? hpaths hwild hwild' hget
  · intro names names' ids ids' hwild hwild' hids hids' hmem
    rw [select_eq_bind hwild, select_eq_bind hwild', hids, hids']
    exact prune_congr_of_mem_iff hmem

/-- Two columns with the same number, and a list. -/
def sharedNumber : Schema :=
  ⟨none, [.nullable 1 "a" (.primitive .int), .nullable 1 "b" (.primitive .int),
    .nullable 2 "days" (.list 3 (.struct [.nullable 4 "no" (.primitive .int)]) false)]⟩

/-- The paths of the columns are known and fail for the number that they share, in any order, with
or without a path that is not known.  That path alone selects nothing and does not fail.  Among the
columns of another schema, a field of the structs in a list is selected by its short path as by its
canonical one. -/
theorem select_determined_sharedNumber :
    sharedNumber.select ["b", "days.no", "a", "b"] .asWritten = .error (.duplicateId 1) ∧
    sharedNumber.select ["a", "b", "days.no"] .asWritten = .error (.duplicateId 1) ∧
    sharedNumber.select ["a", "c", "b", "days.no"] .asWritten = .error (.duplicateId 1) ∧
    sharedNumber.select ["c"] .asWritten = .ok ⟨⟨none, []⟩, .bare⟩ ∧
    ((sharedNumber.look (.select ["days.no", "b", "a"] .asWritten)).runFrom {}).1 =
      ((sharedNumber.look (.select ["a", "b", "days.no"] .asWritten)).runFrom {}).1 ∧
    select ⟨none, Samples.dottedName⟩ ["points.Bar"] .asWritten =
      select ⟨none, Samples.dottedName⟩ ["points.element.Bar", "points.Bar"] .asWritten := by
  obtain ⟨hsame, hpaths, -⟩ := select_determined sharedNumber .asWritten
  obtain ⟨hinsert, -⟩ := hpaths _ rfl
  obtain ⟨-, hdotted, -⟩ := select_determined ⟨none, Samples.dottedName⟩ .asWritten
  have hfails : sharedNumber.select ["a", "b", "days.no"] .asWritten = .error (.duplicateId 1) :=
    rfl
  have hagain := hsame ["b", "days.no", "a", "b"] ["a", "b", "days.no"] (by grind)
  have hlook := (hsame ["days.no", "b", "a"] ["a", "b", "days.no"] (by grind)).2 {} {}
    (IndexMemo.faithful_empty _) (IndexMemo.faithful_empty _)
  have hunknown := hinsert ["a"] ["b", "days.no"] "c" (by decide) rfl
  have hnone := hinsert [] [] "c" (by decide) rfl
  refine ⟨hagain.1.trans hfails, hfails, hunknown.trans hfails, hnone.trans rfl, hlook, ?_⟩
  refine (hdotted _ rfl).2 _ _ (by decide) (by decide) fun id => ?_
  simp only [List.mem_cons, List.not_mem_nil, or_false, exists_eq_or_imp, exists_eq_left]
  exact (or_iff_right_of_imp fun hget => hget).symm

end Schema
end TableSchema
