import Mathlib
import TableSchema.Proofs.PathLookup

/-!
# Folded paths and paths as written

Folding makes different paths the same, so an index of folded paths may fail where that of the paths
as written does not, and a short path may lead to another field.  What is left is said in
`PathIndex.build_folded`: the folded index knows the foldings of all paths that the other one knows
and no others, and it leads from the canonical path of a field, however its letters are written, to
the same number.

A segment is folded when the index is built, after quoting, and a path as a whole when it is looked
up.  The two agree because the dots between segments are no letters (`PathStyle.path_eq_key`), and
whatever quoting puts into a name is folded with it.
-/

namespace TableSchema
namespace PathIndex
variable {style : PathStyle} {root : ColumnType} {index : PathIndex}

/-- All paths that the index knows, the canonical ones first. -/
def paths (index : PathIndex) : List String := (index.canonical ++ index.short).map Prod.fst

/-- **The index knows just the canonical and the short paths of the places.** -/
theorem mem_paths_of_build (h : build style root = .ok index) {path : String} :
    path ∈ index.paths ↔ ∃ p ∈ root.places, style.canonical p = path ∨ style.short p = path := by
  rw [paths, mem_keys_iff, lookup_of_build h, Option.isSome_map, Option.isSome_or,
    Bool.or_eq_true, List.find?_isSome, List.find?_isSome, ← exists_or]
  simp only [decide_eq_true_eq, ← and_or_left]

/-- A path leads somewhere just if the index knows it in the form in which it is compared. -/
theorem isSome_get?_iff (index : PathIndex) {path : String} :
    (index.get? path).isSome = true ↔ index.case.key path ∈ index.paths :=
  mem_keys_iff.symm

/-- **A number whose places all have the same canonical path has this path.**  Which of its places
the path is taken from makes no difference then. -/
theorem path?_eq_some_of_build (h : build style root = .ok index) {p : Place}
    (hp : p ∈ root.places)
    (hsingle : ∀ q ∈ root.places, q.id = p.id → style.canonical q = style.canonical p) :
    index.path? p.id = some (style.canonical p) := by
  have hmem : (style.canonical p, p.id) ∈ index.canonical :=
    (mem_canonical_of_build h).2 ⟨p, hp, rfl, rfl⟩
  obtain ⟨entry, hentry, hfind, hid⟩ := exists_find?_key Prod.snd hmem
  obtain ⟨q, hq, hpath, hqid⟩ := (mem_canonical_of_build h).1 hentry
  change (index.canonical.find? fun entry => entry.2 = p.id) = some entry at hfind
  rw [path?, hfind, Option.map_some, ← hpath, hsingle q hq (hqid.trans hid)]

/-! ## The two indexes side by side -/

section Folded
variable {quote : String → String} {written folded : PathIndex}

theorem canonical_folded (p : Place) : PathStyle.canonical { case := .folded, quote } p =
    asciiFold (PathStyle.canonical { case := .asWritten, quote } p) :=
  PathStyle.canonical_eq_key _ p

theorem short_folded (p : Place) : PathStyle.short { case := .folded, quote } p =
    asciiFold (PathStyle.short { case := .asWritten, quote } p) :=
  PathStyle.short_eq_key _ p

/-- **The folded index knows the foldings of the paths as written**, and no others. -/
theorem mem_paths_folded_iff (hwritten : build { case := .asWritten, quote } root = .ok written)
    (hfolded : build { case := .folded, quote } root = .ok folded) {path : String} :
    path ∈ folded.paths ↔ ∃ name ∈ written.paths, asciiFold name = path := by
  simp only [mem_paths_of_build hfolded, mem_paths_of_build hwritten, canonical_folded,
    short_folded]
  constructor
  · rintro ⟨p, hp, hpath | hpath⟩
    · exact ⟨_, ⟨p, hp, .inl rfl⟩, hpath⟩
    · exact ⟨_, ⟨p, hp, .inr rfl⟩, hpath⟩
  · rintro ⟨name, ⟨p, hp, rfl | rfl⟩, hpath⟩
    · exact ⟨p, hp, .inl hpath⟩
    · exact ⟨p, hp, .inr hpath⟩

/-- What leads somewhere as written leads somewhere when it is folded. -/
theorem isSome_get?_folded (hwritten : build { case := .asWritten, quote } root = .ok written)
    (hfolded : build { case := .folded, quote } root = .ok folded) {name : String}
    (hname : (written.get? name).isSome = true) : (folded.get? name).isSome = true := by
  rw [isSome_get?_iff, case_of_build hwritten, NameCase.key_asWritten] at hname
  rw [isSome_get?_iff, case_of_build hfolded, NameCase.key_folded]
  exact (mem_paths_folded_iff hwritten hfolded).2 ⟨name, hname, rfl⟩

/-- A folded index does not tell names apart that differ in the case of their letters only. -/
theorem get?_eq_of_asciiFold_eq (hfolded : build { case := .folded, quote } root = .ok folded)
    {name other : String} (h : asciiFold name = asciiFold other) :
    folded.get? name = folded.get? other := by
  rw [get?, get?, case_of_build hfolded, NameCase.key_folded, NameCase.key_folded, h]

end Folded

/-- **The folded index is the folding of the index of paths as written**, which can be built if it
can.  It knows the foldings of all paths as written and no others, so it knows every name that is
known as written.  It leads from the canonical path of a field to the same number as the path as
written does, whichever letters are capital, and gives the same answer to names that differ in that
only.  The path of a number that sits at one canonical path is the folding of this path.  No
characters beyond ASCII are ever folded. -/
theorem build_folded {quote : String → String} {root : ColumnType} {folded : PathIndex}
    (h : build { case := .folded, quote } root = .ok folded) :
    ∃ written, build { case := .asWritten, quote } root = .ok written ∧
      (∀ path, path ∈ folded.paths ↔ ∃ name ∈ written.paths, asciiFold name = path) ∧
      (∀ name, (written.get? name).isSome = true → (folded.get? name).isSome = true) ∧
      (∀ p ∈ root.places, ∀ name,
        asciiFold name = asciiFold (PathStyle.canonical { case := .asWritten, quote } p) →
          folded.get? name = some p.id ∧
          written.get? (PathStyle.canonical { case := .asWritten, quote } p) = some p.id) ∧
      (∀ name other, asciiFold name = asciiFold other → folded.get? name = folded.get? other) ∧
      (∀ p ∈ root.places, (∀ q ∈ root.places, q.id = p.id →
          PathStyle.canonical { case := .asWritten, quote } q =
            PathStyle.canonical { case := .asWritten, quote } p) →
        written.path? p.id = some (PathStyle.canonical { case := .asWritten, quote } p) ∧
        folded.path? p.id =
          some (asciiFold (PathStyle.canonical { case := .asWritten, quote } p))) ∧
      ∀ (name : String) (i : Nat) (c : Char), 128 ≤ c.toNat →
        ((asciiFold name).toList[i]? = some c ↔ name.toList[i]? = some c) := by
  have hagrees : PathStyle.Agrees { case := .asWritten, quote } root :=
    (build_eq_ok_iff.1 h).1.asWritten
  have hwritten : build { case := .asWritten, quote } root = .ok _ :=
    build_eq_ok_iff.2 ⟨hagrees, rfl⟩
  refine ⟨_, hwritten, fun path => mem_paths_folded_iff hwritten h,
    fun name hname => isSome_get?_folded hwritten h hname, fun p hp name hname => ?_,
    fun name other hname => get?_eq_of_asciiFold_eq h hname, fun p hp hsingle => ?_,
    fun name i c hc => ?_⟩
  · refine ⟨get?_eq_some_of_canonical h hp ?_, get?_eq_some_of_canonical hwritten hp rfl⟩
    rw [canonical_folded, ← hname, NameCase.key_folded]
  · refine ⟨path?_eq_some_of_build hwritten hp hsingle, ?_⟩
    rw [← canonical_folded]
    refine path?_eq_some_of_build h hp fun q hq hid => ?_
    rw [canonical_folded, canonical_folded, hsingle q hq hid]
  · refine getElem?_asciiFold_eq_some_iff ?_
    rw [Bool.eq_false_iff]
    intro hletter
    have hlt := toNat_lt_of_isAlpha hletter
    omega

/-- A list of days under a name with capitals beyond ASCII, and a column that is named like the
short path of a day when that is folded. -/
def seasons : ColumnType :=
  .struct [.nullable 1 "ÉTÉ" (.list 2 (.struct [.nullable 3 "Jour" (.primitive .int)]) false),
    .nullable 4 "ÉtÉ.jour" (.primitive .int)]

/-- The short path of a day leads to the column next to the list once it is folded, while the
canonical path leads to the day however it is written. -/
theorem build_folded_seasons :
    ∃ written folded, build { case := .asWritten } seasons = .ok written ∧
      build { case := .folded } seasons = .ok folded ∧
      written.get? "ÉTÉ.Jour" = some 3 ∧ folded.get? "ÉTÉ.Jour" = some 4 ∧
      written.get? "ÉTÉ.element.Jour" = some 3 ∧ folded.get? "ÉTÉ.ELEMENT.JOUR" = some 3 ∧
      folded.get? "ÉTÉ.Jour" = folded.get? "ÉtÉ.jour" ∧
      written.path? 3 = some "ÉTÉ.element.Jour" ∧
      folded.path? 3 = some (asciiFold "ÉTÉ.element.Jour") := by
  obtain ⟨folded, h⟩ : ∃ folded, build { case := .folded } seasons = .ok folded :=
    failure?_eq_none_iff.1 (by cbv)
  obtain ⟨written, hwritten, -, -, hleads, hsame, hpath, -⟩ := build_folded h
  have hday := hleads seasons.places[2] (List.getElem_mem _)
  have hcolumn := hleads seasons.places[3] (List.getElem_mem _)
  have hsingle := hpath seasons.places[2] (List.getElem_mem _) (by decide)
  refine ⟨written, folded, hwritten, h, ?_, (hcolumn "ÉTÉ.Jour" (by cbv)).1, (hday _ rfl).2,
    (hday "ÉTÉ.ELEMENT.JOUR" (by cbv)).1, hsame _ _ (by cbv), hsingle⟩
  rw [get?_of_build hwritten]
  cbv

end PathIndex
end TableSchema
