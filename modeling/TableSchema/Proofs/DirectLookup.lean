import Mathlib
import TableSchema.Proofs.CanonicalPaths

/-!
# Names without dots

The fields of a struct can be looked through one after the other, by name or by number.  For the
columns of a schema this comes to the same as the indexes of all fields, as long as the name has no
dot in it (`Schema.directLookup_agrees`): a path with more than one segment has a dot, so only
columns have such a name for their canonical path.  A field further down may have one for its short
path, if all slots between it and a column are left out.  The name is then that of the column, which
the path leads to first.
-/

namespace TableSchema

/-! ## Paths without dots -/

/-- A name has a dot just where it has one in the form in which it is compared. -/
theorem NameCase.dot_mem_key_iff (case : NameCase) {name : String} :
    '.' ∈ (case.key name).toList ↔ '.' ∈ name.toList := by
  cases case with
  | asWritten => rfl
  | folded =>
    rw [key_folded, toList_asciiFold, List.mem_map]
    simp only [toLower_eq_iff (c := '.') rfl, exists_eq_right]

namespace PathStyle
variable {style : PathStyle}

@[simp] theorem path_singleton (h : Hop) : style.path [h] = style.segment h :=
  String.intercalate_singleton

/-- **A path without a dot has one segment.** -/
theorem eq_nil_of_dot_not_mem {h : Hop} {way : List Hop}
    (hdot : '.' ∉ (style.path (h :: way)).toList) : way = [] := by
  cases way with
  | nil => rfl
  | cons k way =>
    refine absurd ?_ hdot
    rw [path, List.map_cons, List.map_cons, String.intercalate_cons_cons]
    simp

end PathStyle

/-- **The way to a place in a struct begins with a field of the struct**, which short paths do not
leave out. -/
theorem Place.exists_top {fields : List Field} {p : Place}
    (hp : p ∈ (ColumnType.struct fields).places) :
    ∃ f ∈ fields, (∃ way, p.way = ⟨.structField, f⟩ :: way) ∧
      ∃ way, p.shortWay = ⟨.structField, f⟩ :: way := by
  obtain ⟨i, h, hi, hp⟩ := ColumnType.mem_places.1 hp
  obtain ⟨f, hf, rfl⟩ := List.mem_map.1 (List.mem_of_getElem? hi)
  obtain ⟨way, hway⟩ : ∃ way, p.way = ⟨.structField, f⟩ :: way := by
    rcases hp with rfl | ⟨q, -, rfl⟩
    · exact ⟨[], rfl⟩
    · exact ⟨q.way, rfl⟩
  refine ⟨f, hf, ⟨way, hway⟩, way.filter fun h => !h.isElided, ?_⟩
  rw [Place.shortWay, hway]
  rfl

namespace Schema
variable {s : Schema} {case : NameCase} {index : IdIndex} {paths : PathIndex}

/-- Every column is a place at the top. -/
theorem exists_place_of_mem_fields {f : Field} (hf : f ∈ s.fields) :
    ∃ p ∈ s.root.places, p.field = f ∧ p.way = [⟨.structField, f⟩] := by
  have hh : ⟨.structField, f⟩ ∈ s.root.hops := List.mem_map_of_mem hf
  obtain ⟨i, hi⟩ := List.getElem?_of_mem hh
  exact ⟨_, ColumnType.child_mem_places hi, rfl, rfl⟩

/-- A name without a dot that is the canonical or the short path of a place is the name of a
column. -/
theorem exists_mem_fields_of_path {p : Place} (hp : p ∈ s.root.places) {name : String}
    (hdot : '.' ∉ name.toList) (hpath : PathStyle.canonical { case } p = case.key name ∨
      PathStyle.short { case } p = case.key name) :
    ∃ f ∈ s.fields, case.key f.name = case.key name := by
  obtain ⟨f, hf, ⟨way, hway⟩, shortWay, hshortWay⟩ := Place.exists_top hp
  have hsegment {rest : List Hop}
      (hrest : PathStyle.path { case } (⟨.structField, f⟩ :: rest) = case.key name) :
      case.key f.name = case.key name := by
    have hdot' : '.' ∉ (PathStyle.path { case } (⟨.structField, f⟩ :: rest)).toList := by
      rwa [hrest, case.dot_mem_key_iff]
    obtain rfl := PathStyle.eq_nil_of_dot_not_mem hdot'
    rwa [PathStyle.path_singleton] at hrest
  refine ⟨f, hf, ?_⟩
  rcases hpath with hpath | hpath
  · rw [PathStyle.canonical, hway] at hpath
    exact hsegment hpath
  · rw [PathStyle.short, hshortWay] at hpath
    exact hsegment hpath

/-- **A name without a dot leads to the column with the name**, or nowhere if there is none. -/
theorem fieldAtPath_eq_named? (hids : s.idIndex = .ok index)
    (hpaths : s.pathIndex case = .ok paths) {name : String} (hdot : '.' ∉ name.toList) :
    s.fieldAtPath name case = .ok (Field.named? s.fields name case) := by
  cases hnamed : Field.named? s.fields name case with
  | some f =>
    obtain ⟨p, hp, rfl, hway⟩ := exists_place_of_mem_fields (List.mem_of_find?_eq_some hnamed)
    have hname : case.key p.field.name = case.key name := by simpa using List.find?_some hnamed
    refine fieldAtPath_of_canonical hids hpaths hp ?_
    rw [PathStyle.canonical, hway, PathStyle.path_singleton]
    exact hname
  | none =>
    rw [fieldAtPath_eq_placeAt? hids hpaths]
    cases hplace : PathStyle.placeAt? { case } s.root.places name with
    | none => rfl
    | some p =>
      obtain ⟨q, hq, hpath⟩ := PathStyle.isSome_placeAt?_iff.1 (Option.isSome_of_eq_some hplace)
      obtain ⟨f, hf, hname⟩ := exists_mem_fields_of_path hq hdot hpath
      exact absurd (decide_eq_true hname) (List.find?_eq_none.1 hnamed f hf)

/-- The field of a place further down is no column. -/
theorem not_mem_fields_of_depth (hids : s.idIndex = .ok index) {p : Place}
    (hp : p ∈ s.root.places) (hdepth : 1 < p.depth) : p.field ∉ s.fields := by
  intro hf
  obtain ⟨q, hq, hfield, hway⟩ := exists_place_of_mem_fields hf
  obtain rfl : q = p := eq_of_id_eq hids hq hp (congrArg Field.id hfield)
  rw [Place.depth_eq_length_way hq, hway] at hdepth
  exact absurd hdepth (Nat.lt_irrefl 1)

/-- **A name without a dot leads to no field below a column**, be it by the canonical or the short
path of the field. -/
theorem fieldAtPath_ne_of_depth (hids : s.idIndex = .ok index)
    (hpaths : s.pathIndex case = .ok paths) {name : String} (hdot : '.' ∉ name.toList) {p : Place}
    (hp : p ∈ s.root.places) (hdepth : 1 < p.depth) :
    s.fieldAtPath name case ≠ .ok (some p.field) := by
  intro hfield
  rw [fieldAtPath_eq_named? hids hpaths hdot, Except.ok.injEq] at hfield
  exact not_mem_fields_of_depth hids hp hdepth (List.mem_of_find?_eq_some hfield)

/-- **The number of a column leads to the column**, also among the columns alone. -/
theorem fieldWithId_of_mem_fields (hids : s.idIndex = .ok index) {f : Field} (hf : f ∈ s.fields) :
    s.fieldWithId f.id = .ok (some f) ∧ Field.withId? s.fields f.id = some f := by
  obtain ⟨p, hp, rfl, -⟩ := exists_place_of_mem_fields hf
  obtain ⟨g, hg, hfind, hid⟩ := exists_find?_key Field.id hf
  obtain ⟨q, hq, rfl, -⟩ := exists_place_of_mem_fields hg
  obtain rfl : q = p := eq_of_id_eq hids hq hp hid
  exact ⟨fieldWithId_id hids hp, hfind⟩

/-- **The indexes of a schema agree with a look through its columns.**  A name without a dot leads
to the first column with the name, up to the case of letters if paths are folded, and nowhere if no
column has it.  It never leads to a field further down, neither by its canonical nor by its short
path.  The number of a column leads to the same field through the index of all numbers as among the
columns, which is the column itself. -/
theorem directLookup_agrees (hids : s.idIndex = .ok index) (hpaths : s.pathIndex case = .ok paths) :
    (∀ name : String, '.' ∉ name.toList →
      s.fieldAtPath name case = .ok (Field.named? s.fields name case)) ∧
    (∀ name : String, '.' ∉ name.toList → ∀ p ∈ s.root.places, 1 < p.depth →
      paths.get? name ≠ some p.id ∧ s.fieldAtPath name case ≠ .ok (some p.field)) ∧
    ∀ f ∈ s.fields, s.fieldWithId f.id = .ok (Field.withId? s.fields f.id) ∧
      Field.withId? s.fields f.id = some f := by
  refine ⟨fun name hdot => fieldAtPath_eq_named? hids hpaths hdot,
    fun name hdot p hp hdepth => ⟨fun hget => ?_, ?_⟩, fun f hf => ?_⟩
  · have hfield := fieldAtPath_of_get? hids hpaths hp hget
    exact fieldAtPath_ne_of_depth hids hpaths hdot hp hdepth hfield
  · exact fieldAtPath_ne_of_depth hids hpaths hdot hp hdepth
  · obtain ⟨hindexed, hdirect⟩ := fieldWithId_of_mem_fields hids hf
    rw [hindexed, hdirect]
    exact ⟨rfl, rfl⟩

/-- A list of structs, and a column without a name. -/
def dayList : Schema :=
  ⟨none, [.nullable 1 "Days" (.list 2 (.struct [.nullable 3 "No" (.primitive .int)]) false),
    .nullable 4 "" (.primitive .int)]⟩

/-- The short path of the element of a list of structs is the name of the list, which leads to the
list, whatever the case of its letters. -/
theorem directLookup_agrees_dayList :
    ∃ index paths, dayList.idIndex = .ok index ∧ dayList.pathIndex .folded = .ok paths ∧
      dayList.fieldAtPath "DAYS" .folded = .ok (Field.named? dayList.fields "DAYS" .folded) ∧
      Field.named? dayList.fields "DAYS" .folded = some dayList.fields[0] ∧
      paths.get? "DAYS" ≠ some 2 ∧
      dayList.fieldAtPath "" .folded = .ok (Field.named? dayList.fields "" .folded) ∧
      Field.named? dayList.fields "" .folded = some dayList.fields[1] ∧
      dayList.fieldWithId 4 = .ok (Field.withId? dayList.fields 4) := by
  have hids : dayList.idIndex = .ok _ := rfl
  obtain ⟨paths, hpaths⟩ : ∃ paths, dayList.pathIndex .folded = .ok paths :=
    failure?_eq_none_iff.1 (by cbv)
  obtain ⟨hnamed, hbelow, hnumber⟩ := directLookup_agrees hids hpaths
  have hdot : '.' ∉ "DAYS".toList := by decide
  have helement := hbelow "DAYS" hdot dayList.root.places[1] (List.getElem_mem _) (by decide)
  have hdays : Field.named? dayList.fields "DAYS" .folded = some dayList.fields[0] :=
    List.find?_cons_of_pos (decide_eq_true (by cbv))
  exact ⟨_, paths, hids, hpaths, hnamed "DAYS" hdot, hdays, helement.1,
    hnamed "" (by decide), by cbv, (hnumber dayList.fields[1] (List.getElem_mem _)).1⟩

end Schema
end TableSchema
