import Mathlib
import TableSchema.Proofs.LeafEnds
import TableSchema.Proofs.Slots
import TableSchema.Schema

/-!
# Types and their texts

The text of a type says all there is to say about the type, if no field of a struct has a blank in
its name and no note runs over several lines (`ColumnType.Legible`): two such types with the same
text are the same, and so are the columns of two such schemas (`Schema.text_unambiguous`).

No part of a text says how long it is, so what has to be shown is where each part ends.  A name ends
at the blank behind it, a number at its bracket and a note with its line.  The lines of a struct end
where one is not set in; that the lines of a struct inside it are set in no further does no harm,
since these end with a `>` of their own before the outer ones go on.  A type ends where something
follows that ends a type (`ColumnType.SetApart`), which is shown for each kind from the types below
it and then for all types by induction.
-/

namespace TableSchema

/-! ## Numbers of fields -/

theorem FieldId.text_injective : Function.Injective FieldId.text := by
  intro i j h
  rw [FieldId.text, FieldId.text, Int.toString_eq_repr, Int.toString_eq_repr, Int.repr_inj,
    Int32.toInt_inj] at h
  cases i
  cases j
  exact congrArg FieldId.mk h

/-- The bracket behind the number of a field is the first one. -/
theorem FieldId.closing_not_mem_text (id : FieldId) : ')' ∉ id.text.toList := by
  have hdigits (n : Nat) : ')' ∉ n.repr.toList := by
    rw [Nat.toList_repr]
    intro hmem
    exact absurd (Nat.isDigit_of_mem_toDigits (by decide) (by decide) hmem) (by decide)
  rw [FieldId.text, Int.toString_eq_repr, Int.repr_eq_if]
  split
  · exact hdigits _
  · rw [String.toList_append, List.mem_append]
    rintro (hmem | hmem)
    · exact absurd hmem (by decide)
    · exact hdigits _ hmem

/-! ## Fields -/

namespace Field

theorem toList_textAround (f : Field) (type : String) :
    (f.textAround type).toList =
      f.name.toList ++ ' ' :: '(' :: (f.id.text.toList ++ ')' :: ':' :: ' ' ::
        (type.toList ++ (remark f.optional f.doc).toList)) := by
  simp [textAround]

/-- What stands in front of the type of a field can be read off its text. -/
theorem textAround_append_inj {f g : Field} {type type' : String} {rest rest' : List Char}
    (hf : ' ' ∉ f.name.toList) (hg : ' ' ∉ g.name.toList)
    (h : (f.textAround type).toList ++ rest = (g.textAround type').toList ++ rest') :
    f.name = g.name ∧ f.id = g.id ∧
      type.toList ++ ((remark f.optional f.doc).toList ++ rest) =
        type'.toList ++ ((remark g.optional g.doc).toList ++ rest') := by
  simp only [toList_textAround, List.append_assoc, List.cons_append] at h
  obtain ⟨hname, h⟩ := append_inj_of_mark hf hg h
  obtain ⟨hid, h⟩ := append_inj_of_mark f.id.closing_not_mem_text g.id.closing_not_mem_text
    (List.tail_eq_of_cons_eq h)
  refine ⟨String.toList_inj.1 hname, FieldId.text_injective (String.toList_inj.1 hid), ?_⟩
  exact List.tail_eq_of_cons_eq (List.tail_eq_of_cons_eq h)

/-- The note of a field as it is written. -/
def noteText : Option String → List Char
  | none => []
  | some doc => ' ' :: '-' :: ' ' :: doc.toList

theorem toList_remark (optional : Bool) (doc : Option String) :
    (remark optional doc).toList =
      (if optional then [] else " (required)".toList) ++ noteText doc := by
  cases doc <;> cases optional <;> simp [remark, noteText]

/-- **A note ends with its line.** -/
theorem noteText_append_inj {stop : Char} (hstop : stop ≠ ' ') {doc doc' : Option String}
    (hdoc : ∀ d ∈ doc, stop ∉ d.toList) (hdoc' : ∀ d ∈ doc', stop ∉ d.toList)
    {rest rest' : List Char} (h : noteText doc ++ stop :: rest = noteText doc' ++ stop :: rest') :
    doc = doc' ∧ rest = rest' := by
  cases doc with
  | none =>
    cases doc' with
    | none => exact ⟨rfl, List.tail_eq_of_cons_eq h⟩
    | some d' => exact absurd (List.head_eq_of_cons_eq h) hstop
  | some d =>
    cases doc' with
    | none => exact absurd (List.head_eq_of_cons_eq h).symm hstop
    | some d' =>
      simp only [noteText, List.cons_append, List.cons.injEq, true_and] at h
      obtain ⟨hsame, hrest⟩ := append_inj_of_mark (hdoc d rfl) (hdoc' d' rfl) h
      rw [String.toList_inj.1 hsame]
      exact ⟨rfl, hrest⟩

/-- Whether a field is required and its note can be read off what stands behind its type. -/
theorem remark_append_inj {stop : Char} (hstop : stop ≠ ' ') {optional optional' : Bool}
    {doc doc' : Option String} (hdoc : ∀ d ∈ doc, stop ∉ d.toList)
    (hdoc' : ∀ d ∈ doc', stop ∉ d.toList) {rest rest' : List Char}
    (h : (remark optional doc).toList ++ stop :: rest =
      (remark optional' doc').toList ++ stop :: rest') :
    optional = optional' ∧ doc = doc' ∧ rest = rest' := by
  -- A note begins with a blank and a dash, so ` (` can only be the mark of a required field.
  have hmark (doc : Option String) (rest cs : List Char) :
      noteText doc ++ stop :: rest ≠ ' ' :: '(' :: cs := by
    cases doc with
    | none => exact fun h => hstop (List.head_eq_of_cons_eq h)
    | some d => simp [noteText]
  simp only [toList_remark, List.append_assoc] at h
  cases optional with
  | false =>
    cases optional' with
    | false => exact ⟨rfl, noteText_append_inj hstop hdoc hdoc' (List.append_cancel_left h)⟩
    | true => exact absurd h.symm (hmark doc' rest' _)
  | true =>
    cases optional' with
    | false => exact absurd h (hmark doc rest _)
    | true => exact ⟨rfl, noteText_append_inj hstop hdoc hdoc' h⟩

/-- The type of a field ends where it is said whether the field is required. -/
theorem endsType_remark {stop : Char} (hstop : stop ∈ "\n>:".toList) (optional : Bool)
    (doc : Option String) (rest : List Char) :
    EndsType ((remark optional doc).toList ++ stop :: rest) := by
  have hstops : "\n>:".toList ⊆ " \n>:".toList := by decide
  have hblank : ' ' ∈ " \n>:".toList := by decide
  intro c hc
  rw [toList_remark] at hc
  cases optional with
  | false =>
    cases hc
    exact hblank
  | true =>
    cases doc with
    | none =>
      cases hc
      exact hstops hstop
    | some d =>
      cases hc
      exact hblank

end Field

/-! ## Types -/

/-- **A type that is written legibly**: no field of a struct has a blank in its name, and no note
runs over several lines. -/
structure ColumnType.Legible (t : ColumnType) : Prop where
  blank_not_mem : ∀ p ∈ t.places, p.hop.role = .structField → ' ' ∉ p.field.name.toList
  line_not_mem : ∀ p ∈ t.places, ∀ doc ∈ p.field.doc, '\n' ∉ doc.toList

/-- **A field whose end can be seen** where the character `stop` follows. -/
structure Field.StopsAt (stop : Char) (f : Field) : Prop where
  blank_not_mem : ' ' ∉ f.name.toList
  stop_not_mem : ∀ doc ∈ f.doc, stop ∉ doc.toList

namespace Field
variable {stop : Char} {id : FieldId} {type : ColumnType}

theorem stopsAt_element {optional : Bool} : (element id type optional).StopsAt stop :=
  ⟨by simp [element], nofun⟩

theorem stopsAt_mapKey : (mapKey id type).StopsAt stop := ⟨by simp [mapKey], nofun⟩

theorem stopsAt_mapValue {optional : Bool} : (mapValue id type optional).StopsAt stop :=
  ⟨by simp [mapValue], nofun⟩

end Field

namespace ColumnType

/-- The types in the slots of a legible type are legible. -/
theorem Legible.slot {t : ColumnType} (ht : t.Legible) {h : Hop} (hh : h ∈ t.hops) :
    h.field.type.Legible := by
  obtain ⟨i, hi⟩ := List.getElem?_of_mem hh
  constructor
  · intro q hq hrole
    exact ht.blank_not_mem (q.below i h) (below_mem_places hi hq) hrole
  · intro q hq
    exact ht.line_not_mem (q.below i h) (below_mem_places hi hq)

/-- The fields of a legible struct end with their lines. -/
theorem Legible.fields {fields : List Field} (h : (struct fields).Legible) :
    ∀ f ∈ fields, f.StopsAt '\n' ∧ f.type.Legible := by
  intro f hf
  have hhop : Hop.mk .structField f ∈ (struct fields).hops := List.mem_map_of_mem hf
  obtain ⟨i, hi⟩ := List.getElem?_of_mem hhop
  have hplace := child_mem_places hi
  exact ⟨⟨h.blank_not_mem _ hplace rfl, h.line_not_mem _ hplace⟩, h.slot hhop⟩

theorem Legible.element {id : FieldId} {type : ColumnType} {optional : Bool}
    (h : (list id type optional).Legible) : type.Legible := by
  have hhop : Hop.mk .listElement (.element id type optional) ∈ (list id type optional).hops :=
    List.mem_cons_self
  exact h.slot hhop

theorem Legible.sides {keyId valueId : FieldId} {key value : ColumnType} {optional : Bool}
    (h : (map keyId key valueId value optional).Legible) : key.Legible ∧ value.Legible := by
  have hkey : Hop.mk .mapKey (.mapKey keyId key) ∈
      (map keyId key valueId value optional).hops := List.mem_cons_self
  have hvalue : Hop.mk .mapValue (.mapValue valueId value optional) ∈
      (map keyId key valueId value optional).hops := List.mem_cons_of_mem _ List.mem_cons_self
  exact ⟨h.slot hkey, h.slot hvalue⟩

end ColumnType

/-- **A type that ends where something follows that ends a type**: what is written there can be no
other type. -/
def ColumnType.SetApart (t : ColumnType) : Prop :=
  ∀ ⦃u : ColumnType⦄ ⦃rest rest' : List Char⦄, u.Legible → EndsType rest → EndsType rest' →
    t.text.toList ++ rest = u.text.toList ++ rest' → t = u ∧ rest = rest'

/-- **A field is read off its text**, if its type is and if its end can be seen. -/
theorem Field.text_append_inj {stop : Char} (hstop : stop ∈ "\n>:".toList) {f g : Field}
    (hf : f.StopsAt stop) (hg : g.StopsAt stop) (hapart : f.type.SetApart)
    (hlegible : g.type.Legible) {rest rest' : List Char}
    (h : f.text.toList ++ stop :: rest = g.text.toList ++ stop :: rest') :
    f = g ∧ rest = rest' := by
  have hblank : stop ≠ ' ' := by
    rintro rfl
    exact absurd hstop (by decide)
  obtain ⟨hname, hid, h⟩ := textAround_append_inj hf.blank_not_mem hg.blank_not_mem h
  have hf' := endsType_remark hstop f.optional f.doc rest
  have hg' := endsType_remark hstop g.optional g.doc rest'
  obtain ⟨htype, h⟩ := hapart hlegible hf' hg' h
  obtain ⟨hoptional, hdoc, hrest⟩ :=
    remark_append_inj hblank hf.stop_not_mem hg.stop_not_mem h
  cases f
  cases g
  cases hname
  cases hid
  cases htype
  cases hoptional
  cases hdoc
  exact ⟨rfl, hrest⟩

namespace Field

/-- The text of some fields, each set in and on a line of its own. -/
def lines (fields : List Field) : List Char :=
  fields.flatMap fun f => ' ' :: ' ' :: (f.text.toList ++ ['\n'])

theorem toList_block (opening : String) (fields : List Field) :
    (block opening (fields.map text)).toList =
      opening.toList ++ '<' :: '\n' :: (lines fields ++ ['>']) := by
  simp [block, lines, String.toList_join, List.flatMap_map]

/-- **Fields are read off their lines**: each line ends with its field, and the lines end where one
is not set in. -/
theorem lines_append_inj {fields fields' : List Field}
    (hfields : ∀ f ∈ fields, f.StopsAt '\n' ∧ f.type.SetApart)
    (hfields' : ∀ f ∈ fields', f.StopsAt '\n' ∧ f.type.Legible) {rest rest' : List Char}
    (h : lines fields ++ '>' :: rest = lines fields' ++ '>' :: rest') :
    fields = fields' ∧ rest = rest' := by
  induction fields generalizing fields' with
  | nil =>
    cases fields' with
    | nil => exact ⟨rfl, List.tail_eq_of_cons_eq h⟩
    -- A line begins with a blank, and what follows the lines does not.
    | cons g gs => cases h
  | cons f fs ih =>
    cases fields' with
    | nil => cases h
    | cons g gs =>
      obtain ⟨⟨hf, hapart⟩, hfs⟩ := List.forall_mem_cons.1 hfields
      obtain ⟨⟨hg, hlegible⟩, hgs⟩ := List.forall_mem_cons.1 hfields'
      simp only [lines, List.flatMap_cons, List.cons_append, List.append_assoc, List.nil_append,
        List.cons.injEq, true_and] at h
      obtain ⟨rfl, hbehind⟩ := text_append_inj (by decide) hf hg hapart hlegible h
      obtain ⟨rfl, hrest⟩ := ih hfs hgs hbehind
      exact ⟨rfl, hrest⟩

/-- Fields are read off the block in which they are written. -/
theorem block_append_inj {opening : String} {fields fields' : List Field}
    (hfields : ∀ f ∈ fields, f.StopsAt '\n' ∧ f.type.SetApart)
    (hfields' : ∀ f ∈ fields', f.StopsAt '\n' ∧ f.type.Legible) {rest rest' : List Char}
    (h : (block opening (fields.map text)).toList ++ rest =
      (block opening (fields'.map text)).toList ++ rest') :
    fields = fields' ∧ rest = rest' := by
  simp only [toList_block, List.append_assoc, List.cons_append, List.nil_append,
    List.append_cancel_left_eq, List.cons.injEq, true_and] at h
  exact lines_append_inj hfields hfields' h

end Field

/-! ## Kinds -/

namespace Kind

theorem text_injective : Function.Injective text := by
  intro j k h
  have hread := ofText?_eq_some_iff.2 h
  rw [ofText?_eq_some_iff.2 rfl] at hread
  exact (Option.some.inj hread).symm

/-- The word for a kind is made of small letters. -/
theorem isLower_of_mem_text (k : Kind) : ∀ c ∈ k.text.toList, c.isLower := by
  cases k <;> exact List.all_eq_true.1 (by decide)

end Kind

namespace ColumnType

theorem toList_text_list (id : FieldId) (type : ColumnType) (optional : Bool) :
    (list id type optional).text.toList =
      Kind.list.text.toList ++ '<' :: ((Field.element id type optional).text.toList ++ ['>']) := by
  simp [text_list, Kind.text]

theorem toList_text_map (keyId : FieldId) (key : ColumnType) (valueId : FieldId)
    (value : ColumnType) (optional : Bool) :
    (map keyId key valueId value optional).text.toList =
      Kind.map.text.toList ++ '<' :: ((Field.mapKey keyId key).text.toList ++
        ':' :: ' ' :: ((Field.mapValue valueId value optional).text.toList ++ ['>'])) := by
  simp [text_map, Kind.text]

/-- The text of a type with slots begins with the word for its kind. -/
theorem exists_opening {t : ColumnType} (ht : t.isPrimitive = false) :
    ∃ behind, t.text.toList = t.kind.text.toList ++ '<' :: behind := by
  cases t with
  | primitive p => cases ht
  | struct fields =>
    rw [text_struct, Field.toList_block]
    exact ⟨_, rfl⟩
  | list id type optional => exact ⟨_, toList_text_list id type optional⟩
  | map keyId key valueId value optional =>
    exact ⟨_, toList_text_map keyId key valueId value optional⟩

/-- A leaf type is written like no type with slots. -/
theorem text_append_ne {t u : ColumnType} (ht : t.isPrimitive = true) (hu : u.isPrimitive = false)
    {rest rest' : List Char} (hrest : EndsType rest) :
    t.text.toList ++ rest ≠ u.text.toList ++ rest' := by
  cases t with
  | primitive p =>
    obtain ⟨behind, htext⟩ := exists_opening hu
    rw [htext, List.append_assoc]
    exact Primitive.text_append_ne hrest u.kind.isLower_of_mem_text
  | struct fields => cases ht
  | list id type optional => cases ht
  | map keyId key valueId value optional => cases ht

/-- **The text of a type tells its kind.** -/
theorem kind_eq_of_text_append_eq {t u : ColumnType} {rest rest' : List Char}
    (hrest : EndsType rest) (hrest' : EndsType rest')
    (h : t.text.toList ++ rest = u.text.toList ++ rest') : t.kind = u.kind := by
  cases ht : t.isPrimitive with
  | true =>
    cases hu : u.isPrimitive with
    | true => exact (of_decide_eq_true ht).trans (of_decide_eq_true hu).symm
    | false => exact absurd h (text_append_ne ht hu hrest)
  | false =>
    cases hu : u.isPrimitive with
    | true => exact absurd h.symm (text_append_ne hu ht hrest')
    | false =>
      obtain ⟨behind, htext⟩ := exists_opening ht
      obtain ⟨behind', htext'⟩ := exists_opening hu
      rw [htext, htext', List.append_assoc, List.append_assoc] at h
      obtain ⟨hword, -⟩ := append_inj_of_all t.kind.isLower_of_mem_text
        u.kind.isLower_of_mem_text isLower_head?_angle isLower_head?_angle h
      exact Kind.text_injective (String.toList_inj.1 hword)

/-! Each kind of type ends where something follows that ends a type, if the types below it do. -/

namespace SetApart

theorem primitive (p : Primitive) : (ColumnType.primitive p).SetApart := by
  intro u rest rest' _ hrest hrest' h
  have hkind := kind_eq_of_text_append_eq hrest hrest' h
  cases u with
  | primitive q =>
    obtain ⟨rfl, hrest⟩ := Primitive.text_append_inj hrest hrest' h
    exact ⟨rfl, hrest⟩
  | _ => cases hkind

theorem struct {fields : List Field}
    (hfields : ∀ f ∈ fields, f.StopsAt '\n' ∧ f.type.SetApart) :
    (ColumnType.struct fields).SetApart := by
  intro u rest rest' hu hrest hrest' h
  have hkind := kind_eq_of_text_append_eq hrest hrest' h
  cases u with
  | struct fields' =>
    rw [text_struct, text_struct] at h
    obtain ⟨rfl, hrest⟩ := Field.block_append_inj hfields hu.fields h
    exact ⟨rfl, hrest⟩
  | _ => cases hkind

theorem list {type : ColumnType} (htype : type.SetApart) (id : FieldId) (optional : Bool) :
    (ColumnType.list id type optional).SetApart := by
  intro u rest rest' hu hrest hrest' h
  have hkind := kind_eq_of_text_append_eq hrest hrest' h
  cases u with
  | list id' type' optional' =>
    simp only [toList_text_list, List.append_assoc, List.cons_append, List.nil_append,
      List.append_cancel_left_eq, List.cons.injEq, true_and] at h
    obtain ⟨helement, hrest⟩ := Field.text_append_inj (by decide) Field.stopsAt_element
      Field.stopsAt_element htype hu.element h
    cases helement
    exact ⟨rfl, hrest⟩
  | _ => cases hkind

theorem map {key value : ColumnType} (hkey : key.SetApart) (hvalue : value.SetApart)
    (keyId valueId : FieldId) (optional : Bool) :
    (ColumnType.map keyId key valueId value optional).SetApart := by
  intro u rest rest' hu hrest hrest' h
  have hkind := kind_eq_of_text_append_eq hrest hrest' h
  cases u with
  | map keyId' key' valueId' value' optional' =>
    simp only [toList_text_map, List.append_assoc, List.cons_append, List.nil_append,
      List.append_cancel_left_eq, List.cons.injEq, true_and] at h
    -- The key ends at the colon behind it, and the value at the closing angle.
    obtain ⟨hkeys, h⟩ := Field.text_append_inj (by decide) Field.stopsAt_mapKey
      Field.stopsAt_mapKey hkey hu.sides.1 h
    obtain ⟨hvalues, hrest⟩ := Field.text_append_inj (by decide) Field.stopsAt_mapValue
      Field.stopsAt_mapValue hvalue hu.sides.2 (List.tail_eq_of_cons_eq h)
    cases hkeys
    cases hvalues
    exact ⟨rfl, hrest⟩
  | _ => cases hkind

end SetApart

/-- **A legible type ends where something follows that ends a type.** -/
theorem Legible.setApart {t : ColumnType} (ht : t.Legible) : t.SetApart := by
  induction t using ColumnType.induction with
  | primitive p => exact .primitive p
  | struct fs ih =>
    refine .struct fun f hf => ?_
    obtain ⟨hstops, hlegible⟩ := ht.fields f hf
    exact ⟨hstops, ih f hf hlegible⟩
  | list id t o ih => exact .list (ih ht.element) id o
  | map i k j v o ihk ihv => exact .map (ihk ht.sides.1) (ihv ht.sides.2) i j o

end ColumnType

/-- **A text is that of one legible type at most**: two such types with the same text are the same,
in their kinds, numbers, names, marks, notes and leaves at every depth.  Two such schemas with the
same text have the same columns; the number of a schema is not written out. -/
theorem Schema.text_unambiguous :
    (∀ t u : ColumnType, t.Legible → u.Legible → t.text = u.text → t = u) ∧
      ∀ s s' : Schema, s.root.Legible → s'.root.Legible → s.text = s'.text →
        s.fields = s'.fields := by
  constructor
  · intro t u ht hu htext
    have hnothing : EndsType [] := nofun
    obtain ⟨hsame, -⟩ := ht.setApart hu hnothing hnothing (congrArg (·.toList ++ []) htext)
    exact hsame
  · intro s s' hs hs' htext
    have hfields (f : Field) (hf : f ∈ s.fields) : f.StopsAt '\n' ∧ f.type.SetApart := by
      obtain ⟨hstops, hlegible⟩ := hs.fields f hf
      exact ⟨hstops, hlegible.setApart⟩
    obtain ⟨hsame, -⟩ :=
      Field.block_append_inj hfields hs'.fields (congrArg (·.toList ++ []) htext)
    exact hsame

/-- Columns with brackets, an angle and a line end in their names, one of them with the note that is
given. -/
def marked (note : Option String) : List Field :=
  [.required 1 "(1):"
      (.map 2 (.primitive (.decimal 9 2)) ⟨-3⟩
        (.list 4 (.struct [⟨5, ">\n", .primitive .timestamp, true, note⟩]) true) true),
    (Field.nullable 6 "" (.primitive .timestampTz)).withDoc "b (7): int (required) - >"]

/-- The empty note is told from no note, and the same columns under another number are seen to be
the same. -/
theorem Schema.text_unambiguous_marked :
    (ColumnType.struct (marked none)).Legible ∧ (ColumnType.struct (marked (some ""))).Legible ∧
      (ColumnType.struct (marked none)).text ≠ (ColumnType.struct (marked (some ""))).text ∧
      (⟨none, marked none⟩ : Schema).root = (⟨some .initial, marked none⟩ : Schema).root ∧
      (⟨none, marked none⟩ : Schema).fields = (⟨some .initial, marked none⟩ : Schema).fields := by
  have hnone : (ColumnType.struct (marked none)).Legible := ⟨by decide, by decide⟩
  have hempty : (ColumnType.struct (marked (some ""))).Legible := ⟨by decide, by decide⟩
  have hdiffer : ColumnType.struct (marked none) ≠ .struct (marked (some "")) := by decide
  refine ⟨hnone, hempty, fun htext => ?_, ?_, ?_⟩
  · exact hdiffer (text_unambiguous.1 _ _ hnone hempty htext)
  · exact text_unambiguous.1 (Schema.root ⟨none, marked none⟩)
      (Schema.root ⟨some .initial, marked none⟩) hnone hnone rfl
  · exact text_unambiguous.2 ⟨none, marked none⟩ ⟨some .initial, marked none⟩ hnone hnone rfl

/-- The blank of a name may be taken for the one behind a name. -/
example :
    (ColumnType.struct [.nullable 2 "a (1): int - b" (.primitive .int)]).text =
      (ColumnType.struct [(Field.nullable 1 "a" (.primitive .int)).withDoc "b (2): int"]).text := by
  decide

/-- The second line of a note may be taken for a field. -/
example :
    (ColumnType.struct [(Field.nullable 1 "a" (.primitive .int)).withDoc "b\n  c (2): int"]).text =
      (ColumnType.struct [(Field.nullable 1 "a" (.primitive .int)).withDoc "b",
        .nullable 2 "c" (.primitive .int)]).text := by
  decide

end TableSchema
