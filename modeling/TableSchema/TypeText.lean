import TableSchema.ColumnType

/-!
# The text of types and fields

A field is written `name (id): type`, then ` (required)` if it must be filled, then ` - ` and
its note if it has one.  A struct stands on several lines, one field a line, each line set in by
two blanks; the lines of a struct inside a struct are not set in further.  A list writes its
element field and a map its key field and its value field.
-/

namespace TableSchema

namespace Field

/-- What follows the type of a field: whether it is required, and its note. -/
def remark (optional : Bool) (doc : Option String) : String :=
  (if optional then "" else " (required)") ++
    match doc with
    | none => ""
    | some doc => " - " ++ doc

/-- The text of a field around the text of its type. -/
def textAround (f : Field) (type : String) : String :=
  f.name ++ " (" ++ f.id.text ++ "): " ++ type ++ remark f.optional f.doc

/-- The text of fields that have been written, one a line, between an opening word and `>`. -/
def block (opening : String) (fields : List String) : String :=
  opening ++ "<\n" ++ String.join (fields.map fun field => "  " ++ field ++ "\n") ++ ">"

end Field

mutual

/-- The text of a type. -/
def ColumnType.text : ColumnType → String
  | .primitive p => p.text
  | .struct fields => Field.block "struct" (Field.texts fields)
  | .list id type optional =>
    "list<" ++ (Field.element id type optional).textAround type.text ++ ">"
  | .map keyId key valueId value optional =>
    "map<" ++ (Field.mapKey keyId key).textAround key.text ++ ": " ++
      (Field.mapValue valueId value optional).textAround value.text ++ ">"

/-- The texts of some fields, in order. -/
def Field.texts : List Field → List String
  | [] => []
  | ⟨id, name, type, optional, doc⟩ :: fields =>
    Field.textAround ⟨id, name, type, optional, doc⟩ type.text :: Field.texts fields

end

/-- The text of a field. -/
def Field.text (f : Field) : String := f.textAround f.type.text

instance : ToString ColumnType := ⟨ColumnType.text⟩

instance : ToString Field := ⟨Field.text⟩

@[simp] theorem Field.texts_eq_map (fields : List Field) : texts fields = fields.map text := by
  induction fields with
  | nil => simp [texts]
  | cons f fields ih =>
    cases f
    simp [texts, text, ih]

/-- The text of a list is that of its element field in angle brackets. -/
theorem ColumnType.text_list (id : FieldId) (type : ColumnType) (optional : Bool) :
    (list id type optional).text = "list<" ++ (Field.element id type optional).text ++ ">" := by
  simp [text, Field.text, Field.element]

/-- The text of a map is that of its key field, a colon, and that of its value field. -/
theorem ColumnType.text_map (keyId : FieldId) (key : ColumnType) (valueId : FieldId)
    (value : ColumnType) (optional : Bool) :
    (map keyId key valueId value optional).text =
      "map<" ++ (Field.mapKey keyId key).text ++ ": " ++
        (Field.mapValue valueId value optional).text ++ ">" := by
  simp [text, Field.text, Field.mapKey, Field.mapValue]

/-- The text of a struct is the block of the texts of its fields. -/
theorem ColumnType.text_struct (fields : List Field) :
    (struct fields).text = Field.block "struct" (fields.map Field.text) := by
  simp [text]

end TableSchema
