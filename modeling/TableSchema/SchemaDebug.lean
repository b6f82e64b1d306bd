import TableSchema.Schema

/-!
# Schemas in full

A notation that shows every part of a schema by name, for those who look for a fault.  A record
is written as its name and its parts in braces, a variant as its name and its parts in
parentheses, a list in square brackets, and what may be missing as `Some(…)` or `None`.  Texts
stand in double quotes.
-/

namespace TableSchema
namespace DebugText

/-- The digits of a code point, base sixteen, small letters. -/
def hexDigits (n : Nat) : String := String.ofList (Nat.toDigits 16 n)

/-- How a character stands between double quotes. -/
def quotedChar : Char → String
  | '"' => "\\\""
  | '\\' => "\\\\"
  | '\n' => "\\n"
  | '\r' => "\\r"
  | '\t' => "\\t"
  | '\x00' => "\\0"
  | c =>
    if c.toNat < 0x20 ∨ c.toNat = 0x7F then "\\u\x7b" ++ hexDigits c.toNat ++ "\x7d"
    else String.singleton c

/-- A text in double quotes. -/
def quoted (s : String) : String := "\"" ++ String.join (s.toList.map quotedChar) ++ "\""

/-- A record with its parts by name. -/
def record (name : String) (parts : List (String × String)) : String :=
  name ++ " \x7b " ++ ", ".intercalate (parts.map fun part => part.1 ++ ": " ++ part.2) ++ " \x7d"

/-- A variant around its content. -/
def variant (name content : String) : String := name ++ "(" ++ content ++ ")"

/-- A list of contents. -/
def bracketed (contents : List String) : String := "[" ++ ", ".intercalate contents ++ "]"

/-- A content that may be missing. -/
def maybe : Option String → String
  | none => "None"
  | some content => variant "Some" content

/-- A truth value. -/
def truth (b : Bool) : String := if b then "true" else "false"

/-- A leaf type, as its name and its numbers. -/
def leaf : Primitive → String
  | .boolean => "Boolean"
  | .int => "Int"
  | .long => "Long"
  | .float => "Float"
  | .double => "Double"
  | .decimal precision scale =>
    record "Decimal" [("precision", toString precision.toNat), ("scale", toString scale.toNat)]
  | .date => "Date"
  | .time => "Time"
  | .timestamp => "Timestamp"
  | .timestampTz => "TimestampTz"
  | .string => "String"
  | .uuid => "Uuid"
  | .fixed length => variant "Fixed" (toString length.toNat)
  | .binary => "Binary"

/-- A field around its type. -/
def fieldAround (f : Field) (type : String) : String :=
  record "Field"
    [("id", variant "FieldId" f.id.text), ("name", quoted f.name), ("field_type", type),
      ("optional", truth f.optional), ("doc", maybe (f.doc.map quoted))]

end DebugText

open DebugText

mutual

/-- A type in full. -/
def ColumnType.debugText : ColumnType → String
  | .primitive p => variant "Primitive" (leaf p)
  | .struct fields =>
    variant "Struct" (record "StructType" [("fields", bracketed (Field.debugTexts fields))])
  | .list id type optional =>
    variant "List"
      (record "ListType" [("element", fieldAround (.element id type optional) type.debugText)])
  | .map keyId key valueId value optional =>
    variant "Map"
      (record "MapType"
        [("fields",
          bracketed
            [fieldAround (.mapKey keyId key) key.debugText,
              fieldAround (.mapValue valueId value optional) value.debugText])])

/-- Some fields in full. -/
def Field.debugTexts : List Field → List String
  | [] => []
  | ⟨id, name, type, optional, doc⟩ :: fields =>
    fieldAround ⟨id, name, type, optional, doc⟩ type.debugText :: Field.debugTexts fields

end

/-- A schema in full. -/
def Schema.debugText (s : Schema) : String :=
  record "Schema"
    [("schema_id", maybe (s.schemaId.map fun id => variant "SchemaId" id.text)),
      ("fields", bracketed (Field.debugTexts s.fields))]

end TableSchema
