/-!
# Leaf types

What a column without parts can hold: truth values, numbers, points in time, texts, identifiers and
bytes.  A decimal number carries its digit count and how many of the digits follow the point; a
fixed-length byte array carries its length.
-/

namespace TableSchema

/-- A leaf type. -/
inductive Primitive where
  /-- A truth value. -/
  | boolean
  /-- A 4-byte signed integer. -/
  | int
  /-- An 8-byte signed integer. -/
  | long
  /-- A 4-byte floating point number. -/
  | float
  /-- An 8-byte floating point number. -/
  | double
  /-- A decimal number of `precision` digits, `scale` of them after the point. -/
  | decimal (precision scale : UInt32)
  /-- A calendar date. -/
  | date
  /-- A time of day to the microsecond. -/
  | time
  /-- A date and time to the microsecond, in no particular zone. -/
  | timestamp
  /-- A date and time to the microsecond, kept as universal time. -/
  | timestampTz
  /-- A text. -/
  | string
  /-- A universally unique identifier. -/
  | uuid
  /-- Exactly `length` bytes. -/
  | fixed (length : UInt64)
  /-- Any number of bytes. -/
  | binary
  deriving DecidableEq

namespace Primitive

/-- The canonical text of a leaf type: a lower-case word, with its numbers in brackets. -/
def text : Primitive → String
  | boolean => "boolean"
  | int => "int"
  | long => "long"
  | float => "float"
  | double => "double"
  | decimal precision scale =>
    "decimal(" ++ toString precision.toNat ++ ", " ++ toString scale.toNat ++ ")"
  | date => "date"
  | time => "time"
  | timestamp => "timestamp"
  | timestampTz => "timestamptz"
  | string => "string"
  | uuid => "uuid"
  | fixed length => "fixed[" ++ toString length.toNat ++ "]"
  | binary => "binary"

instance : ToString Primitive := ⟨text⟩

/-- The numbers of a leaf type, in the order in which they are written. -/
def parameters : Primitive → List Nat
  | decimal precision scale => [precision.toNat, scale.toNat]
  | fixed length => [length.toNat]
  | _ => []

/-- The whole numbers of fixed width. -/
def isInteger : Primitive → Bool
  | int | long => true
  | _ => false

def isFloatingPoint : Primitive → Bool
  | float | double => true
  | _ => false

def isDecimal : Primitive → Bool
  | decimal .. => true
  | _ => false

/-- Integers, floating point numbers and decimals. -/
def isNumber (p : Primitive) : Bool := p.isInteger || p.isFloatingPoint || p.isDecimal

/-- Dates, times of day and both kinds of timestamp. -/
def isTemporal : Primitive → Bool
  | date | time | timestamp | timestampTz => true
  | _ => false

/-- Byte arrays, of a given length or of any. -/
def isBinary : Primitive → Bool
  | fixed _ | binary => true
  | _ => false

end Primitive
end TableSchema
