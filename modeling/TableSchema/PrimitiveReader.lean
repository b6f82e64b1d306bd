import TableSchema.Blank
import TableSchema.Numeral
import TableSchema.Primitive

/-!
# Reading leaf types

A leaf type is read from its word in any case of the ASCII letters, with white space allowed
around it.  Two words have a shorter or longer form, `bool` and `integer`.  The numbers of a
decimal and of a fixed-length byte array may have white space around them, inside their
brackets; nothing may stand between the word and its bracket.
-/

namespace TableSchema

/-- **The only way reading fails:** `input`, exactly as given, names no leaf type. -/
structure UnknownPrimitive where
  input : String
  deriving DecidableEq

def UnknownPrimitive.message (e : UnknownPrimitive) : String :=
  "unknown primitive type '" ++ e.input ++ "'"

namespace Primitive

/-- The words that stand for a leaf type without numbers. -/
def words : List (String × Primitive) :=
  [("boolean", boolean), ("bool", boolean), ("int", int), ("integer", int), ("long", long),
    ("float", float), ("double", double), ("date", date), ("time", time),
    ("timestamp", timestamp), ("timestamptz", timestampTz), ("string", string), ("uuid", uuid),
    ("binary", binary)]

/-- What stands between `opening` and `closing`, if the text begins with the one and the rest ends
with the other. -/
def enclosed? (opening closing : String) (cs : List Char) : Option (List Char) :=
  (opening.toList.isPrefixOf? cs).bind closing.toList.isSuffixOf?

/-- The two sides of the first comma. -/
def atComma? : List Char → Option (List Char × List Char)
  | [] => none
  | c :: cs => if c = ',' then some ([], cs) else (atComma? cs).map fun (l, r) => (c :: l, r)

/-- A decimal type, from what stands in its brackets. -/
def decimalOf? (arguments : List Char) : Option Primitive := do
  let (precision, scale) ← atComma? arguments
  return decimal (← Numeral.readWord32? (Blank.trim precision))
    (← Numeral.readWord32? (Blank.trim scale))

/-- A fixed-length byte array, from what stands in its brackets. -/
def fixedOf? (argument : List Char) : Option Primitive :=
  (Numeral.readWord64? (Blank.trim argument)).map fixed

/-- The leaf type that a trimmed, folded text stands for. -/
def ofFolded? (cs : List Char) : Option Primitive :=
  words.lookup (String.ofList cs)
    <|> (enclosed? "decimal(" ")" cs).bind decimalOf?
    <|> (enclosed? "fixed[" "]" cs).bind fixedOf?

/-- The text without the white space around it, its ASCII letters made small. -/
def folded (input : String) : List Char := (Blank.trim input.toList).map Char.toLower

/-- The leaf type that `input` names. -/
def read (input : String) : Except UnknownPrimitive Primitive :=
  match ofFolded? (folded input) with
  | some p => .ok p
  | none => .error ⟨input⟩

theorem read_eq_ok_iff {input : String} {p : Primitive} :
    read input = .ok p ↔ ofFolded? (folded input) = some p := by
  unfold read
  split <;> rename_i h <;> simp [h]

/-- The error holds the text as it was given, with its white space and its capitals. -/
theorem read_eq_error_iff {input : String} {e : UnknownPrimitive} :
    read input = .error e ↔ ofFolded? (folded input) = none ∧ e = ⟨input⟩ := by
  unfold read
  split <;> rename_i h <;> simp [h, eq_comm]

/-- The first comma parts the text, so that no comma stands before it. -/
theorem atComma?_eq_some_iff {cs l r : List Char} :
    atComma? cs = some (l, r) ↔ cs = l ++ ',' :: r ∧ ',' ∉ l := by
  induction cs generalizing l with
  | nil => simp [atComma?]
  | cons c cs ih =>
    by_cases hc : c = ','
    · cases l <;> simp +contextual [atComma?, hc, eq_comm]
    · cases l with
      | nil => simp [atComma?, hc]
      | cons b bs =>
        simp only [atComma?, if_neg hc, Option.map_eq_some_iff, Prod.exists, Prod.mk.injEq,
          List.cons.injEq, List.cons_append, List.mem_cons, not_or]
        constructor
        · rintro ⟨_, _, h, ⟨rfl, rfl⟩, rfl⟩
          exact ⟨⟨rfl, (ih.1 h).1⟩, Ne.symm hc, (ih.1 h).2⟩
        · rintro ⟨⟨rfl, e⟩, -, h⟩
          exact ⟨bs, r, ih.2 ⟨e, h⟩, ⟨rfl, rfl⟩, rfl⟩

end Primitive
end TableSchema
