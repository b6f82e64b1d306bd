import TableSchema.ColumnType

/-!
# Sample columns

Columns that theorems about schemas are applied to: flat ones, maps and lists inside each other,
structs inside a struct, and names with dots.
-/

namespace TableSchema
namespace Samples

/-- Two leaves. -/
def pair : List Field :=
  [.nullable 5 "foo" (.primitive .int), .nullable 7 "bar" (.primitive .string)]

/-- Three leaves with capitals in their names. -/
def capitals : List Field :=
  [.nullable 1 "Foo" (.primitive .int), .nullable 2 "Bar" (.primitive .string),
    .nullable 3 "Foobar" (.primitive .int)]

/-- A list of structs of the three leaves. -/
def capitalsList : ColumnType := .list 4 (.struct capitals) false

/-- A map whose values are lists of structs. -/
def mapOfLists : List Field :=
  [.required 7 "Value" (.map 5 (.primitive .int) 6 capitalsList false)]

/-- A map whose values are structs that hold a list of structs. -/
def mapOfStructs : List Field :=
  [.required 9 "Map"
    (.map 7 (.primitive .int) 8
      (.struct
        [.required 5 "First_child" (.primitive .int), .required 6 "Second_child" capitalsList])
      false)]

/-- A number, and a struct that holds another struct. -/
def people : List Field :=
  [.required 1 "id" (.primitive .long),
    .nullable 2 "user"
      (.struct
        [.nullable 3 "name" (.primitive .string),
          .nullable 4 "address"
            (.struct
              [.nullable 5 "street" (.primitive .string),
                .nullable 6 "city" (.primitive .string)])])]

/-- A list of structs, and a column named like the short path of one of their fields. -/
def dottedName : List Field :=
  [.nullable 9 "points" capitalsList, .nullable 8 "points.Foo" (.primitive .int)]

/-- A map whose values are at the path that is short for a field of the list next to it. -/
def coveredPath : List Field :=
  [.nullable 1 "points.Foo"
      (.map 2 (.primitive .int) 3 (.struct [.nullable 4 "Bar" (.primitive .int)]) false),
    .nullable 5 "points" (.list 6 (.struct [.nullable 7 "Foo.value" (.primitive .int)]) false)]

end Samples
end TableSchema
