/-!
# Structured text

The one-line form in which records and wrapped values describe themselves:
`Name(value)` for a wrapper, `Name { field: value, … }` for a record, and
`Name { field: value, … , .. }` for a record that hides some of its fields.
-/

namespace KernelMemory.Text

/-- `name(value)`. -/
def wrapped (name value : String) : String :=
  name ++ "(" ++ value ++ ")"

/-- The fields of a record, each as `name: value`, separated by commas. -/
def fieldList (fields : List (String × String)) : String :=
  ", ".intercalate (fields.map fun (name, value) => name ++ ": " ++ value)

/-- `name \x7b field: value, … \x7d`. -/
def record (name : String) (fields : List (String × String)) : String :=
  name ++ " \x7b " ++ fieldList fields ++ " \x7d"

/-- A record that shows only `fields` and ends in two dots for the rest. -/
def openRecord (name : String) (fields : List (String × String)) : String :=
  name ++ " \x7b " ++ fieldList fields ++ ", .. \x7d"

end KernelMemory.Text
