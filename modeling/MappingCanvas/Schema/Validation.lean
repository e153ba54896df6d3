/-
# The shape of field trees

A list of children belongs to objects and arrays, and to no other field; a grouping belongs to
arrays and names one of their direct children.  The first field that breaks a rule, parents
before children, is the one reported.
-/

import MappingCanvas.Schema.Field

namespace MappingCanvas

/-- How a field breaks the rules of shape. -/
inductive SchemaError
  | unexpectedChildren (id : String) (dataType : DataType)
  | missingChildren (id : String) (dataType : DataType)
  | groupByOnNonArray (id : String)
  | unknownGroupBy (id : String) (groupBy : String)
  deriving DecidableEq

/-- The wording of a broken rule of shape. -/
def SchemaError.message : SchemaError → String
  | unexpectedChildren id t =>
    "Field '" ++ id ++ "' of type '" ++ t.name ++ "' must not declare children"
  | missingChildren id t =>
    "Field '" ++ id ++ "' of type '" ++ t.name ++ "' requires a children list"
  | groupByOnNonArray id => "Field '" ++ id ++ "' declares groupBy but is not an array"
  | unknownGroupBy id g =>
    "Field '" ++ id ++ "' groups by '" ++ g ++ "', which is not one of its children"

namespace Field

/-- Checks whether a field has children exactly when its type asks for them. -/
def checkChildren (f : Field) : Except SchemaError Unit :=
  match f.dataType.isContainer, f.children with
  | true, none => .error (.missingChildren f.id f.dataType)
  | false, some _ => .error (.unexpectedChildren f.id f.dataType)
  | _, _ => .ok ()

/-- Checks the grouping of a field. -/
def checkGroupBy (f : Field) : Except SchemaError Unit :=
  match f.groupBy with
  | none => .ok ()
  | some g =>
    if f.dataType ≠ .array then .error (.groupByOnNonArray f.id)
    else if f.childList.any fun c => c.name == g then .ok ()
    else .error (.unknownGroupBy f.id g)

/-- Checks one field, without those inside it. -/
def checkShape (f : Field) : Except SchemaError Unit := do
  f.checkChildren
  f.checkGroupBy

mutual
/-- Checks a field and all fields inside it. -/
def validate : Field → Except SchemaError Unit
  | ⟨id, name, dataType, children, groupBy⟩ => do
    checkShape ⟨id, name, dataType, children, groupBy⟩
    validateChildren children

/-- Checks the children of a field. -/
def validateChildren : Option (List Field) → Except SchemaError Unit
  | none => .ok ()
  | some fs => validateForest fs

/-- Checks a forest. -/
def validateForest : List Field → Except SchemaError Unit
  | [] => .ok ()
  | f :: fs => do
    f.validate
    validateForest fs
end

end Field
end MappingCanvas
