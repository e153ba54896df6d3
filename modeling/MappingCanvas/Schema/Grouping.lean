/-
# Groupings

What an array field is grouped by is also kept outside the field trees, in a list of groupings
that name the array.  `Grouping.collect` takes the list from a forest, `Grouping.restore` puts it
back: every array field gets the grouping of the first entry with its name, or none.
-/

import MappingCanvas.Schema.Field

namespace MappingCanvas

/-- The grouping of the array fields of one name. -/
structure Grouping where
  target : String
  source : Option String
  groupBy : Option String
  deriving DecidableEq

namespace Grouping

/-- The groupings of a forest, in the order of a walk. -/
def collect (forest : List Field) : List Grouping :=
  (Field.walk forest).filterMap fun f =>
    if f.dataType = .array then f.groupBy.map fun g => ⟨f.name, none, some g⟩ else none

/-- What the first grouping for a name groups by. -/
def groupBy? (groupings : List Grouping) (name : String) : Option String :=
  (groupings.find? fun g => g.target == name).bind Grouping.groupBy

mutual
/-- A field with the groupings put back. -/
def restoreField (groupings : List Grouping) : Field → Field
  | ⟨id, name, dataType, children, groupBy⟩ =>
    ⟨id, name, dataType, restoreChildren groupings children,
      if dataType = .array then groupBy? groupings name else groupBy⟩

/-- The children of a field with the groupings put back. -/
def restoreChildren (groupings : List Grouping) : Option (List Field) → Option (List Field)
  | none => none
  | some fs => some (restore groupings fs)

/-- A forest with the groupings put back. -/
def restore (groupings : List Grouping) : List Field → List Field
  | [] => []
  | f :: fs => restoreField groupings f :: restore groupings fs
end

end Grouping
end MappingCanvas
