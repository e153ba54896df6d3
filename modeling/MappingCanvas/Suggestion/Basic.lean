/-
# Suggestions

An assistant proposes how to fill target fields.  A proposal that it makes in no known way, or
without what that way needs, is kept as unrecognised, with the reason.
-/

import MappingCanvas.Json.Decode

namespace MappingCanvas

/-- A branch of a suggested conditional: a condition in words and the value if it holds. -/
structure Branch where
  condition : String
  value : Value
  deriving BEq

/-- A proposal for one target field. -/
inductive Suggestion
  | direct (target source : String)
  | constant (target : String) (value : Value)
  | conditional (target : String) (source : Option String) (branches : List Branch)
  | table (target source : String) (table : Table)
  | date (target source format : String)
  | concat (target : String) (sources : List String) (separator : String)
  | split (target source delimiter : String) (index : Nat)
  | skip (target reason : Option String)
  | unrecognised (mappingType : String) (target : Option String) (reason : String)
  deriving BEq

namespace Suggestion

/-- The name of the kind of a suggestion. -/
def mappingType : Suggestion → String
  | direct _ _ => "direct"
  | constant _ _ => "static"
  | conditional _ _ _ => "conditional"
  | table _ _ _ => "table"
  | date _ _ _ => "date_conversion"
  | concat _ _ _ => "concat"
  | split _ _ _ _ => "split"
  | skip _ _ => "skip"
  | unrecognised mappingType _ _ => mappingType

/-- The field that a suggestion is for. -/
def target? : Suggestion → Option String
  | direct target _ | constant target _ | conditional target _ _ | table target _ _
  | date target _ _ | concat target _ _ | split target _ _ _ => some target
  | skip target _ | unrecognised _ target _ => target

/-- The source fields that a suggestion reads, in order. -/
def sources : Suggestion → List String
  | direct _ source | table _ source _ | date _ source _ | split _ source _ _ => [source]
  | conditional _ source _ => source.toList
  | concat _ sources _ => sources
  | constant _ _ | skip _ _ | unrecognised _ _ _ => []

end Suggestion
end MappingCanvas
