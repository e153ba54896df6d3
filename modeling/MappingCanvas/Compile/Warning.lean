/-
# Warnings

What is wrong with a canvas never stops its export: the edge or node is left out, and a warning
says why.
-/

import MappingCanvas.Text.Numeral
import MappingCanvas.Text.Quoted

namespace MappingCanvas

/-- What was left out of an export, and why. -/
inductive Warning
  | unknownNode (edgeId nodeId : String)
  | unknownField (nodeId handle : String)
  | missingHandle (edgeId nodeId : String)
  | missingInput (nodeId : String)
  | missingConstant (nodeId handle : String)
  | unsupportedOrigin (edgeId nodeId typeName : String)
  | depthExceeded (nodeId : String) (limit : Nat)
  | unknownNodeType (nodeId typeName : String)
  | cycle (nodeIds : List String)
  deriving DecidableEq

namespace Warning

/-- The wording of a warning. -/
def message : Warning → String
  | unknownNode edgeId nodeId =>
    "Edge '" ++ edgeId ++ "' references unknown node '" ++ nodeId ++ "'"
  | unknownField nodeId handle =>
    "Node '" ++ nodeId ++ "' has no field for handle '" ++ handle ++ "'"
  | missingHandle edgeId nodeId =>
    "Edge '" ++ edgeId ++ "' leaves field node '" ++ nodeId ++ "' without a source handle"
  | missingInput nodeId => "Node '" ++ nodeId ++ "' has no input connection"
  | missingConstant nodeId handle =>
    "Static node '" ++ nodeId ++ "' has no value for handle '" ++ handle ++ "'"
  | unsupportedOrigin edgeId nodeId typeName =>
    "Edge '" ++ edgeId ++ "' originates at '" ++ nodeId ++ "' of type '" ++ typeName ++
      "', which produces no mapping"
  | depthExceeded nodeId limit =>
    "Resolving node '" ++ nodeId ++ "' exceeded the depth limit of " ++
      Text.ofNat limit ++ "; the graph may contain a cycle"
  | unknownNodeType nodeId typeName =>
    "Node '" ++ nodeId ++ "' has unrecognized type '" ++ typeName ++
      "' and was exported as a transform"
  | cycle nodeIds =>
    "Nodes " ++ Text.quoteList nodeIds ++
      " form a cycle and were left out of the execution plan"

end Warning
end MappingCanvas
