/-
# Nodes and edges

A node is a source or target schema, a lookup table, or a transform; a node of a type that is not
known keeps its data untouched.  An edge connects two nodes and may name a handle at either end;
an empty handle counts as none.

Positions are compared like floats, so a position that is no number equals nothing.
-/

import MappingCanvas.Canvas.Operation

namespace MappingCanvas

/-- A place on the canvas. -/
structure Position where
  x : Float
  y : Float
  deriving DecidableEq

namespace Position

instance : BEq Position := ⟨fun p q => p.x == q.x && p.y == q.y⟩

/-- The corner of the canvas. -/
def origin : Position := ⟨0, 0⟩

instance : Inhabited Position := ⟨origin⟩

end Position

/-- The known types of nodes, structural ones first. -/
inductive NodeType
  | source | target | lookup
  | passThrough | constants | conditional | text | split | concat | date | coalesce
  deriving DecidableEq

namespace NodeType

/-- All known types in their listed order. -/
def all : List NodeType :=
  [source, target, lookup, passThrough, constants, conditional, text, split, concat, date, coalesce]

/-- The name under which a type is written. -/
def name : NodeType → String
  | source => "source"
  | target => "target"
  | lookup => "conversionMapping"
  | passThrough => "directTransform"
  | constants => "staticValue"
  | conditional => "ifThen"
  | text => "transform"
  | split => "splitterTransform"
  | concat => "concatTransform"
  | date => "dateConversion"
  | coalesce => "coalesceTransform"

/-- The older name under which a type may be stored. -/
def alias? : NodeType → Option String
  | source | target | text => none
  | lookup => some "mapping"
  | passThrough => some "direct"
  | constants => some "static"
  | conditional => some "conditional"
  | split => some "split"
  | concat => some "concat"
  | date => some "date_conversion"
  | coalesce => some "coalesce"

/-- The type of a stored name. -/
def ofName? (s : String) : Option NodeType :=
  all.find? fun t => t.name == s || t.alias? == some s

/-- Sources, targets and lookup tables; every other type transforms values. -/
def isStructural : NodeType → Bool
  | source | target | lookup => true
  | _ => false

end NodeType

/-- What a source or target node shows. -/
structure Schema where
  label : String
  fields : List Field
  samples : List Value
  /-- The paths of the containers that are shown expanded. -/
  expanded : TextSet
  deriving BEq

/-- A schema without samples, all closed. -/
def Schema.ofFields (label : String) (fields : List Field) : Schema := ⟨label, fields, [], .empty⟩

/-- What a lookup node holds. -/
structure Lookup where
  label : String
  table : Table
  sourceField : Option String
  deriving BEq

namespace Node

/-- What a node is and holds. -/
inductive Body
  | source (schema : Schema)
  | target (schema : Schema)
  | lookup (lookup : Lookup)
  | transform (label : String) (operation : Operation)
  | unknown (typeName : String) (data : Value)
  deriving BEq

namespace Body

/-- The type of a node, if it is known. -/
def nodeType? : Body → Option NodeType
  | source _ => some .source
  | target _ => some .target
  | lookup _ => some .lookup
  | transform _ operation => some <| match operation with
    | .passThrough => .passThrough
    | .constants _ => .constants
    | .conditional _ => .conditional
    | .text _ => .text
    | .split _ => .split
    | .concat _ => .concat
    | .date _ => .date
    | .coalesce _ => .coalesce
  | unknown _ _ => none

/-- The name of the type of a node. -/
def typeName (b : Body) : String :=
  match b with
  | unknown name _ => name
  | _ => (b.nodeType?.map NodeType.name).getD ""

/-- The label of a node; that of an unknown node is looked for in its data. -/
def label : Body → String
  | source s | target s => s.label
  | lookup l => l.label
  | transform label _ => label
  | unknown _ data => ((data.json.get? "label").bind Json.string?).getD ""

/-- Whether a node transforms values, as every node does that is not structural. -/
def isTransform (b : Body) : Bool :=
  match b.nodeType? with
  | some t => !t.isStructural
  | none => true

/-- Whether a node has a place in the execution plan. -/
def isStep (b : Body) : Bool :=
  b.isTransform || match b with
    | lookup _ => true
    | _ => false

/-- The schema of a source or target. -/
def schema? : Body → Option Schema
  | source s | target s => some s
  | _ => none

/-- The schema of a target. -/
def targetSchema? : Body → Option Schema
  | target s => some s
  | _ => none

end Body
end Node

/-- A node of the canvas. -/
structure Node where
  id : String
  position : Position
  body : Node.Body
  deriving BEq

/-- A connection between two nodes. -/
structure Edge where
  id : String
  source : String
  sourceHandle : Option String
  target : String
  targetHandle : Option String
  deriving DecidableEq

namespace Edge

/-- A handle that is not empty. -/
def named? (handle : Option String) : Option String := handle.filter (!·.isEmpty)

/-- The handle at which an edge leaves its source. -/
def sourceHandle? (e : Edge) : Option String := named? e.sourceHandle

/-- The handle at which an edge arrives at its target. -/
def targetHandle? (e : Edge) : Option String := named? e.targetHandle

end Edge
end MappingCanvas
