/-
# Snapshots

A snapshot is what is stored of a canvas so that it can be drawn again: its nodes in four
categories, its connections with their kinds, the order in which the steps run, and counts.
-/

import MappingCanvas.Canvas.Node

namespace MappingCanvas
namespace Snapshot

/-- A source or target. -/
structure SchemaEntry where
  id : String
  label : String
  position : Position
  fields : List Field
  samples : List Value
  expanded : TextSet
  deriving BEq

/-- A transform, with its parameters in one object. -/
structure TransformEntry where
  id : String
  typeName : String
  label : String
  position : Position
  parameters : Value
  deriving BEq

/-- A lookup table. -/
structure LookupEntry where
  id : String
  label : String
  position : Position
  table : Table
  sourceField : Option String
  deriving BEq

/-- The nodes of a snapshot, by category. -/
structure Nodes where
  sources : List SchemaEntry
  targets : List SchemaEntry
  transforms : List TransformEntry
  lookups : List LookupEntry
  deriving BEq

/-- What kind of node a connection comes from. -/
inductive ConnectionKind
  | direct | transform | mapping
  deriving DecidableEq

/-- A connection between two nodes. -/
structure Connection where
  id : String
  source : String
  sourceHandle : Option String
  target : String
  targetHandle : Option String
  kind : ConnectionKind
  deriving DecidableEq

/-- A step of the execution plan, with the nodes that feed it. -/
structure Step where
  nodeId : String
  typeName : String
  inputs : List String
  deriving DecidableEq

/-- A description and the counts of what the snapshot holds. -/
structure Metadata where
  description : Option String
  tags : List String
  sourceCount : Nat
  targetCount : Nat
  transformCount : Nat
  lookupCount : Nat
  connectionCount : Nat
  deriving DecidableEq

/-- No nodes. -/
def Nodes.empty : Nodes := ⟨[], [], [], []⟩

/-- The ids of all nodes, category by category. -/
def Nodes.ids (n : Nodes) : List String :=
  n.sources.map SchemaEntry.id ++ n.targets.map SchemaEntry.id ++
    n.transforms.map TransformEntry.id ++ n.lookups.map LookupEntry.id

/-- No description, and nothing counted. -/
def Metadata.empty : Metadata := ⟨none, [], 0, 0, 0, 0, 0⟩

end Snapshot

/-- A stored canvas. -/
structure Snapshot where
  id : String
  name : String
  version : String
  createdAt : Instant
  nodes : Snapshot.Nodes
  connections : List Snapshot.Connection
  steps : List Snapshot.Step
  metadata : Snapshot.Metadata
  deriving BEq

end MappingCanvas
