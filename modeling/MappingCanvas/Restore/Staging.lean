/-
# Restoring a canvas from a snapshot

A canvas on a screen shows a node only some time after it was given one, and loses an edge whose
handle is not shown yet.  So a snapshot is restored in two phases: first the nodes, with the
fields expanded that the connections need, while the edges are held back; then, when the nodes are
there, the edges.

Restoring fails as a whole, before the canvas is touched, when the parameters of a transform
cannot be read or an id occurs twice.
-/

import MappingCanvas.Canvas.Basic
import MappingCanvas.Canvas.Payload
import MappingCanvas.Schema.Grouping
import MappingCanvas.Snapshot.Basic

namespace MappingCanvas

/-- Why a snapshot could not be restored. -/
inductive RestoreError
  | payload (cause : PayloadError)
  | duplicateNode (id : String)

/-- The wording of a restore error. -/
def RestoreError.message : RestoreError → String
  | payload cause => cause.message
  | duplicateNode id => "Node id '" ++ id ++ "' appears more than once in the configuration"

namespace Restore

/-- The nodes of a snapshot, and the edges that are held back. -/
structure Staged where
  nodes : List Node
  edges : List Edge

/-- What is done to a canvas. -/
inductive Command
  | clearEdges
  | setNodes (nodes : List Node)
  | setEdges (edges : List Edge)

/-! ### Nodes -/

/-- The schema of an entry with the given fields. -/
def schema (e : Snapshot.SchemaEntry) (fields : List Field) : Schema :=
  ⟨e.label, fields, e.samples, e.expanded⟩

/-- A source. -/
def sourceNode (e : Snapshot.SchemaEntry) : Node := ⟨e.id, e.position, .source (schema e e.fields)⟩

/-- A target, with the groupings of its arrays put back. -/
def targetNode (groupings : List Grouping) (e : Snapshot.SchemaEntry) : Node :=
  ⟨e.id, e.position, .target (schema e (Grouping.restore groupings e.fields))⟩

/-- A transform.  The parameters of a known type are read like the data of a node, those of an
unknown type are its data. -/
def transformNode (e : Snapshot.TransformEntry) : Except PayloadError Node := do
  let body ← match NodeType.ofName? e.typeName with
    | some _ => Payload.nodeBody e.id e.typeName (Payload.configured e.label e.parameters)
    | none => pure (.unknown e.typeName e.parameters)
  return ⟨e.id, e.position, body⟩

/-- A lookup. -/
def lookupNode (e : Snapshot.LookupEntry) : Node :=
  ⟨e.id, e.position, .lookup ⟨e.label, e.table, e.sourceField⟩⟩

/-- All nodes of a snapshot, category by category. -/
def nodes (groupings : List Grouping) (s : Snapshot.Nodes) : Except PayloadError (List Node) := do
  let transforms ← s.transforms.mapM transformNode
  return s.sources.map sourceNode ++ s.targets.map (targetNode groupings) ++ transforms ++
    s.lookups.map lookupNode

/-- The first id that has occurred before. -/
def duplicate? (seen : List String) : List String → Option String
  | [] => none
  | id :: ids => if seen.contains id then some id else duplicate? (id :: seen) ids

/-! ### Edges and expansion -/

/-- The edge of a connection. -/
def edge (c : Snapshot.Connection) : Edge :=
  ⟨c.id, c.source, c.sourceHandle, c.target, c.targetHandle⟩

/-- The paths that the edges leaving a node need expanded. -/
def neededPaths (edges : List Edge) (id : String) : List String :=
  (edges.filter fun e => e.source == id).flatMap fun e =>
    match e.sourceHandle? with
    | some handle => Path.ancestors handle
    | none => []

/-- A node with the paths expanded that the edges need; only sources expand. -/
def expand (edges : List Edge) (n : Node) : Node :=
  match n.body with
  | .source s =>
    { n with body := .source { s with expanded := s.expanded.addAll (neededPaths edges n.id) } }
  | _ => n

/-! ### The two phases -/

/-- The first phase. -/
def stage (groupings : List Grouping) (s : Snapshot) : Except RestoreError Staged := do
  let ns ← (nodes groupings s.nodes).mapError .payload
  match duplicate? [] (ns.map Node.id) with
  | some id => throw (.duplicateNode id)
  | none =>
    let edges := s.connections.map edge
    return ⟨ns.map (expand edges), edges⟩

/-- The paths that are expanded in a source among the staged nodes. -/
def Staged.expanded? (s : Staged) (id : String) : Option TextSet :=
  (s.nodes.find? fun n => n.id == id).bind fun n =>
    match n.body with
    | .source s => some s.expanded
    | _ => none

/-- Both phases, as they are done to a canvas. -/
def Staged.commands (s : Staged) : List Command :=
  [.clearEdges, .setNodes s.nodes, .setEdges s.edges]

/-- Restores a snapshot into a canvas of any kind, which takes one command after the other; when
that fails it is given none. -/
def drive {κ : Type} (take : κ → Command → κ) (groupings : List Grouping) (s : Snapshot) (k : κ) :
    Except RestoreError Unit × κ :=
  match stage groupings s with
  | .ok staged => (.ok (), staged.commands.foldl take k)
  | .error cause => (.error cause, k)

/-- Does one thing to a canvas. -/
def Command.apply (c : Canvas) : Command → Canvas
  | clearEdges => c.clearEdges
  | setNodes nodes => c.setNodes nodes
  | setEdges edges => c.setEdges edges

/-- The second phase without a screen: the canvas of the staged nodes and edges. -/
def Staged.commit (s : Staged) : Canvas := .ofLists s.nodes s.edges

/-- Restores a snapshot into a canvas; when that fails the canvas stays as it is. -/
def into (groupings : List Grouping) (s : Snapshot) (c : Canvas) : Except RestoreError Canvas :=
  (stage groupings s).map fun staged => staged.commands.foldl Command.apply c

/-- The canvas of a snapshot. -/
def restore (groupings : List Grouping) (s : Snapshot) : Except RestoreError Canvas :=
  into groupings s .empty

end Restore
end MappingCanvas
