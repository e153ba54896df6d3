/-
# Canvases as documents

A canvas document has `nodes` and `edges`, either of which may be missing.  A node is written with
its id, type, position and data; its data is read through all its older layouts.
-/

import MappingCanvas.Canvas.Basic
import MappingCanvas.Canvas.Payload

namespace MappingCanvas

namespace Position

/-- A position as a document. -/
def toJson (p : Position) : Json := .object [("x", .float p.x), ("y", .float p.y)]

/-- Reads a position. -/
def decode : Decoder Position :=
  ((Form.required "x" .float).and (Form.required "y" .float)
    |>.map fun (x, y) => (⟨x, y⟩ : Position)).decode

end Position

namespace Node

/-- A node before its data has been understood. -/
structure Stored where
  id : String
  typeName : String
  position : Position
  data : Value

/-- The members of a node. -/
def Stored.form : Form Stored :=
  (Form.required "id" .text).and ((Form.required "type" .text).and
    ((Form.defaulted "position" Position.origin Position.decode).and
      (Form.defaulted "data" Value.null .value)))
  |>.map fun (id, typeName, position, data) => ⟨id, typeName, position, data⟩

/-- Reads a node. -/
def decode : Decoder Node := fun mode j => do
  let stored ← Stored.form.decode mode j
  match Payload.nodeBody stored.id stored.typeName stored.data with
  | .ok body => return ⟨stored.id, stored.position, body⟩
  | .error e => throw (.refused e.message)

/-- A node as a document. -/
def toJson (n : Node) : Json :=
  .object [("id", .string n.id), ("type", .string n.body.typeName),
    ("position", n.position.toJson), ("data", (Payload.nodeData n.body).json)]

end Node

namespace Edge

/-- Reads an edge. -/
def decode : Decoder Edge :=
  ((Form.required "id" .text).and ((Form.required "source" .text).and
    ((Form.optional "sourceHandle" .text).and ((Form.required "target" .text).and
      (Form.optional "targetHandle" .text))))
    |>.map fun (id, source, sourceHandle, target, targetHandle) =>
      (⟨id, source, sourceHandle, target, targetHandle⟩ : Edge)).decode

/-- An edge as a document. -/
def toJson (e : Edge) : Json :=
  .object ([("id", .string e.id), ("source", .string e.source)] ++
    Json.member? "sourceHandle" (e.sourceHandle.map .string) ++ [("target", .string e.target)] ++
    Json.member? "targetHandle" (e.targetHandle.map .string))

end Edge

namespace Canvas

/-- Reads a canvas. -/
def decode : Decoder Canvas :=
  ((Form.defaulted "nodes" [] (.list Node.decode)).and
    (Form.defaulted "edges" [] (.list Edge.decode))
    |>.map fun (nodes, edges) => ofLists nodes edges).decode

/-- A canvas as a document. -/
def toJson (c : Canvas) : Json :=
  .object [("nodes", .array (c.nodes.toList.map Node.toJson)),
    ("edges", .array (c.edges.toList.map Edge.toJson))]

end Canvas
end MappingCanvas
