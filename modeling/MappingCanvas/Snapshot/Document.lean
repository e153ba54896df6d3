/-
# Snapshots as documents

Only the id, name, version and time of a snapshot, the ids and types of its entries, and the ends
and kinds of its connections must be there; everything else has a default.  The fields of a schema
stand in `schema.fields`, the parameters of a transform in `config.parameters`, and the steps in
`execution.steps`.
-/

import MappingCanvas.Canvas.Document
import MappingCanvas.Snapshot.Basic

namespace MappingCanvas
namespace Snapshot

/-- The name of a kind of connection. -/
def ConnectionKind.name : ConnectionKind → String
  | direct => "direct"
  | transform => "transform"
  | mapping => "mapping"

/-- The kind of connection of a name. -/
def ConnectionKind.ofName? (s : String) : Option ConnectionKind :=
  [ConnectionKind.direct, .transform, .mapping].find? fun k => k.name == s

/-! ### Reading -/

/-- Reads the list of fields of a schema. -/
def decodeFields : Decoder (List Field) :=
  (Form.defaulted "fields" [] (.list Field.decode)).decode

/-- Reads a source or target. -/
def SchemaEntry.decode : Decoder SchemaEntry :=
  ((Form.required "id" .text).and ((Form.defaulted "label" "" .text).and
    ((Form.defaulted "position" Position.origin Position.decode).and
      ((Form.defaulted "schema" [] decodeFields).and
        ((Form.member "sampleData" ["outputData"] (some []) (.list .value)).and
          (Form.defaulted "expandedFields" TextSet.empty .textSet)))))
    |>.map fun (id, label, position, fields, samples, expanded) =>
      (⟨id, label, position, fields, samples, expanded⟩ : SchemaEntry)).decode

/-- Reads the parameters of a transform. -/
def decodeParameters : Decoder Value := (Form.defaulted "parameters" Value.null .value).decode

/-- Reads a transform. -/
def TransformEntry.decode : Decoder TransformEntry :=
  ((Form.required "id" .text).and ((Form.required "type" .text).and
    ((Form.defaulted "label" "" .text).and
      ((Form.defaulted "position" Position.origin Position.decode).and
        (Form.defaulted "config" Value.null decodeParameters))))
    |>.map fun (id, typeName, label, position, parameters) =>
      (⟨id, typeName, label, position, parameters⟩ : TransformEntry)).decode

/-- Reads a lookup table. -/
def LookupEntry.decode : Decoder LookupEntry :=
  ((Form.required "id" .text).and ((Form.defaulted "label" "" .text).and
    ((Form.defaulted "position" Position.origin Position.decode).and
      ((Form.defaulted "table" Table.empty .table).and (Form.optional "sourceField" .text))))
    |>.map fun (id, label, position, table, sourceField) =>
      (⟨id, label, position, table, sourceField⟩ : LookupEntry)).decode

/-- Reads the nodes of a snapshot. -/
def Nodes.decode : Decoder Nodes :=
  ((Form.defaulted "sources" [] (.list SchemaEntry.decode)).and
    ((Form.defaulted "targets" [] (.list SchemaEntry.decode)).and
      ((Form.defaulted "transforms" [] (.list TransformEntry.decode)).and
        (Form.defaulted "mappings" [] (.list LookupEntry.decode))))
    |>.map fun (sources, targets, transforms, lookups) =>
      (⟨sources, targets, transforms, lookups⟩ : Nodes)).decode

/-- Reads a connection. -/
def Connection.decode : Decoder Connection :=
  ((Form.required "id" .text).and ((Form.required "sourceNodeId" .text).and
    ((Form.optional "sourceHandle" .text).and ((Form.required "targetNodeId" .text).and
      ((Form.optional "targetHandle" .text).and
        (Form.required "type" (.choice ConnectionKind.ofName?))))))
    |>.map fun (id, source, sourceHandle, target, targetHandle, kind) =>
      (⟨id, source, sourceHandle, target, targetHandle, kind⟩ : Connection)).decode

/-- Reads a step. -/
def Step.decode : Decoder Step :=
  ((Form.required "nodeId" .text).and ((Form.required "type" .text).and
    (Form.defaulted "inputs" [] (.list .text)))
    |>.map fun (nodeId, typeName, inputs) => (⟨nodeId, typeName, inputs⟩ : Step)).decode

/-- Reads the steps of a plan. -/
def decodeSteps : Decoder (List Step) := (Form.defaulted "steps" [] (.list Step.decode)).decode

/-- Reads the metadata. -/
def Metadata.decode : Decoder Metadata :=
  ((Form.optional "description" .text).and ((Form.defaulted "tags" [] (.list .text)).and
    ((Form.defaulted "sourceCount" 0 .nat).and ((Form.defaulted "targetCount" 0 .nat).and
      ((Form.defaulted "transformCount" 0 .nat).and ((Form.defaulted "mappingCount" 0 .nat).and
        (Form.defaulted "connectionCount" 0 .nat))))))
    |>.map fun (description, tags, sources, targets, transforms, lookups, connections) =>
      (⟨description, tags, sources, targets, transforms, lookups, connections⟩ : Metadata)).decode

/-- Reads a snapshot. -/
def decode : Decoder Snapshot :=
  ((Form.required "id" .text).and ((Form.required "name" .text).and
    ((Form.required "version" .text).and ((Form.required "createdAt" .instant).and
      ((Form.defaulted "nodes" Nodes.empty Nodes.decode).and
        ((Form.defaulted "connections" [] (.list Connection.decode)).and
          ((Form.defaulted "execution" [] decodeSteps).and
            (Form.defaulted "metadata" Metadata.empty Metadata.decode)))))))
    |>.map fun (id, name, version, createdAt, nodes, connections, steps, metadata) =>
      (⟨id, name, version, createdAt, nodes, connections, steps, metadata⟩ : Snapshot)).decode

/-! ### Writing -/

/-- A source or target as a document. -/
def SchemaEntry.toJson (e : SchemaEntry) : Json :=
  .object ([("id", .string e.id), ("label", .string e.label), ("position", e.position.toJson),
    ("schema", .object [("fields", .array (Field.forestToJson e.fields))])] ++
    Json.member? "sampleData"
      (if e.samples.isEmpty then none else some (.array (e.samples.map Value.json))) ++
    Json.member? "expandedFields"
      (if e.expanded.toList.isEmpty then none else some (.strings e.expanded.toList)))

/-- A transform as a document. -/
def TransformEntry.toJson (e : TransformEntry) : Json :=
  .object [("id", .string e.id), ("type", .string e.typeName), ("label", .string e.label),
    ("position", e.position.toJson), ("config", .object [("parameters", e.parameters.json)])]

/-- A lookup table as a document. -/
def LookupEntry.toJson (e : LookupEntry) : Json :=
  .object ([("id", .string e.id), ("label", .string e.label), ("position", e.position.toJson),
    ("table", Payload.tableToJson e.table)] ++
    Json.member? "sourceField" (e.sourceField.map .string))

/-- The nodes of a snapshot as a document. -/
def Nodes.toJson (n : Nodes) : Json :=
  .object [("sources", .array (n.sources.map SchemaEntry.toJson)),
    ("targets", .array (n.targets.map SchemaEntry.toJson)),
    ("transforms", .array (n.transforms.map TransformEntry.toJson)),
    ("mappings", .array (n.lookups.map LookupEntry.toJson))]

/-- A connection as a document. -/
def Connection.toJson (c : Connection) : Json :=
  .object ([("id", .string c.id), ("sourceNodeId", .string c.source)] ++
    Json.member? "sourceHandle" (c.sourceHandle.map .string) ++
    [("targetNodeId", .string c.target)] ++
    Json.member? "targetHandle" (c.targetHandle.map .string) ++
    [("type", .string c.kind.name)])

/-- A step as a document. -/
def Step.toJson (s : Step) : Json :=
  .object [("nodeId", .string s.nodeId), ("type", .string s.typeName),
    ("inputs", .strings s.inputs)]

/-- The metadata as a document. -/
def Metadata.toJson (m : Metadata) : Json :=
  .object (Json.member? "description" (m.description.map .string) ++
    [("tags", .strings m.tags), ("sourceCount", .nat m.sourceCount),
      ("targetCount", .nat m.targetCount), ("transformCount", .nat m.transformCount),
      ("mappingCount", .nat m.lookupCount), ("connectionCount", .nat m.connectionCount)])

/-- A snapshot as a document. -/
def toJson (s : Snapshot) : Json :=
  .object [("id", .string s.id), ("name", .string s.name), ("version", .string s.version),
    ("createdAt", .string s.createdAt.render), ("nodes", s.nodes.toJson),
    ("connections", .array (s.connections.map Connection.toJson)),
    ("execution", .object [("steps", .array (s.steps.map Step.toJson))]),
    ("metadata", s.metadata.toJson)]

end Snapshot
end MappingCanvas
