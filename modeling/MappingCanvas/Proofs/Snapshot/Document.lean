/-
# Snapshots are read again

A snapshot is read from the document that is written for it: field trees of any depth, any samples
and parameters, any connections, steps and metadata (`Snapshot.snapshot_roundTrip`).  Two things are
asked for.  Positions are pairs of real numbers, since others are written as `null`; and the time is
one that is read from its own rendering.

What is not written when it is empty is read as empty when it is missing.  Children of a field and
ends of a connection are not such: a field with no children and a field without children differ, and
only the second leaves its member out.
-/

import MappingCanvas.Proofs.Canvas.Current
import MappingCanvas.Proofs.Json.Reads
import MappingCanvas.Snapshot.Document

namespace MappingCanvas

namespace Snapshot

/-! ### Sources and targets -/

/-- A list of fields is written without a repeated name. -/
theorem isTidy_fields (fs : List Field) :
    (Json.object [("fields", .array (Field.forestToJson fs))]).IsTidy := by
  simpa using Field.isTidy_forestToJson fs

/-- A list of fields is read again. -/
theorem reads_fields (fs : List Field) :
    decodeFields.Reads (.object [("fields", .array (Field.forestToJson fs))]) fs := by
  rw [Field.forestToJson_eq_map]
  have hfields : (Form.defaulted "fields" [] (.list Field.decode)).Reads
      [("fields", .array (fs.map Field.toJson))] fs :=
    Form.reads_defaulted rfl (Decoder.reads_list fun f _ => f.reads_toJson)
  exact hfields.decode (by simp)

namespace SchemaEntry

variable {e : SchemaEntry}

/-- The members of a source or target. -/
def members (e : SchemaEntry) : List (String × Json) :=
  [("id", .string e.id), ("label", .string e.label), ("position", e.position.toJson),
    ("schema", .object [("fields", .array (Field.forestToJson e.fields))])] ++
    Json.member? "sampleData"
      (if e.samples.isEmpty then none else some (.array (e.samples.map Value.json))) ++
    Json.member? "expandedFields"
      (if e.expanded.toList.isEmpty then none else some (.strings e.expanded.toList))

/-- A source or target is written without a repeated name. -/
theorem isTidy_toJson (h : e.position.IsFinite) : e.toJson.IsTidy := by
  have hposition := Position.isTidy_toJson h
  have hfields := isTidy_fields e.fields
  have hsamples : (Json.array (e.samples.map Value.json)).IsTidy :=
    Json.isTidy_array.2 (List.forall_mem_map.2 fun v _ =>
      Json.isTidy_of_isCanonical _ v.canonical)
  unfold toJson
  split <;> split <;> simp_all [Json.member?]

/-- The optional members of a source or target: empty samples and an empty set of expanded paths are
left out. -/
theorem get?_members (e : SchemaEntry) :
    (Json.object e.members).get? "sampleData" =
        (if e.samples.isEmpty then none else some (.array (e.samples.map Value.json))) ∧
      (Json.object e.members).get? "outputData" = none ∧
      (Json.object e.members).get? "expandedFields" =
        (if e.expanded.toList.isEmpty then none else some (.strings e.expanded.toList)) := by
  unfold members
  split <;> split <;> exact ⟨rfl, rfl, rfl⟩

/-- **A source or target is read again.** -/
theorem reads_toJson (h : e.position.IsFinite) : decode.Reads e.toJson e := by
  obtain ⟨hgetSamples, hgetOther, hgetExpanded⟩ := e.get?_members
  have hid : (Form.required "id" .text).Reads e.members e.id :=
    Form.reads_required rfl (Decoder.reads_text e.id)
  have hlabel : (Form.defaulted "label" "" .text).Reads e.members e.label :=
    Form.reads_defaulted rfl (Decoder.reads_text e.label)
  have hposition : (Form.defaulted "position" Position.origin Position.decode).Reads e.members
      e.position := Form.reads_defaulted rfl (Position.reads_toJson h)
  have hfields : (Form.defaulted "schema" [] decodeFields).Reads e.members e.fields :=
    Form.reads_defaulted rfl (reads_fields e.fields)
  have hsamples : (Form.member "sampleData" ["outputData"] (some []) (.list .value)).Reads e.members
      e.samples := Form.reads_omitted (List.forall_mem_singleton.2 hgetOther) hgetSamples
    (fun hempty => (List.isEmpty_iff.1 hempty).symm)
    (Decoder.reads_list fun v _ => Decoder.reads_value v)
  have hexpanded : (Form.defaulted "expandedFields" TextSet.empty .textSet).Reads e.members
      e.expanded := by
    refine Form.reads_omitted (by simp) hgetExpanded (fun hempty => ?_)
      (Decoder.reads_textSet e.expanded)
    rw [← e.expanded.ofList_toList, List.isEmpty_iff.1 hempty]
    rfl
  have hall := hid.and (hlabel.and (hposition.and (hfields.and (hsamples.and hexpanded
    (by simp)) (by simp)) (by simp)) (by simp)) (by simp)
  exact (hall.map rfl).decode (Json.isTidy_object.1 (isTidy_toJson h)).1

end SchemaEntry

/-! ### Transforms -/

namespace TransformEntry

variable {e : TransformEntry}

/-- The members of a transform. -/
def members (e : TransformEntry) : List (String × Json) :=
  [("id", .string e.id), ("type", .string e.typeName), ("label", .string e.label),
    ("position", e.position.toJson), ("config", .object [("parameters", e.parameters.json)])]

/-- A transform is written without a repeated name. -/
theorem isTidy_toJson (h : e.position.IsFinite) : e.toJson.IsTidy := by
  simp [toJson, Position.isTidy_toJson h, Json.isTidy_of_isCanonical _ e.parameters.canonical]

/-- Parameters are read as they are, whatever value they have. -/
theorem reads_parameters (v : Value) :
    decodeParameters.Reads (.object [("parameters", v.json)]) v := by
  have hparameters : (Form.defaulted "parameters" Value.null .value).Reads
      [("parameters", v.json)] v := Form.reads_defaulted rfl (Decoder.reads_value v)
  exact hparameters.decode (by simp)

/-- **A transform is read again.** -/
theorem reads_toJson (h : e.position.IsFinite) : decode.Reads e.toJson e := by
  have hid : (Form.required "id" .text).Reads e.members e.id :=
    Form.reads_required rfl (Decoder.reads_text e.id)
  have htype : (Form.required "type" .text).Reads e.members e.typeName :=
    Form.reads_required rfl (Decoder.reads_text e.typeName)
  have hlabel : (Form.defaulted "label" "" .text).Reads e.members e.label :=
    Form.reads_defaulted rfl (Decoder.reads_text e.label)
  have hposition : (Form.defaulted "position" Position.origin Position.decode).Reads e.members
      e.position := Form.reads_defaulted rfl (Position.reads_toJson h)
  have hparameters : (Form.defaulted "config" Value.null decodeParameters).Reads e.members
      e.parameters := Form.reads_defaulted rfl (reads_parameters e.parameters)
  have hall := hid.and (htype.and (hlabel.and (hposition.and hparameters (by simp)) (by simp))
    (by simp)) (by simp)
  exact (hall.map rfl).decode (Json.isTidy_object.1 (isTidy_toJson h)).1

end TransformEntry

/-! ### Lookup tables -/

namespace LookupEntry

variable {e : LookupEntry}

/-- The members of a lookup table. -/
def members (e : LookupEntry) : List (String × Json) :=
  [("id", .string e.id), ("label", .string e.label), ("position", e.position.toJson),
    ("table", Payload.tableToJson e.table)] ++
    Json.member? "sourceField" (e.sourceField.map .string)

/-- A lookup is written without a repeated name. -/
theorem isTidy_toJson (h : e.position.IsFinite) : e.toJson.IsTidy := by
  have htable : (Payload.tableToJson e.table).IsTidy :=
    Json.isTidy_of_isCanonical _ (Payload.isCanonical_tableToJson e.table)
  have hposition := Position.isTidy_toJson h
  obtain ⟨id, label, position, table, sourceField⟩ := e
  cases sourceField <;> simp_all [toJson, Json.member?]

/-- The source field of a lookup is written if it has one. -/
theorem get?_members (e : LookupEntry) :
    (Json.object e.members).get? "sourceField" = e.sourceField.map .string := by
  unfold members
  cases e.sourceField <;> rfl

/-- **A lookup table is read again.** -/
theorem reads_toJson (h : e.position.IsFinite) : decode.Reads e.toJson e := by
  have hid : (Form.required "id" .text).Reads e.members e.id :=
    Form.reads_required rfl (Decoder.reads_text e.id)
  have hlabel : (Form.defaulted "label" "" .text).Reads e.members e.label :=
    Form.reads_defaulted rfl (Decoder.reads_text e.label)
  have hposition : (Form.defaulted "position" Position.origin Position.decode).Reads e.members
      e.position := Form.reads_defaulted rfl (Position.reads_toJson h)
  have htable : (Form.defaulted "table" Table.empty .table).Reads e.members e.table :=
    Form.reads_defaulted rfl (Decoder.reads_table e.table)
  have hsourceField : (Form.optional "sourceField" .text).Reads e.members e.sourceField :=
    Form.reads_optional e.get?_members (fun _ => rfl) fun s _ => Decoder.reads_text s
  have hall := hid.and (hlabel.and (hposition.and (htable.and hsourceField (by simp)) (by simp))
    (by simp)) (by simp)
  exact (hall.map rfl).decode (Json.isTidy_object.1 (isTidy_toJson h)).1

end LookupEntry

/-! ### Nodes -/

namespace Nodes

variable {n : Nodes}

/-- All nodes stand at pairs of real numbers. -/
structure Placed (n : Nodes) : Prop where
  sources : ∀ e ∈ n.sources, e.position.IsFinite
  targets : ∀ e ∈ n.targets, e.position.IsFinite
  transforms : ∀ e ∈ n.transforms, e.position.IsFinite
  lookups : ∀ e ∈ n.lookups, e.position.IsFinite

/-- The members of the nodes. -/
def members (n : Nodes) : List (String × Json) :=
  [("sources", .array (n.sources.map SchemaEntry.toJson)),
    ("targets", .array (n.targets.map SchemaEntry.toJson)),
    ("transforms", .array (n.transforms.map TransformEntry.toJson)),
    ("mappings", .array (n.lookups.map LookupEntry.toJson))]

/-- Nodes are written without a repeated name, if their positions are finite. -/
theorem isTidy_toJson (h : n.Placed) : n.toJson.IsTidy := by
  have hsources : ∀ e ∈ n.sources, e.toJson.IsTidy := fun e he =>
    SchemaEntry.isTidy_toJson (h.sources e he)
  have htargets : ∀ e ∈ n.targets, e.toJson.IsTidy := fun e he =>
    SchemaEntry.isTidy_toJson (h.targets e he)
  have htransforms : ∀ e ∈ n.transforms, e.toJson.IsTidy := fun e he =>
    TransformEntry.isTidy_toJson (h.transforms e he)
  have hlookups : ∀ e ∈ n.lookups, e.toJson.IsTidy := fun e he =>
    LookupEntry.isTidy_toJson (h.lookups e he)
  simpa [toJson] using ⟨hsources, htargets, htransforms, hlookups⟩

/-- **The nodes are read again.** -/
theorem reads_toJson (h : n.Placed) : decode.Reads n.toJson n := by
  have hsources : (Form.defaulted "sources" [] (.list SchemaEntry.decode)).Reads n.members
      n.sources := Form.reads_defaulted rfl
    (Decoder.reads_list fun e he => SchemaEntry.reads_toJson (h.sources e he))
  have htargets : (Form.defaulted "targets" [] (.list SchemaEntry.decode)).Reads n.members
      n.targets := Form.reads_defaulted rfl
    (Decoder.reads_list fun e he => SchemaEntry.reads_toJson (h.targets e he))
  have htransforms : (Form.defaulted "transforms" [] (.list TransformEntry.decode)).Reads n.members
      n.transforms := Form.reads_defaulted rfl
    (Decoder.reads_list fun e he => TransformEntry.reads_toJson (h.transforms e he))
  have hlookups : (Form.defaulted "mappings" [] (.list LookupEntry.decode)).Reads n.members
      n.lookups := Form.reads_defaulted rfl
    (Decoder.reads_list fun e he => LookupEntry.reads_toJson (h.lookups e he))
  have hall := hsources.and (htargets.and (htransforms.and hlookups (by simp)) (by simp)) (by simp)
  exact (hall.map rfl).decode (Json.isTidy_object.1 (isTidy_toJson h)).1

end Nodes

/-! ### Connections -/

/-- A kind of connections is recovered from its name. -/
theorem ConnectionKind.ofName?_name (k : ConnectionKind) : ofName? k.name = some k := by
  cases k <;> rfl

namespace Connection

/-- The members of a connection. -/
def members (c : Connection) : List (String × Json) :=
  [("id", .string c.id), ("sourceNodeId", .string c.source)] ++
    Json.member? "sourceHandle" (c.sourceHandle.map .string) ++
    [("targetNodeId", .string c.target)] ++
    Json.member? "targetHandle" (c.targetHandle.map .string) ++
    [("type", .string c.kind.name)]

/-- A connection is written without a repeated name. -/
theorem isTidy_toJson (c : Connection) : c.toJson.IsTidy := by
  obtain ⟨id, source, sourceHandle, target, targetHandle, kind⟩ := c
  cases sourceHandle <;> cases targetHandle <;> simp [toJson, Json.member?]

/-- The members of a connection: handles are left out when it has none. -/
theorem get?_members (c : Connection) :
    (Json.object c.members).get? "sourceHandle" = c.sourceHandle.map .string ∧
      (Json.object c.members).get? "targetNodeId" = some (.string c.target) ∧
      (Json.object c.members).get? "targetHandle" = c.targetHandle.map .string ∧
      (Json.object c.members).get? "type" = some (.string c.kind.name) := by
  obtain ⟨id, source, sourceHandle, target, targetHandle, kind⟩ := c
  cases sourceHandle <;> cases targetHandle <;> exact ⟨rfl, rfl, rfl, rfl⟩

/-- **A connection is read again.** -/
theorem reads_toJson (c : Connection) : decode.Reads c.toJson c := by
  obtain ⟨hgetSource, hgetTarget, hgetTargetHandle, hgetType⟩ := c.get?_members
  have hid : (Form.required "id" .text).Reads c.members c.id :=
    Form.reads_required rfl (Decoder.reads_text c.id)
  have hsource : (Form.required "sourceNodeId" .text).Reads c.members c.source :=
    Form.reads_required rfl (Decoder.reads_text c.source)
  have hsourceHandle : (Form.optional "sourceHandle" .text).Reads c.members c.sourceHandle :=
    Form.reads_optional hgetSource (fun _ => rfl) fun s _ => Decoder.reads_text s
  have htarget : (Form.required "targetNodeId" .text).Reads c.members c.target :=
    Form.reads_required hgetTarget (Decoder.reads_text c.target)
  have htargetHandle : (Form.optional "targetHandle" .text).Reads c.members c.targetHandle :=
    Form.reads_optional hgetTargetHandle (fun _ => rfl) fun s _ => Decoder.reads_text s
  have htype : (Form.required "type" (.choice ConnectionKind.ofName?)).Reads c.members c.kind :=
    Form.reads_required hgetType (Decoder.reads_choice c.kind.ofName?_name)
  have hall := hid.and (hsource.and (hsourceHandle.and (htarget.and (htargetHandle.and htype
    (by simp)) (by simp)) (by simp)) (by simp)) (by simp)
  exact (hall.map rfl).decode (Json.isTidy_object.1 c.isTidy_toJson).1

end Connection

/-! ### Steps -/

namespace Step

/-- The members of a step. -/
def members (s : Step) : List (String × Json) :=
  [("nodeId", .string s.nodeId), ("type", .string s.typeName), ("inputs", .strings s.inputs)]

/-- A step is written without a repeated name. -/
theorem isTidy_toJson (s : Step) : s.toJson.IsTidy := by
  simp [toJson]

/-- **A step is read again.** -/
theorem reads_toJson (s : Step) : decode.Reads s.toJson s := by
  have hnode : (Form.required "nodeId" .text).Reads s.members s.nodeId :=
    Form.reads_required rfl (Decoder.reads_text s.nodeId)
  have htype : (Form.required "type" .text).Reads s.members s.typeName :=
    Form.reads_required rfl (Decoder.reads_text s.typeName)
  have hinputs : (Form.defaulted "inputs" [] (.list .text)).Reads s.members s.inputs :=
    Form.reads_defaulted rfl (Decoder.reads_list fun t _ => Decoder.reads_text t)
  exact ((hnode.and (htype.and hinputs (by simp)) (by simp)).map rfl).decode
    (Json.isTidy_object.1 s.isTidy_toJson).1

end Step

/-- The steps of a plan are read again. -/
theorem reads_steps (steps : List Step) :
    decodeSteps.Reads (.object [("steps", .array (steps.map Step.toJson))]) steps := by
  have hsteps : (Form.defaulted "steps" [] (.list Step.decode)).Reads
      [("steps", .array (steps.map Step.toJson))] steps :=
    Form.reads_defaulted rfl (Decoder.reads_list fun s _ => s.reads_toJson)
  exact hsteps.decode (by simp)

/-! ### Metadata -/

namespace Metadata

/-- The members of the metadata. -/
def members (m : Metadata) : List (String × Json) :=
  Json.member? "description" (m.description.map .string) ++
    [("tags", .strings m.tags), ("sourceCount", .nat m.sourceCount),
      ("targetCount", .nat m.targetCount), ("transformCount", .nat m.transformCount),
      ("mappingCount", .nat m.lookupCount), ("connectionCount", .nat m.connectionCount)]

/-- Metadata is written without a repeated name. -/
theorem isTidy_toJson (m : Metadata) : m.toJson.IsTidy := by
  obtain ⟨description, tags, sources, targets, transforms, lookups, connections⟩ := m
  cases description <;> simp [toJson, Json.member?]

/-- The members of the metadata: a description if it has one, and always the tags and the counts. -/
theorem get?_members (m : Metadata) :
    (Json.object m.members).get? "description" = m.description.map .string ∧
      (Json.object m.members).get? "tags" = some (.strings m.tags) ∧
      (Json.object m.members).get? "sourceCount" = some (.nat m.sourceCount) ∧
      (Json.object m.members).get? "targetCount" = some (.nat m.targetCount) ∧
      (Json.object m.members).get? "transformCount" = some (.nat m.transformCount) ∧
      (Json.object m.members).get? "mappingCount" = some (.nat m.lookupCount) ∧
      (Json.object m.members).get? "connectionCount" = some (.nat m.connectionCount) := by
  obtain ⟨description, tags, sources, targets, transforms, lookups, connections⟩ := m
  cases description <;> exact ⟨rfl, rfl, rfl, rfl, rfl, rfl, rfl⟩

/-- **The metadata are read again.** -/
theorem reads_toJson (m : Metadata) : decode.Reads m.toJson m := by
  obtain ⟨hgetDescription, hgetTags, hgetSources, hgetTargets, hgetTransforms, hgetLookups,
    hgetConnections⟩ := m.get?_members
  have hcount : ∀ {name : String} {n : Nat},
      (Json.object m.members).get? name = some (.nat n) →
        (Form.defaulted name 0 .nat).Reads m.members n := fun hget =>
    Form.reads_defaulted hget (Decoder.reads_nat _)
  have hdescription : (Form.optional "description" .text).Reads m.members m.description :=
    Form.reads_optional hgetDescription (fun _ => rfl) fun s _ => Decoder.reads_text s
  have htags : (Form.defaulted "tags" [] (.list .text)).Reads m.members m.tags :=
    Form.reads_defaulted hgetTags (Decoder.reads_list fun t _ => Decoder.reads_text t)
  have hall := hdescription.and (htags.and ((hcount hgetSources).and ((hcount hgetTargets).and
    ((hcount hgetTransforms).and ((hcount hgetLookups).and (hcount hgetConnections)
      (by simp)) (by simp)) (by simp)) (by simp)) (by simp)) (by simp)
  exact (hall.map rfl).decode (Json.isTidy_object.1 m.isTidy_toJson).1

end Metadata

/-! ### Whole snapshots -/

variable {s : Snapshot}

/-- The members of a snapshot. -/
def members (s : Snapshot) : List (String × Json) :=
  [("id", .string s.id), ("name", .string s.name), ("version", .string s.version),
    ("createdAt", .string s.createdAt.render), ("nodes", s.nodes.toJson),
    ("connections", .array (s.connections.map Connection.toJson)),
    ("execution", .object [("steps", .array (s.steps.map Step.toJson))]),
    ("metadata", s.metadata.toJson)]

/-- A snapshot is written without a repeated name, if the positions of its nodes are finite. -/
theorem isTidy_toJson (h : s.nodes.Placed) : s.toJson.IsTidy := by
  simp [toJson, Nodes.isTidy_toJson h, Connection.isTidy_toJson, Step.isTidy_toJson,
    Metadata.isTidy_toJson]

/-- **A snapshot is read again.** -/
theorem reads_toJson (h : s.nodes.Placed)
    (htime : Instant.read s.createdAt.render = .ok s.createdAt) : decode.Reads s.toJson s := by
  have hid : (Form.required "id" .text).Reads s.members s.id :=
    Form.reads_required rfl (Decoder.reads_text s.id)
  have hname : (Form.required "name" .text).Reads s.members s.name :=
    Form.reads_required rfl (Decoder.reads_text s.name)
  have hversion : (Form.required "version" .text).Reads s.members s.version :=
    Form.reads_required rfl (Decoder.reads_text s.version)
  have hcreated : (Form.required "createdAt" .instant).Reads s.members s.createdAt :=
    Form.reads_required rfl (Decoder.reads_instant htime)
  have hnodes : (Form.defaulted "nodes" Nodes.empty Nodes.decode).Reads s.members s.nodes :=
    Form.reads_defaulted rfl (Nodes.reads_toJson h)
  have hconnections : (Form.defaulted "connections" [] (.list Connection.decode)).Reads s.members
      s.connections := Form.reads_defaulted rfl (Decoder.reads_list fun c _ => c.reads_toJson)
  have hsteps : (Form.defaulted "execution" [] decodeSteps).Reads s.members s.steps :=
    Form.reads_defaulted rfl (reads_steps s.steps)
  have hmetadata : (Form.defaulted "metadata" Metadata.empty Metadata.decode).Reads s.members
      s.metadata := Form.reads_defaulted rfl s.metadata.reads_toJson
  have hbody := hnodes.and (hconnections.and (hsteps.and hmetadata (by simp)) (by simp)) (by simp)
  have hall := hid.and (hname.and (hversion.and (hcreated.and hbody (by simp)) (by simp)) (by simp))
    (by simp)
  exact (hall.map rfl).decode (Json.isTidy_object.1 (isTidy_toJson h)).1

/-- **The document of a snapshot.**  A snapshot with all nodes at real positions and a time that is
read from its rendering is read from the document that is written for it, however the document
reaches the reader; from the stored value of the document; and from every document that says the
same in another order.  The round trip is one between values and trees.  That a tree is read from
its text is no part of it: there floats may be rounded, and trees of more than 127 levels are
refused. -/
theorem snapshot_roundTrip (s : Snapshot) (h : s.nodes.Placed)
    (htime : Instant.read s.createdAt.render = .ok s.createdAt) :
    (∀ mode, decode mode s.toJson = .ok s) ∧ decode.ofValue (.ofJson s.toJson) = .ok s ∧
      ∀ mode doc, doc.Says s.toJson → decode mode doc = .ok s :=
  have hreads := reads_toJson h htime
  ⟨hreads.eq_ok (isTidy_toJson h), hreads.ofValue, hreads⟩

/-- A snapshot of orders: of the fields, one has an empty list of children and the others have
none. -/
def orders : Snapshot :=
  ⟨"orders", "Orders", "1.0", ⟨1709209845, 500000000⟩,
    ⟨[⟨"shop", "Shop", .origin,
        [⟨"lines", "lines", .array, some [⟨"sku", "sku", .string, none, none⟩,
          ⟨"options", "options", .object, some [], none⟩], some "sku"⟩,
          ⟨"at", "at", .date, none, none⟩],
        [.ofJson (.object [("lines", .array [.null, .object []])])], .ofList ["lines"]⟩],
      [], [], [⟨"codes", "", .origin, .ofList [("a", "b")], some "sku"⟩]⟩,
    [⟨"e", "shop", some "sku", "codes", none, .direct⟩], [⟨"codes", "mapping", ["shop"]⟩],
    ⟨none, ["test"], 1, 0, 0, 1, 1⟩⟩

/-- The document of these orders, with its own members, those of the metadata and those of a field
in another order. -/
def ordersDocument : Json :=
  .object [("metadata", .object [("connectionCount", .nat 1), ("mappingCount", .nat 1),
      ("transformCount", .nat 0), ("targetCount", .nat 0), ("sourceCount", .nat 1),
      ("tags", .array [.string "test"])]),
    ("execution", .object [("steps", .array [.object [("nodeId", .string "codes"),
      ("type", .string "mapping"), ("inputs", .array [.string "shop"])]])]),
    ("connections", .array [.object [("id", .string "e"), ("sourceNodeId", .string "shop"),
      ("sourceHandle", .string "sku"), ("targetNodeId", .string "codes"),
      ("type", .string "direct")]]),
    ("nodes", .object [
      ("sources", .array [.object [("id", .string "shop"), ("label", .string "Shop"),
        ("position", .object [("x", .number (.float 0)), ("y", .number (.float 0))]),
        ("schema", .object [("fields", .array [
          .object [("groupBy", .string "sku"), ("type", .string "array"), ("name", .string "lines"),
            ("children", .array [
              .object [("id", .string "sku"), ("name", .string "sku"), ("type", .string "string")],
              .object [("id", .string "options"), ("name", .string "options"),
                ("type", .string "object"), ("children", .array [])]]),
            ("id", .string "lines")],
          .object [("id", .string "at"), ("name", .string "at"), ("type", .string "date")]])]),
        ("sampleData", .array [.object [("lines", .array [.null, .object []])]]),
        ("expandedFields", .array [.string "lines"])]]),
      ("targets", .array []), ("transforms", .array []),
      ("mappings", .array [.object [("id", .string "codes"), ("label", .string ""),
        ("position", .object [("x", .number (.float 0)), ("y", .number (.float 0))]),
        ("table", .object [("a", .string "b")]), ("sourceField", .string "sku")]])]),
    ("createdAt", .string "2024-02-29T12:30:45.500Z"), ("version", .string "1.0"),
    ("name", .string "Orders"), ("id", .string "orders")]

/-- The nodes of the sample stand at finite positions. -/
theorem placed_orders : orders.nodes.Placed := by
  have horigin : Position.origin.IsFinite := ⟨Number.isFinite_zero, Number.isFinite_zero⟩
  constructor <;> simp [orders, horigin]

/-- The date of the sample is read again. -/
theorem read_render_orders :
    Instant.read orders.createdAt.render = .ok orders.createdAt := by
  decide +kernel

/-- The orders are read from their document in the other order. -/
theorem snapshot_roundTrip_orders :
    ordersDocument.Says orders.toJson ∧ decode .streamed ordersDocument = .ok orders := by
  have hsaid : ordersDocument.Says orders.toJson :=
    ⟨by simp [ordersDocument, Json.IsTidy, Json.TidyItems, Json.TidyMembers, Json.nat], rfl⟩
  exact ⟨hsaid, (snapshot_roundTrip orders placed_orders read_render_orders).2.2 .streamed
    ordersDocument hsaid⟩

end Snapshot
end MappingCanvas
