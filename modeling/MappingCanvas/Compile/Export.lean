/-
# Exporting a canvas

An export makes two documents of one canvas: the snapshot that can be drawn again, and the rule
set that an engine runs.  Warnings come in the order in which the canvas is gone through: nodes,
edges, plan, and then the rules by target node, field and edge.
-/

import MappingCanvas.Compile.Plan
import MappingCanvas.Compile.Resolve
import MappingCanvas.Snapshot.Document

namespace MappingCanvas

/-- The settings of exports. -/
structure ExportOptions where
  /-- How many nodes a walk back to a source field may go through. -/
  maxResolveDepth : Nat
  /-- The version of a document that is given none. -/
  defaultVersion : String
  deriving DecidableEq

namespace ExportOptions

/-- The settings that are used when none are given. -/
def default : ExportOptions := ⟨32, "1.0"⟩

instance : Inhabited ExportOptions := ⟨default⟩

/-- Settings as a document. -/
def toJson (o : ExportOptions) : Json :=
  .object [("maxResolveDepth", .nat o.maxResolveDepth),
    ("defaultVersion", .string o.defaultVersion)]

/-- Reads settings; what is missing is taken from the default. -/
def decode : Decoder ExportOptions :=
  ((Form.defaulted "maxResolveDepth" default.maxResolveDepth .nat).and
    (Form.defaulted "defaultVersion" default.defaultVersion .text)
    |>.map fun (maxResolveDepth, defaultVersion) =>
      (⟨maxResolveDepth, defaultVersion⟩ : ExportOptions)).decode

end ExportOptions

/-- What an export is told besides the canvas. -/
structure Exporter where
  options : ExportOptions
  id : String
  name : String
  givenVersion : Option String
  createdAt : Instant
  description : Option String
  tags : List String

namespace Exporter

/-- The version of the documents. -/
def version (x : Exporter) : String := x.givenVersion.getD x.options.defaultVersion

/-! ### The snapshot -/

/-- The entry of a source or target. -/
def schemaEntry (n : Node) (s : Schema) : Snapshot.SchemaEntry :=
  ⟨n.id, s.label, n.position, s.fields, s.samples, s.expanded⟩

/-- Adds a node to its category. -/
def addNode (nodes : Snapshot.Nodes) (n : Node) : Snapshot.Nodes :=
  match n.body with
  | .source s => { nodes with sources := nodes.sources ++ [schemaEntry n s] }
  | .target s => { nodes with targets := nodes.targets ++ [schemaEntry n s] }
  | .lookup l =>
    { nodes with
      lookups := nodes.lookups ++ [⟨n.id, l.label, n.position, l.table, l.sourceField⟩] }
  | .transform label operation =>
    { nodes with
      transforms := nodes.transforms ++
        [⟨n.id, n.body.typeName, label, n.position, operation.parameters⟩] }
  | .unknown typeName data =>
    { nodes with
      transforms := nodes.transforms ++ [⟨n.id, typeName, n.body.label, n.position, data⟩] }

/-- The warning about a node, if its type is unknown. -/
def nodeWarning? (n : Node) : Option Warning :=
  match n.body with
  | .unknown typeName _ => some (.unknownNodeType n.id typeName)
  | _ => none

/-- The first end of an edge that is no node of the canvas. -/
def missingEnd? (c : Canvas) (e : Edge) : Option String :=
  [e.source, e.target].find? fun id => !c.contains id

/-- The kind of a connection, by the node that it leaves. -/
def connectionKind (c : Canvas) (e : Edge) : Snapshot.ConnectionKind :=
  match (c.node? e.source).map Node.body with
  | some (.source _) => .direct
  | some (.lookup _) => .mapping
  | _ => .transform

/-- The connection of an edge, if both its ends exist. -/
def connection? (c : Canvas) (e : Edge) : Option Snapshot.Connection :=
  match missingEnd? c e with
  | some _ => none
  | none =>
    some ⟨e.id, e.source, e.sourceHandle, e.target, e.targetHandle, connectionKind c e⟩

/-- The warning about an edge, if one of its ends does not exist. -/
def edgeWarning? (c : Canvas) (e : Edge) : Option Warning :=
  (missingEnd? c e).map (.unknownNode e.id)

/-- The snapshot of a canvas. -/
def exportSnapshot (x : Exporter) (c : Canvas) : Snapshot × List Warning :=
  let nodes := c.nodes.toList.foldl addNode .empty
  let connections := c.edges.toList.filterMap (connection? c)
  let (steps, planWarnings) := Plan.plan c
  let metadata : Snapshot.Metadata :=
    ⟨x.description, x.tags, nodes.sources.length, nodes.targets.length, nodes.transforms.length,
      nodes.lookups.length, connections.length⟩
  (⟨x.id, x.name, x.version, x.createdAt, nodes, connections, steps, metadata⟩,
    c.nodes.toList.filterMap nodeWarning? ++ c.edges.toList.filterMap (edgeWarning? c) ++
      planWarnings)

/-! ### The rules -/

/-- The edges that arrive at a field, resolved one by one. -/
def resolveField (c : Canvas) (limit : Nat) (targetId : String) (f : Field) :
    List (Except Warning Rule) :=
  (c.incomingAt targetId f.id).map fun e => c.resolve limit e f.name

/-- The edges that arrive at the fields of a target, field by field. -/
def resolveTarget (c : Canvas) (limit : Nat) (n : Node) : List (Except Warning Rule) :=
  match n.body.targetSchema? with
  | some s => (Field.walk s.fields).flatMap (resolveField c limit n.id)
  | none => []

/-- The groupings of a target. -/
def targetGroupings (n : Node) : List Grouping :=
  match n.body.targetSchema? with
  | some s => Grouping.collect s.fields
  | none => []

/-- The rule of an edge that was resolved. -/
def rule? : Except Warning Rule → Option Rule
  | .ok r => some r
  | .error _ => none

/-- The warning of an edge that was not resolved. -/
def warning? : Except Warning Rule → Option Warning
  | .ok _ => none
  | .error w => some w

/-- The rule set of a canvas. -/
def exportRules (x : Exporter) (c : Canvas) : RuleSet × List Warning :=
  let resolved := c.nodes.toList.flatMap (resolveTarget c x.options.maxResolveDepth)
  (⟨if x.name.isEmpty then none else some x.name, some x.version, resolved.filterMap rule?,
      c.nodes.toList.flatMap targetGroupings⟩,
    resolved.filterMap warning?)

/-- Both documents of a canvas, and all warnings. -/
def exportAll (x : Exporter) (c : Canvas) : Snapshot × RuleSet × List Warning :=
  let (snapshot, snapshotWarnings) := x.exportSnapshot c
  let (rules, ruleWarnings) := x.exportRules c
  (snapshot, rules, snapshotWarnings ++ ruleWarnings)

end Exporter
end MappingCanvas
