/-
# Drawing a canvas from rules alone

A rule set without a snapshot can still be drawn.  All source fields stand in one source, all
target fields in one target, and each rule that does not copy gets nodes of its own between them,
named for its target field:

| rule | nodes | edges |
| --- | --- | --- |
| copy | | source to target |
| constant | `static_` | node to target |
| choose | `conditional_` | source to node, node to target |
| look up | `table_`, and `transform_` if there is a step | source through the nodes to target |
| skip | | |

When two rules would get a node of the same id, the first one is drawn.
-/

import MappingCanvas.Canvas.Basic
import MappingCanvas.Canvas.Layout
import MappingCanvas.Rule.Basic

namespace MappingCanvas
namespace Restore

/-- A canvas that is being drawn. -/
structure Drawing where
  nodes : List Node
  edges : List Edge
  /-- The rows of the middle column that are taken. -/
  rows : Nat

namespace Drawing

/-- The ids of the common source and the common target. -/
def sourceId : String := "source"
def targetId : String := "target"

/-- The output handle of a constant. -/
def constantHandle : String := "value"

/-- Adds a node in the next row of the middle column; the row is used up even if the id is
taken. -/
def addNode (d : Drawing) (layout : Layout) (id : String) (body : Node.Body) : Drawing :=
  { d with
    nodes :=
      if d.nodes.any fun n => n.id == id then d.nodes
      else d.nodes ++ [⟨id, layout.position .transform d.rows, body⟩]
    rows := d.rows + 1 }

/-- Adds a transform whose label is its id. -/
def addTransform (d : Drawing) (layout : Layout) (id : String) (operation : Operation) : Drawing :=
  d.addNode layout id (.transform id operation)

/-- Adds an edge; edges are numbered. -/
def connect (d : Drawing) (source : String) (sourceHandle : Option String) (target : String)
    (targetHandle : Option String) : Drawing :=
  let id := "edge-" ++ Text.ofNat (d.edges.length + 1)
  { d with edges := d.edges ++ [⟨id, source, sourceHandle, target, targetHandle⟩] }

/-- Draws a rule. -/
def addRule (layout : Layout) (d : Drawing) (r : Rule) : Drawing :=
  let toTarget (d : Drawing) (id : String) (handle : Option String) : Drawing :=
    d.connect id handle targetId (some r.target)
  let fromSource (d : Drawing) (id : String) : Drawing := d.connect sourceId r.source id none
  match r.action with
  | .copy =>
    match r.source with
    | some field => d.connect sourceId (some field) targetId (some r.target)
    | none => d
  | .constant value =>
    let id := "static_" ++ r.target
    toTarget (d.addTransform layout id (.constants [⟨constantHandle, value⟩])) id
      (some constantHandle)
  | .choose condition whenTrue whenFalse =>
    let id := "conditional_" ++ r.target
    let operation :=
      Operation.conditional ⟨condition.operator, condition.value, whenTrue, whenFalse⟩
    toTarget (fromSource (d.addTransform layout id operation) id) id none
  | .lookUp table step =>
    let tableId := "table_" ++ r.target
    let d := d.addNode layout tableId (.lookup ⟨"Lookup " ++ r.target, table, r.source⟩)
    let d := match step with
      | some step =>
        let id := "transform_" ++ r.target
        (fromSource (d.addTransform layout id step.operation) id).connect id none tableId none
      | none => fromSource d tableId
    toTarget d tableId none
  | .skip => d

end Drawing

/-- Text fields of the given names, each once, in order of first occurrence. -/
def textFields (names : List String) : List Field :=
  names.eraseDups.map fun name => Field.ofName name .string

/-- The source and target that all rules share. -/
def ends (groupings : List Grouping) (layout : Layout) (s : RuleSet) : List Node :=
  [⟨Drawing.sourceId, layout.position .source 0,
      .source (.ofFields "Source" (textFields (s.rules.filterMap Rule.source)))⟩,
    ⟨Drawing.targetId, layout.position .target 0,
      .target (.ofFields "Target"
        (Grouping.restore groupings (textFields (s.rules.map Rule.target))))⟩]

/-- The canvas of a rule set. -/
def fromRules (groupings : List Grouping) (layout : Layout) (s : RuleSet) : Canvas :=
  let d := s.rules.foldl (Drawing.addRule layout) ⟨ends groupings layout s, [], 0⟩
  .ofLists d.nodes d.edges

end Restore
end MappingCanvas
