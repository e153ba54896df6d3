/-
# The rules by a plain search

An export asks an index for the edges that arrive at a field and goes through the fields of a target
with a stack.  The plain way is to go through all edges of the canvas for each field of each target
in preorder (`Canvas.meetings`).  Both come to the same edges in the same order
(`Coherent.arrivals_eq_meetings`), so the rules, the warnings and the groupings of an export are
those of the plain search (`exportRules_scan`).
-/

import MappingCanvas.Proofs.Compile.Accounted
import MappingCanvas.Proofs.Schema.Grouping

namespace MappingCanvas

/-- An edge that arrives at a field of a target. -/
structure Meeting where
  target : Node
  field : Field
  edge : Edge

/-- An edge names a handle if it has one that is not empty. -/
theorem Edge.targetHandle?_eq_some_iff {e : Edge} {handle : String} :
    e.targetHandle? = some handle ↔ e.targetHandle = some handle ∧ handle ≠ "" := by
  simp [Edge.targetHandle?, Edge.named?, Option.filter_eq_some_iff]

namespace Canvas

variable {c : Canvas}

/-- The targets of a canvas with each of their fields: targets in canvas order, fields in
preorder. -/
def slots (c : Canvas) : List (Node × Field) :=
  c.nodes.toList.flatMap fun n =>
    match n.body with
    | .target s => (Field.preorderForest s.fields).map (n, ·)
    | _ => []

/-- The edges that arrive at each field, found by a search of all edges for those whose target is
the node and whose handle is the id of the field and not empty. -/
def meetings (c : Canvas) : List Meeting :=
  c.slots.flatMap fun (n, f) =>
    (c.edges.toList.filter fun e =>
      e.target = n.id ∧ e.targetHandle = some f.id ∧ f.id ≠ "").map fun e => ⟨n, f, e⟩

/-- The slots are the ports, with the whole target in the place of its id. -/
theorem slots_eq_ports (c : Canvas) : c.slots.map (fun p => (p.1.id, p.2)) = c.ports := by
  rw [slots, ports, List.map_flatMap]
  refine List.flatMap_congr fun n _ => ?_
  obtain ⟨id, position, body⟩ := n
  cases body <;> simp [Node.ports, Node.Body.targetSchema?]

/-- **The index and the stack come to the edges of the plain search.** -/
theorem Coherent.arrivals_eq_meetings (hc : c.Coherent) :
    c.arrivals = c.meetings.map fun m => (m.edge, m.field.name) := by
  rw [hc.arrivals_eq, ← slots_eq_ports, meetings, List.flatMap_map, List.map_flatMap]
  refine List.flatMap_congr fun p _ => ?_
  rw [List.map_map]
  have hmeets : ∀ e : Edge, e.meets (p.1.id, p.2) =
      decide (e.target = p.1.id ∧ e.targetHandle = some p.2.id ∧ p.2.id ≠ "") := fun e => by
    rw [Bool.eq_iff_iff, Edge.meets_iff, Edge.targetHandle?_eq_some_iff, decide_eq_true_iff]
  simp only [hmeets]
  rfl

end Canvas

namespace Exporter

variable {c : Canvas}

/-- The array fields with a grouping are those of which a grouping is collected. -/
theorem filterMap_ofField? (fs : List Field) :
    fs.filterMap Grouping.ofField? =
      (fs.filter fun f => f.dataType = .array ∧ f.groupBy.isSome).map fun f =>
        ⟨f.name, none, f.groupBy⟩ := by
  induction fs with
  | nil => rfl
  | cons f fs ih =>
    rw [List.filterMap_cons, ih, List.filter_cons, Grouping.ofField?]
    by_cases harray : f.dataType = .array
    · cases hgroup : f.groupBy <;> simp [harray, hgroup]
    · simp [harray]

/-- The groupings of an export are those of the fields in the slots. -/
theorem groupings_exportRules (x : Exporter) (c : Canvas) :
    (x.exportRules c).1.groupings = (c.slots.map Prod.snd).filterMap Grouping.ofField? := by
  rw [exportRules_eq, Canvas.slots, List.map_flatMap, List.filterMap_flatMap]
  refine List.flatMap_congr fun n _ => ?_
  obtain ⟨id, position, body⟩ := n
  cases body with
  | target s =>
    simp only [targetGroupings, Node.Body.targetSchema?, Grouping.collect_eq, List.map_map]
    simp [Function.comp_def]
  | _ => rfl

/-- **An export is a plain search.**  The rules and the warnings of an export are what comes of the
edges that arrive at the fields of the targets, in the order of targets, then of fields in preorder,
then of edges, so there are as many of them as such edges; and its groupings are those of the array
fields that have one, in the order of targets and fields. -/
theorem exportRules_scan (hc : c.Coherent) (x : Exporter) :
    let outcomes := c.meetings.map fun m =>
      c.resolve x.options.maxResolveDepth m.edge m.field.name
    (x.exportRules c).1.rules = outcomes.filterMap rule? ∧
    (x.exportRules c).2 = outcomes.filterMap warning? ∧
    (x.exportRules c).1.groupings =
      ((c.slots.map Prod.snd).filter fun f => f.dataType = .array ∧ f.groupBy.isSome).map (fun f =>
        ⟨f.name, none, f.groupBy⟩) ∧
    (x.exportRules c).1.rules.length + (x.exportRules c).2.length = c.meetings.length := by
  intro outcomes
  have hrules : (x.exportRules c).1.rules = outcomes.filterMap rule? := by
    rw [exportRules_eq, hc.arrivals_eq_meetings]
    simp only [outcomes, List.filterMap_map, Function.comp_def]
  have hwarnings : (x.exportRules c).2 = outcomes.filterMap warning? := by
    rw [exportRules_eq, hc.arrivals_eq_meetings]
    simp only [outcomes, List.filterMap_map, Function.comp_def]
  refine ⟨hrules, hwarnings, ?_, ?_⟩
  · rw [groupings_exportRules, filterMap_ofField?]
  · rw [hrules, hwarnings, length_rules_add_warnings, List.length_map]

/-- Lines grouped by their number, and a total. -/
def linesField : Field :=
  ⟨"lines", "lines", .array, some [⟨"lines.sku", "sku", .string, none, none⟩], some "sku"⟩

/-- Orders whose edges stand in another order than the fields at which they arrive: the last field
first, then one edge without a handle, one from a node that is not there, and one into the lines. -/
def groupedLines : Canvas :=
  .ofLists
    [⟨"out", .origin, .target (.ofFields "Output" [linesField, .ofName "total" .number])⟩,
      ⟨"in", .origin, .source (.ofFields "Input" [.ofName "a" .string])⟩]
    [⟨"e1", "in", some "a", "out", some "total"⟩, ⟨"e2", "in", some "a", "out", some ""⟩,
      ⟨"e3", "gone", some "a", "out", some "total"⟩,
      ⟨"e4", "in", some "a", "out", some "lines.sku"⟩]

/-- The edge into the lines comes first, and the edge without a handle does not come at all. -/
theorem exportRules_scan_groupedLines :
    groupedLines.Coherent ∧
      groupedLines.meetings.map (fun m => (m.edge.id, m.field.name)) =
        [("e4", "sku"), ("e1", "total"), ("e3", "total")] ∧
      (plainExporter.exportRules groupedLines).1.groupings = [⟨"lines", none, some "sku"⟩] ∧
      (plainExporter.exportRules groupedLines).1.rules.length +
        (plainExporter.exportRules groupedLines).2.length = 3 := by
  have hc : groupedLines.Coherent := Canvas.coherent_ofLists _ _
  have hnodes : groupedLines.nodes.toList =
      [⟨"out", .origin, .target (.ofFields "Output" [linesField, .ofName "total" .number])⟩,
        ⟨"in", .origin, .source (.ofFields "Input" [.ofName "a" .string])⟩] :=
    Canvas.nodes_ofLists (by decide) _
  have hmeetings : groupedLines.meetings.map (fun m => (m.edge.id, m.field.name)) =
      [("e4", "sku"), ("e1", "total"), ("e3", "total")] := by
    rw [Canvas.meetings, Canvas.slots, hnodes, groupedLines, Canvas.edges_ofLists]
    rfl
  obtain ⟨-, -, hgroupings, hcount⟩ := exportRules_scan hc plainExporter
  refine ⟨hc, hmeetings, ?_, ?_⟩
  · rw [hgroupings, Canvas.slots, hnodes]
    rfl
  · rw [hcount, ← List.length_map, hmeetings]
    rfl

end Exporter
end MappingCanvas
