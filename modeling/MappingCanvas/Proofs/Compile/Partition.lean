/-
# A snapshot of a canvas

A snapshot divides a canvas.  Its nodes go into four categories, each id into one of them
(`existsUnique_category`); its edges are kept as connections, or dropped with a warning when one of
their ends is no node (`mem_connections`, `edgeWarnings_eq`).  `exportSnapshot_partitions` puts the
parts together.
-/

import MappingCanvas.Proofs.Compile.Arrivals
import MappingCanvas.Proofs.Compile.Entries
import MappingCanvas.Proofs.Restore.Export

namespace MappingCanvas

/-- The kind of the connections that leave the nodes of a category. -/
def Category.connectionKind : Category → Snapshot.ConnectionKind
  | source => .direct
  | lookup => .mapping
  | target | transform => .transform

namespace Canvas

/-- The nodes of unknown types. -/
def unknownNodes (c : Canvas) : List Node := c.nodes.toList.filter fun n => n.body.nodeType?.isNone

/-- The edges without one of their ends. -/
def droppedEdges (c : Canvas) : List Edge :=
  c.edges.toList.filter fun e =>
    !((c.nodes.toList.map Node.id).contains e.source &&
      (c.nodes.toList.map Node.id).contains e.target)

/-- The first end of an edge, its source in front, that is no node. -/
def missingEnd (c : Canvas) (e : Edge) : String :=
  if (c.nodes.toList.map Node.id).contains e.source then e.target else e.source

variable {c : Canvas} {e : Edge}

/-- The kept edges are those with both ends. -/
theorem mem_keptEdges : e ∈ c.keptEdges ↔ e ∈ c.edges.toList ∧
    e.source ∈ c.nodes.toList.map Node.id ∧ e.target ∈ c.nodes.toList.map Node.id := by
  simp only [keptEdges, List.mem_filter, Bool.and_eq_true, List.contains_iff_mem]

end Canvas

namespace Exporter

variable {c : Canvas} {x : Exporter}

/-! ### Nodes -/

/-- **Every id is in one category**, since two nodes of one id are one node. -/
theorem existsUnique_category (hc : c.Coherent) {id : String}
    (hid : id ∈ c.nodes.toList.map Node.id) :
    ∃! k, id ∈ (entries c.nodes.toList).idsOf k := by
  obtain ⟨n, hn, rfl⟩ := List.mem_map.1 hid
  refine ⟨n.category, ?_, fun k hk => ?_⟩
  · simp only [idsOf_entries]
    exact List.mem_map_of_mem (Category.mem_nodes.2 ⟨hn, rfl⟩)
  · simp only [idsOf_entries] at hk
    obtain ⟨m, hm, hid⟩ := List.mem_map.1 hk
    obtain ⟨hmem, hcategory⟩ := Category.mem_nodes.1 hm
    have h₁ := hc.node?_of_mem hmem
    rw [hid, hc.node?_of_mem hn] at h₁
    rw [← hcategory, Option.some.inj h₁]

/-- **No node is lost and none is shown twice.** -/
theorem perm_ids_entries (hc : c.Coherent) :
    (entries c.nodes.toList).ids.Perm (c.nodes.toList.map Node.id) := by
  have hids : (entries c.nodes.toList).ids =
      (Category.regroup c.nodes.toList).map Node.id := by
    rw [Snapshot.Nodes.ids_eq, Category.regroup, List.map_flatMap]
    exact List.flatMap_congr fun k _ => idsOf_entries _ k
  rw [hids]
  exact Restore.perm_ids hc

/-! ### Connections -/

/-- The kind of a connection is that of the node that it leaves. -/
theorem connectionKind_eq {e : Edge} {n : Node} (hn : c.node? e.source = some n) :
    connectionKind c e = n.category.connectionKind := by
  obtain ⟨id, position, body⟩ := n
  simp only [connectionKind, hn, Option.map_some]
  cases body <;> rfl

/-- **A connection is an edge with both ends, and of the kind of the node that it leaves.** -/
theorem mem_connections (hc : c.Coherent) {k : Snapshot.Connection}
    (hk : k ∈ (x.exportSnapshot c).1.connections) :
    Restore.edge k ∈ c.keptEdges ∧
      ∃ n ∈ c.nodes.toList, n.id = k.source ∧ k.kind = n.category.connectionKind := by
  have hkept : Restore.edge k ∈ c.keptEdges := by
    rw [← Restore.map_edge_connections hc]
    exact List.mem_map_of_mem hk
  obtain ⟨e, -, he⟩ := List.mem_filterMap.1 hk
  obtain ⟨n, hn, hid⟩ := List.mem_map.1 (Canvas.mem_keptEdges.1 hkept).2.1
  have hconnection : k = ⟨e.id, e.source, e.sourceHandle, e.target, e.targetHandle,
      connectionKind c e⟩ := by
    unfold connection? at he
    split at he
    · cases he
    · exact (Option.some.inj he).symm
  subst hconnection
  exact ⟨hkept, n, hn, hid, connectionKind_eq (hc.node?_eq_some_iff.2 ⟨hn, hid⟩)⟩

/-! ### Warnings -/

/-- The warnings about nodes are of unknown types, in canvas order. -/
theorem nodeWarnings_eq (c : Canvas) : c.nodes.toList.filterMap nodeWarning? =
    c.unknownNodes.map fun n => .unknownNodeType n.id n.body.typeName := by
  rw [Canvas.unknownNodes, ← List.filterMap_eq_map, List.filterMap_filter]
  refine List.filterMap_congr fun n _ => ?_
  obtain ⟨id, position, body⟩ := n
  cases body <;> rfl

/-- An edge lacks an end exactly if one of its ends is no node. -/
theorem missingEnd?_eq (hc : c.Coherent) (e : Edge) : missingEnd? c e =
    if (c.nodes.toList.map Node.id).contains e.source &&
      (c.nodes.toList.map Node.id).contains e.target then none else some (c.missingEnd e) := by
  rw [missingEnd?, Canvas.missingEnd, ← hc.contains_eq, ← hc.contains_eq]
  cases hs : c.contains e.source <;> cases ht : c.contains e.target <;> simp [hs, ht]

/-- The warnings about edges are of those that were dropped, in edge order. -/
theorem edgeWarnings_eq (hc : c.Coherent) : c.edges.toList.filterMap (edgeWarning? c) =
    c.droppedEdges.map fun e => .unknownNode e.id (c.missingEnd e) := by
  rw [Canvas.droppedEdges, ← List.filterMap_eq_map, List.filterMap_filter]
  refine List.filterMap_congr fun e _ => ?_
  rw [edgeWarning?, missingEnd?_eq hc]
  cases (c.nodes.toList.map Node.id).contains e.source &&
    (c.nodes.toList.map Node.id).contains e.target <;> rfl

/-- **What a snapshot warns of:** the nodes of unknown types, the edges that were dropped, and what
the plan leaves out. -/
theorem warnings_exportSnapshot (hc : c.Coherent) (x : Exporter) : (x.exportSnapshot c).2 =
    (c.unknownNodes.map fun n => .unknownNodeType n.id n.body.typeName) ++
      (c.droppedEdges.map fun e => .unknownNode e.id (c.missingEnd e)) ++ (Plan.plan c).2 := by
  rw [← nodeWarnings_eq, ← edgeWarnings_eq hc]
  rfl

/-- The plan warns of cycles only. -/
theorem exists_cycle_of_mem_plan {w : Warning} (hw : w ∈ (Plan.plan c).2) :
    ∃ ids, w = .cycle ids := by
  simp only [Plan.plan] at hw
  split at hw
  · exact ⟨_, List.mem_singleton.1 hw⟩
  · cases hw

end Exporter

/-! ### The whole snapshot -/

/-- A snapshot that divides a canvas: every node is in one category, and the edges with both ends
are the connections. -/
structure Snapshot.Divides (s : Snapshot) (c : Canvas) : Prop where
  nodes_eq : s.nodes = Exporter.entries c.nodes.toList
  /-- A category holds the nodes of its kind, in canvas order. -/
  idsOf_eq : ∀ k, s.nodes.idsOf k = (k.nodes c.nodes.toList).map Node.id
  existsUnique_category : ∀ n ∈ c.nodes.toList, ∃! k, n.id ∈ s.nodes.idsOf k
  perm_ids : s.nodes.ids.Perm (c.nodes.toList.map Node.id)
  nodup_ids : s.nodes.ids.Nodup
  counts_eq : s.metadata.sourceCount = s.nodes.sources.length ∧
    s.metadata.targetCount = s.nodes.targets.length ∧
    s.metadata.transformCount = s.nodes.transforms.length ∧
    s.metadata.lookupCount = s.nodes.lookups.length ∧
    s.metadata.connectionCount = s.connections.length
  /-- Edges are kept as they are, in their order. -/
  connections_eq : s.connections.map Restore.edge = c.keptEdges
  kind_eq : ∀ k ∈ s.connections, ∃ n ∈ c.nodes.toList, n.id = k.source ∧
    k.kind = n.category.connectionKind
  existsUnique_ends : ∀ k ∈ s.connections,
    (∃! l, k.source ∈ s.nodes.idsOf l) ∧ ∃! l, k.target ∈ s.nodes.idsOf l

namespace Exporter

variable {c : Canvas}

/-- **A snapshot divides a canvas, and reports what it drops.**  First there is a warning for each
node of unknown type, in canvas order, then one for each edge that was dropped, which names its
source if that is missing and else its target; behind them the plan warns of cycles only. -/
theorem exportSnapshot_partitions (hc : c.Coherent) (x : Exporter) :
    (x.exportSnapshot c).1.Divides c ∧
    ∃ cycles, (x.exportSnapshot c).2 =
        (c.unknownNodes.map fun n => .unknownNodeType n.id n.body.typeName) ++
          (c.droppedEdges.map fun e => .unknownNode e.id (c.missingEnd e)) ++ cycles ∧
      ∀ w ∈ cycles, ∃ ids, w = .cycle ids := by
  have hnodes : (x.exportSnapshot c).1.nodes = entries c.nodes.toList := nodes_exportSnapshot x c
  have hperm := perm_ids_entries hc
  have hone : ∀ id ∈ c.nodes.toList.map Node.id,
      ∃! k, id ∈ (x.exportSnapshot c).1.nodes.idsOf k := fun _ hid =>
    hnodes ▸ existsUnique_category hc hid
  refine ⟨?_, (Plan.plan c).2, warnings_exportSnapshot hc x, fun _ => exists_cycle_of_mem_plan⟩
  exact {
    nodes_eq := hnodes
    idsOf_eq := hnodes ▸ idsOf_entries _
    existsUnique_category := fun n hn => hone n.id (List.mem_map_of_mem hn)
    perm_ids := hnodes ▸ hperm
    nodup_ids := hnodes ▸ hperm.nodup_iff.2 hc.nodup_ids
    counts_eq := ⟨rfl, rfl, rfl, rfl, rfl⟩
    connections_eq := Restore.map_edge_connections hc
    kind_eq := fun k hk => (mem_connections hc hk).2
    existsUnique_ends := fun k hk => by
      obtain ⟨-, hsource, htarget⟩ := Canvas.mem_keptEdges.1 (mem_connections hc hk).1
      exact ⟨hone _ hsource, hone _ htarget⟩ }

/-- A source, a target and a node of unknown type, with an edge that is kept, one from the unknown
node to itself, and two that lack an end. -/
def strayEdges : Canvas :=
  .ofLists
    [⟨"in", .origin, .source (.ofFields "Input" [.ofName "a" .string])⟩,
      ⟨"odd", .origin, .unknown "oddity" .null⟩,
      ⟨"out", .origin, .target (.ofFields "Output" [.ofName "x" .string])⟩]
    [⟨"from", "gone", none, "out", some "x"⟩, ⟨"copy", "in", some "a", "out", some "x"⟩,
      ⟨"loop", "odd", none, "odd", none⟩, ⟨"to", "in", some "a", "gone", none⟩]

/-- Two of the four edges are kept and two are reported, behind the node of unknown type. -/
theorem exportSnapshot_partitions_strayEdges :
    strayEdges.Coherent ∧
      (plainExporter.exportSnapshot strayEdges).1.nodes.idsOf .transform = ["odd"] ∧
      ((plainExporter.exportSnapshot strayEdges).1.connections.map Restore.edge).map Edge.id =
        ["copy", "loop"] ∧
      ∃ cycles, (plainExporter.exportSnapshot strayEdges).2 =
        [.unknownNodeType "odd" "oddity", .unknownNode "from" "gone", .unknownNode "to" "gone"] ++
          cycles := by
  have hc : strayEdges.Coherent := Canvas.coherent_ofLists _ _
  have hnodes : strayEdges.nodes.toList = _ := Canvas.nodes_ofLists (by decide) _
  have hedges : strayEdges.edges.toList = _ := Canvas.edges_ofLists _ _
  obtain ⟨hdivides, cycles, hwarnings, -⟩ := exportSnapshot_partitions hc plainExporter
  refine ⟨hc, ?_, ?_, cycles, ?_⟩
  · rw [hdivides.idsOf_eq, hnodes]
    rfl
  · rw [hdivides.connections_eq, Canvas.keptEdges, hnodes, hedges]
    rfl
  · simp only [hwarnings, Canvas.unknownNodes, Canvas.droppedEdges, Canvas.missingEnd, hnodes,
      hedges]
    rfl

end Exporter
end MappingCanvas
