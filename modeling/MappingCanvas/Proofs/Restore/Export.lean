/-
# Restoring what was exported

The entry of a node in a snapshot is restored to the node itself, but for the groupings of a target,
which come from the list of groupings (`settle`).  So the nodes of an exported snapshot are restored
category by category (`Entered`), no id occurs twice, and the connections are the edges with both
ends (`Canvas.keptEdges`).

`restore_export` says what comes out, for every canvas whose untouched data is of unknown types and
every list of groupings.
-/

import MappingCanvas.Compile.Export
import MappingCanvas.Proofs.Canvas.Decoded
import MappingCanvas.Proofs.Canvas.Operations
import MappingCanvas.Proofs.Compile.Entries
import MappingCanvas.Proofs.Restore.Category
import MappingCanvas.Restore.Staging

namespace MappingCanvas

/-- The edges with both ends on the canvas. -/
def Canvas.keptEdges (c : Canvas) : List Edge :=
  c.edges.toList.filter fun e =>
    (c.nodes.toList.map Node.id).contains e.source && (c.nodes.toList.map Node.id).contains e.target

namespace Restore

variable {c : Canvas} {gs : List Grouping} {ns : List Node} {n : Node}

/-- A node with the groupings of its arrays taken from a list, if it is a target. -/
def settle (gs : List Grouping) (n : Node) : Node :=
  match n.body with
  | .target s => { n with body := .target { s with fields := Grouping.restore gs s.fields } }
  | _ => n

/-- Only targets are settled. -/
theorem settle_eq_self (h : n.category ≠ .target) : settle gs n = n := by
  unfold settle
  split
  · rename_i s hb
    exact absurd (by rw [Node.category, hb]) h
  · rfl

/-- A settled node is in its category. -/
theorem category_settle (n : Node) : (settle gs n).category = n.category := by
  by_cases h : n.category = .target
  · unfold settle
    split
    · rw [h]
      rfl
    · rfl
  · rw [settle_eq_self h]

/-! ### The nodes of a snapshot -/

/-- **The entry of a transform is restored to its node.** -/
theorem transformNode_transform {label : String} {o : Operation}
    (hn : n.body = .transform label o) :
    transformNode ⟨n.id, n.body.typeName, label, n.position, o.parameters⟩ = .ok n := by
  obtain ⟨id, position, body⟩ := n
  obtain rfl : body = .transform label o := hn
  simp only [transformNode, Node.Body.typeName_transform, o.nodeType.ofName?_name]
  rw [← Node.Body.typeName_transform label, Payload.nodeBody_configured]
  rfl

/-- The entry of a node of unknown type is restored to its node. -/
theorem transformNode_unknown {typeName : String} {data : Value} (h : n.Genuine)
    (hn : n.body = .unknown typeName data) :
    transformNode ⟨n.id, typeName, n.body.label, n.position, data⟩ = .ok n := by
  obtain ⟨id, position, body⟩ := n
  obtain rfl : body = .unknown typeName data := hn
  simp only [transformNode, h typeName data rfl]
  rfl

/-- A source is restored from its entry. -/
theorem sourceNode_schemaEntry {s : Schema} (hn : n.body = .source s) :
    sourceNode (Exporter.schemaEntry n s) = n := by
  obtain ⟨id, position, body⟩ := n
  obtain rfl : body = .source s := hn
  rfl

/-- A target is restored from its entry, with its groupings settled. -/
theorem targetNode_schemaEntry {s : Schema} (hn : n.body = .target s) :
    targetNode gs (Exporter.schemaEntry n s) = settle gs n := by
  obtain ⟨id, position, body⟩ := n
  obtain rfl : body = .target s := hn
  rfl

/-- A lookup is restored from its entry. -/
theorem lookupNode_entry {l : Lookup} (hn : n.body = .lookup l) :
    lookupNode ⟨n.id, l.label, n.position, l.table, l.sourceField⟩ = n := by
  obtain ⟨id, position, body⟩ := n
  obtain rfl : body = .lookup l := hn
  rfl

/-- The entries of a snapshot are restored to the nodes that were entered. -/
structure Entered (gs : List Grouping) (ns : List Node) (s : Snapshot.Nodes) : Prop where
  sources : s.sources.map sourceNode = Category.source.nodes ns
  targets : s.targets.map (targetNode gs) = (Category.target.nodes ns).map (settle gs)
  transforms : s.transforms.mapM transformNode = .ok (Category.transform.nodes ns)
  lookups : s.lookups.map lookupNode = Category.lookup.nodes ns

/-- A transform is restored from its entry, and so is a node of unknown type. -/
theorem transformNode_entry {e : Snapshot.TransformEntry} (h : n.Genuine)
    (he : Exporter.shownTransform? n = some e) : transformNode e = .ok n := by
  unfold Exporter.shownTransform? at he
  split at he
  · rename_i hb
    exact Option.some.inj he ▸ transformNode_transform hb
  · rename_i hb
    exact Option.some.inj he ▸ transformNode_unknown h hb
  · cases he

/-- All transforms are restored from their entries. -/
theorem mapM_transformNode (hns : ∀ n ∈ ns, n.Genuine) :
    (ns.filterMap Exporter.shownTransform?).mapM transformNode =
      .ok (Category.transform.nodes ns) := by
  rw [mapM_eq_ok_iff]
  induction ns with
  | nil => exact .nil
  | cons n ns ih =>
    obtain ⟨hn, hns⟩ := List.forall_mem_cons.1 hns
    have hrest := ih hns
    have hcategory : (Exporter.shownTransform? n).isSome = decide (n.category = .transform) := by
      cases hb : n.body <;> simp [Exporter.shownTransform?, Node.category, hb]
    cases he : Exporter.shownTransform? n with
    | none =>
      rw [List.filterMap_cons_none he, Category.nodes,
        List.filter_cons_of_neg (by simp [← hcategory, he])]
      exact hrest
    | some e =>
      rw [List.filterMap_cons_some he, Category.nodes,
        List.filter_cons_of_pos (by simp [← hcategory, he])]
      exact .cons (transformNode_entry hn he) hrest

/-- **The entry of each node is restored to it.** -/
theorem entered (hns : ∀ n ∈ ns, n.Genuine) : Entered gs ns (Exporter.entries ns) where
  sources := by
    refine (Exporter.map_filterMap_nodes fun n => ?_).trans (List.map_id _)
    cases hb : n.body <;> simp [Exporter.shownSource?, Node.category, hb, sourceNode_schemaEntry]
  targets := by
    refine Exporter.map_filterMap_nodes fun n => ?_
    cases hb : n.body <;> simp [Exporter.shownTarget?, Node.category, hb, targetNode_schemaEntry]
  transforms := mapM_transformNode hns
  lookups := by
    refine (Exporter.map_filterMap_nodes fun n => ?_).trans (List.map_id _)
    cases hb : n.body <;> simp [Exporter.shownLookup?, Node.category, hb, lookupNode_entry]

/-- In other categories than targets nothing is settled. -/
theorem map_settle_nodes {k : Category} (hk : k ≠ .target) :
    (k.nodes ns).map (settle gs) = k.nodes ns := by
  have hself : ∀ n ∈ k.nodes ns, settle gs n = n := fun n hn =>
    settle_eq_self ((Category.mem_nodes.1 hn).2 ▸ hk)
  rw [List.map_congr_left hself, List.map_id']

/-- **The nodes of a snapshot are restored category by category.** -/
theorem Entered.nodes_eq {s : Snapshot.Nodes} (h : Entered gs ns s) :
    nodes gs s = .ok ((Category.regroup ns).map (settle gs)) := by
  simp only [Category.regroup_eq, List.map_append, map_settle_nodes (k := .source) (by decide),
    map_settle_nodes (k := .transform) (by decide), map_settle_nodes (k := .lookup) (by decide)]
  rw [nodes, h.sources, h.targets, h.transforms, h.lookups]
  rfl

/-! ### Ids and edges -/

/-- No id is a duplicate exactly if all are distinct and none was seen before. -/
theorem duplicate?_eq_none {seen ids : List String} :
    duplicate? seen ids = none ↔ ids.Nodup ∧ ∀ id ∈ ids, id ∉ seen := by
  induction ids generalizing seen with
  | nil => simp [duplicate?]
  | cons id ids ih =>
    rw [duplicate?, List.nodup_cons, List.forall_mem_cons]
    by_cases hid : id ∈ seen
    · simp [hid]
    · rw [if_neg (by simpa using hid), ih]
      constructor
      · rintro ⟨hnodup, hfresh⟩
        refine ⟨⟨fun hmem => hfresh id hmem (List.mem_cons_self ..), hnodup⟩, hid, ?_⟩
        exact fun other ho hseen => hfresh other ho (List.mem_cons_of_mem id hseen)
      · rintro ⟨⟨hmem, hnodup⟩, -, hfresh⟩
        refine ⟨hnodup, fun other ho hseen => ?_⟩
        rcases List.mem_cons.1 hseen with rfl | hseen
        · exact hmem ho
        · exact hfresh other ho hseen

/-- **The connections of a snapshot are the edges with both ends.** -/
theorem map_edge_connections (h : c.Coherent) :
    (c.edges.toList.filterMap (Exporter.connection? c)).map edge = c.keptEdges := by
  have hedge (e : Edge) : (Exporter.connection? c e).map edge =
      if (c.nodes.toList.map Node.id).contains e.source &&
        (c.nodes.toList.map Node.id).contains e.target then some e else none := by
    rw [← h.contains_eq, ← h.contains_eq]
    unfold Exporter.connection? Exporter.missingEnd?
    cases hs : c.contains e.source <;> cases ht : c.contains e.target <;> simp [hs, ht, edge]
  rw [List.map_filterMap, Canvas.keptEdges, ← List.filterMap_eq_filter]
  exact List.filterMap_congr fun e _ => hedge e

/-- The canvas that an exported one is restored to. -/
def restored (gs : List Grouping) (c : Canvas) : Canvas :=
  .ofLists (((Category.regroup c.nodes.toList).map (settle gs)).map (expand c.keptEdges))
    c.keptEdges

theorem id_settle (n : Node) : (settle gs n).id = n.id := by
  unfold settle
  split <;> rfl

theorem id_expand (es : List Edge) (n : Node) : (expand es n).id = n.id := by
  unfold expand
  split <;> rfl

/-- The ids of a canvas that is restored are those of the one that was exported. -/
theorem perm_ids (h : c.Coherent) :
    ((Category.regroup c.nodes.toList).map Node.id).Perm (c.nodes.toList.map Node.id) :=
  (Category.perm_regroup h.nodup_ids.of_map).map Node.id

/-- **What is exported can be restored.** -/
theorem restore_export (h : c.Coherent) (hgenuine : ∀ n ∈ c.nodes.toList, n.Genuine)
    (gs : List Grouping) (x : Exporter) :
    restore gs (x.exportSnapshot c).1 = .ok (restored gs c) := by
  have hnodes : nodes gs (x.exportSnapshot c).1.nodes =
      .ok ((Category.regroup c.nodes.toList).map (settle gs)) := by
    rw [Exporter.nodes_exportSnapshot]
    exact (entered hgenuine).nodes_eq
  have hids : ((Category.regroup c.nodes.toList).map (settle gs)).map Node.id =
      (Category.regroup c.nodes.toList).map Node.id := by
    rw [List.map_map]
    exact List.map_congr_left fun n _ => id_settle n
  have hduplicate : duplicate? []
      (((Category.regroup c.nodes.toList).map (settle gs)).map Node.id) = none := by
    rw [hids]
    exact duplicate?_eq_none.2 ⟨(perm_ids h).nodup_iff.2 h.nodup_ids, fun _ _ => List.not_mem_nil⟩
  have hedges : (x.exportSnapshot c).1.connections.map edge = c.keptEdges :=
    map_edge_connections h
  have hstage : stage gs (x.exportSnapshot c).1 = .ok
      ⟨((Category.regroup c.nodes.toList).map (settle gs)).map (expand c.keptEdges),
        c.keptEdges⟩ := by
    rw [stage, hnodes]
    simp only [Except.mapError, bind, Except.bind, hduplicate, hedges]
    rfl
  rw [restore, into, hstage]
  rfl

end Restore
end MappingCanvas
