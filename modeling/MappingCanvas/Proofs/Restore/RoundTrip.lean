/-
# Exporting and restoring

One round exports a canvas and restores its snapshot, with the groupings of the exported rules or
without any.  The first round may change the canvas: it regroups the nodes, drops edges that have
lost an end, expands what the edges need, and makes arrays of one name agree on their grouping.
All of this is done after one round, so the second one changes nothing (`round_idempotent`).

If arrays of one name agree from the start, a round keeps all but the order of the nodes, the
dropped edges and the expansion, and, if no edge is dropped, the rules (`round_exact`).
-/

import MappingCanvas.Proofs.Compile.Agreement
import MappingCanvas.Proofs.Ordered
import MappingCanvas.Proofs.Restore.Export
import MappingCanvas.Proofs.Schema.Grouping

namespace MappingCanvas

/-- The fields of one node, if it is a target. -/
def Node.targetFields (n : Node) : List Field :=
  match n.body.targetSchema? with
  | some s => Field.preorderForest s.fields
  | none => []

/-- The fields of all targets. -/
def Canvas.targetFields (c : Canvas) : List Field := c.nodes.toList.flatMap Node.targetFields

namespace Exporter

/-- One round: the exported snapshot is restored with the exported groupings. -/
def round (x : Exporter) (c : Canvas) : Except RestoreError Canvas :=
  Restore.restore (x.exportAll c).2.1.groupings (x.exportAll c).1

/-- One round without groupings. -/
def plainRound (x : Exporter) (c : Canvas) : Except RestoreError Canvas :=
  Restore.restore [] (x.exportAll c).1

/-- The groupings of a target are those of its fields. -/
theorem targetGroupings_eq (n : Node) :
    targetGroupings n = n.targetFields.filterMap Grouping.ofField? := by
  unfold targetGroupings Node.targetFields
  cases n.body.targetSchema? with
  | none => rfl
  | some s => exact Grouping.collect_eq s.fields

/-- The exported groupings are those of all fields of targets. -/
theorem groupings_exportAll (x : Exporter) (c : Canvas) :
    (x.exportAll c).2.1.groupings = c.targetFields.filterMap Grouping.ofField? := by
  change c.nodes.toList.flatMap targetGroupings = _
  rw [Canvas.targetFields, List.filterMap_flatMap]
  exact congrArg c.nodes.toList.flatMap (funext targetGroupings_eq)

end Exporter

namespace Restore

variable {c : Canvas} {gs gs' : List Grouping} {es : List Edge} {n : Node}

/-! ### What is restored -/

/-- An expanded node is in its category. -/
theorem category_expand (es : List Edge) (n : Node) : (expand es n).category = n.category := by
  unfold expand
  split
  · rename_i hb
    simp only [Node.category, hb]
  · rfl

/-- To expand again expands nothing. -/
theorem expand_expand (es : List Edge) (n : Node) : expand es (expand es n) = expand es n := by
  obtain ⟨id, position, body⟩ := n
  cases body with
  | source s => simp only [expand, TextSet.addAll_addAll]
  | _ => rfl

/-- A target whose arrays are settled stays as it is. -/
theorem settle_eq_self_of_settled (h : ∀ f ∈ n.targetFields, Grouping.Settled gs f) :
    settle gs n = n := by
  obtain ⟨id, position, body⟩ := n
  cases body with
  | target s => simp only [settle, Grouping.restore_eq_self s.fields h]
  | _ => rfl

/-- What is expanded in a source is no matter of target fields. -/
theorem targetFields_expand (es : List Edge) (n : Node) :
    (expand es n).targetFields = n.targetFields := by
  obtain ⟨id, position, body⟩ := n
  cases body <;> rfl

/-- After settling, all arrays of a target are settled. -/
theorem settled_settle : ∀ f ∈ (settle gs n).targetFields, Grouping.Settled gs f := by
  obtain ⟨id, position, body⟩ := n
  cases body with
  | target s => exact Grouping.settled_restore s.fields
  | _ => exact fun f hf => absurd hf List.not_mem_nil

/-- A settled node of a known type stays one. -/
theorem genuine_settle (h : n.Genuine) : (settle gs n).Genuine := by
  obtain ⟨id, position, body⟩ := n
  cases body with
  | target s => exact fun _ _ hb => by cases hb
  | _ => exact h

/-- An expanded node of a known type stays one. -/
theorem genuine_expand (h : n.Genuine) : (expand es n).Genuine := by
  obtain ⟨id, position, body⟩ := n
  cases body with
  | source s => exact fun _ _ hb => by cases hb
  | _ => exact h

/-- **The nodes of a round are those of the canvas**, regrouped, settled and expanded. -/
theorem nodes_restored (h : c.Coherent) :
    (restored gs c).nodes.toList =
      ((Category.regroup c.nodes.toList).map (settle gs)).map (expand c.keptEdges) := by
  refine Canvas.nodes_ofLists ?_ _
  have hids : (((Category.regroup c.nodes.toList).map (settle gs)).map (expand c.keptEdges)).map
      Node.id = (Category.regroup c.nodes.toList).map Node.id := by
    simp only [List.map_map, Function.comp_def, id_expand, id_settle]
  rw [hids]
  exact (perm_ids h).nodup_iff.2 h.nodup_ids

/-- The edges of a round are those with both ends. -/
theorem edges_restored : (restored gs c).edges.toList = c.keptEdges := Canvas.edges_ofLists _ _

/-- A restored canvas is coherent. -/
theorem coherent_restored : (restored gs c).Coherent := Canvas.coherent_ofLists _ _

/-- **No edge is lost a second time.** -/
theorem keptEdges_restored (h : c.Coherent) : (restored gs c).keptEdges = c.keptEdges := by
  have hids (id : String) : (((restored gs c).nodes.toList.map Node.id).contains id) =
      (c.nodes.toList.map Node.id).contains id := by
    rw [nodes_restored h, Bool.eq_iff_iff, List.contains_iff_mem, List.contains_iff_mem,
      ← (perm_ids h).mem_iff]
    simp only [List.map_map, Function.comp_def, id_expand, id_settle]
  rw [Canvas.keptEdges, edges_restored]
  simp only [hids, Canvas.keptEdges, List.filter_filter, Bool.and_self]

/-- A round makes no node of an unknown type. -/
theorem genuine_restored (h : c.Coherent) (hgenuine : ∀ n ∈ c.nodes.toList, n.Genuine)
    (gs : List Grouping) : ∀ n ∈ (restored gs c).nodes.toList, n.Genuine := by
  rw [nodes_restored h, List.map_map]
  intro n hn
  obtain ⟨m, hm, rfl⟩ := List.mem_map.1 hn
  exact genuine_expand (genuine_settle (hgenuine m (Category.mem_regroup.1 hm)))

/-- After a round all arrays are settled. -/
theorem settled_restored (h : c.Coherent) (gs : List Grouping) :
    ∀ f ∈ (restored gs c).targetFields, Grouping.Settled gs f := by
  intro f hf
  rw [Canvas.targetFields, nodes_restored h, List.map_map] at hf
  obtain ⟨n, hn, hf⟩ := List.mem_flatMap.1 hf
  obtain ⟨m, -, rfl⟩ := List.mem_map.1 hn
  rw [Function.comp_apply, targetFields_expand] at hf
  exact settled_settle f hf

/-- **What was restored is restored to itself**, from any groupings that settle its arrays. -/
theorem restored_restored (h : c.Coherent)
    (hsettled : ∀ f ∈ (restored gs c).targetFields, Grouping.Settled gs' f) :
    restored gs' (restored gs c) = restored gs c := by
  have hregroup : Category.regroup (restored gs c).nodes.toList = (restored gs c).nodes.toList := by
    rw [nodes_restored h, Category.regroup_map (category_expand _),
      Category.regroup_map category_settle, Category.regroup_regroup]
  have hsettle : (restored gs c).nodes.toList.map (settle gs') = (restored gs c).nodes.toList := by
    have hself : ∀ n ∈ (restored gs c).nodes.toList, settle gs' n = n := fun n hn =>
      settle_eq_self_of_settled fun f hf => hsettled f (List.mem_flatMap.2 ⟨n, hn, hf⟩)
    rw [List.map_congr_left hself, List.map_id']
  have hexpand : (restored gs c).nodes.toList.map (expand c.keptEdges) =
      (restored gs c).nodes.toList := by
    rw [nodes_restored h, List.map_map]
    exact List.map_congr_left fun n _ => expand_expand c.keptEdges n
  have hlists : restored gs c = .ofLists (restored gs c).nodes.toList c.keptEdges := by
    rw [nodes_restored h]
    rfl
  rw [restored, keptEdges_restored h, hregroup, hsettle, hexpand]
  exact hlists.symm

/-! ### What a round keeps -/

/-- A node of a round and what it has become: the node itself, but that in a source the paths are
expanded in addition that the edges leaving it need. -/
def Regained (es : List Edge) (n m : Node) : Prop :=
  m.id = n.id ∧ m.position = n.position ∧
    match n.body with
    | .source s =>
      ∃ expanded : TextSet, m.body = .source { s with expanded } ∧
        ∀ path, path ∈ expanded.toList ↔ path ∈ s.expanded.toList ∨
          ∃ e ∈ es, e.source = n.id ∧
            ∃ handle, e.sourceHandle? = some handle ∧ path ∈ Path.ancestors handle
    | b => m.body = b

/-- The needed paths of a node are the ancestors of the handles at which edges leave it. -/
theorem mem_neededPaths {id path : String} :
    path ∈ neededPaths es id ↔
      ∃ e ∈ es, e.source = id ∧
        ∃ handle, e.sourceHandle? = some handle ∧ path ∈ Path.ancestors handle := by
  simp only [neededPaths, List.mem_flatMap, List.mem_filter, beq_iff_eq, and_assoc]
  refine exists_congr fun e => and_congr_right fun _ => and_congr_right fun _ => ?_
  cases e.sourceHandle? <;> simp

/-- Expanding a node adds the paths that the edges need, and nothing else. -/
theorem regained_expand (es : List Edge) (n : Node) : Regained es n (expand es n) := by
  obtain ⟨id, position, body⟩ := n
  cases body with
  | source s =>
    refine ⟨rfl, rfl, s.expanded.addAll (neededPaths es id), rfl, fun path => ?_⟩
    rw [TextSet.mem_addAll, mem_neededPaths, or_comm]
  | _ => exact ⟨rfl, rfl, rfl⟩

/-- Rules do not read what is expanded. -/
theorem essence_expand (es : List Edge) (n : Node) : (expand es n).essence = n.essence := by
  obtain ⟨id, position, body⟩ := n
  cases body <;> rfl

/-- Where the arrays are settled already, a round regroups and expands only. -/
theorem nodes_restored_of_settled (h : c.Coherent)
    (hsettled : ∀ f ∈ c.targetFields, Grouping.Settled gs f) :
    (restored gs c).nodes.toList =
      (Category.regroup c.nodes.toList).map (expand c.keptEdges) := by
  have hself : ∀ n ∈ Category.regroup c.nodes.toList, settle gs n = n := fun n hn =>
    settle_eq_self_of_settled fun f hf =>
      hsettled f (List.mem_flatMap.2 ⟨n, Category.mem_regroup.1 hn, hf⟩)
  rw [nodes_restored h, List.map_congr_left hself, List.map_id']

/-- What is collected from targets alone, whatever is expanded, is collected as before. -/
theorem flatMap_restored {α : Type} {f g : Node → List α} (h : c.Coherent)
    (hsettled : ∀ f ∈ c.targetFields, Grouping.Settled gs f)
    (hfg : ∀ n, f (expand c.keptEdges n) = g n) (hg : ∀ n, n.category ≠ .target → g n = []) :
    (restored gs c).nodes.toList.flatMap f = c.nodes.toList.flatMap g := by
  rw [nodes_restored_of_settled h hsettled, List.flatMap_map]
  simp only [hfg]
  exact Category.flatMap_regroup hg

/-- Rules read the same before and after a round that loses no edge and settles no array. -/
theorem agree_restored (h : c.Coherent) (hsettled : ∀ f ∈ c.targetFields, Grouping.Settled gs f)
    (hkept : c.keptEdges = c.edges.toList) : (restored gs c).Agree c := by
  refine coherent_restored.agree h (fun k => ?_) (edges_restored.trans hkept)
  rw [nodes_restored_of_settled h hsettled]
  simp only [List.map_map, Function.comp_def, essence_expand, List.mem_map, Category.mem_regroup]

/-- The same edges arrive after such a round. -/
theorem arrivals_restored (h : c.Coherent)
    (hsettled : ∀ f ∈ c.targetFields, Grouping.Settled gs f)
    (hkept : c.keptEdges = c.edges.toList) : (restored gs c).arrivals = c.arrivals := by
  have hincoming (id : String) : (restored gs c).incoming id = c.incoming id := by
    rw [coherent_restored.incoming_eq, h.incoming_eq, edges_restored, hkept]
  refine flatMap_restored h hsettled (fun n => ?_) fun n hn => ?_
  · obtain ⟨id, position, body⟩ := n
    cases body <;> simp only [Canvas.arrivalsAt, Canvas.incomingAt, hincoming] <;> rfl
  · rw [Canvas.arrivalsAt, Node.targetSchema?_of_ne hn]

/-- The same groupings are there after such a round. -/
theorem groupings_restored (h : c.Coherent)
    (hsettled : ∀ f ∈ c.targetFields, Grouping.Settled gs f) :
    (restored gs c).nodes.toList.flatMap Exporter.targetGroupings =
      c.nodes.toList.flatMap Exporter.targetGroupings := by
  refine flatMap_restored h hsettled (fun n => ?_) fun n hn => ?_
  · rw [Exporter.targetGroupings_eq, Exporter.targetGroupings_eq, targetFields_expand]
  · rw [Exporter.targetGroupings, Node.targetSchema?_of_ne hn]

/-- **A round that drops no edge and settles what is settled leaves the rules alone.** -/
theorem exportRules_restored (h : c.Coherent)
    (hsettled : ∀ f ∈ c.targetFields, Grouping.Settled gs f)
    (hkept : c.keptEdges = c.edges.toList) (x : Exporter) :
    x.exportRules (restored gs c) = x.exportRules c :=
  Canvas.exportRules_congr (agree_restored h hsettled hkept) (arrivals_restored h hsettled hkept)
    (groupings_restored h hsettled) x

/-- **What comes out of one round comes out of the next.** -/
theorem restore_again (h : c.Coherent) (hgenuine : ∀ n ∈ c.nodes.toList, n.Genuine)
    (hsettled : ∀ f ∈ (restored gs c).targetFields, Grouping.Settled gs' f) (x : Exporter) :
    restore gs' (x.exportSnapshot (restored gs c)).1 = .ok (restored gs c) := by
  rw [restore_export coherent_restored (genuine_restored h hgenuine gs),
    restored_restored h hsettled]

end Restore

namespace Exporter

/-- **A second round changes nothing.**  Of a canvas read from a document a round never fails, nor
does a round of what comes out of it, which is again the same canvas; with the exported groupings
and without any. -/
theorem round_idempotent {mode : Reading} {doc : Json} {c : Canvas}
    (h : Canvas.decode mode doc = .ok c) (x y : Exporter) :
    (∃ d, x.round c = .ok d ∧ y.round d = .ok d) ∧
      ∃ d, x.plainRound c = .ok d ∧ y.plainRound d = .ok d := by
  obtain ⟨hc, hgenuine⟩ := Canvas.decode_ensures mode doc c h
  have hsettled := Restore.settled_restored hc
  constructor
  · refine ⟨_, Restore.restore_export hc hgenuine _ x, Restore.restore_again hc hgenuine ?_ y⟩
    rw [groupings_exportAll y]
    exact Grouping.settled_of_agree (Grouping.agree_of_settled (hsettled _))
  · exact ⟨_, Restore.restore_export hc hgenuine _ x,
      Restore.restore_again hc hgenuine (hsettled _) y⟩

/-- A canvas document with a target whose array is grouped, a source, a node of unknown type, an
edge from inside a container of the source and one that has lost its target. -/
def sampleDocument : Json :=
  .object [
    ("nodes", .array [
      .object [("id", .string "out"), ("type", .string "target"), ("data", .object [
        ("fields", .array [.object [("id", .string "lines"), ("name", .string "lines"),
          ("type", .string "array"), ("groupBy", .string "sku"),
          ("children",
            .array [.object [("id", .string "lines.sku"), ("name", .string "sku")]])]])])],
      .object [("id", .string "in"), ("type", .string "source")],
      .object [("id", .string "next"), ("type", .string "aggregate")]]),
    ("edges", .array [
      .object [("id", .string "on"), ("source", .string "in"),
        ("sourceHandle", .string "items.sku"), ("target", .string "out"),
        ("targetHandle", .string "lines.sku")],
      .object [("id", .string "lost"), ("source", .string "in"), ("target", .string "gone")]])]

/-- The array of the sample's target. -/
def sampleArray : Field :=
  ⟨"lines", "lines", .array, some [⟨"lines.sku", "sku", .string, none, none⟩], some "sku"⟩

/-- The nodes of the sample. -/
def sampleNodes : List Node :=
  [⟨"out", .origin, .target (.ofFields "target" [sampleArray])⟩,
    ⟨"in", .origin, .source (.ofFields "source" [])⟩,
    ⟨"next", .origin, .unknown "aggregate" .null⟩]

/-- The canvas of the sample. -/
def sample : Canvas :=
  .ofLists sampleNodes
    [⟨"on", "in", some "items.sku", "out", some "lines.sku"⟩, ⟨"lost", "in", none, "gone", none⟩]

/-- The sample is exported under default settings. -/
def sampleExporter : Exporter := ⟨.default, "orders", "Orders", none, ⟨0, 0⟩, none, []⟩

theorem decode_sample : Canvas.decode .held sampleDocument = .ok sample := rfl

/-- One round of the sample is one round of what comes out of it. -/
theorem round_idempotent_sample :
    Canvas.decode .held sampleDocument = .ok sample ∧
      (∃ d, sampleExporter.round sample = .ok d ∧ sampleExporter.round d = .ok d) ∧
      ∃ d, sampleExporter.plainRound sample = .ok d ∧ sampleExporter.plainRound d = .ok d :=
  ⟨decode_sample, round_idempotent decode_sample sampleExporter sampleExporter⟩

/-- **What a round keeps.**  If arrays of one name have one grouping, a round of a canvas read from
a document succeeds and yields the nodes category by category, each with nothing changed but what
the kept edges expand in it, and the edges with both ends, as they were; and if all edges have both
ends, what is exported of its rules is what was exported before. -/
theorem round_exact {mode : Reading} {doc : Json} {c : Canvas}
    (h : Canvas.decode mode doc = .ok c) (hagree : Grouping.Agree c.targetFields) (x : Exporter) :
    ∃ d, x.round c = .ok d ∧
      List.Forall₂ (Restore.Regained c.keptEdges) (Category.regroup c.nodes.toList)
        d.nodes.toList ∧
      d.edges.toList = c.keptEdges ∧ d.Coherent ∧
      ((∀ e ∈ c.edges.toList, e ∈ c.keptEdges) →
        ∀ y : Exporter, y.exportRules d = y.exportRules c) := by
  obtain ⟨hc, hgenuine⟩ := Canvas.decode_ensures mode doc c h
  have hsettled := Grouping.settled_of_agree hagree
  rw [← groupings_exportAll x] at hsettled
  refine ⟨_, Restore.restore_export hc hgenuine _ x, ?_, Restore.edges_restored,
    Restore.coherent_restored, fun hkept y => ?_⟩
  · rw [Restore.nodes_restored_of_settled hc hsettled, List.forall₂_map_right_iff,
      List.forall₂_same]
    exact fun n _ => Restore.regained_expand c.keptEdges n
  · refine Restore.exportRules_restored hc hsettled ?_ y
    exact List.filter_eq_self.2 fun e he => (List.mem_filter.1 (hkept e he)).2

/-- The nodes of the sample have distinct ids, so all of them are there. -/
theorem nodes_sample : sample.nodes.toList = sampleNodes := Canvas.nodes_ofLists (by decide) _

/-- The sample has one array, so its groupings agree. -/
theorem agree_sample : Grouping.Agree sample.targetFields := by
  have hfields : sample.targetFields = Field.preorderForest [sampleArray] := by
    rw [Canvas.targetFields, nodes_sample]
    rfl
  rw [hfields]
  intro f hf g hg hfa hga _
  have hone : ∀ f ∈ Field.preorderForest [sampleArray], f.dataType = .array → f = sampleArray := by
    intro f hf ha
    rcases List.mem_cons.1 hf with rfl | hf
    · rfl
    · obtain rfl := List.mem_singleton.1 hf
      cases ha
  rw [hone f hf hfa, hone g hg hga]

/-- A round of the sample puts the source in front of the target and drops the edge that has lost
its target. -/
theorem round_exact_sample :
    Canvas.decode .held sampleDocument = .ok sample ∧ Grouping.Agree sample.targetFields ∧
      ∃ d, sampleExporter.round sample = .ok d ∧
        d.nodes.toList.map Node.id = ["in", "out", "next"] ∧
        d.edges.toList.map Edge.id = ["on"] := by
  obtain ⟨d, hd, hnodes, hedges, -⟩ := round_exact decode_sample agree_sample sampleExporter
  have hids : (Category.regroup sample.nodes.toList).map Node.id = d.nodes.toList.map Node.id := by
    rw [← List.forall₂_eq_eq_eq, List.forall₂_map_left_iff, List.forall₂_map_right_iff]
    exact hnodes.imp fun _ _ h => h.1.symm
  refine ⟨decode_sample, agree_sample, d, hd, ?_, ?_⟩
  · rw [← hids, nodes_sample]
    rfl
  · rw [hedges, Canvas.keptEdges, nodes_sample, sample, Canvas.edges_ofLists]
    rfl

end Exporter
end MappingCanvas
