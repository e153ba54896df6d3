/-
# The edges that rules come from

Rules are exported target by target, field by field and edge by edge.  `Canvas.arrivals` is that
order written down once, as a list of edges with the names of the fields they arrive at; the rules
and the warnings of an export are what the arrivals resolve to (`exportRules_eq`).

The places at which edges arrive are the fields of the targets (`Canvas.ports`): an edge is among
the arrivals when its target is a target and its handle is the id of a field there (`mem_arrivals`).
-/

import MappingCanvas.Compile.Export
import MappingCanvas.Proofs.Canvas.Index
import MappingCanvas.Proofs.Schema.Traversal

namespace MappingCanvas

/-- The edges that arrive at the fields of one node, with the names of the fields. -/
def Canvas.arrivalsAt (c : Canvas) (n : Node) : List (Edge × String) :=
  match n.body.targetSchema? with
  | some s =>
    (Field.walk s.fields).flatMap fun f => (c.incomingAt n.id f.id).map fun e => (e, f.name)
  | none => []

/-- The edges that arrive at the fields of targets, with the names of the fields, in the order in
which they are resolved. -/
def Canvas.arrivals (c : Canvas) : List (Edge × String) := c.nodes.toList.flatMap c.arrivalsAt

/-! ### Ports -/

/-- The fields of a node, if it is a target, each with the id of the node. -/
def Node.ports (n : Node) : List (String × Field) :=
  match n.body.targetSchema? with
  | some s => (Field.preorderForest s.fields).map (n.id, ·)
  | none => []

/-- The places at which edges can arrive: the fields of the targets. -/
def Canvas.ports (c : Canvas) : List (String × Field) := c.nodes.toList.flatMap Node.ports

/-- Whether an edge arrives at a port. -/
def Edge.meets (e : Edge) (port : String × Field) : Bool :=
  e.target == port.1 && e.targetHandle? == some port.2.id

/-- An edge arrives at a field when it names both the node and the field. -/
theorem Edge.meets_iff {e : Edge} {port : String × Field} :
    e.meets port = true ↔ e.target = port.1 ∧ e.targetHandle? = some port.2.id := by
  simp [meets]

/-- The ports of a target are all the fields of its tree, and other nodes have none. -/
theorem Node.mem_ports {n : Node} {port : String × Field} :
    port ∈ n.ports ↔ port.1 = n.id ∧ ∃ s, n.body = .target s ∧
      port.2 ∈ Field.preorderForest s.fields := by
  obtain ⟨id, position, body⟩ := n
  obtain ⟨id', f⟩ := port
  cases body <;> simp [ports, Node.Body.targetSchema?, and_comm, eq_comm (a := id')]

namespace Canvas

variable {c : Canvas} {e : Edge} {name : String}

/-- Ports are the fields of targets, each with the id of its target. -/
theorem mem_ports {port : String × Field} :
    port ∈ c.ports ↔ ∃ n ∈ c.nodes.toList, n.id = port.1 ∧ ∃ s, n.body = .target s ∧
      port.2 ∈ Field.preorderForest s.fields := by
  simp only [ports, List.mem_flatMap, Node.mem_ports, eq_comm (a := port.1)]

/-- **The edges that arrive at fields, port by port.** -/
theorem Coherent.arrivals_eq (hc : c.Coherent) :
    c.arrivals = c.ports.flatMap fun port =>
      (c.edges.toList.filter fun e => e.meets port).map fun e => (e, port.2.name) := by
  rw [arrivals, ports, List.flatMap_assoc]
  refine List.flatMap_congr fun n _ => ?_
  unfold arrivalsAt Node.ports
  cases n.body.targetSchema? with
  | none => rfl
  | some s =>
    simp only [Field.walk_eq_preorder, List.flatMap_map, incomingAt, hc.incoming_eq,
      List.filter_filter, Edge.meets, Bool.and_comm]

/-- **An edge arrives under the name of a field when its handle is the id of the field.** -/
theorem Coherent.mem_arrivals (hc : c.Coherent) :
    (e, name) ∈ c.arrivals ↔ e ∈ c.edges.toList ∧
      ∃ n ∈ c.nodes.toList, n.id = e.target ∧ ∃ s, n.body = .target s ∧
        ∃ f ∈ Field.preorderForest s.fields, e.targetHandle? = some f.id ∧ f.name = name := by
  rw [hc.arrivals_eq, List.mem_flatMap]
  constructor
  · rintro ⟨port, hport, hmem⟩
    obtain ⟨e, he, heq⟩ := List.mem_map.1 hmem
    obtain ⟨rfl, rfl⟩ := Prod.mk.inj heq
    obtain ⟨he, hmeets⟩ := List.mem_filter.1 he
    obtain ⟨htarget, hhandle⟩ := Edge.meets_iff.1 hmeets
    obtain ⟨n, hn, hid, s, hs, hf⟩ := mem_ports.1 hport
    exact ⟨he, n, hn, hid.trans htarget.symm, s, hs, port.2, hf, hhandle, rfl⟩
  · rintro ⟨he, n, hn, hid, s, hs, f, hf, hhandle, rfl⟩
    refine ⟨(e.target, f), mem_ports.2 ⟨n, hn, hid, s, hs, hf⟩, List.mem_map.2 ⟨e, ?_, rfl⟩⟩
    exact List.mem_filter.2 ⟨he, Edge.meets_iff.2 ⟨rfl, hhandle⟩⟩

end Canvas

namespace Exporter

/-- An exporter with nothing but the settings that are used when none are given. -/
def plainExporter : Exporter := ⟨.default, "", "", none, ⟨0, 0⟩, none, []⟩

/-- The edges that arrive at a target are resolved one by one. -/
theorem resolveTarget_eq (c : Canvas) (limit : Nat) (n : Node) :
    resolveTarget c limit n = (c.arrivalsAt n).map fun a => c.resolve limit a.1 a.2 := by
  unfold resolveTarget Canvas.arrivalsAt
  cases n.body.targetSchema? with
  | none => rfl
  | some s =>
    simp only [List.map_flatMap, List.map_map]
    rfl

/-- **Rules and warnings are what the arrivals resolve to.** -/
theorem exportRules_eq (x : Exporter) (c : Canvas) :
    x.exportRules c =
      (⟨if x.name.isEmpty then none else some x.name, some x.version,
          c.arrivals.filterMap fun a => rule? (c.resolve x.options.maxResolveDepth a.1 a.2),
          c.nodes.toList.flatMap targetGroupings⟩,
        c.arrivals.filterMap fun a => warning? (c.resolve x.options.maxResolveDepth a.1 a.2)) := by
  have h : c.nodes.toList.flatMap (resolveTarget c x.options.maxResolveDepth) =
      c.arrivals.map fun a => c.resolve x.options.maxResolveDepth a.1 a.2 := by
    simp only [Canvas.arrivals, List.map_flatMap, ← resolveTarget_eq]
  simp only [exportRules, h, List.filterMap_map, Function.comp_def]

end Exporter
end MappingCanvas
