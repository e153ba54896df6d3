/-
# The indices of a canvas

`Canvas.Coherent` holds of the empty canvas and is kept by every change, so it holds of every
canvas that is built from nodes and edges (`coherent_ofLists`).  In a coherent canvas the
questions are answered by the lists alone: `Coherent.node?_eq_some_iff` and `incoming_eq` say how.
A list of nodes whose ids do not repeat goes through `Canvas.ofLists` as it is.
-/

import Mathlib.Data.List.Nodup
import MappingCanvas.Canvas.Basic
import Std.Data.HashMap.Lemmas

namespace MappingCanvas
namespace Canvas

variable {c : Canvas}

/-! ### What a change leaves alone -/

@[simp] theorem edges_pushNode (c : Canvas) (n : Node) : (c.pushNode n).edges = c.edges := by
  unfold pushNode; split <;> rfl

@[simp] theorem incomingIndex_pushNode (c : Canvas) (n : Node) :
    (c.pushNode n).incomingIndex = c.incomingIndex := by
  unfold pushNode; split <;> rfl

@[simp] theorem nodes_setEdges (c : Canvas) (es : List Edge) : (c.setEdges es).nodes = c.nodes := by
  suffices h : ∀ d : Canvas, (es.foldl pushEdge d).nodes = d.nodes from h c.clearEdges
  induction es with
  | nil => exact fun _ => rfl
  | cons e es ih => exact fun d => ih (d.pushEdge e)

@[simp] theorem edges_setEdges (c : Canvas) (es : List Edge) :
    (c.setEdges es).edges.toList = es := by
  suffices h : ∀ d : Canvas, (es.foldl pushEdge d).edges.toList = d.edges.toList ++ es by
    simpa [setEdges, clearEdges] using h c.clearEdges
  induction es with
  | nil => simp
  | cons e es ih =>
    intro d
    rw [List.foldl_cons, ih]
    simp [pushEdge]

/-- The empty canvas is coherent. -/
theorem coherent_empty : empty.Coherent where
  node_iff id i := by simp [empty]
  incoming_eq id := by simp [empty, incoming]
  place_lt id places h := by simp [empty] at h

/-- The edges that arrive at a node are a matter of the edges and their index. -/
theorem incoming_congr {d : Canvas} (he : d.edges = c.edges)
    (hi : d.incomingIndex = c.incomingIndex) (id : String) : d.incoming id = c.incoming id := by
  unfold incoming; rw [he, hi]

/-- **A pushed node keeps the canvas coherent.**  Either it replaces the node with its id, so that
every place keeps its id, or it comes last under an id of its own. -/
theorem Coherent.pushNode (h : c.Coherent) (n : Node) : (c.pushNode n).Coherent where
  incoming_eq id := by
    rw [incoming_congr (edges_pushNode c n) (incomingIndex_pushNode c n), edges_pushNode]
    exact h.incoming_eq id
  place_lt id places hp := by
    rw [incomingIndex_pushNode] at hp
    rw [edges_pushNode]
    exact h.place_lt id places hp
  node_iff id i := by
    unfold Canvas.pushNode
    cases hn : c.nodeIndex[n.id]? with
    | some k =>
      obtain ⟨m, hm, hid⟩ := (h.node_iff n.id k).1 hn
      have hk : k < c.nodes.size := (Array.getElem?_eq_some_iff.1 hm).1
      simp only [h.node_iff, Array.getElem?_setIfInBounds]
      by_cases hki : k = i
      · subst hki
        rw [← (Array.getElem?_eq_some_iff.1 hm).2] at hid
        simp [hk, hid]
      · simp [hki]
    | none =>
      have hfresh (j : Nat) (m : Node) (hm : c.nodes[j]? = some m) : m.id ≠ n.id := fun hid => by
        have := (h.node_iff n.id j).2 ⟨m, hm, hid⟩
        simp [hn] at this
      simp only [Std.HashMap.getElem?_insert, Array.getElem?_push, beq_iff_eq]
      by_cases hid : n.id = id
      · subst hid
        by_cases hi : i = c.nodes.size
        · simp [hi]
        · simp only [if_true, if_neg hi, Option.some.injEq]
          exact ⟨fun he => absurd he.symm hi, fun ⟨m, hm, hmid⟩ => absurd hmid (hfresh i m hm)⟩
      · rw [if_neg hid, h.node_iff]
        by_cases hi : i = c.nodes.size
        · subst hi
          simp [hid]
        · simp [hi]

/-- After an edge is pushed it is found last at its target, and nothing changes at other nodes. -/
theorem incoming_pushEdge (h : c.Coherent) (e : Edge) (id : String) :
    (c.pushEdge e).incoming id = c.incoming id ++ if e.target = id then [e] else [] := by
  have old : ∀ (key : String) places, c.incomingIndex[key]? = some places →
      places.toList.filterMap (fun i => (c.edges.push e)[i]?) =
        places.toList.filterMap fun i => c.edges[i]? := fun key places hp =>
    List.filterMap_congr fun i hi => by
      have := h.place_lt key places hp i (Array.mem_toList_iff.1 hi)
      rw [Array.getElem?_push, if_neg (by omega)]
  simp only [incoming, Canvas.pushEdge, Std.HashMap.getElem?_insert, beq_iff_eq]
  by_cases hid : e.target = id
  · subst hid
    simp only [if_true]
    cases hp : c.incomingIndex[e.target]? with
    | none => simp [Std.HashMap.getD_eq_getD_getElem?, hp]
    | some places => simp [Std.HashMap.getD_eq_getD_getElem?, hp, old _ places hp]
  · simp only [if_neg hid, List.append_nil]
    cases hp : c.incomingIndex[id]? with
    | none => rfl
    | some places => exact old id places hp

/-- **A pushed edge keeps the canvas coherent.** -/
theorem Coherent.pushEdge (h : c.Coherent) (e : Edge) : (c.pushEdge e).Coherent where
  node_iff := h.node_iff
  incoming_eq id := by
    rw [incoming_pushEdge h, h.incoming_eq]
    by_cases hid : e.target = id <;> simp [Canvas.pushEdge, hid]
  place_lt id places hp i hi := by
    simp only [Canvas.pushEdge, Std.HashMap.getElem?_insert, beq_iff_eq] at hp
    simp only [Canvas.pushEdge, Array.size_push]
    split at hp
    · obtain rfl := Option.some.inj hp
      rcases Array.mem_push.1 hi with hi | rfl
      · cases hq : c.incomingIndex[e.target]? with
        | none => simp [Std.HashMap.getD_eq_getD_getElem?, hq] at hi
        | some old =>
          rw [Std.HashMap.getD_eq_getD_getElem?, hq] at hi
          exact Nat.lt_succ_of_lt (h.place_lt _ _ hq i hi)
      · exact Nat.lt_succ_self _
    · exact Nat.lt_succ_of_lt (h.place_lt id places hp i hi)

/-- Without edges a canvas is coherent: the nodes and their index stay. -/
theorem Coherent.clearEdges (h : c.Coherent) : c.clearEdges.Coherent where
  node_iff := h.node_iff
  incoming_eq id := by simp [Canvas.clearEdges, incoming]
  place_lt id places hp := by simp [Canvas.clearEdges] at hp

/-- Without nodes a canvas is coherent: the edges and their index stay, although they lead
nowhere. -/
theorem Coherent.clearNodes (h : c.Coherent) : c.clearNodes.Coherent where
  node_iff id i := by simp [Canvas.clearNodes]
  incoming_eq := h.incoming_eq
  place_lt := h.place_lt

/-- Exchanging all nodes keeps the canvas coherent. -/
theorem Coherent.setNodes (h : c.Coherent) (ns : List Node) : (c.setNodes ns).Coherent := by
  suffices hd : ∀ d : Canvas, d.Coherent → (ns.foldl Canvas.pushNode d).Coherent from
    hd _ h.clearNodes
  induction ns with
  | nil => exact fun _ hd => hd
  | cons n ns ih => exact fun d hd => ih _ (hd.pushNode n)

/-- Exchanging all edges keeps the canvas coherent. -/
theorem Coherent.setEdges (h : c.Coherent) (es : List Edge) : (c.setEdges es).Coherent := by
  suffices hd : ∀ d : Canvas, d.Coherent → (es.foldl Canvas.pushEdge d).Coherent from
    hd _ h.clearEdges
  induction es with
  | nil => exact fun _ hd => hd
  | cons e es ih => exact fun d hd => ih _ (hd.pushEdge e)

/-- **Every canvas of some nodes and edges is coherent.** -/
theorem coherent_ofLists (ns : List Node) (es : List Edge) : (ofLists ns es).Coherent :=
  (coherent_empty.setNodes ns).setEdges es

/-! ### Questions answered by the lists -/

/-- **The index finds a node exactly if it is in the canvas under the id.** -/
theorem Coherent.node?_eq_some_iff (h : c.Coherent) {id : String} {n : Node} :
    c.node? id = some n ↔ n ∈ c.nodes.toList ∧ n.id = id := by
  unfold node?
  rw [Option.bind_eq_bind, Option.bind_eq_some_iff, Array.mem_toList_iff, Array.mem_iff_getElem?]
  constructor
  · rintro ⟨i, hi, hn⟩
    obtain ⟨m, hm, hid⟩ := (h.node_iff id i).1 hi
    obtain rfl := Option.some.inj (hm.symm.trans hn)
    exact ⟨⟨i, hn⟩, hid⟩
  · rintro ⟨⟨i, hn⟩, hid⟩
    exact ⟨i, (h.node_iff id i).2 ⟨n, hn, hid⟩, hn⟩

/-- A node of the canvas is found by its id, since no two nodes have one id. -/
theorem Coherent.node?_of_mem (h : c.Coherent) {n : Node} (hn : n ∈ c.nodes.toList) :
    c.node? n.id = some n :=
  h.node?_eq_some_iff.2 ⟨hn, rfl⟩

/-- A node is found under its own id, also when the canvas is not coherent. -/
theorem mem_of_node? {id : String} {n : Node} (h : c.node? id = some n) : n ∈ c.nodes.toList := by
  unfold node? at h
  obtain ⟨i, -, hn⟩ := Option.bind_eq_some_iff.1 h
  exact Array.mem_toList_iff.2 (Array.mem_of_getElem? hn)

/-- Ids that the canvas contains are those of its nodes. -/
theorem Coherent.contains_iff (h : c.Coherent) {id : String} :
    c.contains id = true ↔ ∃ n ∈ c.nodes.toList, n.id = id := by
  unfold contains
  rw [← Std.HashMap.isSome_getElem?_eq_contains, Option.isSome_iff_exists]
  constructor
  · rintro ⟨i, hi⟩
    obtain ⟨n, hn, hid⟩ := (h.node_iff id i).1 hi
    exact ⟨n, Array.mem_toList_iff.2 (Array.mem_of_getElem? hn), hid⟩
  · rintro ⟨n, hn, hid⟩
    obtain ⟨i, hi⟩ := Array.mem_iff_getElem?.1 (Array.mem_toList_iff.1 hn)
    exact ⟨i, (h.node_iff id i).2 ⟨n, hi, hid⟩⟩

/-- The question whether an id is contained can be answered from the list of ids. -/
theorem Coherent.contains_eq (h : c.Coherent) (id : String) :
    c.contains id = (c.nodes.toList.map Node.id).contains id := by
  rw [Bool.eq_iff_iff, h.contains_iff, List.contains_iff_mem, List.mem_map]

/-- The first input of a node is the first edge that leads there. -/
theorem Coherent.firstInput?_eq (h : c.Coherent) {id : String} :
    c.firstInput? id = c.edges.toList.find? fun e => e.target == id := by
  rw [firstInput?, h.incoming_eq, List.head?_filter]

/-- **Ids do not repeat.** -/
theorem Coherent.nodup_ids (h : c.Coherent) : (c.nodes.toList.map Node.id).Nodup := by
  rw [List.nodup_iff_getElem?_ne_getElem?]
  intro i j hij hj heq
  simp only [List.length_map, Array.length_toList] at hj
  simp only [List.getElem?_map, Array.getElem?_toList] at heq
  have hi : i < c.nodes.size := by omega
  rw [Array.getElem?_eq_getElem hi, Array.getElem?_eq_getElem hj] at heq
  have hid : c.nodes[i].id = c.nodes[j].id := Option.some.inj heq
  have h₁ := (h.node_iff c.nodes[j].id i).2 ⟨_, Array.getElem?_eq_getElem hi, hid⟩
  have h₂ := (h.node_iff c.nodes[j].id j).2 ⟨_, Array.getElem?_eq_getElem hj, rfl⟩
  rw [h₁] at h₂
  exact absurd (Option.some.inj h₂) (by omega)

/-! ### Canvases of lists -/

@[simp] theorem edges_ofLists (ns : List Node) (es : List Edge) :
    (ofLists ns es).edges.toList = es := edges_setEdges _ es

/-- Nodes with fresh ids are appended in order when they are pushed. -/
theorem nodes_foldl_pushNode {ns : List Node} {d : Canvas} (h : d.Coherent)
    (hn : (d.nodes.toList.map Node.id ++ ns.map Node.id).Nodup) :
    (ns.foldl pushNode d).nodes.toList = d.nodes.toList ++ ns := by
  induction ns generalizing d with
  | nil => simp
  | cons n ns ih =>
    have hfresh : d.nodeIndex[n.id]? = none := by
      rw [Option.eq_none_iff_forall_not_mem]
      intro i hi
      obtain ⟨m, hm, hid⟩ := (h.node_iff n.id i).1 hi
      have hmem : n.id ∈ d.nodes.toList.map Node.id :=
        List.mem_map.2 ⟨m, Array.mem_toList_iff.2 (Array.mem_of_getElem? hm), hid⟩
      exact List.disjoint_of_nodup_append hn hmem (by simp)
    have hpush : (d.pushNode n).nodes.toList = d.nodes.toList ++ [n] := by
      unfold Canvas.pushNode
      rw [hfresh]
      simp
    rw [List.foldl_cons, ih (h.pushNode n) (by simpa [hpush] using hn), hpush]
    simp

/-- **Nodes whose ids do not repeat stay as they are.** -/
theorem nodes_ofLists {ns : List Node} (h : (ns.map Node.id).Nodup) (es : List Edge) :
    (ofLists ns es).nodes.toList = ns := by
  have : (ns.foldl pushNode empty).nodes.toList = empty.nodes.toList ++ ns :=
    nodes_foldl_pushNode coherent_empty (by simpa [empty] using h)
  simpa [ofLists, setNodes, clearNodes, empty] using this

/-! ### Canvases from their own lists -/

@[simp] theorem edges_setNodes (c : Canvas) (ns : List Node) : (c.setNodes ns).edges = c.edges := by
  suffices h : ∀ d : Canvas, (ns.foldl pushNode d).edges = d.edges from h c.clearNodes
  induction ns with
  | nil => exact fun _ => rfl
  | cons n ns ih => exact fun d => (ih _).trans (edges_pushNode d n)

@[simp] theorem incomingIndex_setNodes (c : Canvas) (ns : List Node) :
    (c.setNodes ns).incomingIndex = c.incomingIndex := by
  suffices h : ∀ d : Canvas, (ns.foldl pushNode d).incomingIndex = d.incomingIndex from
    h c.clearNodes
  induction ns with
  | nil => exact fun _ => rfl
  | cons n ns ih => exact fun d => (ih _).trans (incomingIndex_pushNode d n)

/-- Nodes with the same ids leave the same index. -/
theorem nodeIndex_setNodes_congr (c : Canvas) {ns ms : List Node}
    (h : ns.map Node.id = ms.map Node.id) :
    (c.setNodes ns).nodeIndex = (c.setNodes ms).nodeIndex := by
  suffices hd : ∀ d d' : Canvas, d.nodeIndex = d'.nodeIndex → d.nodes.size = d'.nodes.size →
      (ns.foldl pushNode d).nodeIndex = (ms.foldl pushNode d').nodeIndex from
    hd c.clearNodes c.clearNodes rfl rfl
  induction ns generalizing ms with
  | nil =>
    obtain rfl := List.map_eq_nil_iff.1 h.symm
    exact fun _ _ hi _ => hi
  | cons n ns ih =>
    obtain ⟨m, ms, rfl, hid, hrest⟩ := List.map_eq_cons_iff.1 h.symm
    intro d d' hi hs
    refine ih hrest.symm _ _ ?_ ?_
    · unfold pushNode
      rw [hi, hid]
      cases d'.nodeIndex[n.id]? <;> simp only [hs]
    · unfold pushNode
      rw [hi, hid]
      cases d'.nodeIndex[n.id]? <;> simp [hs]

/-- Canvases with equal lists and indices are equal. -/
theorem ext_parts {d : Canvas} (hn : c.nodes = d.nodes) (he : c.edges = d.edges)
    (hi : c.nodeIndex = d.nodeIndex) (hin : c.incomingIndex = d.incomingIndex) : c = d := by
  obtain ⟨_, _, _, _⟩ := c
  obtain ⟨_, _, _, _⟩ := d
  simp_all only

/-- A canvas that is made of its own nodes still is when a node is pushed: a replaced node leaves
the index as it is, and a new one comes last. -/
theorem setNodes_pushNode {d : Canvas} (hc : c.Coherent) (hd : d.Coherent)
    (h : c.setNodes d.nodes.toList = d) (n : Node) :
    c.setNodes (d.pushNode n).nodes.toList = d.pushNode n := by
  cases hn : d.nodeIndex[n.id]? with
  | none =>
    have hpush : (d.pushNode n).nodes.toList = d.nodes.toList ++ [n] := by
      unfold pushNode
      rw [hn]
      exact Array.toList_push
    rw [hpush, setNodes, List.foldl_append]
    exact congrArg (pushNode · n) h
  | some i =>
    obtain ⟨m, hm, hid⟩ := (hd.node_iff n.id i).1 hn
    obtain ⟨hlt, hm⟩ := Array.getElem?_eq_some_iff.1 hm
    have hpush : d.pushNode n = { d with nodes := d.nodes.setIfInBounds i n } := by
      unfold pushNode
      rw [hn]
    have hids : (d.nodes.setIfInBounds i n).toList.map Node.id = d.nodes.toList.map Node.id := by
      refine List.ext_getElem? fun j => ?_
      rw [Array.toList_setIfInBounds, List.map_set, List.getElem?_set]
      split
      · rename_i heq
        subst heq
        simp [hlt, hm, hid]
      · rfl
    have hindex : (c.setNodes (d.nodes.setIfInBounds i n).toList).nodeIndex = d.nodeIndex :=
      (c.nodeIndex_setNodes_congr hids).trans (congrArg nodeIndex h)
    have hnodes : (c.setNodes (d.nodes.setIfInBounds i n).toList).nodes =
        d.nodes.setIfInBounds i n := by
      refine Array.toList_inj.1 ((nodes_foldl_pushNode hc.clearNodes ?_).trans (List.nil_append _))
      rw [hids]
      exact hd.nodup_ids
    have hedges : c.edges = d.edges := by rw [← h, edges_setNodes]
    have hincoming : c.incomingIndex = d.incomingIndex := by rw [← h, incomingIndex_setNodes]
    rw [hpush]
    exact ext_parts hnodes ((edges_setNodes ..).trans hedges) hindex
      ((incomingIndex_setNodes ..).trans hincoming)

/-- **A canvas of lists is the canvas of its own lists**, in whatever order the lists repeat an
id. -/
theorem ofLists_toList (ns : List Node) (es : List Edge) :
    ofLists (ofLists ns es).nodes.toList (ofLists ns es).edges.toList = ofLists ns es := by
  have hself : ∀ (ns : List Node) (d : Canvas), d.Coherent → empty.setNodes d.nodes.toList = d →
      empty.setNodes (ns.foldl pushNode d).nodes.toList = ns.foldl pushNode d := by
    intro ns
    induction ns with
    | nil => exact fun _ _ h => h
    | cons n ns ih =>
      exact fun d hd h => ih _ (hd.pushNode n) (setNodes_pushNode coherent_empty hd h n)
  have hnodes : empty.setNodes (empty.setNodes ns).nodes.toList = empty.setNodes ns :=
    hself ns _ coherent_empty.clearNodes rfl
  rw [edges_ofLists]
  simp only [ofLists, nodes_setEdges, hnodes]

/-! ### Between sources and targets -/

/-- The ids of the nodes that are neither sources nor targets, in canvas order. -/
def innerIds (c : Canvas) : List String :=
  (c.nodes.toList.filter fun n => n.body.schema?.isNone).map Node.id

/-- A node without a schema is an inner node. -/
theorem mem_innerIds {n : Node} (hn : n ∈ c.nodes.toList) (hs : n.body.schema? = none) :
    n.id ∈ c.innerIds :=
  List.mem_map_of_mem (List.mem_filter.2 ⟨hn, by simp [hs]⟩)

/-- A source or target shares its id with no other node. -/
theorem Coherent.not_mem_innerIds (h : c.Coherent) {n : Node} (hn : n ∈ c.nodes.toList)
    (hs : n.body.schema?.isSome) : n.id ∉ c.innerIds := by
  intro hmem
  obtain ⟨m, hm, hid⟩ := List.mem_map.1 hmem
  obtain ⟨hm, hinner⟩ := List.mem_filter.1 hm
  have hm := h.node?_of_mem hm
  rw [hid, h.node?_of_mem hn] at hm
  obtain rfl := Option.some.inj hm
  rw [Option.isNone_iff_eq_none.1 hinner] at hs
  cases hs

/-- The ids of inner nodes are distinct in a coherent canvas. -/
theorem Coherent.nodup_innerIds (h : c.Coherent) : c.innerIds.Nodup :=
  (List.filter_sublist.map Node.id).nodup h.nodup_ids

end Canvas
end MappingCanvas
