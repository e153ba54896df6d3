/-
# Canvases that are changed over and over

A canvas begins empty or is read from a document, and is then changed: nodes and edges are pushed,
all nodes or all edges replaced, single nodes edited.  Edges may come before the nodes that they
connect, nodes may be replaced, and all nodes may be exchanged below edges that stay.

Every change keeps the indices coherent (`Coherent.change`), so after any number of changes every
question is answered as a scan of the nodes and edges would answer it (`Scanned`).  What the lists
hold is told by the nodes and edges that came: of the nodes with one id the last one remains, at the
place of the first (`lastPushed`).  Answers are a matter of the two lists alone, so canvases that
are equal answer alike (`answers_of_changes`).
-/

import Mathlib.Data.List.Induction
import MappingCanvas.Proofs.Canvas.Decoded
import MappingCanvas.Proofs.Lists

namespace MappingCanvas
namespace Canvas

variable {c d : Canvas} {n : Node} {ns came kept : List Node}

/-! ### Changes -/

/-- A change of a canvas. -/
inductive Change
  | pushNode (n : Node)
  | pushEdge (e : Edge)
  | setNodes (ns : List Node)
  | setEdges (es : List Edge)
  | clearEdges
  /-- Edits the node of an id, if there is one; its id stays. -/
  | modifyNode (id : String) (edit : Node → Node)

/-- Makes a change. -/
def Change.apply (c : Canvas) : Change → Canvas
  | pushNode n => c.pushNode n
  | pushEdge e => c.pushEdge e
  | setNodes ns => c.setNodes ns
  | setEdges es => c.setEdges es
  | clearEdges => c.clearEdges
  | modifyNode id edit => (c.modifyNode? id edit).getD c

/-- Makes changes, one after the other. -/
def changed (c : Canvas) (changes : List Change) : Canvas := changes.foldl Change.apply c

/-! ### What came -/

/-- The last node of an id. -/
def last? (came : List Node) (id : String) : Option Node := came.reverse.find? fun n => n.id == id

/-- What remains of nodes that came one after the other: for each id the last node of it, at the
place of the first. -/
def lastPushed (came : List Node) : List Node :=
  (came.map Node.id).eraseDups.filterMap (last? came)

/-- The nodes that came after all were replaced the last time, when a change is made: an edit is the
last node of its id once more, as edited. -/
def Change.cameNodes (came : List Node) : Change → List Node
  | pushNode n => came ++ [n]
  | setNodes ns => ns
  | modifyNode id edit =>
    match last? came id with
    | some n => came ++ [{ edit n with id := n.id }]
    | none => came
  | pushEdge _ | setEdges _ | clearEdges => came

/-- The edges that came after all were replaced or removed the last time. -/
def Change.cameEdges (came : List Edge) : Change → List Edge
  | pushEdge e => came ++ [e]
  | setEdges es => es
  | clearEdges => []
  | pushNode _ | setNodes _ | modifyNode _ _ => came

/-- A canvas as it is before any change: empty, or read from a document. -/
inductive Initial : Canvas → Prop
  | empty : Initial .empty
  | decoded {mode : Reading} {j : Json} {c : Canvas} (h : Canvas.decode mode j = .ok c) : Initial c

/-! ### Coherence is kept -/

/-- An edit pushes the edited node once more. -/
theorem Coherent.modifyNode?_eq (h : c.Coherent) (id : String) (edit : Node → Node) :
    c.modifyNode? id edit = (c.node? id).map fun n => c.pushNode { edit n with id := n.id } := by
  unfold modifyNode? node?
  cases hi : c.nodeIndex[id]? with
  | none => rfl
  | some i =>
    obtain ⟨n, hn, rfl⟩ := (h.node_iff id i).1 hi
    simp only [Option.bind_eq_bind, Option.bind_some, hn, Option.map_some, Canvas.pushNode, hi]
    rfl

/-- **Every change keeps the indices coherent.** -/
theorem Coherent.change (h : c.Coherent) (change : Change) : (change.apply c).Coherent := by
  cases change with
  | pushNode n => exact h.pushNode n
  | pushEdge e => exact h.pushEdge e
  | setNodes ns => exact h.setNodes ns
  | setEdges es => exact h.setEdges es
  | clearEdges => exact h.clearEdges
  | modifyNode id edit =>
    rw [Change.apply, h.modifyNode?_eq]
    cases c.node? id with
    | none => exact h
    | some n => exact h.pushNode _

/-- **Changes keep a canvas coherent**, however many are made. -/
theorem Coherent.changed (h : c.Coherent) (changes : List Change) :
    (c.changed changes).Coherent := by
  induction changes generalizing c with
  | nil => exact h
  | cons change changes ih => exact ih (h.change change)

/-- A canvas is coherent before any change: an empty one has nothing to index, and decoding builds
its indices node by node and edge by edge. -/
theorem Initial.coherent (h : Initial c) : c.Coherent := by
  cases h with
  | empty => exact coherent_empty
  | decoded h => exact (decode_ensures _ _ _ h).1

/-! ### Questions -/

/-- Every question is answered as a scan of the nodes or edges would answer it, and every place in
an index is the place of a node or edge. -/
structure Scanned (c : Canvas) : Prop where
  nodup : (c.nodes.toList.map Node.id).Nodup
  node : ∀ id, c.node? id = c.nodes.toList.find? fun n => n.id == id
  contains : ∀ id, c.contains id = c.nodes.toList.any fun n => n.id == id
  incoming : ∀ id, c.incoming id = c.edges.toList.filter fun e => e.target == id
  incomingAt : ∀ id handle, c.incomingAt id handle =
    c.edges.toList.filter fun e => e.target == id && e.targetHandle? == some handle
  firstInput : ∀ id, c.firstInput? id = (c.edges.toList.filter fun e => e.target == id).head?
  nodePlace : ∀ (id : String) (i : Nat), c.nodeIndex[id]? = some i → i < c.nodes.size
  edgePlace : ∀ (id : String) (places : Array Nat), c.incomingIndex[id]? = some places →
    ∀ i ∈ places, i < c.edges.size

/-- **In a coherent canvas the lists answer every question.** -/
theorem Coherent.scanned (h : c.Coherent) : c.Scanned where
  nodup := h.nodup_ids
  node id := by
    cases hfind : c.nodes.toList.find? fun n => n.id == id with
    | some n =>
      have hid : n.id = id := by simpa using List.find?_some hfind
      exact h.node?_eq_some_iff.2 ⟨List.mem_of_find?_eq_some hfind, hid⟩
    | none =>
      refine Option.eq_none_iff_forall_ne_some.2 fun n hn => ?_
      obtain ⟨hmem, hid⟩ := h.node?_eq_some_iff.1 hn
      exact List.find?_eq_none.1 hfind n hmem (beq_iff_eq.2 hid)
  contains id := by
    rw [Bool.eq_iff_iff, h.contains_iff, List.any_eq_true]
    simp only [beq_iff_eq]
  incoming := h.incoming_eq
  incomingAt id handle := by
    rw [Canvas.incomingAt, h.incoming_eq, List.filter_filter]
    exact List.filter_congr fun e _ => Bool.and_comm _ _
  firstInput id := by rw [firstInput?, h.incoming_eq]
  nodePlace id i hi := by
    obtain ⟨n, hn, -⟩ := (h.node_iff id i).1 hi
    exact (Array.getElem?_eq_some_iff.1 hn).1
  edgePlace := h.place_lt

/-! ### Nodes that came -/

/-- The last node of an id is the one that came just now, if it has this id. -/
theorem last?_concat (came : List Node) (n : Node) (id : String) :
    last? (came ++ [n]) id = if n.id = id then some n else last? came id := by
  rw [last?, List.reverse_append, List.reverse_singleton, List.singleton_append, List.find?_cons]
  cases hid : n.id == id with
  | true => simp [beq_iff_eq.1 hid]
  | false => simp [last?, beq_eq_false_iff_ne.1 hid]

/-- Only ids that no node has are without a last node. -/
theorem last?_eq_none_iff {id : String} : last? came id = none ↔ id ∉ came.map Node.id := by
  simp [last?]

/-- The last node of an id has this id. -/
theorem id_of_last? {id : String} (h : last? came id = some n) : n.id = id := by
  simpa using List.find?_some h

/-- An id that some node has is that of a last node. -/
theorem exists_last? {id : String} (h : id ∈ came.map Node.id) :
    ∃ n, last? came id = some n ∧ n.id = id := by
  obtain ⟨n, hn⟩ := Option.ne_none_iff_exists'.1 fun hnone => last?_eq_none_iff.1 hnone h
  exact ⟨n, hn, id_of_last? hn⟩

/-- **A node that comes takes the place of the first node with its id.** -/
theorem lastPushed_concat (came : List Node) (n : Node) :
    lastPushed (came ++ [n]) =
      if n.id ∈ came.map Node.id then
        (lastPushed came).map fun m => if m.id = n.id then n else m
      else lastPushed came ++ [n] := by
  rw [lastPushed, List.map_append, List.map_singleton, eraseDups_concat]
  split
  · rw [lastPushed, List.map_filterMap]
    refine List.filterMap_congr fun id hid => ?_
    obtain ⟨m, hm, hmid⟩ := exists_last? (List.mem_eraseDups.1 hid)
    rw [last?_concat, hm, Option.map_some, hmid]
    by_cases hid : id = n.id <;> simp [hid, eq_comm]
  · rename_i hnew
    rw [List.filterMap_append, lastPushed]
    congr 1
    · refine List.filterMap_congr fun id hid => ?_
      have hne : n.id ≠ id := fun heq => hnew (heq ▸ List.mem_eraseDups.1 hid)
      rw [last?_concat, if_neg hne]
    · simp [last?_concat]

/-- The ids that remain are those that came, each at its first place. -/
theorem map_id_lastPushed (came : List Node) :
    (lastPushed came).map Node.id = (came.map Node.id).eraseDups :=
  map_filterMap_key fun _ hid => exists_last? (List.mem_eraseDups.1 hid)

/-- Nodes of which no two have one id all remain. -/
theorem lastPushed_of_nodup (h : (ns.map Node.id).Nodup) : lastPushed ns = ns := by
  induction ns using List.reverseRecOn with
  | nil => rfl
  | append_singleton ns n ih =>
    rw [List.map_append, List.map_singleton, List.nodup_append] at h
    obtain ⟨hns, -, hfresh⟩ := h
    rw [lastPushed_concat, ih hns,
      if_neg fun hmem => hfresh n.id hmem n.id (List.mem_singleton_self _) rfl]

/-- **The node of an id that remains is the last one that came.** -/
theorem find?_lastPushed (came : List Node) (id : String) :
    ((lastPushed came).find? fun n => n.id == id) = last? came id := by
  induction came using List.reverseRecOn with
  | nil => rfl
  | append_singleton came n ih =>
    rw [lastPushed_concat, last?_concat, ← ih]
    split
    · rename_i hold
      have hkey : ((fun m : Node => m.id == id) ∘ fun m => if m.id = n.id then n else m) =
          fun m => m.id == id := by
        funext m
        simp only [Function.comp_apply]
        split <;> simp_all
      rw [List.find?_map, hkey, ih]
      by_cases hid : n.id = id
      · obtain ⟨m, hm, hmid⟩ := exists_last? (hid ▸ hold)
        simp [hm, hmid, hid]
      · rw [if_neg hid]
        cases hm : last? came id with
        | none => rfl
        | some m => simp [id_of_last? hm, Ne.symm hid]
    · rename_i hnew
      rw [List.find?_append, ih]
      by_cases hid : n.id = id
      · have hnone : last? came id = none := last?_eq_none_iff.2 (hid ▸ hnew)
        simp [hnone, hid]
      · simp [hid]

/-- A node that is pushed stands behind all others, or replaces the one with its id; an id has one
place, so no other node is replaced. -/
theorem Coherent.nodes_pushNode (h : c.Coherent) (n : Node) :
    (c.pushNode n).nodes.toList =
      if n.id ∈ c.nodes.toList.map Node.id then
        c.nodes.toList.map fun m => if m.id = n.id then n else m
      else c.nodes.toList ++ [n] := by
  cases hi : c.nodeIndex[n.id]? with
  | none =>
    have hfresh : n.id ∉ c.nodes.toList.map Node.id := by
      rw [← List.contains_iff_mem, ← h.contains_eq, Canvas.contains,
        ← Std.HashMap.isSome_getElem?_eq_contains, hi]
      exact Bool.false_ne_true
    rw [if_neg hfresh, Canvas.pushNode, hi]
    exact Array.toList_push
  | some i =>
    obtain ⟨m, hm, hid⟩ := (h.node_iff n.id i).1 hi
    have hmem : n.id ∈ c.nodes.toList.map Node.id :=
      List.mem_map.2 ⟨m, Array.mem_toList_iff.2 (Array.mem_of_getElem? hm), hid⟩
    rw [if_pos hmem, Canvas.pushNode, hi]
    refine List.ext_getElem? fun k => ?_
    rw [Array.toList_setIfInBounds, List.getElem?_set, List.getElem?_map]
    by_cases hk : i = k
    · subst hk
      obtain ⟨hlt, rfl⟩ := Array.getElem?_eq_some_iff.1 hm
      simp [hlt, hid]
    · rw [if_neg hk]
      cases hother : c.nodes.toList[k]? with
      | none => rfl
      | some m' =>
        have hne : m'.id ≠ n.id := fun heq => by
          have hk' := (h.node_iff n.id k).2 ⟨m', by simpa using hother, heq⟩
          exact hk (Option.some.inj (hi.symm.trans hk'))
        rw [Option.map_some, if_neg hne]

/-- One more node that comes is pushed onto what remains of the others. -/
theorem Coherent.lastPushed_pushNode (h : c.Coherent) (hc : c.nodes.toList = lastPushed came)
    (n : Node) : (c.pushNode n).nodes.toList = lastPushed (came ++ [n]) := by
  rw [h.nodes_pushNode, lastPushed_concat, hc, map_id_lastPushed]
  simp only [List.mem_eraseDups]

/-- Nodes that come are pushed onto what remains of the others, one after the other. -/
theorem Coherent.lastPushed_foldl (h : c.Coherent) (hc : c.nodes.toList = lastPushed came)
    (ns : List Node) : (ns.foldl Canvas.pushNode c).nodes.toList = lastPushed (came ++ ns) := by
  induction ns generalizing c came with
  | nil => simpa using hc
  | cons n ns ih =>
    rw [List.append_cons]
    exact ih (h.pushNode n) (h.lastPushed_pushNode hc n)

/-- **A change leaves of the nodes that came the last of each id.** -/
theorem Coherent.lastPushed_change (h : c.Coherent) (hc : c.nodes.toList = lastPushed came)
    (change : Change) : (change.apply c).nodes.toList = lastPushed (change.cameNodes came) := by
  cases change with
  | pushNode n => exact h.lastPushed_pushNode hc n
  | setNodes ns =>
    have hnone : c.clearNodes.nodes.toList = lastPushed [] := rfl
    exact h.clearNodes.lastPushed_foldl hnone ns
  | pushEdge e => exact hc
  | setEdges es =>
    rw [Change.apply, nodes_setEdges]
    exact hc
  | clearEdges => exact hc
  | modifyNode id edit =>
    rw [Change.apply, h.modifyNode?_eq, h.scanned.node, hc, find?_lastPushed, Change.cameNodes]
    cases last? came id with
    | none => exact hc
    | some n => exact h.lastPushed_pushNode hc _

/-- **The nodes are what remains of those that came**, after any number of changes. -/
theorem Coherent.lastPushed_changed (h : c.Coherent) (hc : c.nodes.toList = lastPushed came)
    (changes : List Change) :
    (c.changed changes).nodes.toList = lastPushed (changes.foldl Change.cameNodes came) := by
  induction changes generalizing c came with
  | nil => exact hc
  | cons change changes ih => exact ih (h.change change) (h.lastPushed_change hc change)

/-- A change leaves the edges that came after all were replaced or removed the last time. -/
theorem edges_change (c : Canvas) (change : Change) :
    (change.apply c).edges.toList = change.cameEdges c.edges.toList := by
  cases change with
  | pushEdge e => exact Array.toList_push
  | setEdges es => exact edges_setEdges c es
  | clearEdges => rfl
  | pushNode n => exact congrArg Array.toList (edges_pushNode c n)
  | setNodes ns => exact congrArg Array.toList (edges_setNodes c ns)
  | modifyNode id edit =>
    rw [Change.apply, modifyNode?]
    cases c.nodeIndex[id]? with
    | none => rfl
    | some i => cases h : c.nodes[i]? <;> simp [h, Change.cameEdges]

/-- **The edges are those that came.** -/
theorem edges_changed (c : Canvas) (changes : List Change) :
    (c.changed changes).edges.toList = changes.foldl Change.cameEdges c.edges.toList := by
  induction changes generalizing c with
  | nil => rfl
  | cons change changes ih =>
    rw [List.foldl_cons, ← edges_change]
    exact ih _

/-! ### Canvases with equal lists -/

/-- Two canvases answer every question alike, where answers that are nodes are compared by
`same`. -/
structure SameAnswers (same : Option Node → Option Node → Prop) (c d : Canvas) : Prop where
  node : ∀ id, same (c.node? id) (d.node? id)
  contains : ∀ id, c.contains id = d.contains id
  incoming : ∀ id, c.incoming id = d.incoming id
  incomingAt : ∀ id handle, c.incomingAt id handle = d.incomingAt id handle
  firstInput : ∀ id, c.firstInput? id = d.firstInput? id

/-- Canvases whose nodes have the same ids and whose edges are the same answer alike, if equal nodes
are found in both: the other questions are answered from the ids and the edges alone. -/
theorem Scanned.sameAnswers {same : Option Node → Option Node → Prop} (hc : c.Scanned)
    (hd : d.Scanned) (hids : c.nodes.toList.map Node.id = d.nodes.toList.map Node.id)
    (hedges : c.edges.toList = d.edges.toList)
    (hsame : ∀ id, same (c.nodes.toList.find? fun n => n.id == id)
      (d.nodes.toList.find? fun n => n.id == id)) : SameAnswers same c d where
  node id := by
    rw [hc.node, hd.node]
    exact hsame id
  contains id := by
    have hany : ∀ ns : List Node,
        (ns.any fun n => n.id == id) = (ns.map Node.id).any fun key => key == id := fun ns => by
      rw [List.any_map]
      rfl
    rw [hc.contains, hd.contains, hany, hany, hids]
  incoming id := by rw [hc.incoming, hd.incoming, hedges]
  incomingAt id handle := by rw [hc.incomingAt, hd.incomingAt, hedges]
  firstInput id := by rw [hc.firstInput, hd.firstInput, hedges]

/-- Equal canvases have the same edges, and nodes that are equal one by one. -/
theorem eq_lists_of_beq (h : (c == d) = true) :
    c.edges.toList = d.edges.toList ∧ (c.nodes.toList == d.nodes.toList) = true := by
  have hparts : (c == d) = (c.nodes == d.nodes && c.edges == d.edges) := rfl
  rw [hparts, Bool.and_eq_true, ← Array.beq_toList] at h
  exact ⟨congrArg Array.toList (eq_of_beq h.2), h.1⟩

/-- Equal nodes have one id, although the numbers in them need not be identical. -/
theorem id_eq_of_beq {n m : Node} (h : (n == m) = true) : n.id = m.id := by
  have hparts : (n == m) = (n.id == m.id && (n.position == m.position && n.body == m.body)) := rfl
  rw [hparts, Bool.and_eq_true] at h
  exact eq_of_beq h.1

/-- Nodes that are equal one by one have the same ids, and equal nodes are found among them. -/
theorem find?_beq {ns ms : List Node} (h : (ns == ms) = true) :
    ns.map Node.id = ms.map Node.id ∧
      ∀ id, ((ns.find? fun n => n.id == id) == ms.find? fun m => m.id == id) = true := by
  induction ns generalizing ms with
  | nil =>
    cases ms with
    | nil => exact ⟨rfl, fun _ => rfl⟩
    | cons m ms => cases h
  | cons n ns ih =>
    cases ms with
    | nil => cases h
    | cons m ms =>
      have hparts : (n :: ns == m :: ms) = (n == m && ns == ms) := rfl
      rw [hparts, Bool.and_eq_true] at h
      obtain ⟨hfirst, hrest⟩ := h
      obtain ⟨hids, hfind⟩ := ih hrest
      have hid := id_eq_of_beq hfirst
      refine ⟨by rw [List.map_cons, List.map_cons, hid, hids], fun id => ?_⟩
      rw [List.find?_cons, List.find?_cons, hid]
      split
      · exact hfirst
      · exact hfind id

/-- **The lists answer every question, after any changes.**  A canvas that began empty or was read
from a document and was changed any number of times answers every question as a scan of its nodes
and edges would answer it, and no place in an index is out of bounds.  Of the nodes that came those
remain that are the last of their id, at the place of the first; the edges are those that came.  Two
such canvases with the same nodes and edges give the same answers, and two that are equal give equal
ones. -/
theorem answers_of_changes {c₀ : Canvas} (h : Initial c₀) (changes : List Change) :
    (c₀.changed changes).Scanned ∧
    (c₀.changed changes).nodes.toList =
      lastPushed (changes.foldl Change.cameNodes c₀.nodes.toList) ∧
    (c₀.changed changes).edges.toList = changes.foldl Change.cameEdges c₀.edges.toList ∧
    ∀ d₀, Initial d₀ → ∀ changes' : List Change,
      ((c₀.changed changes).nodes.toList = (d₀.changed changes').nodes.toList →
        (c₀.changed changes).edges.toList = (d₀.changed changes').edges.toList →
        SameAnswers Eq (c₀.changed changes) (d₀.changed changes')) ∧
      ((c₀.changed changes == d₀.changed changes') = true →
        SameAnswers (fun n m => (n == m) = true) (c₀.changed changes) (d₀.changed changes')) := by
  have hscanned := (h.coherent.changed changes).scanned
  refine ⟨hscanned,
    h.coherent.lastPushed_changed (lastPushed_of_nodup h.coherent.nodup_ids).symm changes,
    edges_changed c₀ changes, fun d₀ hd changes' => ?_⟩
  have hscanned' := (hd.coherent.changed changes').scanned
  refine ⟨fun hnodes hedges => ?_, fun hequal => ?_⟩
  · exact hscanned.sameAnswers hscanned' (by rw [hnodes]) hedges fun id => by rw [hnodes]
  · obtain ⟨hedges, hnodes⟩ := eq_lists_of_beq hequal
    obtain ⟨hids, hfind⟩ := find?_beq hnodes
    exact hscanned.sameAnswers hscanned' hids hedges hfind

/-- An edge that comes before its nodes, a node that is replaced, and all nodes exchanged below the
edge, one of them twice and edited then. -/
def restlessChanges : List Change :=
  [.pushEdge ⟨"read", "in", none, "out", some "x"⟩,
    .pushNode ⟨"out", .origin, .target (.ofFields "Output" [])⟩,
    .pushNode ⟨"out", .origin, .target (.ofFields "Result" [])⟩,
    .setNodes [⟨"in", .origin, .source (.ofFields "First" [])⟩,
      ⟨"out", .origin, .target (.ofFields "Output" [])⟩,
      ⟨"in", .origin, .source (.ofFields "Second" [])⟩],
    .modifyNode "out" fun n => { n with id := "lost", body := .target (.ofFields "Edited" []) }]

/-- The last nodes are found at the places of the first, and the edge arrives. -/
theorem answers_of_changes_restless :
    Initial .empty ∧
      (empty.changed restlessChanges).nodes.toList =
        [⟨"in", .origin, .source (.ofFields "Second" [])⟩,
          ⟨"out", .origin, .target (.ofFields "Edited" [])⟩] ∧
      (empty.changed restlessChanges).contains "lost" = false ∧
      (empty.changed restlessChanges).incomingAt "out" "x" =
        [⟨"read", "in", none, "out", some "x"⟩] := by
  obtain ⟨hscanned, hnodes, hedges, -⟩ := answers_of_changes Initial.empty restlessChanges
  have hlist : (empty.changed restlessChanges).nodes.toList =
      [⟨"in", .origin, .source (.ofFields "Second" [])⟩,
        ⟨"out", .origin, .target (.ofFields "Edited" [])⟩] := hnodes
  refine ⟨.empty, hlist, ?_, ?_⟩
  · rw [hscanned.contains, hlist]
    rfl
  · rw [hscanned.incomingAt, hedges]
    rfl

end Canvas
end MappingCanvas
