/-
# The canvas

A canvas is a list of nodes and a list of edges, with two indices that every change keeps up to
date: where the node of an id stands, and which edges arrive at a node, in the order of the edges.
A node pushed under an id that is taken replaces the node with that id in its place, so ids do not
repeat.  `Canvas.Coherent` says what the indices hold.
-/

import Std.Data.HashMap
import MappingCanvas.Canvas.Node

namespace MappingCanvas

/-- Nodes and edges with their indices. -/
structure Canvas where
  nodes : Array Node
  edges : Array Edge
  /-- The place of each node. -/
  nodeIndex : Std.HashMap String Nat
  /-- The places of the edges that arrive at each node. -/
  incomingIndex : Std.HashMap String (Array Nat)

namespace Canvas

/-- The canvas without nodes and edges. -/
def empty : Canvas := ⟨#[], #[], ∅, ∅⟩

instance : Inhabited Canvas := ⟨empty⟩

/-- Two canvases are equal when their nodes and edges are. -/
instance : BEq Canvas := ⟨fun a b => a.nodes == b.nodes && a.edges == b.edges⟩

/-! ### Questions -/

/-- The node of an id. -/
def node? (c : Canvas) (id : String) : Option Node := do
  let i ← c.nodeIndex[id]?
  c.nodes[i]?

/-- Whether there is a node of this id. -/
def contains (c : Canvas) (id : String) : Bool := c.nodeIndex.contains id

/-- The edges that arrive at a node, in edge order. -/
def incoming (c : Canvas) (id : String) : List Edge :=
  match c.incomingIndex[id]? with
  | some places => places.toList.filterMap fun i => c.edges[i]?
  | none => []

/-- The edges that arrive at one handle of a node, in edge order. -/
def incomingAt (c : Canvas) (id handle : String) : List Edge :=
  (c.incoming id).filter fun e => e.targetHandle? == some handle

/-- The first edge that arrives at a node, the only one a transform or lookup reads. -/
def firstInput? (c : Canvas) (id : String) : Option Edge := (c.incoming id).head?

/-! ### Changes -/

/-- Adds a node, or replaces the node with the same id in its place. -/
def pushNode (c : Canvas) (n : Node) : Canvas :=
  match c.nodeIndex[n.id]? with
  | some i => { c with nodes := c.nodes.setIfInBounds i n }
  | none =>
    { c with nodes := c.nodes.push n, nodeIndex := c.nodeIndex.insert n.id c.nodes.size }

/-- Adds an edge. -/
def pushEdge (c : Canvas) (e : Edge) : Canvas :=
  { c with
    edges := c.edges.push e
    incomingIndex :=
      c.incomingIndex.insert e.target ((c.incomingIndex.getD e.target #[]).push c.edges.size) }

/-- Removes all edges. -/
def clearEdges (c : Canvas) : Canvas := { c with edges := #[], incomingIndex := ∅ }

/-- Removes all nodes; the edges stay. -/
def clearNodes (c : Canvas) : Canvas := { c with nodes := #[], nodeIndex := ∅ }

/-- Replaces all nodes; the edges stay. -/
def setNodes (c : Canvas) (nodes : List Node) : Canvas := nodes.foldl pushNode c.clearNodes

/-- Replaces all edges. -/
def setEdges (c : Canvas) (edges : List Edge) : Canvas := edges.foldl pushEdge c.clearEdges

/-- The canvas of some nodes and edges. -/
def ofLists (nodes : List Node) (edges : List Edge) : Canvas :=
  (empty.setNodes nodes).setEdges edges

/-- Changes the node of an id, if there is one; the change cannot touch the id. -/
def modifyNode? (c : Canvas) (id : String) (change : Node → Node) : Option Canvas := do
  let i ← c.nodeIndex[id]?
  let n ← c.nodes[i]?
  return { c with nodes := c.nodes.setIfInBounds i { change n with id := n.id } }

/-! ### What the indices hold -/

/-- Node ids do not repeat, each index holds exactly what a search of the list would find, and no
place in it is out of bounds. -/
structure Coherent (c : Canvas) : Prop where
  node_iff : ∀ id i, c.nodeIndex[id]? = some i ↔ ∃ n : Node, c.nodes[i]? = some n ∧ n.id = id
  incoming_eq : ∀ id, c.incoming id = c.edges.toList.filter fun e => e.target == id
  place_lt : ∀ (id : String) (places : Array Nat), c.incomingIndex[id]? = some places →
    ∀ i ∈ places, i < c.edges.size

end Canvas
end MappingCanvas
