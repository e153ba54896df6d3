/-
# The execution plan

Transforms and lookups run in an order in which every node comes after the nodes that feed it.
Each node counts the edges from other steps that have not been served yet; a node whose count is
zero is ready.  Ready nodes are taken in the order in which they became ready, at first in canvas
order, and a node that is taken serves the edges that leave it.  Nodes on a cycle, and those
behind one, never become ready; they are left out and reported once.
-/

import Std.Data.HashMap
import MappingCanvas.Canvas.Basic
import MappingCanvas.Compile.Warning
import MappingCanvas.Snapshot.Basic

namespace MappingCanvas
namespace Plan

/-- The ids of the nodes that have a place in a plan, in canvas order. -/
def stepIds (c : Canvas) : List String :=
  (c.nodes.toList.filter fun n => n.body.isStep).map Node.id

/-- The counts of edges not yet served, and the nodes that each node feeds, one entry for each
edge. -/
structure Dependencies where
  waiting : Std.HashMap String Nat
  feeds : Std.HashMap String (List String)

/-- Adds an edge, if both its ends are steps. -/
def Dependencies.add (d : Dependencies) (e : Edge) : Dependencies :=
  match d.waiting[e.source]?, d.waiting[e.target]? with
  | some _, some n =>
    ⟨d.waiting.insert e.target (n + 1),
      d.feeds.insert e.source (d.feeds.getD e.source [] ++ [e.target])⟩
  | _, _ => d

/-- The dependencies between the steps of a canvas. -/
def Dependencies.ofCanvas (c : Canvas) : Dependencies :=
  c.edges.toList.foldl add ⟨(stepIds c).foldl (fun m id => m.insert id 0) ∅, ∅⟩

/-- The counts of edges not yet served, the nodes that are ready, and those that were taken. -/
structure State where
  waiting : Std.HashMap String Nat
  ready : List String
  taken : List String

/-- Serves one edge that arrives at a node. -/
def State.serve (s : State) (id : String) : State :=
  match s.waiting[id]? with
  | none => s
  | some n =>
    { s with
      waiting := s.waiting.insert id (n - 1)
      ready := if n = 1 then s.ready ++ [id] else s.ready }

/-- Takes ready nodes until there is none; `fuel` bounds the number of nodes taken. -/
def run (feeds : Std.HashMap String (List String)) : (fuel : Nat) → State → State
  | 0, s => s
  | fuel + 1, s =>
    match s.ready with
    | [] => s
    | id :: rest =>
      run feeds fuel
        ((feeds.getD id []).foldl State.serve { s with ready := rest, taken := s.taken ++ [id] })

/-- The end of the run for a canvas; no node is taken twice. -/
def final (c : Canvas) : State :=
  let ids := stepIds c
  let d := Dependencies.ofCanvas c
  run d.feeds ids.length ⟨d.waiting, ids.filter fun id => d.waiting[id]? == some 0, []⟩

/-- The step of a node: its type and the distinct nodes that feed it, in edge order. -/
def step? (c : Canvas) (id : String) : Option Snapshot.Step :=
  (c.node? id).map fun n => ⟨n.id, n.body.typeName, ((c.incoming id).map Edge.source).eraseDups⟩

/-- The steps of a canvas in order, and a warning if some are left out. -/
def plan (c : Canvas) : List Snapshot.Step × List Warning :=
  let s := final c
  let steps := s.taken.filterMap (step? c)
  let left := (stepIds c).filter fun id => (s.waiting.getD id 0) != 0
  (steps, if steps.length < (stepIds c).length then [.cycle left] else [])

end Plan
end MappingCanvas
