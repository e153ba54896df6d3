/-
# Resolving an edge

The rule of a target field comes from the node at the other end of an edge that arrives there.

| that node | rule |
| --- | --- |
| source | copy the field of the edge's source handle |
| constants | the constant of the edge's source handle |
| conditional | choose by the source field that feeds the node |
| lookup | look up the source field that feeds the node, or the one it remembers |
| other | none |

The source field that feeds a node is found by going back along the first edge that arrives at
each node until a source is reached.  The number of nodes gone back through is limited, so that a
walk around a cycle ends.
-/

import MappingCanvas.Canvas.Basic
import MappingCanvas.Compile.Warning
import MappingCanvas.Rule.Basic

namespace MappingCanvas
namespace Canvas

/-- The node of an id that an edge mentions. -/
def endpoint (c : Canvas) (e : Edge) (id : String) : Except Warning Node :=
  match c.node? id with
  | some n => .ok n
  | none => .error (.unknownNode e.id id)

/-- The name of the source field that an edge leaves. -/
def fieldName (e : Edge) (nodeId : String) (s : Schema) : Except Warning String :=
  match e.sourceHandle? with
  | none => .error (.missingHandle e.id nodeId)
  | some handle =>
    match Field.find? s.fields handle with
    | some f => .ok f.name
    | none => .error (.unknownField nodeId handle)

/-- The refusal of an edge whose source makes no value. -/
def unsupported (e : Edge) (n : Node) : Warning := .unsupportedOrigin e.id n.id n.body.typeName

/-- The name of the source field that feeds a node, at most `steps` nodes further back; `limit` is
the limit that warnings name. -/
def inputField (c : Canvas) (limit : Nat) : (steps : Nat) → (id : String) → Except Warning String
  | 0, id => .error (.depthExceeded id limit)
  | steps + 1, id =>
    match c.firstInput? id with
    | none => .error (.missingInput id)
    | some e => do
      let n ← c.endpoint e e.source
      match n.body with
      | .source s => fieldName e n.id s
      | .target _ => throw (unsupported e n)
      | .lookup _ | .transform _ _ | .unknown _ _ => inputField c limit steps n.id

/-- The source field of a lookup node, and the step through which it passes on its way. -/
def lookupInput (c : Canvas) (limit : Nat) (e : Edge) :
    Except Warning (String × Option TextStep) := do
  let n ← c.endpoint e e.source
  match n.body with
  | .source s => return (← fieldName e n.id s, none)
  | .transform _ (.text p) =>
    return (← inputField c limit (limit - 1) n.id, TextStep.ofTextChange? p)
  | .transform _ (.split p) =>
    return (← inputField c limit (limit - 1) n.id, some (TextStep.ofSplit p))
  | _ => throw (unsupported e n)

/-- The rule of a target field that a lookup node feeds. -/
def resolveLookup (c : Canvas) (limit : Nat) (id : String) (l : Lookup) (target : String) :
    Except Warning Rule :=
  match c.firstInput? id with
  | none =>
    match l.sourceField with
    | some field => .ok ⟨some field, target, .lookUp l.table none⟩
    | none => .error (.missingInput id)
  | some e => do
    let (field, step) ← lookupInput c limit e
    return ⟨some field, target, .lookUp l.table step⟩

/-- The rule of a target field for one edge that arrives there. -/
def resolve (c : Canvas) (limit : Nat) (e : Edge) (target : String) : Except Warning Rule := do
  let n ← c.endpoint e e.source
  match n.body with
  | .source s => return ⟨some (← fieldName e n.id s), target, .copy⟩
  | .transform _ (.constants values) =>
    match Constant.find? values e.sourceHandle? with
    | some constant => return ⟨none, target, .constant constant.value⟩
    | none => throw (.missingConstant n.id (e.sourceHandle?.getD ""))
  | .transform _ (.conditional p) =>
    let field ← inputField c limit limit n.id
    return ⟨some field, target, .choose ⟨p.operator, p.compareValue⟩ p.thenValue p.elseValue⟩
  | .lookup l => resolveLookup c limit n.id l target
  | _ => throw (unsupported e n)

end Canvas
end MappingCanvas
