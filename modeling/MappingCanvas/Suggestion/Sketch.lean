/-
# Drawing a canvas from suggestions

Each field gets a node of its own, `source_` or `target_` and its name, and each suggestion that
is more than a copy a node between them, named for its kind and its target.  The first node of an
id and the first edge of an id stay.  Suggestions that draw nothing are listed as skipped.

The type of a source field is inferred from the first sample record that has a value for it; a
field may be a dot path into the records.
-/

import MappingCanvas.Canvas.Basic
import MappingCanvas.Canvas.Layout
import MappingCanvas.Suggestion.Condition

namespace MappingCanvas
namespace Suggestion

/-- A suggestion that drew nothing. -/
structure Skipped where
  target : Option String
  mappingType : String
  reason : String
  deriving DecidableEq

/-- A canvas that is being drawn. -/
structure Sketch where
  nodes : List Node
  edges : List Edge
  skipped : List Skipped

/-- The canvas of some suggestions, and those that were left out of it. -/
structure Conversion where
  canvas : Canvas
  skipped : List Skipped

/-- The value of a field in a record: the member of that name, or else the value at the dot
path. -/
def recordValue? (record : Value) (field : String) : Option Json :=
  let path := (Text.splitDots field.toList).map String.ofList
  record.json.get? field <|> path.foldlM (fun j part => j.get? part) record.json

/-- The first value of a field in the samples that is not `null`. -/
def sampleValue? (samples : List Value) (field : String) : Option Json :=
  samples.findSome? fun record => (recordValue? record field).filter (!·.isNull)

/-- The type of a source field. -/
def inferType (samples : List Value) (field : String) : DataType :=
  match sampleValue? samples field with
  | some j => .infer (.ofJson j)
  | none => .string

namespace Sketch

/-- Nothing drawn yet. -/
def blank : Sketch := ⟨[], [], []⟩

/-- Adds a node, unless its id is taken. -/
def addNode (k : Sketch) (id : String) (body : Node.Body) : Sketch :=
  if k.nodes.any fun n => n.id == id then k
  else { k with nodes := k.nodes ++ [⟨id, .origin, body⟩] }

/-- The id of an edge. -/
def edgeId (source target : String) : String := "e_" ++ source ++ "_" ++ target

/-- Adds an edge, unless its id is taken. -/
def connect (k : Sketch) (source : String) (sourceHandle : Option String) (target : String)
    (targetHandle : Option String) : Sketch :=
  let id := edgeId source target
  if k.edges.any fun e => e.id == id then k
  else { k with edges := k.edges ++ [⟨id, source, sourceHandle, target, targetHandle⟩] }

/-- The ids of the nodes of fields. -/
def sourceId (field : String) : String := "source_" ++ field
def targetId (field : String) : String := "target_" ++ field

/-- The output handle of a constant. -/
def constantHandle : String := "value"

/-- Draws the node of a source field and connects it to a node. -/
def feed (samples : List Value) (node : String) (handle : Option String) (k : Sketch)
    (field : String) : Sketch :=
  let schema : Schema := .ofFields field [Field.ofName field (inferType samples field)]
  (k.addNode (sourceId field) (.source schema)).connect (sourceId field) (some field) node handle

/-- Draws the node of a target field. -/
def addTarget (k : Sketch) (field : String) : Sketch :=
  k.addNode (targetId field) (.target (.ofFields field [Field.ofName field .string]))

/-- Notes a suggestion that draws nothing. -/
def skip (k : Sketch) (s : Suggestion) (target : Option String) (reason : String) : Sketch :=
  { k with skipped := k.skipped ++ [⟨target, s.mappingType, reason⟩] }

/-- Draws a transform between some source fields and a target field. -/
def addTransform (samples : List Value) (k : Sketch) (kind target : String)
    (operation : Operation) (inputs : List String) (output : Option String) : Sketch :=
  let id := kind ++ "_" ++ target
  let k := (k.addTarget target).addNode id (.transform (kind ++ " " ++ target) operation)
  (inputs.foldl (feed samples id none) k).connect id output (targetId target) (some target)

/-- The source field of a conditional: the one it names, or the first that a condition names. -/
def conditionalInputs (source : Option String) (branches : List Branch) : List String :=
  match source with
  | some field => [field]
  | none =>
    (branches.findSome? fun b => (parseCondition? b.condition).bind ParsedCondition.field).toList

/-- Draws a suggestion. -/
def add (samples : List Value) (k : Sketch) (s : Suggestion) : Sketch :=
  match s with
  | .skip target reason => k.skip s target (reason.getD "skip")
  | .unrecognised _ target reason => k.skip s target reason
  | .direct target source =>
    feed samples (targetId target) (some target) (k.addTarget target) source
  | .table target source entries =>
    let id := "table_" ++ target
    let k := (k.addTarget target).addNode id
      (.lookup ⟨"Lookup " ++ target, entries, some source⟩)
    (feed samples id none k source).connect id none (targetId target) (some target)
  | .constant target value =>
    addTransform samples k "static" target (.constants [⟨constantHandle, value⟩]) []
      (some constantHandle)
  | .conditional target source branches =>
    addTransform samples k "conditional" target (.conditional (conditionalOf branches))
      (conditionalInputs source branches) none
  | .date target source format =>
    addTransform samples k "date" target (.date ⟨none, format⟩) [source] none
  | .concat target sources separator =>
    addTransform samples k "concat" target (.concat ⟨sources, separator⟩) sources none
  | .split target source delimiter index =>
    addTransform samples k "split" target (.split ⟨delimiter, index⟩) [source] none

/-- The finished canvas. -/
def finish (k : Sketch) (layout : Layout) : Conversion :=
  ⟨.ofLists (layout.arrange k.nodes) k.edges, k.skipped⟩

end Sketch

/-- The canvas of some suggestions. -/
def toCanvas (samples : List Value) (layout : Layout) (suggestions : List Suggestion) :
    Conversion :=
  (suggestions.foldl (Sketch.add samples) .blank).finish layout

end Suggestion
end MappingCanvas
