/-
# Layout in columns

Nodes without a stored position stand in three columns: sources, targets, and everything else
between them.  The rows of a column are a fixed distance apart.
-/

import MappingCanvas.Canvas.Node

namespace MappingCanvas

/-- The columns of a layout. -/
inductive Column
  | source | transform | target
  deriving DecidableEq

namespace Column

/-- The column of a node. -/
def ofBody : Node.Body → Column
  | .source _ => source
  | .target _ => target
  | _ => transform

/-- The name of a column. -/
def name : Column → String
  | source => "Source"
  | transform => "Transform"
  | target => "Target"

end Column

/-- Where columns and rows stand. -/
structure Layout where
  sourceX : Float
  transformX : Float
  targetX : Float
  top : Float
  rowPitch : Float

namespace Layout

/-- The layout that is used when none is given. -/
def default : Layout := ⟨100, 400, 700, 100, 100⟩

instance : Inhabited Layout := ⟨default⟩

/-- The horizontal place of a column. -/
def columnX (l : Layout) : Column → Float
  | .source => l.sourceX
  | .transform => l.transformX
  | .target => l.targetX

/-- The place of a row in a column. -/
def position (l : Layout) (column : Column) (row : Nat) : Position :=
  ⟨l.columnX column, l.top + Float.ofNat row * l.rowPitch⟩

/-- Places nodes by column, below the nodes `before` them. -/
def arrangeAfter (l : Layout) (before : List Column) : List Node → List Node
  | [] => []
  | n :: ns =>
    let column := Column.ofBody n.body
    { n with position := l.position column (before.count column) } ::
      arrangeAfter l (column :: before) ns

/-- Places nodes by column, the rows of each in list order. -/
def arrange (l : Layout) (nodes : List Node) : List Node := l.arrangeAfter [] nodes

/-- A layout as a document. -/
def toJson (l : Layout) : Json :=
  .object [("sourceX", .float l.sourceX), ("transformX", .float l.transformX),
    ("targetX", .float l.targetX), ("top", .float l.top), ("rowPitch", .float l.rowPitch)]

/-- Reads a layout; what is missing is taken from the default. -/
def decode : Decoder Layout :=
  ((Form.defaulted "sourceX" default.sourceX .float).and
    ((Form.defaulted "transformX" default.transformX .float).and
      ((Form.defaulted "targetX" default.targetX .float).and
        ((Form.defaulted "top" default.top .float).and
          (Form.defaulted "rowPitch" default.rowPitch .float))))
    |>.map fun (sourceX, transformX, targetX, top, rowPitch) =>
      (⟨sourceX, transformX, targetX, top, rowPitch⟩ : Layout)).decode

end Layout
end MappingCanvas
