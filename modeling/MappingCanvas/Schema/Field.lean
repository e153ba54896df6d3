/-
# Field trees

A schema is a forest of fields.  The id of a field is also its handle on the canvas; objects and
arrays have a list of children, and an array may be grouped by one of its children.

`walk` visits a forest with a stack of fields still to visit, `preorder` is the recursion it
follows: each field before its children, siblings in order.
-/

import MappingCanvas.Json.Value
import MappingCanvas.Schema.Path

namespace MappingCanvas

/-- The type of a field. -/
inductive DataType
  | string | number | boolean | date | object | array
  deriving DecidableEq

namespace DataType

/-- All types. -/
def all : List DataType := [string, number, boolean, date, object, array]

/-- The name of a type. -/
def name : DataType → String
  | string => "string"
  | number => "number"
  | boolean => "boolean"
  | date => "date"
  | object => "object"
  | array => "array"

/-- The type of a name. -/
def ofName? (s : String) : Option DataType := all.find? fun t => t.name == s

/-- Objects and arrays contain other fields. -/
def isContainer : DataType → Bool
  | object | array => true
  | _ => false

/-- The type of a sample value; dates cannot be told from other texts. -/
def infer (v : Value) : DataType :=
  match v.json with
  | .number _ => number
  | .bool _ => boolean
  | .array _ => array
  | .object _ => object
  | _ => string

end DataType

/-- A field of a schema, with the fields inside it. -/
structure Field where
  id : String
  name : String
  dataType : DataType
  children : Option (List Field)
  groupBy : Option String
  deriving BEq

namespace Field

/-- A field whose id is its name; a container begins empty. -/
def ofName (name : String) (dataType : DataType) : Field :=
  ⟨name, name, dataType, if dataType.isContainer then some [] else none, none⟩

/-- The fields directly inside a field. -/
def childList (f : Field) : List Field := f.children.getD []

mutual
/-- The number of fields of a tree. -/
def weight : Field → Nat
  | ⟨_, _, _, children, _⟩ => weightChildren children + 1

/-- The number of fields among the children of a field. -/
def weightChildren : Option (List Field) → Nat
  | none => 0
  | some fs => weightForest fs

/-- The number of fields of a forest. -/
def weightForest : List Field → Nat
  | [] => 0
  | f :: fs => f.weight + weightForest fs
end

mutual
/-- A field and all fields inside it, each before its children. -/
def preorder : Field → List Field
  | ⟨id, name, dataType, children, groupBy⟩ =>
    ⟨id, name, dataType, children, groupBy⟩ :: preorderChildren children

/-- The fields among the children of a field. -/
def preorderChildren : Option (List Field) → List Field
  | none => []
  | some fs => preorderForest fs

/-- The fields of a forest, tree by tree. -/
def preorderForest : List Field → List Field
  | [] => []
  | f :: fs => f.preorder ++ preorderForest fs
end

/-- A field weighs one more than its children. -/
theorem weight_eq (f : Field) : f.weight = weightForest f.childList + 1 := by
  obtain ⟨id, name, dataType, children, groupBy⟩ := f
  cases children <;> simp [weight, weightChildren, childList, weightForest]

/-- The weight of forests adds up, so a stack grows no heavier by the children of what is taken off
it. -/
theorem weightForest_append (fs gs : List Field) :
    weightForest (fs ++ gs) = weightForest fs + weightForest gs := by
  induction fs with
  | nil => simp [weightForest]
  | cons f fs ih => simp [weightForest, ih, Nat.add_assoc]

/-- Visits the fields on a stack, the top one first; the children of a field are put on the stack
in its place. -/
def walk : List Field → List Field
  | [] => []
  | f :: rest => f :: walk (f.childList ++ rest)
termination_by stack => weightForest stack
decreasing_by
  rw [weightForest_append, weightForest, weight_eq]
  omega

/-- The first field visited whose id is the given one. -/
def findById? (forest : List Field) (id : String) : Option Field :=
  (walk forest).find? fun f => f.id == id

/-- The field of a handle: the first one with this id, else the first one whose id is the handle
without array indices. -/
def find? (forest : List Field) (handle : String) : Option Field :=
  match findById? forest handle with
  | some f => some f
  | none =>
    let stripped := Path.stripIndices handle
    if stripped = handle then none else findById? forest stripped

end Field
end MappingCanvas
