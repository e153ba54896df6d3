/-
# Operations of transform nodes

A transform node carries one of eight operations, each with its parameters.  Parameters are
written as an object with one member for each; a member that is missing when they are read stands
for its default.
-/

import MappingCanvas.Schema.Document

namespace MappingCanvas

/-- One of the constants of a node; the id is its output handle. -/
structure Constant where
  id : String
  value : Value
  deriving BEq

/-- How a conditional compares its input. -/
inductive Comparison
  | equals | notEquals | greaterThan | lessThan | greaterOrEqual | lessOrEqual
  | contains | isEmpty | isNotEmpty
  deriving DecidableEq

namespace Comparison

/-- The name of a comparison. -/
def name : Comparison → String
  | equals => "equals"
  | notEquals => "notEquals"
  | greaterThan => "greaterThan"
  | lessThan => "lessThan"
  | greaterOrEqual => "greaterOrEqual"
  | lessOrEqual => "lessOrEqual"
  | contains => "contains"
  | isEmpty => "isEmpty"
  | isNotEmpty => "isNotEmpty"

/-- Other names under which a comparison may be stored. -/
def aliases : Comparison → List String
  | equals => ["==", "eq", "equal"]
  | notEquals => ["!=", "neq"]
  | greaterThan => [">", "gt"]
  | lessThan => ["<", "lt"]
  | greaterOrEqual => [">=", "gte"]
  | lessOrEqual => ["<=", "lte"]
  | contains | isEmpty | isNotEmpty => []

/-- All comparisons. -/
def all : List Comparison :=
  [equals, notEquals, greaterThan, lessThan, greaterOrEqual, lessOrEqual, contains, isEmpty,
    isNotEmpty]

/-- The comparison of a stored name. -/
def ofName? (s : String) : Option Comparison :=
  all.find? fun c => c.name == s || c.aliases.contains s

/-- The comparison of a symbol in a condition written as text. -/
def ofSymbol? : String → Option Comparison
  | "==" | "=" => some equals
  | "!=" | "<>" => some notEquals
  | ">" => some greaterThan
  | "<" => some lessThan
  | ">=" => some greaterOrEqual
  | "<=" => some lessOrEqual
  | "contains" => some contains
  | _ => none

/-- A comparison, by name. -/
def decode : Decoder Comparison := Decoder.choice ofName?

end Comparison

/-- What a text operation does. -/
inductive TextOperation
  | none | uppercase | lowercase | trim | substring
  deriving DecidableEq

namespace TextOperation

/-- The name of a text operation. -/
def name : TextOperation → String
  | none => "none"
  | uppercase => "uppercase"
  | lowercase => "lowercase"
  | trim => "trim"
  | substring => "substring"

/-- All text operations. -/
def all : List TextOperation := [none, uppercase, lowercase, trim, substring]

/-- The text operation of a name. -/
def ofName? (s : String) : Option TextOperation := all.find? fun o => o.name == s

end TextOperation

/-- One candidate input of a coalescing node. -/
structure Candidate where
  sourceField : String
  condition : Option String
  deriving DecidableEq

/-- Compares an input and yields one of two values. -/
structure Conditional where
  operator : Comparison
  compareValue : Value
  thenValue : Value
  elseValue : Value
  deriving BEq

/-- Changes a text; the bounds are those of a substring. -/
structure TextChange where
  operation : TextOperation
  start : Option Nat
  stop : Option Nat
  deriving DecidableEq

/-- Takes one part of a text. -/
structure Split where
  delimiter : String
  index : Nat
  deriving DecidableEq

/-- Joins several texts. -/
structure Concat where
  sourceFields : List String
  separator : String
  deriving DecidableEq

/-- Changes the format of a date. -/
structure DateChange where
  inputFormat : Option String
  outputFormat : String
  deriving DecidableEq

/-- Takes the first of several inputs that has a value. -/
structure Coalesce where
  candidates : List Candidate
  defaultValue : Value
  outputType : DataType
  deriving BEq

/-- What a transform node does. -/
inductive Operation
  | passThrough
  | constants (values : List Constant)
  | conditional (parameters : Conditional)
  | text (parameters : TextChange)
  | split (parameters : Split)
  | concat (parameters : Concat)
  | date (parameters : DateChange)
  | coalesce (parameters : Coalesce)
  deriving BEq

namespace Constant

/-- The constant behind an output handle.  Without a handle it is the first one; a lone constant
answers any handle. -/
def find? (constants : List Constant) : Option String → Option Constant
  | none => constants.head?
  | some handle =>
    match constants.find? fun c => c.id == handle with
    | some c => some c
    | none => match constants with
      | [c] => some c
      | _ => none

/-- A constant as a document. -/
def toJson (c : Constant) : Json := .object [("id", .string c.id), ("value", c.value.json)]

/-- Reads a constant. -/
def decode : Decoder Constant :=
  ((Form.defaulted "id" "" .text).and (Form.defaulted "value" Value.null .value)
    |>.map fun (id, value) => (⟨id, value⟩ : Constant)).decode

end Constant

namespace Candidate

/-- A candidate as a document. -/
def toJson (c : Candidate) : Json :=
  .object (("sourceField", .string c.sourceField) ::
    Json.member? "condition" (c.condition.map .string))

/-- Reads a candidate; its field may also be called `field`. -/
def decode : Decoder Candidate :=
  ((Form.member "sourceField" ["field"] (some "") .text).and (Form.optional "condition" .text)
    |>.map fun (sourceField, condition) => (⟨sourceField, condition⟩ : Candidate)).decode

end Candidate

/-- Reads the list of constants of a node. -/
def Constant.decodeAll : Decoder (List Constant) :=
  (Form.defaulted "values" [] (.list Constant.decode)).decode

/-- Reads the parameters of a conditional. -/
def Conditional.decode : Decoder Conditional :=
  ((Form.defaulted "operator" Comparison.equals Comparison.decode).and
    ((Form.defaulted "compareValue" Value.null .value).and
      ((Form.defaulted "thenValue" Value.null .value).and
        (Form.defaulted "elseValue" Value.null .value)))
    |>.map fun (operator, compareValue, thenValue, elseValue) =>
      (⟨operator, compareValue, thenValue, elseValue⟩ : Conditional)).decode

/-- Reads the parameters of a text change. -/
def TextChange.decode : Decoder TextChange :=
  ((Form.defaulted "stringOperation" TextOperation.none (.choice TextOperation.ofName?)).and
    ((Form.optional "start" .nat).and (Form.optional "end" .nat))
    |>.map fun (operation, start, stop) => (⟨operation, start, stop⟩ : TextChange)).decode

/-- Reads the parameters of a split. -/
def Split.decode : Decoder Split :=
  ((Form.defaulted "delimiter" "," .text).and (Form.defaulted "index" 0 .nat)
    |>.map fun (delimiter, index) => (⟨delimiter, index⟩ : Split)).decode

/-- Reads the parameters of a concatenation. -/
def Concat.decode : Decoder Concat :=
  ((Form.defaulted "sourceFields" [] (.list .text)).and (Form.defaulted "separator" " " .text)
    |>.map fun (sourceFields, separator) => (⟨sourceFields, separator⟩ : Concat)).decode

/-- Reads the parameters of a date change. -/
def DateChange.decode : Decoder DateChange :=
  ((Form.optional "inputFormat" .text).and (Form.defaulted "outputFormat" "" .text)
    |>.map fun (inputFormat, outputFormat) => (⟨inputFormat, outputFormat⟩ : DateChange)).decode

/-- Reads the parameters of a coalescing node. -/
def Coalesce.decode : Decoder Coalesce :=
  ((Form.defaulted "rules" [] (.list Candidate.decode)).and
    ((Form.defaulted "defaultValue" Value.null .value).and
      (Form.defaulted "outputType" DataType.string DataType.decode))
    |>.map fun (candidates, defaultValue, outputType) =>
      (⟨candidates, defaultValue, outputType⟩ : Coalesce)).decode

namespace Operation

/-- The members under which the parameters of an operation are written. -/
def members : Operation → List (String × Json)
  | passThrough => []
  | constants values => [("values", .array (values.map Constant.toJson))]
  | conditional p =>
    [("operator", .string p.operator.name), ("compareValue", p.compareValue.json),
      ("thenValue", p.thenValue.json), ("elseValue", p.elseValue.json)]
  | text p =>
    ("stringOperation", .string p.operation.name) ::
      (Json.member? "start" (p.start.map .nat) ++ Json.member? "end" (p.stop.map .nat))
  | split p => [("delimiter", .string p.delimiter), ("index", .nat p.index)]
  | concat p => [("sourceFields", .strings p.sourceFields), ("separator", .string p.separator)]
  | date p =>
    Json.member? "inputFormat" (p.inputFormat.map .string) ++
      [("outputFormat", .string p.outputFormat)]
  | coalesce p =>
    [("rules", .array (p.candidates.map Candidate.toJson)), ("defaultValue", p.defaultValue.json),
      ("outputType", .string p.outputType.name)]

/-- The parameters of an operation as one object. -/
def parameters (o : Operation) : Value := .ofJson (.object o.members)

end Operation
end MappingCanvas
