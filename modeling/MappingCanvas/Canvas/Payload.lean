/-
# Node data in its older layouts

Older documents keep the parameters of a node in different places, and some of them under other
names.  A parameter is looked for at the top of the data, then in `config`, then in
`config.parameters`; in each place under its own name first and then under its aliases.  `null`
counts as missing everywhere, an empty collection only where a stale copy may have been left
behind.  What is found first is taken, so data in any layout comes out as one node body.

`nodeBody` reads the data of a node, `nodeData` writes it in the current layout.

| node | further conversions |
| --- | --- |
| schema | fields may also stand in `schema.fields` |
| lookup | the table is an object or a list of pairs; its cells are scalars turned into texts |
| constants | a list, an object from handle to value, or a single value |
| coalesce | a candidate may be a bare field name |
| all | `index`, `start` and `end` may be texts that spell a number |
-/

import MappingCanvas.Canvas.Node
import MappingCanvas.Json.Writer
import MappingCanvas.Text.Numeral

namespace MappingCanvas

/-- Why the data of a node could not be read. -/
inductive PayloadError
  | notAnObject (nodeId : String)
  | badTable (nodeId typeName : String)
  | undecodable (nodeId typeName : String) (cause : DecodeError)

namespace PayloadError

/-- The beginning of the wording. -/
def about (nodeId typeName : String) : String :=
  "Node '" ++ nodeId ++ "' of type '" ++ typeName ++ "' has invalid data: "

/-- The wording of a payload error. -/
def message : PayloadError → String
  | notAnObject nodeId => "Node '" ++ nodeId ++ "' has a non-object data payload"
  | badTable nodeId typeName =>
    about nodeId typeName ++ "lookup table must be an object or a list of pairs"
  | undecodable nodeId typeName cause => about nodeId typeName ++ cause.message

end PayloadError

namespace Payload

/-- A parameter: its current name, its older names, and whether an empty collection under one of
them is a leftover. -/
structure Key where
  name : String
  aliases : List String
  skipsEmpty : Bool

/-- A parameter of which every value but `null` counts. -/
def key (name : String) (aliases : List String) : Key := ⟨name, aliases, false⟩

/-- A parameter of which empty collections do not count. -/
def collection (name : String) (aliases : List String) : Key := ⟨name, aliases, true⟩

/-- The label of any node. -/
def labelKey : Key := key "label" ["name", "title"]

/-- The parameters of a type of node. -/
def keys : NodeType → List Key
  | .source | .target =>
    [collection "fields" [], collection "sampleData" ["outputData", "sample_data"],
      key "expandedFields" ["expanded"]]
  | .lookup =>
    [collection "table" ["mappings", "mapping", "lookup"],
      key "sourceField" ["source_field", "field"]]
  | .passThrough => []
  | .constants => [key "values" ["staticValues", "value"]]
  | .conditional =>
    [key "operator" ["condition_operator"],
      key "compareValue" ["value", "conditionValue", "compare_value"],
      key "thenValue" ["then", "then_value", "trueValue"],
      key "elseValue" ["else", "else_value", "falseValue"]]
  | .text =>
    [key "stringOperation" ["operation", "string_operation"],
      key "start" ["substringStart", "substring_start"],
      key "end" ["substringEnd", "substring_end"]]
  | .split =>
    [key "delimiter" ["separator", "splitDelimiter"], key "index" ["splitIndex", "part"]]
  | .concat =>
    [key "sourceFields" ["source_fields", "fields"], key "separator" ["delimiter"]]
  | .date =>
    [key "inputFormat" ["input_format", "fromFormat"],
      key "outputFormat" ["output_format", "format", "toFormat"]]
  | .coalesce =>
    [collection "rules" ["fields", "sources"], key "defaultValue" ["default_value", "default"],
      key "outputType" ["output_type"]]

/-- The places where parameters may stand, as paths into the data. -/
def places : List (List String) := [[], ["config"], ["config", "parameters"]]

/-- The value at a path. -/
def follow? (data : Json) (path : List String) : Option Json :=
  path.foldlM (fun j name => j.get? name) data

/-- `null` and collections without elements. -/
def isEmpty : Json → Bool
  | .null => true
  | .array items => items.isEmpty
  | .object members => members.isEmpty
  | _ => false

/-- Whether a value counts for a parameter. -/
def Key.counts (k : Key) (j : Json) : Bool := !(j.isNull || (k.skipsEmpty && isEmpty j))

/-- The value of a parameter in one place. -/
def Key.inPlace? (k : Key) (base : Json) : Option Json :=
  ((k.name :: k.aliases).filterMap base.get?).find? k.counts

/-- The value of a parameter. -/
def Key.find? (k : Key) (data : Json) : Option Json :=
  places.findSome? fun place => (follow? data place).bind k.inPlace?

/-- The parameters that may be stored as texts. -/
def numericNames : List String := ["index", "start", "end"]

/-- A numeric parameter that is stored as a text, turned into a number. -/
def coerce (name : String) (j : Json) : Json :=
  match j with
  | .string s =>
    if numericNames.contains name then
      match Text.word? (Text.trim s) with
      | some n => .nat n
      | none => j
    else j
  | _ => j

/-- The parameters found in some data, under their current names. -/
def current (keys : List Key) (data : Json) : List (String × Json) :=
  keys.filterMap fun k => (k.find? data).map fun j => (k.name, coerce k.name j)

/-- The value of a parameter among those found. -/
def value? (found : List (String × Json)) (name : String) : Option Json :=
  (Json.object found).get? name

/-- The parameters found, with one of them given another value. -/
def withValue (found : List (String × Json)) (name : String) (j : Json) : List (String × Json) :=
  found.filter (fun m => m.1 != name) ++ [(name, j)]

/-- The text of a table cell: a string without its quotes, anything else as JSON. -/
def cellText : Json → String
  | .string s => s
  | j => j.compact

/-- The two ends of a pair of a table. -/
def pair? (j : Json) : Option (String × String) := do
  let key ← j.get? "from" <|> j.get? "source"
  let text ← j.get? "to" <|> j.get? "target"
  return (cellText key, cellText text)

/-- The table in an object or a list of pairs. -/
def table? : Json → Option Table
  | .object members => some (.ofList (members.map fun m => (m.1, cellText m.2)))
  | .array pairs => (pairs.mapM pair?).map .ofList
  | _ => none

/-- A table as a document. -/
def tableToJson (t : Table) : Json := .object (t.entries.map fun e => (e.1, .string e.2))

/-- The list of constants in any of its layouts. -/
def constantList : Option Json → Json
  | some (.object members) =>
    .array (members.map fun m => .object [("id", .string m.1), ("value", m.2)])
  | some (.array items) => .array items
  | some single => .array [.object [("id", .string "value"), ("value", single)]]
  | none => .array []

/-- A candidate that is a bare field name, turned into an object. -/
def candidate : Json → Json
  | .string field => .object [("sourceField", .string field)]
  | j => j

/-- The members of a schema, lookup or transform found in the data, in the shape their decoders
read. -/
def parameters (nodeId typeName : String) (type : NodeType) (data : Json) :
    Except PayloadError Value := do
  let found := current (keys type) data
  let members ← match type with
    | .source | .target =>
      pure <| match value? found "fields", follow? data ["schema", "fields"] with
        | none, some fields => if isEmpty fields then found else withValue found "fields" fields
        | _, _ => found
    | .lookup =>
      match value? found "table" with
      | none => pure found
      | some j => match table? j with
        | some t => pure (withValue found "table" (tableToJson t))
        | none => throw (.badTable nodeId typeName)
    | .constants => pure (withValue found "values" (constantList (value? found "values")))
    | .coalesce =>
      pure <| match value? found "rules" with
        | some (.array rules) => withValue found "rules" (.array (rules.map candidate))
        | _ => found
    | _ => pure found
  return .ofJson (.object members)

/-- The members of a schema as stored in node data. -/
def schemaForm : Form Schema :=
  (Form.defaulted "label" "" .text).and
    ((Form.defaulted "fields" [] (.list Field.decode)).and
      ((Form.member "sampleData" ["outputData"] (some []) (.list .value)).and
        (Form.defaulted "expandedFields" TextSet.empty .textSet)))
  |>.map fun (label, fields, samples, expanded) => ⟨label, fields, samples, expanded⟩

/-- The members of a lookup as stored in node data. -/
def lookupForm : Form Lookup :=
  (Form.defaulted "label" "" .text).and
    ((Form.defaulted "table" Table.empty .table).and (Form.optional "sourceField" .text))
  |>.map fun (label, table, sourceField) => ⟨label, table, sourceField⟩

/-- Decodes the parameters of a node of known type. -/
def decodeBody (label : String) (v : Value) : NodeType → Except DecodeError Node.Body
  | .source => (schemaForm.decode.ofValue v).map fun s => .source { s with label }
  | .target => (schemaForm.decode.ofValue v).map fun s => .target { s with label }
  | .lookup => (lookupForm.decode.ofValue v).map fun l => .lookup { l with label }
  | .passThrough => .ok (.transform label .passThrough)
  | .constants => (Constant.decodeAll.ofValue v).map fun p => .transform label (.constants p)
  | .conditional => (Conditional.decode.ofValue v).map fun p => .transform label (.conditional p)
  | .text => (TextChange.decode.ofValue v).map fun p => .transform label (.text p)
  | .split => (Split.decode.ofValue v).map fun p => .transform label (.split p)
  | .concat => (Concat.decode.ofValue v).map fun p => .transform label (.concat p)
  | .date => (DateChange.decode.ofValue v).map fun p => .transform label (.date p)
  | .coalesce => (Coalesce.decode.ofValue v).map fun p => .transform label (.coalesce p)

/-- The label in some data, or else the name of the type. -/
def label (type : NodeType) (data : Json) : String :=
  ((labelKey.find? data).bind Json.string?).getD type.name

/-- Whether data may belong to a node of known type. -/
def isRecord : Json → Bool
  | .object _ | .null => true
  | _ => false

/-- Reads the data of a node. -/
def nodeBody (nodeId typeName : String) (data : Value) : Except PayloadError Node.Body :=
  match NodeType.ofName? typeName with
  | none => .ok (.unknown typeName data)
  | some type => do
    if !isRecord data.json then throw (.notAnObject nodeId)
    let v ← parameters nodeId typeName type data.json
    (decodeBody (label type data.json) v type).mapError (.undecodable nodeId typeName)

/-- The members of a schema in node data; what is empty is left out, apart from the fields. -/
def schemaMembers (s : Schema) : List (String × Json) :=
  [("label", .string s.label), ("fields", .array (Field.forestToJson s.fields))] ++
    Json.member? "sampleData"
      (if s.samples.isEmpty then none else some (.array (s.samples.map Value.json))) ++
    Json.member? "expandedFields"
      (if s.expanded.toList.isEmpty then none else some (.strings s.expanded.toList))

/-- The members of a lookup in node data. -/
def lookupMembers (l : Lookup) : List (String × Json) :=
  [("label", .string l.label), ("table", tableToJson l.table)] ++
    Json.member? "sourceField" (l.sourceField.map .string)

/-- Writes the data of a node in the current layout. -/
def nodeData : Node.Body → Value
  | .source s | .target s => .ofJson (.object (schemaMembers s))
  | .lookup l => .ofJson (.object (lookupMembers l))
  | .transform label operation =>
    .ofJson (.object (operation.members ++ [("label", .string label)]))
  | .unknown _ data => data

/-- The data of a transform in the layout of stored configurations. -/
def configured (label : String) (parameters : Value) : Value :=
  .ofJson (.object [("label", .string label),
    ("config", .object [("parameters", parameters.json)])])

end Payload
end MappingCanvas
