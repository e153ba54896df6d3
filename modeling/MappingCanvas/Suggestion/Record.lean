/-
# Suggestions as records

On the wire all kinds of suggestions share one flat record whose members may all be missing.
`Suggestion.ofRecord` reads a record by its `mapping_type`:

| kind | needs | defaults |
| --- | --- | --- |
| `direct` | source | |
| `static` | | value `null` |
| `conditional` | at least one condition | no source |
| `table` | source, table | |
| `date_conversion` | source | empty format |
| `concat` | at least one source field | separator: a space |
| `split` | source | delimiter: a comma, index 0 |
| `skip` | | |

Every kind but `skip` also needs a target.
-/

import MappingCanvas.Canvas.Payload
import MappingCanvas.Suggestion.Basic

namespace MappingCanvas
namespace Suggestion

/-- A suggestion as it is written. -/
structure Record where
  targetField : Option String
  mappingType : String
  sourceField : Option String
  sourceFields : Option (List String)
  separator : Option String
  delimiter : Option String
  index : Option Nat
  table : Option Table
  conditions : Option (List Branch)
  format : Option String
  value : Option Value
  reason : Option String

/-- A record of the given kind and nothing else. -/
def Record.ofType (mappingType : String) : Record :=
  ⟨none, mappingType, none, none, none, none, none, none, none, none, none, none⟩

/-- A record that is no suggestion. -/
def refuse (r : Record) (reason : String) : Suggestion :=
  unrecognised r.mappingType r.targetField reason

/-- The suggestion of a record that reads a source field. -/
def withSource (r : Record) (make : String → Suggestion) : Suggestion :=
  match r.sourceField with
  | some source => make source
  | none => refuse r "missing source_field"

/-- The suggestion of a record for a target field. -/
def ofRecordFor (r : Record) (target : String) : Suggestion :=
  match r.mappingType with
  | "direct" => withSource r fun source => direct target source
  | "static" => constant target (r.value.getD .null)
  | "conditional" =>
    match r.conditions with
    | some (b :: bs) => conditional target r.sourceField (b :: bs)
    | _ => refuse r "missing conditions"
  | "table" =>
    withSource r fun source =>
      match r.table with
      | some t => table target source t
      | none => refuse r "missing table"
  | "date_conversion" => withSource r fun source => date target source (r.format.getD "")
  | "concat" =>
    match r.sourceFields with
    | some (s :: ss) => concat target (s :: ss) (r.separator.getD " ")
    | _ => refuse r "missing source_fields"
  | "split" =>
    withSource r fun source => split target source (r.delimiter.getD ",") (r.index.getD 0)
  | "skip" => skip (some target) r.reason
  | _ => refuse r "unknown mapping_type"

/-- The suggestion of a record. -/
def ofRecord (r : Record) : Suggestion :=
  match r.targetField with
  | some target => ofRecordFor r target
  | none =>
    if r.mappingType = "skip" then skip none r.reason else refuse r "missing target_field"

/-- The record of a suggestion. -/
def toRecord (s : Suggestion) : Record :=
  let r := Record.ofType s.mappingType
  match s with
  | direct target source => { r with targetField := some target, sourceField := some source }
  | constant target value => { r with targetField := some target, value := some value }
  | conditional target source branches =>
    { r with targetField := some target, sourceField := source, conditions := some branches }
  | table target source entries =>
    { r with targetField := some target, sourceField := some source, table := some entries }
  | date target source format =>
    { r with targetField := some target, sourceField := some source, format := some format }
  | concat target sources separator =>
    { r with
      targetField := some target, sourceFields := some sources, separator := some separator }
  | split target source delimiter index =>
    { r with
      targetField := some target, sourceField := some source, delimiter := some delimiter
      index := some index }
  | skip target reason => { r with targetField := target, reason := reason }
  | unrecognised _ target reason => { r with targetField := target, reason := some reason }

/-! ### Records as documents -/

/-- Reads a branch. -/
def decodeBranch : Decoder Branch :=
  ((Form.defaulted "condition" "" .text).and (Form.defaulted "value" Value.null .value)
    |>.map fun (condition, value) => (⟨condition, value⟩ : Branch)).decode

/-- A branch as a document. -/
def branchToJson (b : Branch) : Json :=
  .object [("condition", .string b.condition), ("value", b.value.json)]

/-- Reads a record. -/
def Record.decode : Decoder Record :=
  ((Form.optional "target_field" .text).and ((Form.defaulted "mapping_type" "" .text).and
    ((Form.optional "source_field" .text).and ((Form.optional "source_fields" (.list .text)).and
      ((Form.optional "separator" .text).and ((Form.optional "delimiter" .text).and
        ((Form.optional "index" .nat).and ((Form.optional "table" .table).and
          ((Form.optional "conditions" (.list decodeBranch)).and
            ((Form.optional "format" .text).and
              ((Form.member "value" ["static_value"] (some none) (.option .value)).and
                (Form.optional "reason" .text)))))))))))
    |>.map fun (targetField, mappingType, sourceField, sourceFields, separator, delimiter, index,
        table, conditions, format, value, reason) =>
      (⟨targetField, mappingType, sourceField, sourceFields, separator, delimiter, index, table,
        conditions, format, value, reason⟩ : Record)).decode

/-- A record as a document. -/
def Record.toJson (r : Record) : Json :=
  .object (Json.member? "target_field" (r.targetField.map .string) ++
    [("mapping_type", .string r.mappingType)] ++
    Json.member? "source_field" (r.sourceField.map .string) ++
    Json.member? "source_fields" (r.sourceFields.map .strings) ++
    Json.member? "separator" (r.separator.map .string) ++
    Json.member? "delimiter" (r.delimiter.map .string) ++
    Json.member? "index" (r.index.map .nat) ++
    Json.member? "table" (r.table.map Payload.tableToJson) ++
    Json.member? "conditions" (r.conditions.map fun bs => .array (bs.map branchToJson)) ++
    Json.member? "format" (r.format.map .string) ++
    Json.member? "value" (r.value.map Value.json) ++
    Json.member? "reason" (r.reason.map .string))

/-- Reads a suggestion. -/
def decode : Decoder Suggestion := fun mode j => (Record.decode mode j).map ofRecord

/-- A suggestion as a document. -/
def toJson (s : Suggestion) : Json := s.toRecord.toJson

end Suggestion
end MappingCanvas
