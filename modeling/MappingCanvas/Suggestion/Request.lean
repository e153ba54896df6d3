/-
# Asking for suggestions

An assistant is sent a prompt that shows some sample records of both sides, cut to a limit and
with sensitive values removed, and answers with a text somewhere in which there is a JSON array of
suggestions: from the first opening bracket to the last closing one.
-/

import MappingCanvas.Json.Writer
import MappingCanvas.Suggestion.Record

namespace MappingCanvas

/-- The two sides of a mapping. -/
inductive Side
  | source | target
  deriving DecidableEq

/-- Why no suggestions were received. -/
inductive OracleError
  | transport (reason : String)
  | missingArray
  | malformed (cause : DecodeError)
  | emptySamples (side : Side)

/-- The wording of an oracle error. -/
def OracleError.message : OracleError → String
  | transport reason => "Suggestion oracle call failed: " ++ reason
  | missingArray => "Oracle response does not contain a JSON array"
  | malformed cause => "Oracle response contains malformed JSON: " ++ cause.message
  | emptySamples .source => "No sample records were provided for the source side"
  | emptySamples .target => "No sample records were provided for the target side"

/-- The settings of requests: how many records of each side are sent. -/
structure OracleOptions where
  sampleLimit : Nat
  deriving DecidableEq

namespace OracleOptions

/-- Five records. -/
def default : OracleOptions := ⟨5⟩

/-- Settings as a document. -/
def toJson (o : OracleOptions) : Json := .object [("sampleLimit", .nat o.sampleLimit)]

/-- Reads settings; what is missing is taken from the default. -/
def decode : Decoder OracleOptions :=
  ((Form.defaulted "sampleLimit" default.sampleLimit .nat).map OracleOptions.mk).decode

end OracleOptions

namespace Suggestion

/-- The sample records that are sent. -/
structure Request where
  sourceData : List Value
  targetData : List Value

/-- A request as a document. -/
def Request.toJson (r : Request) : Json :=
  .object [("sourceData", .array (r.sourceData.map Value.json)),
    ("targetData", .array (r.targetData.map Value.json))]

/-- The request for some sample records; both sides need at least one. -/
def request (options : OracleOptions) (redact : Value → Value) (source target : List Value) :
    Except OracleError Request :=
  if source.isEmpty then .error (.emptySamples .source)
  else if target.isEmpty then .error (.emptySamples .target)
  else
    let prepare (records : List Value) := (records.take options.sampleLimit).map redact
    .ok ⟨prepare source, prepare target⟩

/-- What the prompt says about the kinds of suggestions. -/
def kindsText : String :=
  "- direct: \x7b\"target_field\", \"mapping_type\": \"direct\", \"source_field\"\x7d\n" ++
  "- static: \x7b\"target_field\", \"mapping_type\": \"static\", \"value\"\x7d\n" ++
  "- conditional: \x7b\"target_field\", \"mapping_type\": \"conditional\", \"source_field\", " ++
    "\"conditions\": [\x7b\"condition\", \"value\"\x7d]\x7d\n" ++
  "- table: \x7b\"target_field\", \"mapping_type\": \"table\", \"source_field\", " ++
    "\"table\": \x7b\"<source value>\": \"<target value>\"\x7d\x7d\n" ++
  "- date_conversion: \x7b\"target_field\", \"mapping_type\": \"date_conversion\", " ++
    "\"source_field\", \"format\"\x7d\n" ++
  "- concat: \x7b\"target_field\", \"mapping_type\": \"concat\", \"source_fields\": [...], " ++
    "\"separator\"\x7d\n" ++
  "- split: \x7b\"target_field\", \"mapping_type\": \"split\", \"source_field\", " ++
    "\"delimiter\", \"index\"\x7d\n" ++
  "Use \x7b\"target_field\", \"mapping_type\": \"skip\"\x7d for a target field with no sensible " ++
    "source."

/-- The prompt of a request. -/
def prompt (r : Request) : String :=
  "Propose field mappings from the source records to the target records.\n\n" ++
  "Source sample data:\n" ++ (Json.array (r.sourceData.map Value.json)).pretty ++ "\n\n" ++
  "Target sample data:\n" ++ (Json.array (r.targetData.map Value.json)).pretty ++ "\n\n" ++
  "Answer with a JSON array containing one object per target field, each shaped as one of:\n" ++
  kindsText ++ "\n"

/-- The part of a text from its first opening to its last closing bracket. -/
def bracketed? (text : String) : Option String :=
  let fromOpening := text.toList.dropWhile (· ≠ '[')
  let upToClosing := (fromOpening.reverse.dropWhile (· ≠ ']')).reverse
  if upToClosing.isEmpty then none else some (String.ofList upToClosing)

/-- The suggestions in the text of an answer. -/
def parseAnswer (text : String) : Except OracleError (List Suggestion) :=
  match bracketed? text with
  | none => .error .missingArray
  | some array => (Decoder.ofText (.list decode) array).mapError .malformed

/-- Asks for suggestions; `ask` sends a prompt and returns the answer. -/
def suggest (options : OracleOptions) (redact : Value → Value)
    (ask : String → Except OracleError String) (source target : List Value) :
    Except OracleError (List Suggestion) := do
  parseAnswer (← ask (prompt (← request options redact source target)))

end Suggestion
end MappingCanvas
