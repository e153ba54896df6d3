/-
# Rule sets as documents

A rule is one object: `from` (perhaps `null`), `to`, and beside them the `type` of its action with
the members of that action.  Because the members of a rule and of its action are mixed, those that
are neither `from` nor `to` are kept as they are until all have been seen, and then read as an
action.

A value that is one of several kinds has a tag for its kind: the member `type`, or the first
element where such a value may be written as an array.  A tag is a name or the place of the name
in the list of kinds.
-/

import MappingCanvas.Json.Decode
import MappingCanvas.Rule.Basic

namespace MappingCanvas

namespace Decoder

variable {α : Type}

/-- The kind that a tag stands for. -/
def tag (kinds : List (String × α)) : Json → Except DecodeError α
  | .string s =>
    match kinds.find? fun k => k.1 == s with
    | some k => .ok k.2
    | none => .error (.unknownVariant s)
  | .number (.integer n) =>
    if n < 0 then .error (.invalidType (.integer n))
    else match kinds[n.toNat]? with
      | some k => .ok k.2
      | none => .error (.invalidValue (.integer n))
  | j => .error (.wrong j)

/-- Separates the tag of an object from its other members. -/
def tagged (kinds : List (String × α)) (found : Option α) :
    List (String × Json) → Except DecodeError (α × List (String × Json))
  | [] =>
    match found with
    | some a => .ok (a, [])
    | none => .error (.missingField "type")
  | (name, j) :: ms =>
    if name = "type" then
      match found with
      | some _ => .error (.duplicateField "type")
      | none => do tagged kinds (some (← tag kinds j)) ms
    else do
      let (a, rest) ← tagged kinds found ms
      return (a, (name, j) :: rest)

end Decoder

/-- Reads a condition. -/
def Condition.decode : Decoder Condition :=
  ((Form.required "operator" Comparison.decode).and (Form.required "value" .value)
    |>.map fun (operator, value) => (⟨operator, value⟩ : Condition)).decode

/-- A condition as a document. -/
def Condition.toJson (c : Condition) : Json :=
  .object [("operator", .string c.operator.name), ("value", c.value.json)]

namespace TextStep

/-- The kinds of steps. -/
inductive Kind
  | substring | split | uppercase | lowercase | trim

/-- The names of the kinds, in their listed order. -/
def kinds : List (String × Kind) :=
  [("substring", .substring), ("split", .split), ("uppercase", .uppercase),
    ("lowercase", .lowercase), ("trim", .trim)]

/-- Reads a step that has no parameters. -/
def plain (s : TextStep) : Json → Except DecodeError TextStep
  | .array [] => .ok s
  | .array js => .error (.invalidLength js.length)
  | _ => .ok s

/-- Reads the parameters of a step. -/
def decodeParameters (parameters : Json) : Kind → Except DecodeError TextStep
  | .substring =>
    ((Form.required "start" .nat).and (Form.optional "end" .nat)
      |>.map fun (start, stop) => substring start stop).decode .kept parameters
  | .split =>
    ((Form.required "delimiter" .text).and (Form.required "index" .nat)
      |>.map fun (delimiter, index) => split delimiter index).decode .kept parameters
  | .uppercase => plain uppercase parameters
  | .lowercase => plain lowercase parameters
  | .trim => plain trim parameters

/-- Reads a step that is held. -/
def decode : Decoder TextStep
  | _, .object members => do
    let (kind, rest) ← Decoder.tagged kinds none members
    decodeParameters (.object rest) kind
  | _, .array [] => .error (.missingField "type")
  | _, .array (j :: js) => do decodeParameters (.array js) (← Decoder.tag kinds j)
  | _, j => .error (.wrong j)

/-- A step as a document. -/
def toJson : TextStep → Json
  | substring start stop =>
    .object ([("type", .string "substring"), ("start", .nat start)] ++
      Json.member? "end" (stop.map .nat))
  | split delimiter index =>
    .object [("type", .string "split"), ("delimiter", .string delimiter), ("index", .nat index)]
  | uppercase => .object [("type", .string "uppercase")]
  | lowercase => .object [("type", .string "lowercase")]
  | trim => .object [("type", .string "trim")]

end TextStep

namespace Rule

/-- The kinds of actions. -/
inductive Kind
  | copy | constant | choose | lookUp | skip

/-- The names of the kinds, in their listed order. -/
def kinds : List (String × Kind) :=
  [("direct", .copy), ("static", .constant), ("ifThen", .choose), ("map", .lookUp),
    ("skip", .skip)]

/-- Reads the parameters of an action. -/
def decodeParameters (parameters : Json) : Kind → Except DecodeError Action
  | .copy => .ok .copy
  | .constant => ((Form.required "value" .value).map Action.constant).decode .kept parameters
  | .choose =>
    ((Form.required "if" Condition.decode).and
      ((Form.required "then" .value).and (Form.required "else" .value))
      |>.map fun (condition, whenTrue, whenFalse) => Action.choose condition whenTrue whenFalse)
      |>.decode .kept parameters
  | .lookUp =>
    ((Form.required "map" .table).and (Form.optional "transform" TextStep.decode)
      |>.map fun (table, step) => Action.lookUp table step).decode .kept parameters
  | .skip => .ok .skip

/-- The members of a rule that have been read. -/
structure Draft where
  source : Option (Option String)
  target : Option String
  /-- The members that belong to the action. -/
  others : List (String × Json)

/-- Takes one member of a rule. -/
def Draft.take (mode : Reading) (d : Draft) : String × Json → Except DecodeError Draft
  | (_, .flawed (.key cause _)) => .error (.malformed cause)
  | ("from", j) =>
    match d.source with
    | some _ => .error (.duplicateField "from")
    | none => (Decoder.option .text mode j).map fun s => { d with source := some s }
  | ("to", j) =>
    match d.target with
    | some _ => .error (.duplicateField "to")
    | none => (Decoder.text mode j).map fun s => { d with target := some s }
  | (name, j) => do
    Decoder.sound j
    return { d with others := d.others ++ [(name, j)] }

/-- The rule of the members. -/
def Draft.finish (d : Draft) : Except DecodeError Rule := do
  let some target := d.target | throw (.missingField "to")
  let (kind, parameters) ← Decoder.tagged kinds none d.others
  let action ← decodeParameters (.object parameters) kind
  return ⟨d.source.getD none, target, action⟩

/-- Reads a rule. -/
def decode : Decoder Rule
  | mode, .object members => do (← members.foldlM (Draft.take mode) ⟨none, none, []⟩).finish
  | _, .flawed (.deepObject _) => .error (.malformed .tooDeep)
  | _, j => .error (.wrong j)

/-- The members of an action. -/
def Action.members : Action → List (String × Json)
  | copy => [("type", .string "direct")]
  | constant value => [("type", .string "static"), ("value", value.json)]
  | choose condition whenTrue whenFalse =>
    [("type", .string "ifThen"), ("if", condition.toJson), ("then", whenTrue.json),
      ("else", whenFalse.json)]
  | lookUp table step =>
    [("type", .string "map"), ("map", .object (table.entries.map fun e => (e.1, .string e.2)))] ++
      Json.member? "transform" (step.map TextStep.toJson)
  | skip => [("type", .string "skip")]

/-- A rule as a document. -/
def toJson (r : Rule) : Json :=
  .object ([("from", (r.source.map .string).getD .null), ("to", .string r.target)] ++
    r.action.members)

end Rule

namespace RuleSet

/-- Reads a rule set. -/
def decode : Decoder RuleSet :=
  ((Form.optional "name" .text).and ((Form.optional "version" .text).and
    ((Form.defaulted "mappings" [] (.list Rule.decode)).and
      (Form.defaulted "arrays" [] (.list Grouping.decode))))
    |>.map fun (name, version, rules, groupings) =>
      (⟨name, version, rules, groupings⟩ : RuleSet)).decode

/-- A rule set as a document. -/
def toJson (s : RuleSet) : Json :=
  .object (Json.member? "name" (s.name.map .string) ++
    Json.member? "version" (s.version.map .string) ++
    [("mappings", .array (s.rules.map Rule.toJson)),
      ("arrays", .array (s.groupings.map Grouping.toJson))])

end RuleSet
end MappingCanvas
