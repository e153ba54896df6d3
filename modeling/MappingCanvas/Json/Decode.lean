/-
# Decoding documents

A decoder turns a document into a typed value or says what is wrong with it.  It goes through the
document in order, so the first thing wrong is the one reported.

A record is described by a `Form`: the names of its members, a decoder for each, and what a
missing member stands for.  From one form come both ways to write a record, as an object with
named members and as an array of the members' values in the order of the form.

| rule | error |
| --- | --- |
| a member given twice, under whatever names | `duplicateField`, before its value is looked at |
| a member missing that has no default | `missingField`, after all members that are present |
| an array that ends before a member without default | `invalidLength` with the member's place |
| an array with more elements than the form | see `Reading` |
| a member the form does not name | none, it is skipped |
-/

import MappingCanvas.Instant
import MappingCanvas.Json.Reader
import MappingCanvas.Json.Value
import MappingCanvas.Text.Numeral
import MappingCanvas.Text.Quoted

namespace MappingCanvas

/-- How a document reaches its decoder: `held` as a whole, `kept` aside until the kind of the record
around it is known, or `streamed` from a text.  The end of a streamed record is only noticed in the
text, so what follows it there is a syntax error. -/
inductive Reading
  | held
  | kept
  | streamed
  deriving DecidableEq

/-- What was found where something else was wanted. -/
inductive Found
  | boolean (value : Bool)
  | integer (value : Int)
  | float (value : Float)
  | string (value : String)
  | null
  | sequence
  | map

/-- The wording of what was found. -/
def Found.describe : Found → String
  | boolean b => "boolean `" ++ (if b then "true" else "false") ++ "`"
  | integer n => "integer `" ++ String.ofList (Number.renderInteger n) ++ "`"
  | float x => "floating point `" ++ String.ofList (Number.renderFloat x) ++ "`"
  | string s => "string " ++ Text.quote s
  | null => "null"
  | sequence => "sequence"
  | map => "map"

/-- Why a document could not be decoded. -/
inductive DecodeError
  | malformed (cause : SyntaxError)
  | missingField (name : String)
  | duplicateField (name : String)
  | unknownVariant (name : String)
  | invalidLength (length : Nat)
  | invalidType (found : Found)
  | invalidValue (found : Found)
  | invalidDate (cause : Instant.ReadError)
  | refused (reason : String)

namespace DecodeError

/-- The wording of a decoding error. -/
def message : DecodeError → String
  | malformed cause => cause.message
  | missingField name => "missing field `" ++ name ++ "`"
  | duplicateField name => "duplicate field `" ++ name ++ "`"
  | unknownVariant name => "unknown variant `" ++ name ++ "`"
  | invalidLength n => "invalid length " ++ Text.ofNat n
  | invalidType found => "invalid type: " ++ found.describe
  | invalidValue found => "invalid value: " ++ found.describe
  | invalidDate cause => cause.message
  | refused reason => reason

/-- Whether the text is not JSON, as opposed to JSON of the wrong shape. -/
def isSyntax : DecodeError → Bool
  | malformed _ => true
  | _ => false

/-- The error of a value of the wrong kind. -/
def wrong : Json → DecodeError
  | .null => invalidType .null
  | .bool b => invalidType (.boolean b)
  | .number (.integer n) => invalidType (.integer n)
  | .number (.float x) => invalidType (.float x)
  | .string s => invalidType (.string s)
  | .array _ | .flawed (.deepArray _) => invalidType .sequence
  | .object _ | .flawed (.deepObject _) => invalidType .map
  | .flawed flaw => malformed flaw.refusal

end DecodeError

/-- Reads a value of type `α` off a document. -/
abbrev Decoder (α : Type) := Reading → Json → Except DecodeError α

namespace Decoder

variable {α : Type}

/-- A text. -/
def text : Decoder String
  | _, .string s => .ok s
  | _, j => .error (.wrong j)

/-- A truth value. -/
def bool : Decoder Bool
  | _, .bool b => .ok b
  | _, j => .error (.wrong j)

/-- A natural number. -/
def nat : Decoder Nat
  | _, .number (.integer n) => if 0 ≤ n then .ok n.toNat else .error (.invalidValue (.integer n))
  | _, j => .error (.wrong j)

/-- A float; an integer is rounded to one. -/
def float : Decoder Float
  | _, .number (.float x) => .ok x
  | _, .number (.integer n) => .ok (Float.ofInt n)
  | _, j => .error (.wrong j)

/-- A point in time. -/
def instant : Decoder Instant
  | _, .string s => (Instant.read s).mapError .invalidDate
  | _, j => .error (.wrong j)

/-- Refuses a document with a flaw anywhere. -/
def sound (j : Json) : Except DecodeError Unit :=
  match j.flaw? with
  | some cause => .error (.malformed cause)
  | none => .ok ()

/-- Passes over a document nobody wants. -/
def skip (j : Json) : Except DecodeError Unit :=
  match j.stop? with
  | some cause => .error (.malformed cause)
  | none => .ok ()

/-- Any JSON value. -/
def value : Decoder Value
  | _, j => do sound j; return .ofJson j

/-- A value or `null`. -/
def option (read : Decoder α) : Decoder (Option α)
  | _, .null => .ok none
  | mode, j => (read mode j).map some

/-- An array of values. -/
def list (read : Decoder α) : Decoder (List α)
  | mode, .array items => items.mapM (read mode)
  | _, .flawed (.deepArray _) => .error (.malformed .tooDeep)
  | _, j => .error (.wrong j)

/-- A set of texts, written as an array. -/
def textSet : Decoder TextSet
  | mode, j => (list text mode j).map TextSet.ofList

/-- The members of an object as entries of a table. -/
def entries : List (String × Json) → Except DecodeError (List (String × String))
  | [] => .ok []
  | (_, .flawed (.key cause _)) :: _ => .error (.malformed cause)
  | (name, j) :: ms => do
    let s ← text .held j
    return (name, s) :: (← entries ms)

/-- A table, written as an object. -/
def table : Decoder Table
  | _, .object members => (entries members).map Table.ofList
  | _, .flawed (.deepObject _) => .error (.malformed .tooDeep)
  | _, j => .error (.wrong j)

/-- One of some named choices: its name, or an object with the name as only member, of value
`null`. -/
def choice (find? : String → Option α) : Decoder α
  | _, .string s => named s
  | .streamed, .object [] => .error (.malformed .noValue)
  | .streamed, .object ((_, .flawed (.key cause _)) :: _) => .error (.malformed cause)
  | .streamed, .object ((name, j) :: rest) => do
    let a ← named name
    unit .streamed j
    match rest with
    | [] => return a
    | (_, .flawed (.key .endInObject _)) :: _ => throw (.malformed .endInObject)
    | _ => throw (.malformed .noValue)
  | .streamed, .flawed (.gap cause _) | .streamed, .flawed (.string cause _) =>
    .error (.malformed cause)
  | .streamed, .flawed (.deepObject _) => .error (.malformed .tooDeep)
  | .streamed, _ => .error (.malformed .noValue)
  | mode, .object [(name, j)] => do let a ← named name; unit mode j; return a
  | _, .object _ => .error (.invalidValue .map)
  | _, j => .error (.wrong j)
where
  /-- The choice of a name. -/
  named (s : String) : Except DecodeError α :=
    match find? s with
    | some a => .ok a
    | none => .error (.unknownVariant s)
  /-- The value of a choice that carries nothing; one that was kept may also be an object without
  members. -/
  unit : Reading → Json → Except DecodeError Unit
    | _, .null => .ok ()
    | .kept, .object [] => .ok ()
    | _, j => .error (.wrong j)

end Decoder

/-! ### Records -/

/-- The description of a record. -/
structure Form (α : Type) : Type 1 where
  /-- The members read so far. -/
  State : Type
  blank : State
  /-- What to do with a member of the given name; nothing if the form does not have it. -/
  accept : String → Option (State → Reading → Json → Except DecodeError State)
  finish : State → Except DecodeError α
  /-- The number of members. -/
  width : Nat
  /-- Reads the members off the elements of an array; the number is the place of the first. -/
  positional : Reading → Nat → List Json → Except DecodeError (α × List Json)

namespace Form

variable {α β : Type}

/-- A record of one member, called by the first of its names; `absent` is what it stands for when
it is missing. -/
def member (name : String) (aliases : List String) (absent : Option α) (read : Decoder α) :
    Form α where
  State := Option α
  blank := none
  accept given :=
    if given = name ∨ given ∈ aliases then
      some fun
        | some _, _, _ => .error (.duplicateField name)
        | none, mode, j => (read mode j).map some
    else none
  finish
    | some a => .ok a
    | none => match absent with
      | some a => .ok a
      | none => .error (.missingField name)
  width := 1
  positional
    | mode, _, j :: js => (read mode j).map fun a => (a, js)
    | _, place, [] => match absent with
      | some a => .ok (a, [])
      | none => .error (.invalidLength place)

/-- A member that must be there. -/
def required (name : String) (read : Decoder α) : Form α := member name [] none read

/-- A member with a default. -/
def defaulted (name : String) (absent : α) (read : Decoder α) : Form α :=
  member name [] (some absent) read

/-- A member that may be missing or `null`. -/
def optional (name : String) (read : Decoder α) : Form (Option α) :=
  member name [] (some none) read.option

/-- The members of two forms, those of the first in front. -/
def and (f : Form α) (g : Form β) : Form (α × β) where
  State := f.State × g.State
  blank := (f.blank, g.blank)
  accept name :=
    match f.accept name, g.accept name with
    | some step, _ => some fun s mode j => (step s.1 mode j).map fun x => (x, s.2)
    | none, some step => some fun s mode j => (step s.2 mode j).map fun y => (s.1, y)
    | none, none => none
  finish s := do
    let a ← f.finish s.1
    let b ← g.finish s.2
    return (a, b)
  width := f.width + g.width
  positional mode place items := do
    let (a, rest) ← f.positional mode place items
    let (b, rest) ← g.positional mode (place + f.width) rest
    return ((a, b), rest)

/-- The record made of the members. -/
def map (make : α → β) (f : Form α) : Form β where
  State := f.State
  blank := f.blank
  accept := f.accept
  finish s := (f.finish s).map make
  width := f.width
  positional mode place items := (f.positional mode place items).map fun (a, rest) => (make a, rest)

/-- Takes one member of an object. -/
def step (f : Form α) (mode : Reading) (s : f.State) : String × Json → Except DecodeError f.State
  | (_, .flawed (.key cause _)) => .error (.malformed cause)
  | (name, j) =>
    match f.accept name with
    | some read => read s mode j
    | none => do Decoder.skip j; return s

/-- The error of elements behind the last member. -/
def excess (mode : Reading) (length : Nat) : Json → DecodeError :=
  match mode with
  | .held | .kept => fun _ => .invalidLength length
  | .streamed => fun
    | .flawed (.gap .trailingComma _) => .malformed .trailingComma
    | .flawed (.gap .endInArray _) => .malformed .endInArray
    | _ => .malformed .trailingText

/-- Reads a record. -/
def decode (f : Form α) : Decoder α
  | mode, .object members => do f.finish (← members.foldlM (f.step mode) f.blank)
  | mode, .array items => do
    let (a, rest) ← f.positional mode 0 items
    match rest with
    | [] => return a
    | j :: _ => throw (excess mode items.length j)
  | _, .flawed (.deepArray _) | _, .flawed (.deepObject _) => .error (.malformed .tooDeep)
  | _, j => .error (.wrong j)

end Form

/-- Decodes a document that is held as a whole. -/
def Decoder.ofValue {α : Type} (read : Decoder α) (v : Value) : Except DecodeError α :=
  read .held v.json

/-- Decodes a text that has been read. -/
def Decoder.ofScan {α : Type} (read : Decoder α) (scan : Json.Scan) : Except DecodeError α := do
  let a ← read .streamed scan.tree
  match scan.trailing with
  | some cause => throw (.malformed cause)
  | none => return a

/-- Decodes a text. -/
def Decoder.ofText {α : Type} (read : Decoder α) (text : String) : Except DecodeError α :=
  read.ofScan (Json.read text)

/-- Decodes the bytes of a text. -/
def Decoder.ofBytes {α : Type} (read : Decoder α) (bytes : List UInt8) : Except DecodeError α :=
  read.ofScan (Json.readBytes bytes)

end MappingCanvas
