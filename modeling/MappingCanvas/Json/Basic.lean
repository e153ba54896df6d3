/-
# JSON documents

A document is a tree of JSON values whose objects keep their members in written order, repeated
names included.  A tree that was read from a text may also hold *flaws*: places where the text
has no value.  Whether a flaw matters depends on who looks: reading is one pass over the text, and
a value that nobody wants is skipped without being understood.  Whoever wants the value always
refuses; whoever skips it refuses only what breaks the text, and may give another cause.

| place | wanted | skipped |
| --- | --- | --- |
| a number too large, a string with a lone surrogate | refused | passed |
| a container nested too deep | refused | passed, unless the text breaks in it |
| a comma before a closing bracket | a trailing comma | a missing value or name |
| the end of the text behind the comma of a member | the end in a value | the end in an object |
| the end of the text where a number wants a digit | the end in a value | a bad number |
| anything else | refused | refused for the same cause |
-/

import MappingCanvas.Json.Number

namespace MappingCanvas

/-- Why a text is not JSON. -/
inductive SyntaxError
  | endInArray | endInObject | endInString | endOfText
  | noColon | noArrayBreak | noObjectBreak | noWord | noValue | nameNotString
  | badEscape | endInEscape | loneSurrogate | controlCharacter | badCodePoint
  | badNumber | numberTooLarge | trailingComma | trailingText | tooDeep
  deriving DecidableEq

/-- The wording of a syntax error. -/
def SyntaxError.message : SyntaxError → String
  | endInArray => "EOF while parsing a list"
  | endInObject => "EOF while parsing an object"
  | endInString => "EOF while parsing a string"
  | endOfText => "EOF while parsing a value"
  | noColon => "expected `:`"
  | noArrayBreak => "expected `,` or `]`"
  | noObjectBreak => "expected `,` or `\x7d`"
  | noWord => "expected ident"
  | noValue => "expected value"
  | nameNotString => "key must be a string"
  | badEscape => "invalid escape"
  | endInEscape => "unexpected end of hex escape"
  | loneSurrogate => "lone leading surrogate in hex escape"
  | controlCharacter => "control character (\\u0000-\\u001F) found while parsing a string"
  | badCodePoint => "invalid unicode code point"
  | badNumber => "invalid number"
  | numberTooLarge => "number out of range"
  | trailingComma => "trailing comma"
  | trailingText => "trailing characters"
  | tooDeep => "recursion limit exceeded"

/-- A place in a text that has no value, with the cause when a value is wanted there, and the
cause when it is skipped, if that fails. -/
inductive Flaw
  /-- No value begins here, or the container does not go on. -/
  | gap (wanted skipped : SyntaxError)
  /-- A word or a number. -/
  | scalar (wanted : SyntaxError) (skipped : Option SyntaxError)
  /-- A string. -/
  | string (wanted : SyntaxError) (skipped : Option SyntaxError)
  /-- The name of a member; stands before the member, or at the end if there is none. -/
  | key (wanted : SyntaxError) (skipped : Option SyntaxError)
  /-- Containers nested deeper than is followed. -/
  | deepArray (skipped : Option SyntaxError)
  | deepObject (skipped : Option SyntaxError)
  deriving DecidableEq

namespace Flaw

/-- Why a flaw is refused where its value is wanted. -/
def refusal : Flaw → SyntaxError
  | gap wanted _ | scalar wanted _ | string wanted _ | key wanted _ => wanted
  | deepArray _ | deepObject _ => .tooDeep

/-- Why a flaw cannot be skipped, if it cannot. -/
def obstacle? : Flaw → Option SyntaxError
  | gap _ skipped => some skipped
  | scalar _ skipped | string _ skipped | key _ skipped => skipped
  | deepArray skipped | deepObject skipped => skipped

end Flaw

/-- A JSON document. -/
inductive Json
  | null
  | bool (value : Bool)
  | number (value : Number)
  | string (value : String)
  | array (items : List Json)
  | object (members : List (String × Json))
  | flawed (flaw : Flaw)
  deriving BEq

namespace Json

instance : Inhabited Json := ⟨null⟩

/-- The member of an object with the given name; the first one, if it is repeated. -/
def get? : Json → String → Option Json
  | object members, name => (members.find? fun m => m.1 == name).map Prod.snd
  | _, _ => none

/-- The text of a string. -/
def string? : Json → Option String
  | string s => some s
  | _ => none

/-- The elements of an array. -/
def array? : Json → Option (List Json)
  | array items => some items
  | _ => none

/-- Whether a value is the word `null`. -/
def isNull : Json → Bool
  | null => true
  | _ => false

/-- A natural number as a value. -/
def nat (n : Nat) : Json := number (.integer n)

/-- A float as a value; what is not finite becomes `null`. -/
def float (x : Float) : Json := if x.isFinite then number (.float x) else null

/-- A member of an object that is left out when it has no value. -/
def member? (name : String) (value : Option Json) : List (String × Json) :=
  match value with
  | some v => [(name, v)]
  | none => []

/-- A list of texts as a value. -/
def strings (ss : List String) : Json := array (ss.map string)

/-! ### Size and flaws -/

mutual
/-- The number of levels of a tree. -/
def depth : Json → Nat
  | array items => depthItems items + 1
  | object members => depthMembers members + 1
  | _ => 0

/-- The greatest depth of some items. -/
def depthItems : List Json → Nat
  | [] => 0
  | j :: js => max j.depth (depthItems js)

/-- The greatest depth of some members. -/
def depthMembers : List (String × Json) → Nat
  | [] => 0
  | (_, j) :: ms => max j.depth (depthMembers ms)
end

mutual
/-- The first place at which a tree cannot be skipped. -/
def stop? : Json → Option SyntaxError
  | array items => stopItems items
  | object members => stopMembers members
  | flawed flaw => flaw.obstacle?
  | _ => none

/-- The first stop among some items. -/
def stopItems : List Json → Option SyntaxError
  | [] => none
  | j :: js => j.stop? <|> stopItems js

/-- The first stop among some members. -/
def stopMembers : List (String × Json) → Option SyntaxError
  | [] => none
  | (_, j) :: ms => j.stop? <|> stopMembers ms
end

mutual
/-- The first flaw of a tree, as refused when all of it is wanted. -/
def flaw? : Json → Option SyntaxError
  | array items => flawItems items
  | object members => flawMembers members
  | flawed flaw => some (Flaw.refusal flaw)
  | _ => none

/-- The first flaw among some items. -/
def flawItems : List Json → Option SyntaxError
  | [] => none
  | j :: js => j.flaw? <|> flawItems js

/-- The first flaw among some members. -/
def flawMembers : List (String × Json) → Option SyntaxError
  | [] => none
  | (_, j) :: ms => j.flaw? <|> flawMembers ms
end

end Json
end MappingCanvas
