/-
# Reading JSON

A text is read byte by byte, where a byte stands as the character with its number; only the
contents of strings are understood as UTF-8.  `Json.read` turns any text into a tree and the place
where reading ended.  A text that is not JSON gives a tree too: it holds what came before the
error, with a flaw where the text stops making sense.  So whoever looks through the tree in order
meets errors of shape and errors of syntax in the order of the text.

Containers may be nested 127 deep; deeper ones become flaws.  After an error nothing more is read,
and the open containers end there.
-/

import MappingCanvas.Json.Basic

namespace MappingCanvas
namespace Json
namespace Reader

/-- What is left of a text behind a value, or why the value could not even be skipped. -/
abbrev Rest := Except SyntaxError (List Char)

/-- Why a value could not be skipped, if it could not. -/
def Rest.stop? : Rest → Option SyntaxError
  | .ok _ => none
  | .error cause => some cause

/-- The white space of JSON. -/
def isSpace (c : Char) : Bool := c == ' ' || c == '\n' || c == '\t' || c == '\r'

/-- A text without the white space in front. -/
def skipSpace (cs : List Char) : List Char := cs.dropWhile isSpace

/-- A place where no value begins. -/
def noStart (cause : SyntaxError) : Json × Rest := (flawed (.gap cause cause), .error cause)

/-- A word or number that breaks off. -/
def broken (wanted skipped : SyntaxError) : Json × Rest :=
  (flawed (.scalar wanted (some skipped)), .error skipped)

/-! ### Words and numbers -/

/-- The rest behind a word whose first letter has been read. -/
def word (value : Json) : List Char → List Char → Json × Rest
  | [], cs => (value, .ok cs)
  | _ :: _, [] => broken .endOfText .endOfText
  | w :: ws, c :: cs => if c = w then word value ws cs else broken .noWord .noWord

/-- The value of a decimal digit. -/
def digit? (c : Char) : Option Nat :=
  if '0' ≤ c ∧ c ≤ '9' then some (c.toNat - '0'.toNat) else none

/-- The digits in front of a text, and the rest. -/
def digits : List Char → List Nat × List Char
  | [] => ([], [])
  | c :: cs =>
    match digit? c with
    | some d => let (ds, rest) := digits cs; (d :: ds, rest)
    | none => ([], c :: cs)

/-- What is wrong where a digit is missing. -/
def noDigit : List Char → SyntaxError
  | [] => .endOfText
  | _ => .badNumber

/-- The digits of a whole part: a lone zero, or digits of which the first is not zero. -/
def wholePart (cs : List Char) : Except SyntaxError (List Nat × List Char) :=
  match digits cs with
  | ([], rest) => .error (noDigit rest)
  | (0 :: _ :: _, _) => .error .badNumber
  | (ds, rest) => .ok (ds, rest)

/-- The digits behind a point, if there is one. -/
def fractionPart : List Char → Except SyntaxError (List Nat × List Char)
  | '.' :: cs =>
    match digits cs with
    | ([], rest) => .error (noDigit rest)
    | (ds, rest) => .ok (ds, rest)
  | cs => .ok ([], cs)

/-- The sign of an exponent (whether it is a minus), and the rest. -/
def exponentSign : List Char → Bool × List Char
  | '+' :: cs => (false, cs)
  | '-' :: cs => (true, cs)
  | cs => (false, cs)

/-- The sign and digits of an exponent, if there is one. -/
def exponentPart : List Char → Except SyntaxError (Option (Bool × List Nat) × List Char)
  | c :: cs =>
    if c = 'e' ∨ c = 'E' then
      let (down, cs) := exponentSign cs
      match digits cs with
      | ([], rest) => .error (noDigit rest)
      | (ds, rest) => .ok (some (down, ds), rest)
    else .ok (none, c :: cs)
  | [] => .ok (none, [])

/-- The number in front of a text. -/
def literal (negative : Bool) (cs : List Char) :
    Except SyntaxError (Number.Literal × List Char) := do
  let (whole, cs) ← wholePart cs
  let (fraction, cs) ← fractionPart cs
  let (exponent, cs) ← exponentPart cs
  return (⟨negative, whole, fraction, exponent⟩, cs)

/-- The value of the number in front of a text. -/
def number (negative : Bool) (cs : List Char) : Json × Rest :=
  match literal negative cs with
  | .error cause => broken cause .badNumber
  | .ok (l, rest) =>
    match Number.ofLiteral? l with
    | some n => (.number n, .ok rest)
    | none => (flawed (.scalar .numberTooLarge none), .ok rest)

/-! ### Strings -/

/-- The value of a hexadecimal digit. -/
def hexDigit? (c : Char) : Option Nat :=
  if '0' ≤ c ∧ c ≤ '9' then some (c.toNat - '0'.toNat)
  else if 'a' ≤ c ∧ c ≤ 'f' then some (c.toNat - 'a'.toNat + 10)
  else if 'A' ≤ c ∧ c ≤ 'F' then some (c.toNat - 'A'.toNat + 10)
  else none

/-- The value of four hexadecimal digits. -/
def hexUnit? (a b c d : Char) : Option Nat := do
  return (((← hexDigit? a) * 16 + (← hexDigit? b)) * 16 + (← hexDigit? c)) * 16 + (← hexDigit? d)

/-- The four hexadecimal digits in front of a text. -/
def hexEscape (cs : List Char) : Except SyntaxError (Nat × List Char) :=
  match cs with
  | a :: b :: c :: d :: rest =>
    match hexUnit? a b c d with
    | some n => .ok (n, rest)
    | none => .error .badEscape
  | _ => .error .endInString

/-- Whether a code unit is the first half of a pair. -/
def isLead (n : Nat) : Bool := 0xD800 ≤ n && n ≤ 0xDBFF

/-- Whether a code unit is the second half of a pair. -/
def isTrail (n : Nat) : Bool := 0xDC00 ≤ n && n ≤ 0xDFFF

/-- The escapes of one letter. -/
def shortEscape? : Char → Option Char
  | '\"' => some '\"'
  | '\\' => some '\\'
  | '/' => some '/'
  | 'b' => some '\x08'
  | 'f' => some '\x0c'
  | 'n' => some '\n'
  | 'r' => some '\r'
  | 't' => some '\t'
  | _ => none

/-- A string as far as it has been read: its bytes in reverse, or why it has no value. -/
abbrev Partial := Except SyntaxError (List UInt8)

/-- Appends a byte. -/
def Partial.push (p : Partial) (c : Char) : Partial := p.map (c.toNat.toUInt8 :: ·)

/-- Appends the bytes of a character. -/
def Partial.pushChar (p : Partial) (c : Char) : Partial :=
  p.map fun bytes => (String.singleton c).toUTF8.toList.reverse ++ bytes

/-- The finished string, if its bytes are UTF-8. -/
def Partial.finish (p : Partial) : Except SyntaxError String := do
  let reversed ← p
  match String.fromUTF8? ⟨reversed.reverse.toArray⟩ with
  | some s => return s
  | none => throw .badCodePoint

/-- Marks a string as one without value; the first reason stays. -/
def Partial.spoil (p : Partial) (cause : SyntaxError) : Partial :=
  match p with
  | .ok _ => .error cause
  | .error first => .error first

/-- A string that breaks off: where it is wanted the first reason counts, where it is skipped only
this one. -/
def Partial.stop (p : Partial) (cause : SyntaxError) : Partial × Rest :=
  (p.spoil cause, .error cause)

/-- The contents of a string up to its closing quote, and the rest; `fuel` bounds the number of
bytes. -/
def characters : Nat → Partial → List Char → Partial × Rest
  | 0, p, _ => p.stop .endInString
  | _ + 1, p, [] => p.stop .endInString
  | _ + 1, p, '\"' :: cs => (p, .ok cs)
  | fuel + 1, p, '\\' :: 'u' :: cs =>
    match hexEscape cs with
    | .error cause => p.stop cause
    | .ok (n, rest) =>
      if isTrail n then characters fuel (p.spoil .loneSurrogate) rest
      else if isLead n then
        match rest with
        | '\\' :: 'u' :: rest' =>
          match hexEscape rest' with
          | .error cause => p.stop cause
          | .ok (m, rest'') =>
            if isTrail m then
              characters fuel
                (p.pushChar (Char.ofNat (0x10000 + (n - 0xD800) * 0x400 + (m - 0xDC00)))) rest''
            else characters fuel (p.spoil .loneSurrogate) rest
        | [] => p.stop .endInString
        | ['\\'] => p.stop .endInString
        | _ => characters fuel (p.spoil .endInEscape) rest
      else characters fuel (p.pushChar (Char.ofNat n)) rest
  | _ + 1, p, ['\\'] => p.stop .endInString
  | fuel + 1, p, '\\' :: c :: cs =>
    match shortEscape? c with
    | some e => characters fuel (p.push e) cs
    | none => p.stop .badEscape
  | fuel + 1, p, c :: cs =>
    if c.toNat < 0x20 then p.stop .controlCharacter else characters fuel (p.push c) cs

/-- The string whose opening quote has been read; `fuel` bounds the number of bytes. -/
def string (fuel : Nat) (cs : List Char) : Except SyntaxError String × Rest :=
  let (p, rest) := characters fuel (.ok []) cs
  (p.finish, rest)

/-- The string as a value. -/
def stringValue (fuel : Nat) (cs : List Char) : Json × Rest :=
  match string fuel cs with
  | (.ok s, rest) => (.string s, rest)
  | (.error cause, rest) => (flawed (.string cause rest.stop?), rest)

/-! ### Containers

Reading a value of `n` bytes takes less than `2 * n + 2` of `fuel`, as every item takes one and
at least one byte. -/

/-- How many containers may be nested. -/
def maxDepth : Nat := 127

/-- A container, or the flaw that takes its place when it is nested too deep. -/
def limited (level : Nat) (j : Json) : Json :=
  if level < maxDepth then j
  else match j with
    | array _ => flawed (.deepArray j.stop?)
    | object _ => flawed (.deepObject j.stop?)
    | _ => j

mutual
/-- The value in front of a text, inside `level` containers. -/
def value : Nat → Nat → List Char → Json × Rest
  | 0, _, _ => noStart .endOfText
  | fuel + 1, level, cs =>
    match skipSpace cs with
    | [] => noStart .endOfText
    | '[' :: cs =>
      let (items, rest) := items fuel (level + 1) true cs
      (limited level (array items), rest)
    | '\x7b' :: cs =>
      let (members, rest) := members fuel (level + 1) true cs
      (limited level (object members), rest)
    | '\"' :: cs => stringValue fuel cs
    | '-' :: cs => number true cs
    | 'n' :: cs => word null ['u', 'l', 'l'] cs
    | 't' :: cs => word (bool true) ['r', 'u', 'e'] cs
    | 'f' :: cs => word (bool false) ['a', 'l', 's', 'e'] cs
    | c :: cs => if (digit? c).isSome then number false (c :: cs) else noStart .noValue

/-- The items of an array up to its closing bracket; `first` when none has been read. -/
def items : Nat → Nat → Bool → List Char → List Json × Rest
  | 0, _, _, _ => ([flawed (.gap .endInArray .endInArray)], .error .endInArray)
  | fuel + 1, level, first, cs =>
    let stop (wanted skipped : SyntaxError) : List Json × Rest :=
      ([flawed (.gap wanted skipped)], .error skipped)
    let next (cs : List Char) : List Json × Rest :=
      match value fuel level cs with
      | (j, .error cause) => ([j], .error cause)
      | (j, .ok rest) => let (js, rest) := items fuel level false rest; (j :: js, rest)
    match skipSpace cs with
    | [] => stop .endInArray .endInArray
    | ']' :: rest => ([], .ok rest)
    | c :: rest =>
      if first then next (c :: rest)
      else if c = ',' then
        match skipSpace rest with
        | ']' :: _ => stop .trailingComma .noValue
        | rest => next rest
      else stop .noArrayBreak .noArrayBreak

/-- The members of an object up to its closing brace; `first` when none has been read. -/
def members : Nat → Nat → Bool → List Char → List (String × Json) × Rest
  | 0, _, _, _ => ([("", flawed (.key .endInObject (some .endInObject)))], .error .endInObject)
  | fuel + 1, level, first, cs =>
    let stop (wanted skipped : SyntaxError) : List (String × Json) × Rest :=
      ([("", flawed (.key wanted (some skipped)))], .error skipped)
    let next (cs : List Char) : List (String × Json) × Rest :=
      let (name, rest) := string fuel cs
      let mark (ms : List (String × Json)) : List (String × Json) :=
        match name with
        | .ok _ => ms
        | .error cause => ("", flawed (.key cause rest.stop?)) :: ms
      let name := name.toOption.getD ""
      match rest with
      | .error cause => (mark [], .error cause)
      | .ok rest =>
        match skipSpace rest with
        | ':' :: rest =>
          match value fuel level rest with
          | (j, .error cause) => (mark [(name, j)], .error cause)
          | (j, .ok rest) =>
            let (ms, rest) := members fuel level false rest
            (mark ((name, j) :: ms), rest)
        | [] => (mark [(name, flawed (.gap .endInObject .endInObject))], .error .endInObject)
        | _ => (mark [(name, flawed (.gap .noColon .noColon))], .error .noColon)
    match skipSpace cs with
    | [] => stop .endInObject .endInObject
    | '\x7d' :: rest => ([], .ok rest)
    | c :: rest =>
      if first then
        if c = '\"' then next rest else stop .nameNotString .nameNotString
      else if c = ',' then
        match skipSpace rest with
        | '\"' :: rest => next rest
        | '\x7d' :: _ => stop .trailingComma .nameNotString
        | [] => stop .endOfText .endInObject
        | _ => stop .nameNotString .nameNotString
      else stop .noObjectBreak .noObjectBreak
end

end Reader

/-- A text as it was read: its tree, and why the text is not JSON, if that shows only behind the
tree. -/
structure Scan where
  tree : Json
  trailing : Option SyntaxError

/-- Reads the bytes of a text. -/
def readBytes (bytes : List UInt8) : Scan :=
  let cs := bytes.map fun b => Char.ofNat b.toNat
  match Reader.value (2 * cs.length + 2) 0 cs with
  | (tree, .error cause) => ⟨tree, some cause⟩
  | (tree, .ok rest) =>
    ⟨tree, if (Reader.skipSpace rest).isEmpty then none else some .trailingText⟩

/-- Reads a text. -/
def read (text : String) : Scan := readBytes text.toUTF8.toList

/-- The document of a text that is JSON throughout. -/
def parse? (text : String) : Option Json :=
  match read text with
  | ⟨tree, none⟩ => if tree.flaw?.isNone then some tree else none
  | ⟨_, some _⟩ => none

/-- The number that a text as a whole spells, without white space. -/
def number? (text : String) : Option Number :=
  let spelled :=
    match text.toList with
    | '-' :: cs => Reader.literal true cs
    | cs => Reader.literal false cs
  match spelled with
  | .ok (l, []) => Number.ofLiteral? l
  | _ => none

end Json
end MappingCanvas
