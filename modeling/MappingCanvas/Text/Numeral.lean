/-
# Numerals and dots

A word is a number of 64 bits, spelled in decimal digits, perhaps behind a plus sign.
-/

import MappingCanvas.Json.Number

namespace MappingCanvas
namespace Text

/-- Whether a character is a decimal digit. -/
def isDigit (c : Char) : Bool := '0' ≤ c && c ≤ '9'

/-- The value of a decimal digit. -/
def digitValue (c : Char) : Nat := c.toNat - '0'.toNat

/-- The spelling of a numeral without its plus sign. -/
def dropPlus : List Char → List Char
  | '+' :: cs => cs
  | cs => cs

/-- The word that a text spells. -/
def word? (s : String) : Option Nat :=
  let ds := dropPlus s.toList
  if ds.isEmpty || !ds.all isDigit then none
  else
    let n := Number.ofDigits (ds.map digitValue)
    if n ≤ Number.maxWord then some n else none

/-- The decimal text of a number. -/
def ofNat (n : Nat) : String := String.ofList (Number.digitChars n)

/-- The parts of a text between dots. -/
def splitDots : List Char → List (List Char)
  | [] => [[]]
  | c :: cs =>
    if c = '.' then [] :: splitDots cs
    else match splitDots cs with
      | part :: parts => (c :: part) :: parts
      | [] => [[c]]

example : word? "+07" = some 7 ∧ word? "" = none ∧ word? "-1" = none ∧
    word? "18446744073709551616" = none := by decide +kernel

end Text
end MappingCanvas
