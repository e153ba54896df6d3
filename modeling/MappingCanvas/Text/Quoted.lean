/-
# Quoted text

Messages show a name between double quotes.  A quote, a backslash and the usual controls have
short escapes, other characters without a glyph of their own are written by code point in lower
case hexadecimal (`\u` and braces), and the rest stands for itself.
-/

import MappingCanvas.Text.Escaped

namespace MappingCanvas
namespace Text

/-- A number in lower case hexadecimal, without leading zeros. -/
def hexadecimal (n : Nat) : List Char := Nat.toDigits 16 n

/-- One character of quoted text. -/
def quoteChar (c : Char) : List Char :=
  if c = '\x00' then ['\\', '0']
  else if c = '\t' then ['\\', 't']
  else if c = '\r' then ['\\', 'r']
  else if c = '\n' then ['\\', 'n']
  else if c = '\"' then ['\\', '\"']
  else if c = '\\' then ['\\', '\\']
  else if isEscaped c then ['\\', 'u', '\x7b'] ++ hexadecimal c.toNat ++ ['\x7d']
  else [c]

/-- A text between double quotes. -/
def quote (s : String) : String :=
  String.ofList ('\"' :: s.toList.flatMap quoteChar ++ ['\"'])

/-- A list of quoted texts between brackets. -/
def quoteList (ss : List String) : String :=
  "[" ++ ", ".intercalate (ss.map quote) ++ "]"

example : quote "it's \"a\\b\"\n" = "\"it's \\\"a\\\\b\\\"\\n\"" := by decide +kernel
example : quote "é\u200b" = "\"é\\u\x7b200b\x7d\"" := by decide +kernel
example : quoteList ["a", "b"] = "[\"a\", \"b\"]" := by decide +kernel

end Text
end MappingCanvas
