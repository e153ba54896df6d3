/-
# Conditions in words

A suggested condition is a text such as `status == 'A'`.  It is split at the first place where an
operator symbol stands; of the symbols that stand there the longest one counts.  The text in front
names the field, if there is one; the text behind is the value: without quotes around it, a number
if it spells one, and a text otherwise.
-/

import MappingCanvas.Canvas.Operation
import MappingCanvas.Suggestion.Basic
import MappingCanvas.Text.Blank

namespace MappingCanvas
namespace Suggestion

/-- The parts of a condition. -/
structure ParsedCondition where
  field : Option String
  operator : Comparison
  value : Value

/-- The operator symbols, longer ones first. -/
def symbols : List (List Char) :=
  [" contains ".toList, ">=".toList, "<=".toList, "!=".toList, "<>".toList, "==".toList,
    ">".toList, "<".toList, "=".toList]

/-- The longest symbol at the beginning of a text. -/
def symbolAt? (cs : List Char) : Option (List Char) := symbols.find? fun s => s.isPrefixOf cs

/-- Splits a text at the first symbol: what stands before it, the symbol, and what stands
behind. -/
def splitAtSymbol? : List Char → Option (List Char × List Char × List Char)
  | [] => none
  | c :: cs =>
    match symbolAt? (c :: cs) with
    | some s => some ([], s, (c :: cs).drop s.length)
    | none => (splitAtSymbol? cs).map fun (before, s, behind) => (c :: before, s, behind)

/-- Whether a character is a quote. -/
def isQuote (c : Char) : Bool := c == '\'' || c == '\"'

/-- The value of the text behind the operator. -/
def conditionValue (cs : List Char) : Value :=
  let raw := String.ofList (Text.stripEnds isQuote (Text.stripEnds Text.isBlank cs))
  match Json.number? raw with
  | some n => .ofJson (.number n)
  | none => .string raw

/-- The parts of a condition in words, if an operator symbol stands in it. -/
def parseCondition? (text : String) : Option ParsedCondition := do
  let (before, symbol, behind) ← splitAtSymbol? text.toList
  let operator ← Comparison.ofSymbol? (String.ofList (Text.stripEnds Text.isBlank symbol))
  let field := String.ofList (Text.stripEnds Text.isBlank before)
  return ⟨if field.isEmpty then none else some field, operator, conditionValue behind⟩

/-- Whether a condition stands for all cases not named before. -/
def isFallback (condition : String) : Bool :=
  ["else", "default", "otherwise", ""].contains
    (String.ofList ((Text.trim condition).toList.map Char.toLower))

/-- The conditional of some branches.  The first one that is no fallback gives the comparison, if
its condition can be parsed, and the value if it holds; the first fallback gives the other
value. -/
def conditionalOf (branches : List Branch) : Conditional :=
  let base : Conditional := ⟨.equals, .null, .null, .null⟩
  let base := match branches.find? fun b => !isFallback b.condition with
    | some b =>
      match parseCondition? b.condition with
      | some p => ⟨p.operator, p.value, b.value, .null⟩
      | none => { base with thenValue := b.value }
    | none => base
  match branches.find? fun b => isFallback b.condition with
  | some b => { base with elseValue := b.value }
  | none => base

end Suggestion
end MappingCanvas
