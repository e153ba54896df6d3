/-
# Spans of time in print

A span is shown in the largest unit of `s`, `ms`, `µs` and `ns` of which it has at least one, with
as many decimals as it needs.
-/

import MappingCanvas.Instant

namespace MappingCanvas
namespace Console

/-- A fraction of `10 ^ width`, without zeros at its end. -/
def decimals (width n : Nat) : String :=
  let ds := Instant.padded width n
  "." ++ String.ofList (ds.toList.reverse.dropWhile (· == '0')).reverse

/-- A number of units of `10 ^ width` each. -/
def inUnits (width n : Nat) : String :=
  let unit := Nat.pow 10 width
  Text.ofNat (n / unit) ++ if n % unit = 0 then "" else decimals width (n % unit)

/-- The text of a number of nanoseconds. -/
def elapsedText (nanos : Nat) : String :=
  if nanos ≥ Nat.pow 10 9 then inUnits 9 nanos ++ "s"
  else if nanos ≥ Nat.pow 10 6 then inUnits 6 nanos ++ "ms"
  else if nanos ≥ Nat.pow 10 3 then inUnits 3 nanos ++ "µs"
  else inUnits 0 nanos ++ "ns"

example : elapsedText 1250000 = "1.25ms" := by decide +kernel
example : elapsedText 2000000000 = "2s" := by decide +kernel

end Console
end MappingCanvas
