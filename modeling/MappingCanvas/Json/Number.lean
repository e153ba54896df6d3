/-
# JSON numbers

A number is an integer when it is written as one and fits 64 bits (unsigned, or signed when
negative), and a binary floating-point number otherwise.

**Reading.**  The digits are collected into a 64-bit significand as long as they fit; later digits
before the point only raise the exponent, later ones behind it are dropped.  The significand is
then scaled by a power of ten with one rounding, in steps of `10 ^ 308` for very small numbers.
A number too large for a float has no value.

**Writing.**  A float has the fewest digits that read back, and always a point or an exponent:

| magnitude | form |
| --- | --- |
| `1e-5` up to `1e16` | positional, with `.0` if whole |
| other | one digit, a point if more follow, and `e+` or `e-` with the exponent unpadded |

The sign of zero is kept; what is not finite is written `null`.
-/

import MappingCanvas.Decimal.Shortest

namespace MappingCanvas

/-- The number of a JSON text. -/
inductive Number
  | integer (value : Int)
  | float (value : Float)
  deriving DecidableEq

namespace Number

/-- Two numbers are equal when they are of one kind and equal there; the two zeros of the floats
are equal. -/
instance : BEq Number where
  beq
    | integer a, integer b => a == b
    | float a, float b => a == b
    | _, _ => false

/-! ### Reading -/

/-- The parts of a number's text, each a list of decimal digits. -/
structure Literal where
  negative : Bool
  whole : List Nat
  fraction : List Nat
  /-- The sign (whether it is a minus) and the digits behind the `e`. -/
  exponent : Option (Bool × List Nat)

/-- The greatest 64-bit word. -/
def maxWord : Nat := Nat.pow 2 64 - 1

/-- Appends digits to a significand while it fits a word; returns also the digits left over. -/
def collect : Nat → List Nat → Nat × List Nat
  | m, [] => (m, [])
  | m, d :: ds => if m * 10 + d ≤ maxWord then collect (m * 10 + d) ds else (m, d :: ds)

/-- Digits read as a number. -/
def ofDigits (ds : List Nat) : Nat := ds.foldl (fun n d => n * 10 + d) 0

/-- The float `10 ^ k`. -/
def powerOfTen (k : Nat) : Float := Float.ofScientific 1 false k

/-- Divides `x` by `10 ^ 308` until the rest of the negative exponent is in reach of one division;
the fuel bounds the number of such steps. -/
def scaleDown : Nat → Float → Nat → Float
  | 0, x, k => x / powerOfTen k
  | fuel + 1, x, k =>
    if k ≤ 308 then x / powerOfTen k
    else if x == 0 then x
    else scaleDown fuel (x / powerOfTen 308) (k - 308)

/-- The float `m * 10 ^ k`, if it is not too large. -/
def scale (m : Nat) (k : Int) : Option Float :=
  let x := Float.ofNat m
  if k < 0 then some (scaleDown (k.natAbs / 308) x k.natAbs)
  else if k ≤ 308 then
    let y := x * powerOfTen k.toNat
    if y.isInf then none else some y
  else if m = 0 then some x
  else none

/-- The greatest exponent that is taken at its word. -/
def maxExponent : Nat := Nat.pow 2 31 - 1

/-- The float of a literal, if it is not too large. -/
def Literal.float? (l : Literal) : Option Float :=
  let (m, leftWhole) := collect 0 l.whole
  let (m, leftFraction) := collect m l.fraction
  let shift : Int := leftWhole.length - (l.fraction.length - leftFraction.length : Nat)
  let size :=
    match l.exponent with
    | none => scale m shift
    | some (down, ds) =>
      let e := ofDigits ds
      if e > maxExponent then (if m ≠ 0 && !down then none else some 0)
      else scale m (if down then shift - e else shift + e)
  size.map fun x => if l.negative then -x else x

/-- The number that a literal stands for, if it has one. -/
def ofLiteral? (l : Literal) : Option Number :=
  let n := ofDigits l.whole
  if l.fraction.isEmpty && l.exponent.isNone then
    if l.negative then
      if 0 < n ∧ n ≤ Nat.pow 2 63 then some (integer (-n)) else l.float?.map float
    else if n ≤ maxWord then some (integer n)
    else l.float?.map float
  else l.float?.map float

/-! ### Writing -/

/-- How a float's digits are laid out. -/
structure Layout where
  /-- Exponents of the leading digit that are written positionally. -/
  leastPositional : Int
  greatestPositional : Int

/-- Positional between `1e-5` and `1e16`. -/
def layout : Layout := ⟨-5, 15⟩

/-- The decimal digits of a natural number. -/
def digitChars (n : Nat) : List Char := Nat.toDigits 10 n

/-- A positive decimal in the layout. -/
def renderScaled (s : Decimal.Scaled) : List Char :=
  let ds := digitChars s.digits
  let lead := s.exponent + ds.length - 1
  if layout.leastPositional ≤ lead ∧ lead ≤ layout.greatestPositional then
    if 0 ≤ s.exponent then ds ++ List.replicate s.exponent.toNat '0' ++ ['.', '0']
    else if 0 ≤ lead then
      ds.take (lead.toNat + 1) ++ '.' :: ds.drop (lead.toNat + 1)
    else ['0', '.'] ++ List.replicate (lead.natAbs - 1) '0' ++ ds
  else
    let power := 'e' :: (if lead < 0 then '-' else '+') :: digitChars lead.natAbs
    match ds with
    | [] => power
    | [d] => d :: power
    | d :: rest => d :: '.' :: rest ++ power

/-- The bits of a float's fraction and its biased exponent. -/
def parts (x : Float) : Nat × Nat :=
  let bits := x.toBits.toNat
  (bits % Nat.pow 2 52, bits / Nat.pow 2 52 % Nat.pow 2 11)

/-- The text of a float. -/
def renderFloat (x : Float) : List Char :=
  let (fraction, biased) := parts x
  let minus := if x.toBits.toNat / Nat.pow 2 63 = 1 then ['-'] else []
  if biased = 2047 then ['n', 'u', 'l', 'l']
  else if biased = 0 then
    if fraction = 0 then minus ++ ['0', '.', '0']
    else minus ++ renderScaled (Decimal.shortest fraction (-1074) false)
  else
    let narrow := fraction == 0 && biased != 1
    let mantissa := Nat.pow 2 52 + fraction
    minus ++ renderScaled (Decimal.shortest mantissa ((biased : Int) - 1075) narrow)

/-- The text of an integer. -/
def renderInteger (n : Int) : List Char :=
  if n < 0 then '-' :: digitChars n.natAbs else digitChars n.natAbs

/-- The text of a number. -/
def render : Number → List Char
  | integer n => renderInteger n
  | float x => renderFloat x

end Number
end MappingCanvas
