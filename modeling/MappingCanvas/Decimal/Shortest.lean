/-
# The shortest decimal of a binary number

A positive binary number `m * 2 ^ q` stands for all reals that round to it: an interval around
it, whose ends belong to it when `m` is even.  Its shortest decimal is the point `d * 10 ^ k` of
that interval with the fewest digits, and of several such points the nearest; between two equally
near points the even one is taken.

On the grid of multiples of `10 ^ k` only the two neighbours of the number can be nearest, so the
search looks at these two for one digit, two digits and so on.  Everything is done on natural
numbers: a real is a fraction `num / den`.
-/

namespace MappingCanvas
namespace Decimal

/-- The decimal `digits * 10 ^ exponent`. -/
structure Scaled where
  digits : Nat
  exponent : Int
  deriving DecidableEq

/-- The reals that round to a binary number: the number and both ends of the interval as
numerators over `den`, and whether the ends belong to it. -/
structure Interval where
  low : Nat
  mid : Nat
  high : Nat
  den : Nat
  closed : Bool

namespace Interval

/-- The interval of `m * 2 ^ q`.  Below a power of two (`narrow`) the lower neighbour is only half
as far away as the upper one. -/
def ofBinary (m : Nat) (q : Int) (narrow : Bool) : Interval :=
  let up := Nat.pow 2 q.toNat
  { low := (4 * m - if narrow then 1 else 2) * up
    mid := 4 * m * up
    high := (4 * m + 2) * up
    den := 4 * Nat.pow 2 (-q).toNat
    closed := m % 2 == 0 }

/-- Whether the decimal `d * 10 ^ k` rounds to the number. -/
def contains (r : Interval) (d : Nat) (k : Int) : Bool :=
  let x := d * Nat.pow 10 k.toNat * r.den
  let unit := Nat.pow 10 (-k).toNat
  if r.closed then r.low * unit ≤ x && x ≤ r.high * unit
  else r.low * unit < x && x < r.high * unit

/-- The number in units of `10 ^ k`, as quotient, remainder and divisor. -/
def scaled (r : Interval) (k : Int) : Nat × Nat × Nat :=
  let num := r.mid * Nat.pow 10 (-k).toNat
  let den := r.den * Nat.pow 10 k.toNat
  (num / den, num % den, den)

/-- The least `e` in `from, from + 1, …` for which the number is below `10 ^ (e + 1)`. -/
def magnitudeFrom (r : Interval) : Nat → Int → Int
  | 0, e => e
  | fuel + 1, e =>
    if r.mid * Nat.pow 10 (-(e + 1)).toNat < r.den * Nat.pow 10 (e + 1).toNat then e
    else magnitudeFrom r fuel (e + 1)

/-- The exponent of the leading digit of the number.  The search starts at an estimate from the
binary length that is at most two below it. -/
def magnitude (r : Interval) : Int :=
  let length : Int := (Nat.log2 r.mid : Int) - (Nat.log2 r.den : Int)
  magnitudeFrom r 4 ((length - 1) * 30103 / 100000 - 1)

/-- The nearest decimal with exponent `k` that rounds to the number. -/
def onGrid? (r : Interval) (k : Int) : Option Nat :=
  let (d, rest, den) := r.scaled k
  match r.contains d k && d != 0, r.contains (d + 1) k with
  | false, false => none
  | true, false => some d
  | false, true => some (d + 1)
  | true, true =>
    if 2 * rest < den then some d
    else if 2 * rest > den then some (d + 1)
    else if d % 2 == 0 then some d else some (d + 1)

/-- The first hit among the grids with `n`, `n + 1`, … digits. -/
def shortestFrom (r : Interval) (lead : Int) : Nat → Nat → Scaled
  | 0, n => ⟨(r.scaled (lead - n)).1, lead - n⟩
  | fuel + 1, n =>
    match r.onGrid? (lead - n) with
    | some d => ⟨d, lead - n⟩
    | none => shortestFrom r lead fuel (n + 1)

/-- The shortest decimal that rounds to the number; seventeen digits always suffice. -/
def shortest (r : Interval) : Scaled := r.shortestFrom r.magnitude 17 0

end Interval

/-- A decimal without trailing zeros; the fuel bounds their number. -/
def trimZeros : Nat → Scaled → Scaled
  | 0, s => s
  | fuel + 1, s =>
    if s.digits ≠ 0 ∧ s.digits % 10 = 0 then trimZeros fuel ⟨s.digits / 10, s.exponent + 1⟩ else s

/-- The shortest decimal of the binary number `m * 2 ^ q`. -/
def shortest (m : Nat) (q : Int) (narrow : Bool) : Scaled :=
  trimZeros 20 (Interval.ofBinary m q narrow).shortest

example : shortest 1 0 false = ⟨1, 0⟩ := by decide +kernel
example : shortest 1 (-1074) false = ⟨5, -324⟩ := by decide +kernel
example : shortest 3602879701896397 (-55) false = ⟨1, -1⟩ := by decide +kernel
example : shortest 9007199254740991 971 false = ⟨17976931348623157, 292⟩ := by decide +kernel

end Decimal
end MappingCanvas
