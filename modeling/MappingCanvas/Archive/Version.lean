/-
# Versions

A version is a text.  One that consists of numbers between dots is compared number by number, so
`1.10` comes after `1.9`; others are compared as texts and come before all numeric ones.  Numeric
versions with equal numbers are told apart by their texts.
-/

import MappingCanvas.Text.Blank
import MappingCanvas.Text.Numeral

namespace MappingCanvas

/-- The version of a stored mapping. -/
structure Version where
  text : String
  deriving DecidableEq

namespace Version

/-- The numbers of a numeric version; blanks around them do not count. -/
def segments? (v : Version) : Option (List Nat) :=
  (Text.splitDots v.text.toList).mapM fun part =>
    Text.word? (String.ofList (Text.stripEnds Text.isBlank part))

/-- Compares lists of numbers; a list comes before its continuations. -/
def compareSegments : List Nat → List Nat → Ordering
  | [], [] => .eq
  | [], _ :: _ => .lt
  | _ :: _, [] => .gt
  | a :: as, b :: bs => (compare a b).then (compareSegments as bs)

/-- The order of versions. -/
def compare (v w : Version) : Ordering :=
  match v.segments?, w.segments? with
  | some a, some b => (compareSegments a b).then (Ord.compare v.text w.text)
  | some _, none => .gt
  | none, some _ => .lt
  | none, none => Ord.compare v.text w.text

/-- Whether a version comes after another or is the same. -/
def ge (v w : Version) : Bool := (compare v w).isGE

/-- The later of two versions. -/
def max (v w : Version) : Version := if w.ge v then w else v

/-- The latest of some versions. -/
def max? : List Version → Option Version
  | [] => none
  | v :: vs => some (vs.foldl max v)

/-- The version after a version: the second number goes up by one, and further ones are dropped;
a version that is not numeric gets a `.1`.  The number that goes up has no bound here: after the
greatest number of 64 bits comes one that fits no word, where a word would overflow. -/
def nextMinor (v : Version) : Version :=
  match v.segments? with
  | some (major :: minor :: _) => ⟨Text.ofNat major ++ "." ++ Text.ofNat (minor + 1)⟩
  | some [major] => ⟨Text.ofNat major ++ ".1"⟩
  | some [] => ⟨"1.1"⟩
  | none => ⟨v.text ++ ".1"⟩

/-- The version of the first mapping of a name. -/
def first : Version := ⟨"1.0"⟩

/-- Versions in ascending order. -/
def sort (vs : List Version) : List Version := vs.mergeSort fun v w => w.ge v

end Version
end MappingCanvas
