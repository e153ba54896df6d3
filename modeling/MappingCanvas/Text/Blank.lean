/-
# White space

The 25 characters with the Unicode property `White_Space`:

| range | characters |
| --- | --- |
| `0009` to `000D`, `0020` | controls and the space |
| `0085`, `00A0` | next line, no-break space |
| `1680`, `2000` to `200A`, `202F`, `205F`, `3000` | spaces of other widths |
| `2028`, `2029` | line and paragraph separators |

Trimming removes the longest runs of them at both ends.
-/

namespace MappingCanvas
namespace Text

/-- The Unicode property `White_Space`. -/
def isBlank (c : Char) : Bool :=
  let n := c.toNat
  (9 ≤ n && n ≤ 13) || n == 0x20 || n == 0x85 || n == 0xA0 || n == 0x1680 ||
    (0x2000 ≤ n && n ≤ 0x200A) || n == 0x2028 || n == 0x2029 || n == 0x202F || n == 0x205F ||
    n == 0x3000

/-- The characters without those at either end that satisfy `p`. -/
def stripEnds (p : Char → Bool) (cs : List Char) : List Char :=
  ((cs.dropWhile p).reverse.dropWhile p).reverse

/-- A text without the blanks at its ends. -/
def trim (s : String) : String := String.ofList (stripEnds isBlank s.toList)

/-- What is left does not end with a character that is stripped. -/
theorem not_of_getLast?_stripEnds {p : Char → Bool} {cs : List Char} {c : Char}
    (h : (stripEnds p cs).getLast? = some c) : p c = false := by
  simp only [stripEnds, List.getLast?_reverse] at h
  have := List.head?_dropWhile_not p (cs.dropWhile p).reverse
  rw [h] at this
  simpa using this

/-- What is left does not begin with a character that is stripped. -/
theorem not_of_head?_stripEnds {p : Char → Bool} {cs : List Char} {c : Char}
    (h : (stripEnds p cs).head? = some c) : p c = false := by
  have hprefix : stripEnds p cs <+: cs.dropWhile p := by
    have := List.reverse_prefix.2 (List.dropWhile_suffix p (l := (cs.dropWhile p).reverse))
    rwa [List.reverse_reverse] at this
  obtain ⟨rest, hrest⟩ := hprefix
  have hhead : (cs.dropWhile p).head? = some c := by simp [← hrest, h]
  have := List.head?_dropWhile_not p cs
  rw [hhead] at this
  simpa using this

end Text
end MappingCanvas
