/-
# Byte codes of numbers and texts

Unsigned numbers are written in as few bytes as they need, least significant byte first:

| number | bytes |
| --- | --- |
| up to 250 | the number itself |
| up to `2 ^ 16 - 1` | 251, then 2 bytes |
| up to `2 ^ 32 - 1` | 252, then 4 bytes |
| up to `2 ^ 64 - 1` | 253, then 8 bytes |

A longer form than needed is read too, but no form that is too wide for the wanted word.  A list
of bytes is written behind its length, an optional value behind a byte 0 or 1.
-/

namespace MappingCanvas
namespace Varint

/-- The lowest `n` bytes of a number, least significant first. -/
def littleEndian : Nat → Nat → List UInt8
  | 0, _ => []
  | n + 1, x => x.toUInt8 :: littleEndian n (x / 256)

/-- The number of some bytes, least significant first. -/
def ofLittleEndian : List UInt8 → Nat
  | [] => 0
  | b :: bs => b.toNat + 256 * ofLittleEndian bs

/-- Writes a number of at most 64 bits. -/
def encode (x : Nat) : List UInt8 :=
  if x ≤ 250 then [x.toUInt8]
  else if x < Nat.pow 2 16 then 251 :: littleEndian 2 x
  else if x < Nat.pow 2 32 then 252 :: littleEndian 4 x
  else 253 :: littleEndian 8 x

/-- The first `n` bytes, and the rest. -/
def take? (n : Nat) (bs : List UInt8) : Option (List UInt8 × List UInt8) :=
  if n ≤ bs.length then some (bs.take n, bs.drop n) else none

/-- Reads a number of `n` bytes, if a word of `width` bytes holds as many. -/
def wide? (width n : Nat) (bs : List UInt8) : Option (Nat × List UInt8) :=
  if n ≤ width then (take? n bs).map fun (ds, rest) => (ofLittleEndian ds, rest) else none

/-- Reads a number for a word of `width` bytes. -/
def decode? (width : Nat) : List UInt8 → Option (Nat × List UInt8)
  | [] => none
  | b :: bs =>
    if b.toNat ≤ 250 then some (b.toNat, bs)
    else if b = 251 then wide? width 2 bs
    else if b = 252 then wide? width 4 bs
    else if b = 253 then wide? width 8 bs
    else none

/-- Writes a list of bytes behind its length. -/
def encodeBytes (bs : List UInt8) : List UInt8 := encode bs.length ++ bs

/-- Reads a list of bytes. -/
def decodeBytes? (bs : List UInt8) : Option (List UInt8 × List UInt8) := do
  let (n, bs) ← decode? 8 bs
  take? n bs

/-- Writes a text. -/
def encodeText (s : String) : List UInt8 := encodeBytes s.toUTF8.toList

/-- Reads a text. -/
def decodeText? (bs : List UInt8) : Option (String × List UInt8) := do
  let (ds, rest) ← decodeBytes? bs
  let s ← String.fromUTF8? ⟨ds.toArray⟩
  return (s, rest)

/-- Writes an optional text. -/
def encodeTextOption : Option String → List UInt8
  | none => [0]
  | some s => 1 :: encodeText s

/-- Reads an optional text. -/
def decodeTextOption? : List UInt8 → Option (Option String × List UInt8)
  | 0 :: bs => some (none, bs)
  | 1 :: bs => (decodeText? bs).map fun (s, rest) => (some s, rest)
  | _ => none

end Varint
end MappingCanvas
