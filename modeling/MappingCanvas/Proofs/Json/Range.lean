/-
# The numbers of a document

An integer of a document has 64 bits, signed or not, and a float is a real number: there is no way
to write another one.  So every tree that is read from a text is of this kind, whatever the text,
and so are its parts.
-/

import MappingCanvas.Json.Reader
import MappingCanvas.Proofs.Json.Ensures
import MappingCanvas.Proofs.Json.Magnitude

namespace MappingCanvas

/-- A number that can be written. -/
def Number.InRange : Number → Prop
  | integer n => -(2 ^ 63) ≤ n ∧ n ≤ (maxWord : Int)
  | float x => x.isFinite = true

instance (n : Number) : Decidable n.InRange :=
  match n with
  | .integer n => inferInstanceAs (Decidable (-(2 ^ 63) ≤ n ∧ n ≤ (Number.maxWord : Int)))
  | .float x => inferInstanceAs (Decidable (x.isFinite = true))

namespace Json

mutual
/-- All numbers of a tree can be written. -/
def InRange : Json → Prop
  | number n => n.InRange
  | array items => ItemsInRange items
  | object members => MembersInRange members
  | null | bool _ | string _ | flawed _ => True

/-- All numbers of some items can be written. -/
def ItemsInRange : List Json → Prop
  | [] => True
  | j :: js => j.InRange ∧ ItemsInRange js

/-- All numbers of some members can be written. -/
def MembersInRange : List (String × Json) → Prop
  | [] => True
  | (_, j) :: ms => j.InRange ∧ MembersInRange ms
end

/-- Items are in range when each of them is. -/
theorem itemsInRange_iff {js : List Json} : ItemsInRange js ↔ ∀ j ∈ js, j.InRange := by
  induction js with
  | nil => simp [ItemsInRange]
  | cons j js ih => simp [ItemsInRange, ih]

/-- Members are in range when each of them is. -/
theorem membersInRange_iff {ms : List (String × Json)} :
    MembersInRange ms ↔ ∀ m ∈ ms, m.2.InRange := by
  induction ms with
  | nil => simp [MembersInRange]
  | cons m ms ih => simp [MembersInRange, ih]

/-- A tree in range has all its parts in range. -/
theorem hereditary_inRange : Hereditary InRange :=
  ⟨fun _ h => itemsInRange_iff.1 h, fun _ h => membersInRange_iff.1 h⟩

end Json

/-! ### Numbers -/

namespace Number

open Magnitude

theorem isFinite_zero : (0 : Float).isFinite = true := by decide +kernel

/-- A word is a real number as a float. -/
theorem isFinite_ofNat {n : Nat} (hn : n ≤ maxWord) : (Float.ofNat n).isFinite = true :=
  (below_floatOfNat (Nat.lt_of_le_of_lt hn (by decide))).isFinite

/-- An integer in range is a real number as a float. -/
theorem isFinite_ofInt {n : Int} (h : (integer n).InRange) : (Float.ofInt n).isFinite = true := by
  obtain ⟨hlow, hhigh⟩ := h
  cases n with
  | ofNat n => exact isFinite_ofNat (Int.ofNat_le.1 hhigh)
  | negSucc n =>
    have : n + 1 ≤ maxWord := by
      have : 2 ^ 63 ≤ maxWord := by decide
      omega
    exact isFinite_neg (isFinite_ofNat this)

/-- Digits are collected as long as they fit a word. -/
theorem collect_le {m : Nat} (ds : List Nat) (hm : m ≤ maxWord) : (collect m ds).1 ≤ maxWord := by
  induction ds generalizing m with
  | nil => exact hm
  | cons d ds ih =>
    unfold collect
    split
    · exact ih ‹_›
    · exact hm

/-- To divide by a power of ten does not make a number larger. -/
theorem isFinite_div_powerOfTen {x : Float} {k : Nat} (hx : Below 67 x.toModel.unpack)
    (hpos : 0 < k) (hk : k ≤ 308) : Below 67 (x / powerOfTen k).toModel.unpack :=
  below_div hx (atLeast_powerOfTen hpos hk) (by decide) (by decide)

/-- **A number that is scaled down step by step stays real.** -/
theorem isFinite_scaleDown {fuel : Nat} {x : Float} {k : Nat} (hx : Below 67 x.toModel.unpack)
    (hpos : 0 < k) (hk : k < 308 * (fuel + 1)) : (scaleDown fuel x k).isFinite = true := by
  induction fuel generalizing x k with
  | zero => exact (isFinite_div_powerOfTen hx hpos (by omega)).isFinite
  | succ fuel ih =>
    unfold scaleDown
    split
    · exact (isFinite_div_powerOfTen hx hpos ‹_›).isFinite
    · split
      · exact hx.isFinite
      · exact ih (isFinite_div_powerOfTen hx (by decide) (by decide)) (by omega) (by omega)

/-- Digits and a power of ten make a real number, or none where it would be too large. -/
theorem isFinite_scale {m : Nat} {k : Int} {x : Float} (hm : m ≤ maxWord)
    (h : scale m k = some x) : x.isFinite = true := by
  have hword : m < 2 ^ 64 := Nat.lt_of_le_of_lt hm (by decide)
  unfold scale at h
  split at h
  · cases h
    exact isFinite_scaleDown (below_floatOfNat hword) (by omega) (by omega)
  · split at h
    · dsimp only at h
      split at h
      · cases h
      · cases h
        have hpower : (powerOfTen k.toNat).isFinite = true := by
          rcases Nat.eq_zero_or_pos k.toNat with h0 | hpos
          · rw [h0]
            decide +kernel
          · exact (atLeast_powerOfTen hpos (by omega)).isFinite
        exact isFinite_mul_of_not_isInf (isFinite_ofNat hm) hpower
          (Bool.eq_false_iff.2 ‹_›)
    · split at h
      · cases h
        exact isFinite_ofNat hm
      · cases h

/-- **A literal is read as a real number or refused.** -/
theorem Literal.isFinite_float? {l : Literal} {x : Float} (h : l.float? = some x) :
    x.isFinite = true := by
  unfold Literal.float? at h
  obtain ⟨⟨m₁, leftWhole⟩, hwhole⟩ : ∃ p, collect 0 l.whole = p := ⟨_, rfl⟩
  obtain ⟨⟨m, leftFraction⟩, hfraction⟩ : ∃ p, collect m₁ l.fraction = p := ⟨_, rfl⟩
  have hm : m ≤ maxWord := by
    have h₁ : m₁ ≤ maxWord := by simpa [hwhole] using collect_le l.whole (Nat.zero_le _)
    simpa [hfraction] using collect_le l.fraction h₁
  simp only [hwhole, hfraction, Option.map_eq_some_iff] at h
  obtain ⟨y, hy, rfl⟩ := h
  have hfinite : y.isFinite = true := by
    split at hy
    · exact isFinite_scale hm hy
    · split at hy
      · split at hy
        · cases hy
        · cases hy
          exact isFinite_zero
      · exact isFinite_scale hm hy
  split
  · exact isFinite_neg hfinite
  · exact hfinite

/-- **Every number that is read is in range.** -/
theorem inRange_ofLiteral? {l : Literal} {n : Number} (h : ofLiteral? l = some n) : n.InRange := by
  have hfloat : l.float?.map float = some n → n.InRange := by
    intro h
    obtain ⟨x, hx, rfl⟩ := Option.map_eq_some_iff.1 h
    exact Literal.isFinite_float? hx
  unfold ofLiteral? at h
  dsimp only at h
  split at h
  · split at h
    · split at h
      · rename_i hn
        cases h
        have : (Nat.pow 2 63 : Int) = 2 ^ 63 := by decide
        exact ⟨by omega, by omega⟩
      · exact hfloat h
    · split at h
      · rename_i hn
        cases h
        exact ⟨by omega, Int.ofNat_le.2 hn⟩
      · exact hfloat h
  · exact hfloat h

end Number

/-! ### Texts -/

namespace Json
namespace Reader

/-- A word of the syntax is in range if its value is. -/
theorem inRange_word (value : Json) (hvalue : value.InRange) (ws cs : List Char) :
    (word value ws cs).1.InRange := by
  induction ws generalizing cs with
  | nil => cases cs <;> exact hvalue
  | cons w ws ih =>
    cases cs with
    | nil => trivial
    | cons c cs =>
      unfold word
      split
      · exact ih cs
      · trivial

/-- What begins with a digit is in range, read or flawed. -/
theorem inRange_number (negative : Bool) (cs : List Char) : (number negative cs).1.InRange := by
  unfold number
  split
  · trivial
  · split
    · exact Number.inRange_ofLiteral? ‹_›
    · trivial

/-- A text has no numbers. -/
theorem inRange_stringValue (fuel : Nat) (cs : List Char) : (stringValue fuel cs).1.InRange := by
  unfold stringValue
  split <;> trivial

/-- Trees that are nested too deep are replaced by flaws, which have no numbers. -/
theorem inRange_limited {level : Nat} {j : Json} (h : j.InRange) : (limited level j).InRange := by
  unfold limited
  split
  · exact h
  · split <;> trivial

section

variable {fuel : Nat}

/-- A value is in range if what stands in it is. -/
theorem inRange_value_succ
    (hitems : ∀ level first cs, ItemsInRange (items fuel level first cs).1)
    (hmembers : ∀ level first cs, MembersInRange (members fuel level first cs).1)
    (level : Nat) (cs : List Char) : (value (fuel + 1) level cs).1.InRange := by
  unfold value
  split
  · trivial
  · exact inRange_limited (j := .array _) (hitems _ _ _)
  · exact inRange_limited (j := .object _) (hmembers _ _ _)
  · exact inRange_stringValue _ _
  · exact inRange_number _ _
  · exact inRange_word .null trivial _ _
  · exact inRange_word (.bool true) trivial _ _
  · exact inRange_word (.bool false) trivial _ _
  · split
    · exact inRange_number _ _
    · trivial

/-- Items are in range if the next one is and the others are. -/
theorem inRange_items_succ (hvalue : ∀ level cs, (value fuel level cs).1.InRange)
    (hitems : ∀ level first cs, ItemsInRange (items fuel level first cs).1)
    (level : Nat) (first : Bool) (cs : List Char) :
    ItemsInRange (items (fuel + 1) level first cs).1 := by
  unfold items
  extract_lets stop next
  have hnext : ∀ cs, ItemsInRange (next cs).1 := by
    intro cs
    unfold next
    have hj := hvalue level cs
    generalize value fuel level cs = read at hj ⊢
    obtain ⟨j, _ | rest⟩ := read
    · exact ⟨hj, trivial⟩
    · exact ⟨hj, hitems level false rest⟩
  split
  · exact ⟨trivial, trivial⟩
  · trivial
  · split
    · exact hnext _
    · split
      · split
        · exact ⟨trivial, trivial⟩
        · exact hnext _
      · exact ⟨trivial, trivial⟩

/-- Members are in range if the next one is and the others are; the flaw of a name that is no text
comes in front of its member. -/
theorem inRange_members_succ (hvalue : ∀ level cs, (value fuel level cs).1.InRange)
    (hmembers : ∀ level first cs, MembersInRange (members fuel level first cs).1)
    (level : Nat) (first : Bool) (cs : List Char) :
    MembersInRange (members (fuel + 1) level first cs).1 := by
  unfold members
  extract_lets stop next
  have hnext : ∀ cs, MembersInRange (next cs).1 := by
    intro cs
    unfold next
    generalize string fuel cs = read
    obtain ⟨name, rest⟩ := read
    dsimp -zeta only
    extract_lets mark name'
    have hmark : ∀ ms, MembersInRange ms → MembersInRange (mark ms) := by
      intro ms hms
      unfold mark
      split
      · exact hms
      · exact ⟨trivial, hms⟩
    split
    · exact hmark _ trivial
    · split
      · rename_i behind _
        have hj := hvalue level behind
        generalize value fuel level behind = read at hj ⊢
        obtain ⟨j, _ | rest⟩ := read
        · exact hmark _ ⟨hj, trivial⟩
        · exact hmark _ ⟨hj, hmembers level false rest⟩
      · exact hmark _ ⟨trivial, trivial⟩
      · exact hmark _ ⟨trivial, trivial⟩
  split
  · exact ⟨trivial, trivial⟩
  · trivial
  · split
    · split
      · exact hnext _
      · exact ⟨trivial, trivial⟩
    · split
      · split
        · exact hnext _
        · exact ⟨trivial, trivial⟩
        · exact ⟨trivial, trivial⟩
        · exact ⟨trivial, trivial⟩
      · exact ⟨trivial, trivial⟩

end

/-- **What is read holds only numbers that can be written**, whatever the text. -/
theorem inRange_value (fuel : Nat) : (∀ level cs, (value fuel level cs).1.InRange) ∧
    (∀ level first cs, ItemsInRange (items fuel level first cs).1) ∧
    ∀ level first cs, MembersInRange (members fuel level first cs).1 := by
  induction fuel with
  | zero =>
    exact ⟨fun _ _ => trivial, fun _ _ _ => ⟨trivial, trivial⟩, fun _ _ _ => ⟨trivial, trivial⟩⟩
  | succ fuel ih =>
    obtain ⟨hvalue, hitems, hmembers⟩ := ih
    exact ⟨inRange_value_succ hitems hmembers, inRange_items_succ hvalue hitems,
      inRange_members_succ hvalue hmembers⟩

end Reader

/-- **Whatever the bytes are, all numbers read from them are in range.** -/
theorem inRange_readBytes (bytes : List UInt8) : (readBytes bytes).tree.InRange := by
  unfold readBytes
  extract_lets cs
  have htree := (Reader.inRange_value (2 * cs.length + 2)).1 0 cs
  generalize Reader.value (2 * cs.length + 2) 0 cs = read at htree ⊢
  obtain ⟨tree, _ | rest⟩ := read
  · exact htree
  · exact htree

end Json
end MappingCanvas
