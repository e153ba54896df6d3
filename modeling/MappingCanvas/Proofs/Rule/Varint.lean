/-
# Byte codes are read again

A byte code is found where it was written (`Reads`): its reader stops behind it, whatever follows,
and finds nothing in a part that is cut off before the end.  Codes that are written one after the
other are then read one after the other (`Reads.bind`), so a code of many parts takes no more than a
line for each part.

The code of a number is the one that the format prescribes (`Codes`): the number itself if it is
small, or the first escape wide enough, then the digits to base 256, the least one first.
-/

import Mathlib.Data.Nat.Digits.Defs
import Mathlib.Data.Nat.Digits.Lemmas
import MappingCanvas.Rule.Varint

namespace MappingCanvas

/-! ### Readers -/

/-- A reader of a value that leaves the bytes behind it. -/
abbrev ByteReader (α : Type) := List UInt8 → Option (α × List UInt8)

/-- One reader behind another. -/
def ByteReader.bind {α β : Type} (read : ByteReader α) (next : α → ByteReader β) : ByteReader β :=
  fun bs => read bs >>= fun x => next x.1 x.2

/-- A reader finds `a` in some bytes, all of which it needs and behind which it stops. -/
structure Reads {α : Type} (read : ByteReader α) (bs : List UInt8) (a : α) : Prop where
  found : ∀ rest, read (bs ++ rest) = some (a, rest)
  cut : ∀ front, front <+: bs → front ≠ bs → read front = none

namespace Reads

variable {α β : Type} {read : ByteReader α} {bs bs' : List UInt8} {a : α} {b : β}

/-- A reader of no bytes finds what it was made for. -/
theorem pure (a : α) : Reads (fun bs => some (a, bs)) [] a where
  found _ := rfl
  cut _ hfront hne := absurd (List.prefix_nil.1 hfront) hne

/-- One code behind another.  Cut at the end of the first one, it leaves nothing for the second
reader. -/
theorem bind {next : α → ByteReader β} (h : Reads read bs a) (h' : Reads (next a) bs' b) :
    Reads (ByteReader.bind read next) (bs ++ bs') b where
  found rest := by
    simp only [ByteReader.bind, List.append_assoc, h.found, Option.bind_eq_bind, Option.bind_some]
    exact h'.found rest
  cut front hfront hne := by
    obtain hshort | ⟨front', rfl⟩ :=
      List.prefix_or_prefix_of_prefix hfront (List.prefix_append bs bs')
    · by_cases heq : front = bs
      · have hempty : [] ≠ bs' := by
          rintro rfl
          exact hne (by simp [heq])
        have hfound : read front = some (a, []) := by simpa [heq] using h.found []
        simpa [ByteReader.bind, hfound] using h'.cut [] List.nil_prefix hempty
      · simp [ByteReader.bind, h.cut front hshort heq]
    · have hfront' : front' <+: bs' := by simpa using hfront
      have hne' : front' ≠ bs' := fun heq => hne (by rw [heq])
      simpa [ByteReader.bind, h.found] using h'.cut front' hfront' hne'

/-- What is found may be changed afterwards. -/
theorem map (h : Reads read bs a) (f : α → β) :
    Reads (fun bs => (read bs).map fun x => (f x.1, x.2)) bs (f a) where
  found rest := by simp [h.found]
  cut front hfront hne := by simp [h.cut front hfront hne]

/-- A code behind a byte that shows how to read it. -/
theorem cons {read' : ByteReader α} {c : UInt8} (hnil : read' [] = none)
    (hcons : ∀ bs, read' (c :: bs) = read bs) (h : Reads read bs a) : Reads read' (c :: bs) a where
  found rest := (hcons _).trans (h.found rest)
  cut front hfront hne := by
    cases front with
    | nil => exact hnil
    | cons d front =>
      obtain ⟨rfl, hrest⟩ := List.cons_prefix_cons.1 hfront
      exact (hcons _).trans (h.cut front hrest fun heq => hne (by rw [heq]))

end Reads

namespace Varint

variable {width n x : Nat}

/-! ### Digits -/

/-- A number is written in as many digits as were asked for. -/
theorem length_littleEndian (n x : Nat) : (littleEndian n x).length = n := by
  induction n generalizing x with
  | zero => rfl
  | succ n ih => rw [littleEndian, List.length_cons, ih]

/-- Bytes are read as the digits to base 256. -/
theorem ofLittleEndian_eq (bs : List UInt8) :
    ofLittleEndian bs = Nat.ofDigits 256 (bs.map UInt8.toNat) := by
  induction bs with
  | nil => rfl
  | cons b bs ih => rw [ofLittleEndian, ih, List.map_cons, Nat.ofDigits_cons]

/-- As many digits as a number has are enough to write it. -/
theorem ofDigits_littleEndian (hx : x < 256 ^ n) :
    Nat.ofDigits 256 ((littleEndian n x).map UInt8.toNat) = x := by
  induction n generalizing x with
  | zero =>
    obtain rfl : x = 0 := by simpa using hx
    rfl
  | succ n ih =>
    have hhigh : x / 256 < 256 ^ n := Nat.div_lt_of_lt_mul (by rwa [← pow_succ'])
    have hlow : x.toUInt8.toNat = x % 256 := rfl
    rw [littleEndian, List.map_cons, Nat.ofDigits_cons, ih hhigh, hlow]
    exact Nat.mod_add_div x 256

/-! ### Numbers -/

/-- The escapes, with the number of digits behind each. -/
def escapes : List (UInt8 × Nat) := [(251, 2), (252, 4), (253, 8)]

/-- The code of a number: a byte up to 250, or the first escape that is wide enough, then the digits
to base 256, the least one first. -/
inductive Codes : Nat → List UInt8 → Prop
  | byte {b : UInt8} (hb : b.toNat ≤ 250) : Codes b.toNat [b]
  | escaped {escape : UInt8} {digits : List UInt8} {x : Nat} (hlarge : 250 < x)
      (hescape : (escape, digits.length) ∈ escapes)
      (hfirst : ∀ e ∈ escapes, e.2 < digits.length → 256 ^ e.2 ≤ x)
      (hdigits : Nat.ofDigits 256 (digits.map UInt8.toNat) = x) : Codes x (escape :: digits)

/-- A number that the digits hold has the escape with them for its code, unless fewer digits would
do. -/
theorem codes_escaped {escape : UInt8} (hlarge : 250 < x) (hescape : (escape, n) ∈ escapes)
    (hfirst : ∀ e ∈ escapes, e.2 < n → 256 ^ e.2 ≤ x) (hx : x < 256 ^ n) :
    Codes x (escape :: littleEndian n x) := by
  refine .escaped hlarge ?_ ?_ (ofDigits_littleEndian hx)
  · rwa [length_littleEndian]
  · rwa [length_littleEndian]

/-- The code that is written is one of the format. -/
theorem codes_encode (hx : x < 2 ^ 64) : Codes x (encode x) := by
  unfold encode
  split
  · rename_i hsmall
    have hbyte : x.toUInt8.toNat = x := Nat.mod_eq_of_lt (by omega)
    have h := Codes.byte (b := x.toUInt8) (hbyte.symm ▸ hsmall)
    rwa [hbyte] at h
  rename_i hlarge
  simp only [Nat.pow_eq]
  split
  · exact codes_escaped (by omega) (by decide) (by simp [escapes]) (by omega)
  split
  · exact codes_escaped (by omega) (by decide) (by simp [escapes]; omega) (by omega)
  · exact codes_escaped (by omega) (by decide) (by simp [escapes]; omega) (by omega)

/-- A byte is a digit to base 256. -/
theorem toNat_lt_of_mem (bs : List UInt8) : ∀ d ∈ bs.map UInt8.toNat, d < 256 := by
  rw [List.forall_mem_map]
  exact fun b _ => b.toNat_lt

/-- **The code that is written is the one of the format**, and there is no other. -/
theorem codes_iff {bs : List UInt8} (hx : x < 2 ^ 64) : Codes x bs ↔ bs = encode x := by
  refine ⟨fun h => ?_, fun h => h ▸ codes_encode hx⟩
  cases h with
  | byte hb => rw [encode, if_pos hb, Nat.toUInt8, UInt8.ofNat_toNat]
  | @escaped escape digits _ hlarge hescape hfirst hdigits =>
    have hlt : x < 256 ^ digits.length := by
      have h := Nat.ofDigits_lt_base_pow_length (b := 256) (by decide)
        (toNat_lt_of_mem digits)
      rwa [List.length_map, hdigits] at h
    have hunique : digits = littleEndian digits.length x := by
      refine List.map_injective_iff.2 (fun _ _ => UInt8.toNat.inj) (Nat.ofDigits_inj_of_len_eq
        (b := 256) (by decide) (by simp [length_littleEndian]) (toNat_lt_of_mem _)
        (toNat_lt_of_mem _) ?_)
      rw [hdigits, ofDigits_littleEndian hlt]
    generalize hlength : digits.length = n at hescape hfirst hlt hunique
    have htwo : 2 < n → 256 ^ 2 ≤ x := hfirst (251, 2) (by decide)
    have hfour : 4 < n → 256 ^ 4 ≤ x := hfirst (252, 4) (by decide)
    simp only [escapes, List.mem_cons, Prod.mk.injEq, List.not_mem_nil, or_false] at hescape
    simp only [encode, Nat.pow_eq, if_neg (Nat.not_le.2 hlarge)]
    obtain ⟨rfl, rfl⟩ | ⟨rfl, rfl⟩ | ⟨rfl, rfl⟩ := hescape
    · rw [if_pos (by omega), ← hunique]
    · rw [if_neg (by omega), if_pos (by omega), ← hunique]
    · rw [if_neg (by omega), if_neg (by omega), ← hunique]

/-- As many bytes as were asked for are taken. -/
theorem reads_take (bs : List UInt8) : Reads (take? bs.length) bs bs where
  found rest := by simp [take?]
  cut front hfront hne := by
    have hshort : front.length < bs.length :=
      lt_of_le_of_ne hfront.length_le fun heq => hne (hfront.eq_of_length heq)
    exact if_neg (by omega)

/-- A number is read from its digits, if the word has room for them. -/
theorem reads_wide (hn : n ≤ width) (hx : x < 256 ^ n) :
    Reads (wide? width n) (littleEndian n x) x := by
  have h := (reads_take (littleEndian n x)).map ofLittleEndian
  rw [length_littleEndian, ofLittleEndian_eq, ofDigits_littleEndian hx] at h
  unfold wide?
  simpa [hn] using h

/-- **A number is read again** for a word that it fits. -/
theorem reads_encode (hwidth : width = 2 ∨ width = 4 ∨ width = 8) (hx : x < 256 ^ width) :
    Reads (decode? width) (encode x) x := by
  unfold encode
  split
  · rename_i hsmall
    have hbyte : x.toUInt8.toNat = x := Nat.mod_eq_of_lt (by omega)
    refine .cons rfl (fun bs => ?_) (.pure x)
    rw [decode?, if_pos (by omega), hbyte]
  simp only [Nat.pow_eq]
  split
  · exact .cons rfl (fun _ => rfl) (reads_wide (by omega) (by omega))
  -- from here on the word is wide enough for the escape, as the number fits it
  rename_i hlarge
  obtain rfl | hwidth := hwidth
  · omega
  split
  · exact .cons rfl (fun _ => rfl) (reads_wide (by omega) (by omega))
  rename_i hlarge
  obtain rfl | rfl := hwidth
  · omega
  · exact .cons rfl (fun _ => rfl) (reads_wide le_rfl hx)

/-! ### Bytes and texts -/

/-- The code of a list of bytes: the code of its length, then the bytes. -/
def CodesBytes (content bs : List UInt8) : Prop :=
  ∃ length, Codes content.length length ∧ bs = length ++ content

/-- The code of an optional text: a byte 0, or a byte 1 and the code of the bytes of the text. -/
def CodesTextOption : Option String → List UInt8 → Prop
  | none, bs => bs = [0]
  | some s, bs => ∃ text, CodesBytes s.toUTF8.toList text ∧ bs = 1 :: text

/-- The code of some bytes that is written is the one of the format. -/
theorem codesBytes_iff {content bs : List UInt8} (h : content.length < 2 ^ 64) :
    CodesBytes content bs ↔ bs = encodeBytes content := by
  simp only [CodesBytes, codes_iff h, exists_eq_left, encodeBytes]

theorem reads_encodeBytes {bs : List UInt8} (hbs : bs.length < 2 ^ 64) :
    Reads decodeBytes? (encodeBytes bs) bs :=
  (reads_encode (by simp) hbs).bind (reads_take bs)

/-- The bytes of an array one by one. -/
theorem toList_eq (b : ByteArray) : b.toList = b.data.toList := by
  have hloop (i : Nat) (done : List UInt8) :
      ByteArray.toList.loop b i done = done.reverse ++ b.data.toList.drop i := by
    induction i, done using ByteArray.toList.loop.induct b with
    | case1 i done hi ih =>
      have hget : b.get! i = b.data.toList[i] := by
        rw [Array.getElem_toList]
        exact getElem!_pos b.data i hi
      rw [ByteArray.toList.loop, if_pos hi, ih, List.reverse_cons, List.append_assoc, hget,
        List.singleton_append, List.getElem_cons_drop]
    | case2 i done hi =>
      rw [ByteArray.toList.loop, if_neg hi, List.drop_eq_nil_of_le (by simpa using hi),
        List.append_nil]
  exact (hloop 0 []).trans (by simp)

/-- The text of some bytes, in front of the bytes behind them. -/
def ofUTF8? (ds : List UInt8) : ByteReader String := fun rest => do
  return (← String.fromUTF8? ⟨ds.toArray⟩, rest)

/-- The bytes of a text are counted. -/
theorem length_toUTF8 (s : String) : s.toUTF8.toList.length = s.utf8ByteSize := by
  rw [toList_eq]
  rfl

theorem reads_encodeText {s : String} (hs : s.utf8ByteSize < 2 ^ 64) :
    Reads decodeText? (encodeText s) s := by
  have htext : Reads (ofUTF8? s.toUTF8.toList) [] s := by
    have hvalid : String.fromUTF8? s.toUTF8 = some s := dif_pos s.isValidUTF8
    have hread : ofUTF8? s.toUTF8.toList = fun rest => some (s, rest) := by
      funext rest
      simp only [ofUTF8?, toList_eq, Array.toArray_toList, hvalid]
      rfl
    exact hread ▸ .pure s
  rw [encodeText, ← List.append_nil (encodeBytes _)]
  exact (reads_encodeBytes (length_toUTF8 s ▸ hs)).bind htext

/-- The code of an optional text that is written is the one of the format. -/
theorem codesTextOption_iff {s : Option String} {bs : List UInt8}
    (hs : ∀ t ∈ s, t.utf8ByteSize < 2 ^ 64) : CodesTextOption s bs ↔ bs = encodeTextOption s := by
  cases s with
  | none => rfl
  | some t =>
    simp only [CodesTextOption, codesBytes_iff (length_toUTF8 t ▸ hs t rfl), exists_eq_left,
      encodeTextOption, encodeText]

/-- **An optional text is read again.** -/
theorem reads_encodeTextOption {s : Option String} (hs : ∀ t ∈ s, t.utf8ByteSize < 2 ^ 64) :
    Reads decodeTextOption? (encodeTextOption s) s := by
  cases s with
  | none => exact .cons rfl (fun _ => rfl) (.pure none)
  | some t => exact .cons rfl (fun _ => rfl) ((reads_encodeText (hs t rfl)).map some)

end Varint
end MappingCanvas
