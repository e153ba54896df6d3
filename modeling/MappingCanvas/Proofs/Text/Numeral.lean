/-
# Numerals between dots

A text that spells a word is digits, perhaps behind a plus sign (`word?_eq_some_iff`), so a number
that is written in digits is read again (`word?_ofNat`).  Dots part a text where it was put together
with them (`splitDots_append`, `splitDots_intercalate`).
-/

import MappingCanvas.Text.Blank
import MappingCanvas.Text.Numeral

namespace MappingCanvas
namespace Text

/-! ### Digits -/

/-- A written number has digits only. -/
theorem isDigit_of_mem_digitChars {n : Nat} {c : Char} (h : c ∈ Number.digitChars n) :
    isDigit c = true := by
  have hdigit := Nat.isDigit_of_mem_toDigits (by decide) (by decide) h
  simpa [isDigit, Char.isDigit, Char.le_def] using hdigit

/-- A digit is none of the other characters. -/
theorem ne_of_isDigit {c d : Char} (hc : isDigit c = true) (hd : isDigit d = false) : c ≠ d := by
  rintro rfl
  rw [hd] at hc
  cases hc

/-- No digit is a blank, so a number has none at its ends. -/
theorem isBlank_of_isDigit {c : Char} (h : isDigit c = true) : isBlank c = false := by
  have hbounds : 48 ≤ c.toNat ∧ c.toNat ≤ 57 := by
    simpa [isDigit, Char.le_def, UInt32.le_iff_toNat_le] using h
  simp only [isBlank]
  grind

/-- A number is written with at least one digit. -/
theorem digitChars_ne_nil (n : Nat) : Number.digitChars n ≠ [] := Nat.toDigits_ne_nil

/-- **The digits of a number are read as the number.** -/
theorem ofDigits_digitChars (n : Nat) :
    Number.ofDigits ((Number.digitChars n).map digitValue) = n := by
  have hread : Nat.ofDigitChars 10 (Nat.toDigits 10 n) 0 = n :=
    Nat.ofDigitChars_toDigits (by decide) (by decide)
  rw [Number.ofDigits, List.foldl_map]
  simpa only [Nat.ofDigitChars, Nat.mul_comm 10, digitValue, Number.digitChars] using hread

/-- A plus sign in front is all that is dropped. -/
theorem exists_eq_dropPlus (cs : List Char) :
    ∃ sign, (sign = [] ∨ sign = ['+']) ∧ cs = sign ++ dropPlus cs := by
  unfold dropPlus
  split
  · exact ⟨['+'], .inr rfl, rfl⟩
  · exact ⟨[], .inl rfl, rfl⟩

/-- Nothing is dropped from digits alone. -/
theorem dropPlus_digits {ds : List Char} (h : ∀ c ∈ ds, isDigit c = true) : dropPlus ds = ds := by
  unfold dropPlus
  split
  · exact absurd (h '+' List.mem_cons_self) (by decide)
  · rfl

/-- **A word is spelled in digits, perhaps behind a plus sign.** -/
theorem word?_eq_some_iff {s : String} {n : Nat} : word? s = some n ↔
    ∃ sign ds, s.toList = sign ++ ds ∧ (sign = [] ∨ sign = ['+']) ∧ ds ≠ [] ∧
      (∀ c ∈ ds, isDigit c = true) ∧ Number.ofDigits (ds.map digitValue) = n ∧
      n ≤ Number.maxWord := by
  constructor
  · intro h
    obtain ⟨sign, hsign, hs⟩ := exists_eq_dropPlus s.toList
    refine ⟨sign, dropPlus s.toList, hs, hsign, ?_⟩
    simp only [word?, Option.ite_none_left_eq_some, Option.ite_none_right_eq_some, Bool.or_eq_true,
      not_or, List.isEmpty_iff, Bool.not_eq_true', Bool.not_eq_false, List.all_eq_true,
      Option.some.injEq] at h
    obtain ⟨⟨hne, hdigits⟩, hle, rfl⟩ := h
    exact ⟨hne, hdigits, rfl, hle⟩
  · rintro ⟨sign, ds, hs, hsign, hne, hdigits, rfl, hle⟩
    have hdrop : dropPlus s.toList = ds := by
      rw [hs]
      rcases hsign with rfl | rfl
      · exact dropPlus_digits hdigits
      · rfl
    have hempty : ds.isEmpty = false := List.isEmpty_eq_false_iff.2 hne
    simp only [word?, hdrop, hempty, List.all_eq_true.2 hdigits]
    simp [hle]

/-- **A number that is written is read again.** -/
theorem word?_ofNat {n : Nat} (h : n ≤ Number.maxWord) : word? (ofNat n) = some n :=
  word?_eq_some_iff.2 ⟨[], Number.digitChars n, String.toList_ofList, .inl rfl,
    digitChars_ne_nil n, fun _ => isDigit_of_mem_digitChars, ofDigits_digitChars n, h⟩

/-- A word has 64 bits. -/
theorem le_of_word?_eq_some {s : String} {n : Nat} (h : word? s = some n) :
    n ≤ Number.maxWord := by
  obtain ⟨-, -, -, -, -, -, -, hle⟩ := word?_eq_some_iff.1 h
  exact hle

/-! ### Parts between dots -/

/-- A text has at least one part, if only an empty one. -/
theorem splitDots_ne_nil (cs : List Char) : splitDots cs ≠ [] := by
  fun_cases splitDots cs <;> simp

/-- A text without dots is one part. -/
theorem splitDots_of_not_mem {cs : List Char} (h : '.' ∉ cs) : splitDots cs = [cs] := by
  induction cs with
  | nil => rfl
  | cons c cs ih =>
    have hc : c ≠ '.' := fun hc => h (hc ▸ List.mem_cons_self)
    have hcs : '.' ∉ cs := fun hcs => h (List.mem_cons_of_mem c hcs)
    rw [splitDots, if_neg hc, ih hcs]

/-- **A dot parts a text.** -/
theorem splitDots_append (xs ys : List Char) :
    splitDots (xs ++ '.' :: ys) = splitDots xs ++ splitDots ys := by
  induction xs with
  | nil => rfl
  | cons c xs ih =>
    by_cases hc : c = '.'
    · rw [List.cons_append, splitDots, if_pos hc, splitDots, if_pos hc, ih, List.cons_append]
    · rw [List.cons_append, splitDots, if_neg hc, splitDots, if_neg hc, ih]
      cases hxs : splitDots xs with
      | nil => exact absurd hxs (splitDots_ne_nil xs)
      | cons part parts => rfl

/-- The parts, with dots between them, are the text. -/
theorem intercalate_splitDots (cs : List Char) : ['.'].intercalate (splitDots cs) = cs := by
  induction cs with
  | nil => rfl
  | cons c cs ih =>
    obtain ⟨part, parts, hparts⟩ := List.exists_cons_of_ne_nil (splitDots_ne_nil cs)
    rw [hparts] at ih
    by_cases hc : c = '.'
    · rw [splitDots, if_pos hc, hparts, List.intercalate_cons_cons, ih, hc]
      rfl
    · rw [splitDots, if_neg hc, hparts]
      cases parts with
      | nil => rw [← ih]; rfl
      | cons part' parts =>
        rw [List.intercalate_cons_cons] at ih ⊢
        rw [← ih]
        rfl

/-- Dots part what has none. -/
theorem splitDots_intercalate {parts : List (List Char)} (hne : parts ≠ [])
    (hparts : ∀ part ∈ parts, '.' ∉ part) : splitDots (['.'].intercalate parts) = parts := by
  induction parts with
  | nil => exact absurd rfl hne
  | cons part parts ih =>
    obtain ⟨hpart, hrest⟩ := List.forall_mem_cons.1 hparts
    cases parts with
    | nil =>
      rw [List.intercalate_singleton]
      exact splitDots_of_not_mem hpart
    | cons part' parts =>
      have hih := ih (List.cons_ne_nil _ _) hrest
      rw [List.intercalate_cons_cons, List.append_assoc, List.singleton_append, splitDots_append,
        splitDots_of_not_mem hpart, hih]
      rfl

/-- Nothing is stripped from a text that has nothing to strip. -/
theorem stripEnds_eq_self {p : Char → Bool} {cs : List Char} (h : ∀ c ∈ cs, p c = false) :
    stripEnds p cs = cs := by
  have hkeep : ∀ ds : List Char, (∀ c ∈ ds, p c = false) → ds.dropWhile p = ds := fun ds hds => by
    cases ds with
    | nil => rfl
    | cons d ds => rw [List.dropWhile_cons_of_neg (by simp [hds d List.mem_cons_self])]
  rw [stripEnds, hkeep cs h, hkeep cs.reverse fun c hc => h c (List.mem_reverse.1 hc),
    List.reverse_reverse]

end Text
end MappingCanvas
