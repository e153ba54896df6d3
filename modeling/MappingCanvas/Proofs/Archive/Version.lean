/-
# The order of versions

Versions are compared by their numbers, those without numbers coming first, and then by their texts
(`compare_eq`); so their order is total, and only a version is equal to itself.  The latest of some
versions is none below any of them (`max?_cases`), and the version after a version comes after it
(`compare_nextMinor`), as long as its second number is not the greatest word.
-/

import Mathlib.Data.String.Basic
import MappingCanvas.Archive.Version
import MappingCanvas.Proofs.Result
import MappingCanvas.Proofs.Text.Numeral

namespace MappingCanvas

/-! ### The last of the greatest elements -/

section

variable {α : Type} {cmp : α → α → Ordering} {x y : α} {xs : List α}

/-- The second of two elements, unless it is less than the first. -/
def later (cmp : α → α → Ordering) (x y : α) : α := if (cmp y x).isGE then y else x

/-- The later of two elements is one of them. -/
theorem later_cases (cmp : α → α → Ordering) (x y : α) : later cmp x y = x ∨ later cmp x y = y := by
  unfold later
  split
  · exact .inr rfl
  · exact .inl rfl

/-- What is kept of a list is one of its elements. -/
theorem foldl_later_mem (x : α) (xs : List α) : xs.foldl (later cmp) x ∈ x :: xs := by
  induction xs generalizing x with
  | nil => exact List.mem_cons_self
  | cons y xs ih =>
    rcases List.mem_cons.1 (ih (later cmp x y)) with h | h
    · rw [List.foldl_cons, h]
      rcases later_cases cmp x y with hlater | hlater <;> simp [hlater]
    · exact List.mem_cons_of_mem _ (List.mem_cons_of_mem _ h)

variable [Std.TransCmp cmp]

/-- An element is no less than itself. -/
theorem isGE_self (x : α) : (cmp x x).isGE := by
  have hself : cmp x x = .eq := Std.ReflCmp.compare_self
  rw [hself]
  rfl

/-- The later of two elements is no less than either. -/
theorem isGE_later (x y : α) : (cmp (later cmp x y) x).isGE ∧ (cmp (later cmp x y) y).isGE := by
  unfold later
  split
  · rename_i h
    exact ⟨h, isGE_self y⟩
  · rename_i h
    have hlt : cmp y x = .lt := by
      simpa [Ordering.isGE_iff_ne_lt] using h
    refine ⟨isGE_self x, ?_⟩
    rw [Std.OrientedCmp.gt_of_lt hlt]
    rfl

/-- **What is kept of a list is no less than any element.** -/
theorem isGE_foldl_later (hy : y ∈ x :: xs) : (cmp (xs.foldl (later cmp) x) y).isGE := by
  induction xs generalizing x y with
  | nil => exact List.mem_singleton.1 hy ▸ isGE_self y
  | cons z xs ih =>
    have hkept : (cmp (xs.foldl (later cmp) (later cmp x z)) (later cmp x z)).isGE :=
      ih List.mem_cons_self
    rcases List.mem_cons.1 hy with rfl | hy
    · exact Std.TransCmp.isGE_trans hkept (isGE_later y z).1
    rcases List.mem_cons.1 hy with rfl | hy
    · exact Std.TransCmp.isGE_trans hkept (isGE_later x y).2
    · exact ih (List.mem_cons_of_mem _ hy)

end

namespace Version

variable {v w : Version} {vs : List Version}

/-! ### A total order -/

/-- Lists of numbers are compared as lists usually are. -/
theorem compareSegments_eq (as bs : List Nat) : compareSegments as bs = Ord.compare as bs := by
  induction as generalizing bs with
  | nil => cases bs <;> rfl
  | cons a as ih =>
    cases bs with
    | nil => rfl
    | cons b bs => rw [compareSegments, ih, List.compare_cons_cons]

/-- **Versions are compared by their numbers, then by their texts.** -/
theorem compare_eq : compare = compareLex (compareOn segments?) (compareOn text) := by
  funext v w
  simp only [compare, compareLex, compareOn]
  cases v.segments? <;> cases w.segments? <;> simp [compareSegments_eq] <;> rfl

instance : Std.TransCmp compare := compare_eq ▸ inferInstance

instance : Std.LawfulEqCmp compare where
  eq_of_compare {v w} h := by
    rw [compare_eq, compareLex, Ordering.then_eq_eq] at h
    cases v
    cases w
    exact congrArg mk (Std.LawfulEqCmp.eq_of_compare h.2)

/-! ### The latest version -/

/-- **No version is later than the latest, which is one of them**: of each two versions the later
one is kept. -/
theorem max?_cases (vs : List Version) : vs = [] ∧ max? vs = none ∨
    ∃ latest ∈ vs, max? vs = some latest ∧ ∀ w ∈ vs, (compare latest w).isGE := by
  cases vs with
  | nil => exact .inl ⟨rfl, rfl⟩
  | cons v vs =>
    exact .inr ⟨vs.foldl (later compare) v, foldl_later_mem v vs, rfl, fun _ => isGE_foldl_later⟩

/-! ### The numbers of a version -/

/-- The numbers of a version are words. -/
theorem le_of_mem_segments? {ns : List Nat} (h : v.segments? = some ns) {n : Nat} (hn : n ∈ ns) :
    n ≤ Number.maxWord := by
  rw [segments?, mapM_eq_some_iff] at h
  generalize Text.splitDots v.text.toList = parts at h
  induction h with
  | nil => cases hn
  | cons hword _ ih =>
    rcases List.mem_cons.1 hn with rfl | hn
    · exact Text.le_of_word?_eq_some hword
    · exact ih hn

/-- Two written numbers with a dot between them make a version of these numbers. -/
theorem segments?_numerals {major minor : Nat} (hmajor : major ≤ Number.maxWord)
    (hminor : minor ≤ Number.maxWord) :
    segments? ⟨Text.ofNat major ++ "." ++ Text.ofNat minor⟩ = some [major, minor] := by
  have hdigit : ∀ {n c}, c ∈ Number.digitChars n → Text.isDigit c = true :=
    Text.isDigit_of_mem_digitChars
  have hsplit : ∀ n, Text.splitDots (Number.digitChars n) = [Number.digitChars n] := fun n =>
    Text.splitDots_of_not_mem fun h => Text.ne_of_isDigit (hdigit h) (by decide) rfl
  have hstrip : ∀ n, Text.stripEnds Text.isBlank (Number.digitChars n) = Number.digitChars n :=
    fun n => Text.stripEnds_eq_self fun c hc => Text.isBlank_of_isDigit (hdigit hc)
  have hword : ∀ {n}, n ≤ Number.maxWord →
      Text.word? (String.ofList (Number.digitChars n)) = some n := Text.word?_ofNat
  have htext : (Text.ofNat major ++ "." ++ Text.ofNat minor).toList =
      Number.digitChars major ++ '.' :: Number.digitChars minor := by
    simp [Text.ofNat, String.toList_append]
  rw [segments?, htext, Text.splitDots_append, hsplit, hsplit]
  simp only [List.cons_append, List.nil_append, List.mapM_cons, List.mapM_nil, hstrip,
    hword hmajor, hword hminor]
  rfl

/-- A text without numbers has none when it is continued behind a dot. -/
theorem segments?_append (h : v.segments? = none) (t : String) :
    segments? ⟨v.text ++ "." ++ t⟩ = none := by
  have htext : (v.text ++ "." ++ t).toList = v.text.toList ++ '.' :: t.toList := by
    simp [String.toList_append]
  rw [segments?] at h
  rw [segments?, htext, Text.splitDots_append, List.mapM_append, h]
  rfl

/-! ### The next version -/

/-- Whether the second number of a version is the greatest word, which no number follows. -/
def Exhausted (v : Version) : Prop :=
  ∃ major rest, v.segments? = some (major :: Number.maxWord :: rest)

/-- Numeric versions are compared by their numbers. -/
theorem compare_numeric {as bs : List Nat} (hv : v.segments? = some as)
    (hw : w.segments? = some bs) (h : Ord.compare as bs = .gt) : compare v w = .gt := by
  simp only [compare, hv, hw, compareSegments_eq, h]
  rfl

/-- A text comes before its continuations. -/
theorem lt_append (s : String) {t : String} (h : t ≠ "") : s < s ++ t := by
  have hne : t.toList ≠ [] := fun hnil => h (String.toList_eq_nil_iff.1 hnil)
  obtain ⟨d, ds, hd⟩ := List.exists_cons_of_ne_nil hne
  rw [String.lt_iff, String.toList_append, hd]
  induction s.toList with
  | nil => exact List.nil_lt_cons d ds
  | cons c cs ih => exact List.cons_lt_cons_iff.2 (.inr ⟨rfl, ih⟩)

/-- **The version after a version comes after it.** -/
theorem compare_nextMinor (h : ¬v.Exhausted) : compare v.nextMinor v = .gt := by
  have hone : 1 ≤ Number.maxWord := by decide
  have hdot : ∀ s : String, s ++ ".1" = s ++ "." ++ Text.ofNat 1 := fun s => by
    rw [String.append_assoc]
    rfl
  cases hv : v.segments? with
  | none =>
    have hnext : v.nextMinor = ⟨v.text ++ ".1"⟩ := by simp only [nextMinor, hv]
    have hsegments : v.nextMinor.segments? = none := by
      rw [hnext, hdot]
      exact segments?_append hv _
    have htext : Ord.compare v.nextMinor.text v.text = .gt := by
      rw [hnext]
      exact compare_gt_iff_gt.2 (lt_append v.text (by decide))
    simp only [compare, hv, hsegments, htext]
  | some ns =>
    rcases ns with _ | ⟨major, _ | ⟨minor, rest⟩⟩
    · have hnext : v.nextMinor = ⟨Text.ofNat 1 ++ "." ++ Text.ofNat 1⟩ := by
        simp only [nextMinor, hv]
        rfl
      exact compare_numeric (hnext ▸ segments?_numerals hone hone) hv rfl
    · have hmajor : major ≤ Number.maxWord := le_of_mem_segments? hv List.mem_cons_self
      have hnext : v.nextMinor = ⟨Text.ofNat major ++ "." ++ Text.ofNat 1⟩ := by
        simp only [nextMinor, hv, hdot]
      refine compare_numeric (hnext ▸ segments?_numerals hmajor hone) hv ?_
      simp [List.compare_cons_cons]
    · have hmajor : major ≤ Number.maxWord := le_of_mem_segments? hv List.mem_cons_self
      have hminor : minor ≤ Number.maxWord :=
        le_of_mem_segments? hv (List.mem_cons_of_mem _ List.mem_cons_self)
      have hne : minor ≠ Number.maxWord := fun heq => h ⟨major, rest, heq ▸ hv⟩
      have hnext : v.nextMinor = ⟨Text.ofNat major ++ "." ++ Text.ofNat (minor + 1)⟩ := by
        simp only [nextMinor, hv]
      have hgt : Ord.compare (minor + 1) minor = .gt := Nat.compare_eq_gt.2 (Nat.lt_succ_self minor)
      refine compare_numeric (hnext ▸ segments?_numerals hmajor (by omega)) hv ?_
      simp [List.compare_cons_cons, hgt]

end Version
end MappingCanvas
