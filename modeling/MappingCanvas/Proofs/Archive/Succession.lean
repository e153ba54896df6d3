/-
# Versions in succession

A version spells numbers when its text is words with dots between them, and blanks around the words
if need be (`Spells`).  Those that do come after those that do not, and the order of all versions is
total.  The version after a version comes after it in this order, and so the next version of a name
comes after all versions that the name has (`lawful_and_rising`).

Only a version whose second number is the greatest word has none after it.
-/

import MappingCanvas.Proofs.Archive.Numbering
import MappingCanvas.Proofs.Result
import MappingCanvas.Proofs.Text.Stripped

namespace MappingCanvas
namespace Text

variable {cs : List Char} {n : Nat}

/-- A word between blanks: digits, perhaps behind a plus sign. -/
def SpellsWord (cs : List Char) (n : Nat) : Prop :=
  ∃ front sign ds back, cs = front ++ (sign ++ ds) ++ back ∧
    (∀ c ∈ front, isBlank c = true) ∧ (∀ c ∈ back, isBlank c = true) ∧
    (sign = [] ∨ sign = ['+']) ∧ ds ≠ [] ∧ (∀ c ∈ ds, isDigit c = true) ∧
    Number.ofDigits (ds.map digitValue) = n ∧ n ≤ Number.maxWord

/-- A plus sign is no blank. -/
theorem isBlank_of_mem_sign {sign : List Char} (h : sign = [] ∨ sign = ['+']) :
    ∀ c ∈ sign, isBlank c = false := by
  rcases h with rfl | rfl
  · exact List.forall_mem_nil _
  · exact List.forall_mem_singleton.2 (by decide)

/-- **What is left when the blanks are stripped is a word.** -/
theorem word?_stripEnds_iff :
    word? (String.ofList (stripEnds isBlank cs)) = some n ↔ SpellsWord cs n := by
  simp only [word?_eq_some_iff, String.toList_ofList]
  constructor
  · rintro ⟨sign, ds, hstrip, hword⟩
    obtain ⟨front, back, hcs, hfront, hback⟩ := exists_eq_stripEnds isBlank cs
    rw [hstrip] at hcs
    exact ⟨front, sign, ds, back, hcs, hfront, hback, hword⟩
  · rintro ⟨front, sign, ds, back, rfl, hfront, hback, hsign, hne, hdigits, hvalue⟩
    refine ⟨sign, ds, ?_, hsign, hne, hdigits, hvalue⟩
    rw [stripEnds_append_right hback, stripEnds_append_left hfront]
    refine stripEnds_eq_self fun c hc => ?_
    rcases List.mem_append.1 hc with hc | hc
    · exact isBlank_of_mem_sign hsign c hc
    · exact isBlank_of_isDigit (hdigits c hc)

/-- A word has no dot. -/
theorem SpellsWord.dot_notMem (h : SpellsWord cs n) : '.' ∉ cs := by
  obtain ⟨front, sign, ds, back, rfl, hfront, hback, hsign, -, hdigits, -⟩ := h
  have hblank : isBlank '.' = false := by decide
  intro hdot
  rcases List.mem_append.1 hdot with hdot | hdot
  · rcases List.mem_append.1 hdot with hdot | hdot
    · rw [hfront _ hdot] at hblank
      cases hblank
    · rcases List.mem_append.1 hdot with hdot | hdot
      · rcases hsign with rfl | rfl
        · cases hdot
        · exact absurd hdot (by decide)
      · exact absurd (hdigits _ hdot) (by decide)
  · rw [hback _ hdot] at hblank
    cases hblank

end Text

namespace Version

/-! ### Numeric versions -/

/-- The text of a version is words with dots between them. -/
def Spells (v : Version) (ns : List Nat) : Prop :=
  ∃ parts, v.text.toList = ['.'].intercalate parts ∧ parts ≠ [] ∧
    List.Forall₂ Text.SpellsWord parts ns

/-- **The numbers of a version are the words that it spells.** -/
theorem segments?_eq_some_iff {v : Version} {ns : List Nat} :
    v.segments? = some ns ↔ v.Spells ns := by
  simp only [segments?, mapM_eq_some_iff, Text.word?_stripEnds_iff]
  constructor
  · intro h
    exact ⟨_, (Text.intercalate_splitDots _).symm, Text.splitDots_ne_nil _, h⟩
  · rintro ⟨parts, htext, hne, h⟩
    have hdots : ∀ part ∈ parts, '.' ∉ part :=
      ((List.forall₂_and_left parts ns).1 (h.imp fun _ _ hword => ⟨hword.dot_notMem, hword⟩)).1
    rwa [htext, Text.splitDots_intercalate hne hdots]

/-- Versions without numbers come first. -/
theorem compare_of_spells {v w : Version} {ns : List Nat} (hv : v.Spells ns)
    (hw : ∀ ms, ¬w.Spells ms) : compare v w = .gt := by
  have hnone : w.segments? = none :=
    Option.eq_none_iff_forall_ne_some.2 fun ms hms => hw ms (segments?_eq_some_iff.1 hms)
  simp only [compare, segments?_eq_some_iff.2 hv, hnone]

/-! ### Versions and their numbering -/

/-- **The order of versions is total, and numbering moves up in it.**  Versions are equal in it only
if they are the same, and numeric ones come after all others.  The version after a version comes
after it, unless its second number is the greatest word.  So the next version of a name, within a
category if one is given, comes after all versions that it has there. -/
theorem lawful_and_rising :
    ((∀ v, (compare v v).isLE) ∧
      (∀ v w, (compare v w).isLE → (compare w v).isLE → v = w) ∧
      (∀ u v w, (compare u v).isLE → (compare v w).isLE → (compare u w).isLE) ∧
      (∀ v w, (compare v w).isLE ∨ (compare w v).isLE) ∧
      (∀ v w, compare w v = (compare v w).swap) ∧
      ∀ v w, compare v w = .eq ↔ v = w) ∧
    (∀ v w ns, v.Spells ns → (∀ ms, ¬w.Spells ms) → compare v w = .gt) ∧
    (∀ v, (∀ major rest, ¬v.Spells (major :: Number.maxWord :: rest)) →
      compare v v.nextMinor = .lt) ∧
    ∀ (r : Repository) u name category, r.InMemory →
      (∀ n ∈ r.records, ∀ major rest, ¬n.versionOf.Spells (major :: Number.maxWord :: rest)) →
      ∃ next, Repository.nextVersion u name category r =
          (.ok next, r.after .nextVersion r.records) ∧
        ∀ n ∈ r.records, n.userId = u → n.name = name →
          (category = none ∨ n.category = category) → compare n.versionOf ⟨next⟩ = .lt := by
  have hexhausted {v : Version} (h : ∀ major rest, ¬v.Spells (major :: Number.maxWord :: rest)) :
      ¬v.Exhausted := by
    rintro ⟨major, rest, hsegments⟩
    exact h major rest (segments?_eq_some_iff.1 hsegments)
  refine ⟨⟨fun v => Std.ReflCmp.isLE_rfl, fun v w hvw hwv => ?_,
    fun u v w => Std.TransCmp.isLE_trans, fun v w => ?_, fun v w => Std.OrientedCmp.eq_swap,
    fun v w => Std.LawfulEqCmp.compare_eq_iff_eq⟩, fun _ _ _ => compare_of_spells,
    fun v hv => ?_, fun r u name category hr hrecords => ?_⟩
  · exact Std.LawfulEqCmp.eq_of_compare (Std.OrientedCmp.isLE_antisymm hvw hwv)
  · have hswap : compare w v = (compare v w).swap := Std.OrientedCmp.eq_swap
    rw [hswap]
    cases compare v w with
    | lt | eq => exact .inl rfl
    | gt => exact .inr rfl
  · exact Std.OrientedCmp.lt_of_gt (compare_nextMinor (hexhausted hv))
  · refine ⟨_, Repository.nextVersion_eq (hr.nextFailure _) u name category, ?_⟩
    intro n hn hu hname hcategory
    exact Std.OrientedCmp.lt_of_gt (Repository.compare_nextOf
      (fun k hk => hexhausted (hrecords k hk)) hn
      (Repository.isNamed_iff.2 ⟨⟨hu, hname⟩, hcategory⟩))

/-- A mapping of one name. -/
def numbered (id userId category version : String) : SavedMapping :=
  (SaveRequest.plain "m" category).mapping id userId version ⟨"g", category, none, [], none⟩ ⟨0, 0⟩

/-- A table with numeric versions and others, of two categories and two users. -/
def numberedTable : Repository :=
  { Repository.blank fun n => ⟨n, 0⟩ with records :=
      [numbered "i" "u" "A" " 01.+9", numbered "j" "u" "A" "1.10.3", numbered "k" "u" "A" "2x",
        numbered "l" "u" "B" "5", numbered "n" "w" "A" "7.1"] }

/-- The next version in the category `A` comes after those of that category only. -/
theorem lawful_and_rising_numberedTable :
    numberedTable.InMemory ∧
      (∀ n ∈ numberedTable.records, ∀ major rest,
        ¬n.versionOf.Spells (major :: Number.maxWord :: rest)) ∧
      Repository.nextVersion "u" "m" (some "A") numberedTable =
        (.ok "1.11", numberedTable.after .nextVersion numberedTable.records) ∧
      compare ⟨"1.10.3"⟩ ⟨"1.11"⟩ = .lt := by
  have hmemory : numberedTable.InMemory := fun _ _ => rfl
  have hsegments : ∀ n ∈ numberedTable.records, ∀ ns, n.versionOf.segments? = some ns →
      ns[1]? ≠ some Number.maxWord := by
    decide +kernel
  have hrecords : ∀ n ∈ numberedTable.records, ∀ major rest,
      ¬n.versionOf.Spells (major :: Number.maxWord :: rest) := fun n hn major rest hspells =>
    hsegments n hn _ (segments?_eq_some_iff.2 hspells) rfl
  obtain ⟨next, hnext, hgreater⟩ :=
    lawful_and_rising.2.2.2 numberedTable "u" "m" (some "A") hmemory hrecords
  have hversion : Repository.nextVersion "u" "m" (some "A") numberedTable =
      (.ok "1.11", numberedTable.after .nextVersion numberedTable.records) := rfl
  obtain rfl : "1.11" = next := Except.ok.inj (Prod.ext_iff.1 (hversion.symm.trans hnext)).1
  exact ⟨hmemory, hrecords, hversion,
    hgreater (numbered "j" "u" "A" "1.10.3") (by simp [numberedTable]) rfl rfl (.inr rfl)⟩

end Version
end MappingCanvas
