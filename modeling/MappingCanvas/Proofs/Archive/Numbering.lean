/-
# Version numbers

A save without a version of its own gets the number after the latest version of its name and its
category.  Since the records are coherent, the mappings of its name are those of its group.  So the
number is above every number that the group has in that category, and above every number of the
group if the mapping has no category (`compare_version_save`).

Numbers of other categories are not looked at, although they are in the same group: the first
version of a second category starts at `1.0` again (`save_repeats_version`).
-/

import MappingCanvas.Proofs.Archive.Runs
import MappingCanvas.Proofs.Archive.Version

namespace MappingCanvas

variable {ms ms' : List SavedMapping} {m n : SavedMapping}

namespace Repository

variable {u name : String} {category : Option String}

/-- A mapping is one of a user's name if user and name are the same, and the category unless none is
given. -/
theorem isNamed_iff : isNamed u name category m = true ↔
    (m.userId = u ∧ m.name = name) ∧ (category = none ∨ m.category = category) := by
  cases category <;> simp [isNamed]

/-- **The next version of a name and category comes after all versions that there are.** -/
theorem compare_nextOf (hexhausted : ∀ n ∈ ms, ¬n.versionOf.Exhausted) (hn : n ∈ ms)
    (hnamed : isNamed u name category n = true) :
    Version.compare (nextOf ms u name category) n.versionOf = .gt := by
  have hmem : n.versionOf ∈
      (ms.filter (isNamed u name category)).map SavedMapping.versionOf :=
    List.mem_map_of_mem (List.mem_filter.2 ⟨hn, hnamed⟩)
  rcases Version.max?_cases ((ms.filter (isNamed u name category)).map SavedMapping.versionOf) with
    ⟨hnil, -⟩ | ⟨latest, hlatest, hmax, hge⟩
  · exact absurd (hnil ▸ hmem) List.not_mem_nil
  · obtain ⟨k, hk, rfl⟩ := List.mem_map.1 hlatest
    have hnext : nextOf ms u name category = k.versionOf.nextMinor := by rw [nextOf, hmax]
    rw [hnext]
    exact Std.TransCmp.gt_of_gt_of_isGE
      (Version.compare_nextMinor (hexhausted k (List.mem_filter.1 hk).1)) (hge _ hmem)

end Repository

/-- What a save adds is among the records afterwards. -/
theorem Store.Saved.mem {s : Store} {request : SaveRequest} {freshId freshGroup : String}
    (h : Store.Saved s request freshId freshGroup ms m ms') : m ∈ ms' := by
  cases h
  exact List.mem_append_right _ List.mem_cons_self

/-- The version that a save draws is above all those of the group, in the category of the
mapping. -/
theorem Store.Saved.compare_version {s : Store} {request : SaveRequest}
    {freshId freshGroup : String} (h : Store.Saved s request freshId freshGroup ms m ms')
    (hms : Coherent ms) (hfresh : (Store.Operation.save request freshId freshGroup).Fresh ms)
    (hexhausted : ∀ n ∈ ms, ¬n.versionOf.Exhausted) (hversion : request.version = none)
    (hn : n ∈ ms) (hgroup : n.groupId = m.groupId)
    (hcategory : m.category = none ∨ n.category = m.category) :
    Version.compare m.versionOf n.versionOf = .gt := by
  obtain ⟨-, -, hbase, hnumber⟩ := h
  rw [hversion, Option.getD_none] at hnumber
  have hnamed := (hbase.mem_group_iff hms (hfresh.ne_drawn rfl).2 hn).2 hgroup
  have hnext := Repository.compare_nextOf hexhausted hn
    (Repository.isNamed_iff.2 ⟨hnamed, hcategory⟩)
  subst hnumber
  exact hnext

/-- **A number that a save draws has not been used in the group, in the category of the mapping.**
It is above all those that have, whatever was done before; without a category, it is above all the
numbers of the group. -/
theorem compare_version_save (clock : Nat → Instant) (run : List Request) {r : Repository}
    (hrun : r = Request.performAll run (.blank clock)) (s : Store) (request : SaveRequest)
    (freshId freshGroup : String)
    (hdrawn : (Request.drawn run ++ [freshId, freshGroup]).Nodup)
    (hexhausted : ∀ n ∈ r.records, ¬n.versionOf.Exhausted) (hversion : request.version = none)
    (hsave : (s.save request freshId freshGroup r).1 = .ok m) :
    m ∈ (s.save request freshId freshGroup r).2.records ∧
      ∀ n ∈ r.records, n.groupId = m.groupId → m.category = none ∨ n.category = m.category →
        Version.compare m.versionOf n.versionOf = .gt := by
  subst hrun
  have hreached := (Reached.blank clock).performAll (List.nodup_append.1 hdrawn).1
  have hfresh : (Store.Operation.save request freshId freshGroup).Fresh
      (Request.performAll run (.blank clock)).records := hreached.fresh hdrawn
  obtain ⟨⟨e, hrefused⟩, -⟩ | ⟨k, hk, hsaved⟩ :=
    (Store.save_saved (hfresh.ne_drawn rfl).1 _ hreached.inMemory rfl).2
  · cases hsave.symm.trans hrefused
  · obtain rfl : k = m := Except.ok.inj (hk.symm.trans hsave)
    exact ⟨hsaved.mem,
      fun n hn => hsaved.compare_version hreached.coherent hfresh hexhausted hversion hn⟩

/-! ### A second category -/

/-- The first version of a mapping is saved, in the category `A`. -/
def beginning : List Request := [.saving "u" "m" (some "A") "i" "g"]

/-- The table with the first version. -/
def begun : Repository := Request.performAll beginning (.blank fun _ => ⟨0, 0⟩)

/-- The version that the same user saves next. -/
def followed (category version : String) : SavedMapping :=
  (SaveRequest.plain "m" category).mapping "j" "u" version ⟨"g", category, none, [], none⟩ ⟨0, 0⟩

/-- In the sample table no version has used up its numbers. -/
theorem not_exhausted_begun : ∀ n ∈ begun.records, ¬n.versionOf.Exhausted := by
  have hnumbers : ∀ n ∈ begun.records, n.versionOf.segments? = some [1, 0] := by decide +kernel
  rintro n hn ⟨major, rest, hsegments⟩
  rw [hnumbers n hn] at hsegments
  cases hsegments

/-- In the same category, the next version comes after the first. -/
theorem compare_version_save_followed :
    ((Store.mk (some "u") .default).save (.plain "m" "A") "j" "h" begun).1 =
        .ok (followed "A" "1.1") ∧
      ∀ n ∈ begun.records, n.groupId = "g" → n.category = some "A" →
        Version.compare ⟨"1.1"⟩ n.versionOf = .gt := by
  have hsave : ((Store.mk (some "u") .default).save (.plain "m" "A") "j" "h" begun).1 =
      .ok (followed "A" "1.1") := rfl
  refine ⟨hsave, fun n hn hgroup hcategory => ?_⟩
  exact (compare_version_save _ beginning rfl _ _ _ _ (by decide +kernel) not_exhausted_begun rfl
    hsave).2 n hn hgroup (.inr hcategory)

/-- **In another category, the same number is used again**, although the group is the same. -/
theorem save_repeats_version :
    (Request.drawn beginning ++ ["j", "h"]).Nodup ∧ (∀ n ∈ begun.records, ¬n.versionOf.Exhausted) ∧
      ((Store.mk (some "u") .default).save (.plain "m" "B") "j" "h" begun).1 =
        .ok (followed "B" "1.0") ∧
      ∃ n ∈ begun.records, n.groupId = (followed "B" "1.0").groupId ∧
        Version.compare (followed "B" "1.0").versionOf n.versionOf = .eq := by
  refine ⟨by decide +kernel, not_exhausted_begun, rfl, ?_⟩
  decide +kernel

end MappingCanvas
