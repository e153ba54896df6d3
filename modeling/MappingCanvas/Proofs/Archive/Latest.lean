/-
# The latest mappings

The list of the latest mappings has one record of each of the user's groups (`Overview`).  Records
of a group are compared by their activity first and then by their versions (`standing`), and the
last of the greatest stands for the group; so an active record does if there is one, and no version
of the same activity is higher.  Times are totally ordered, and so is the list by them.

Nothing is asked of the table: several records of a group may be active, and records may have equal
times or equal versions (`latest_overview`).
-/

import MappingCanvas.Proofs.Archive.Runs
import MappingCanvas.Proofs.Archive.Version

namespace MappingCanvas

/-! ### The order of time -/

namespace Instant

variable {a b c : Instant}

/-- Instants are ordered by seconds and then by nanoseconds. -/
theorem le_iff : a.le b = true ↔
    a.seconds < b.seconds ∨ a.seconds = b.seconds ∧ a.nanos ≤ b.nanos := by
  simp [le]

theorem le_refl (a : Instant) : a.le a = true := le_iff.2 (.inr ⟨rfl, Nat.le_refl _⟩)

theorem le_trans (hab : a.le b = true) (hbc : b.le c = true) : a.le c = true := by
  rw [le_iff] at *
  omega

theorem le_total (a b : Instant) : a.le b = true ∨ b.le a = true := by
  rw [le_iff, le_iff]
  omega

/-- Instants neither of which is before the other are the same. -/
theorem le_antisymm (hab : a.le b = true) (hba : b.le a = true) : a = b := by
  rw [le_iff] at hab hba
  have hseconds : a.seconds = b.seconds := by omega
  have hnanos : a.nanos = b.nanos := by omega
  show Instant.mk a.seconds a.nanos = Instant.mk b.seconds b.nanos
  rw [hseconds, hnanos]

end Instant

namespace Store

variable {s : Store} {u : String} {ms : List SavedMapping} {m n : SavedMapping}

/-! ### The record that stands for a group -/

/-- Records by their activity, then by their versions. -/
def standing : SavedMapping → SavedMapping → Ordering :=
  compareLex (compareOn SavedMapping.isActive)
    (compareLex (compareOn fun m => m.versionOf.segments?) (compareOn SavedMapping.version))

instance : Std.TransCmp standing := inferInstanceAs (Std.TransCmp (compareLex _ _))

/-- The standing of two records is decided by their activity and then by their versions. -/
theorem standing_eq : standing m n =
    (compare m.isActive n.isActive).then (Version.compare m.versionOf n.versionOf) := by
  rw [Version.compare_eq]
  rfl

/-- A record represents another one if its standing is no lower. -/
theorem represents_eq (m n : SavedMapping) : represents m n = (standing m n).isGE := by
  rw [standing_eq, represents]
  cases m.isActive <;> cases n.isActive <;> rfl

/-- A record stands for another one's group if it is active whenever the other one is, and its
version is no lower when both or neither are. -/
theorem represents_iff : represents m n = true ↔ (n.isActive = true → m.isActive = true) ∧
    (n.isActive = m.isActive → Version.compare n.versionOf m.versionOf ≠ .gt) := by
  have hge : m.versionOf.ge n.versionOf = true ↔
      Version.compare n.versionOf m.versionOf ≠ .gt := by
    have hswap : Version.compare n.versionOf m.versionOf =
        (Version.compare m.versionOf n.versionOf).swap := Std.OrientedCmp.eq_swap
    rw [Version.ge, hswap]
    cases Version.compare m.versionOf n.versionOf <;> decide
  rw [represents]
  cases hm : m.isActive <;> cases hn : n.isActive <;> simp [hge]

/-- **A record of a group stands for it against all records of the group.** -/
theorem representative?_cases (ms : List SavedMapping) : ms = [] ∧ representative? ms = none ∨
    ∃ m ∈ ms, representative? ms = some m ∧ ∀ n ∈ ms, represents m n = true := by
  rcases ms with _ | ⟨m, ms⟩
  · exact .inl ⟨rfl, rfl⟩
  · have hlater : (fun best n => if represents n best then n else best) = later standing := by
      funext best n
      rw [represents_eq]
      rfl
    refine .inr ⟨ms.foldl (later standing) m, foldl_later_mem m ms, ?_, fun n hn => ?_⟩
    · rw [representative?, hlater]
    · rw [represents_eq]
      exact isGE_foldl_later hn

/-- What represents some records is one of them and represents each. -/
theorem of_representative?_eq_some (h : representative? ms = some m) :
    m ∈ ms ∧ ∀ n ∈ ms, represents m n = true := by
  obtain ⟨-, hnone⟩ | ⟨k, hk, hsome, hall⟩ := representative?_cases ms
  · cases h.symm.trans hnone
  · obtain rfl := Option.some.inj (h.symm.trans hsome)
    exact ⟨hk, hall⟩

/-! ### The order of the list -/

/-- The last updated one is listed first, and of those updated at the same time the one with the
smaller id. -/
theorem listedBefore_iff : listedBefore m n = true ↔
    n.updatedAt.le m.updatedAt = true ∧ (m.updatedAt = n.updatedAt → m.id ≤ n.id) := by
  rw [listedBefore]
  by_cases h : m.updatedAt = n.updatedAt
  · simp [h, Instant.le_refl]
  · simp [h]

/-- The order of the list is transitive: where the first and the last were updated at one time, so
was the one in between. -/
theorem listedBefore_trans (k m n : SavedMapping) (hkm : listedBefore k m = true)
    (hmn : listedBefore m n = true) : listedBefore k n = true := by
  rw [listedBefore_iff] at *
  refine ⟨Instant.le_trans hmn.1 hkm.1, fun h => ?_⟩
  have hkm' : k.updatedAt = m.updatedAt := Instant.le_antisymm (h ▸ hmn.1) hkm.1
  exact String.le_trans (hkm.2 hkm') (hmn.2 (hkm'.symm.trans h))

/-- Any two records can be listed. -/
theorem listedBefore_total (m n : SavedMapping) :
    (listedBefore m n || listedBefore n m) = true := by
  rw [Bool.or_eq_true, listedBefore_iff, listedBefore_iff]
  by_cases h : m.updatedAt = n.updatedAt
  · rw [h]
    exact (String.le_total m.id n.id).imp (fun hid => ⟨Instant.le_refl _, fun _ => hid⟩)
      fun hid => ⟨Instant.le_refl _, fun _ => hid⟩
  · exact (Instant.le_total n.updatedAt m.updatedAt).imp (fun hle => ⟨hle, fun heq => absurd heq h⟩)
      fun hle => ⟨hle, fun heq => absurd heq.symm h⟩

/-! ### One record of each group -/

/-- The records that stand for the groups, in the order in which the groups come up. -/
def chosen (ms : List SavedMapping) : List SavedMapping :=
  (ms.map SavedMapping.groupId).eraseDups.filterMap fun g =>
    representative? (ms.filter fun m => m.groupId == g)

/-- The list has what was chosen, in another order. -/
theorem representatives_perm (ms : List SavedMapping) : (representatives ms).Perm (chosen ms) :=
  List.mergeSort_perm (chosen ms) listedBefore

/-- What is listed stands for its group. -/
theorem stands_of_mem_representatives (hm : m ∈ representatives ms) :
    m ∈ ms ∧ ∀ n ∈ ms, n.groupId = m.groupId → represents m n = true := by
  rw [(representatives_perm ms).mem_iff, chosen, List.mem_filterMap] at hm
  obtain ⟨g, -, hg⟩ := hm
  obtain ⟨hkept, hall⟩ := of_representative?_eq_some hg
  obtain ⟨hms, hgroup⟩ := List.mem_filter.1 hkept
  obtain rfl := beq_iff_eq.1 hgroup
  exact ⟨hms, fun n hn heq => hall n (List.mem_filter.2 ⟨hn, beq_iff_eq.2 heq⟩)⟩

/-- **Each group has one representative.** -/
theorem groups_chosen (ms : List SavedMapping) :
    (chosen ms).map SavedMapping.groupId = (ms.map SavedMapping.groupId).eraseDups := by
  refine map_filterMap_key fun g hg => ?_
  obtain ⟨n, hn, hgroup⟩ := List.mem_map.1 (List.mem_eraseDups.1 hg)
  have hn : n ∈ ms.filter fun m => m.groupId == g := List.mem_filter.2 ⟨hn, beq_iff_eq.2 hgroup⟩
  obtain ⟨hnil, -⟩ | ⟨m, hm, hsome, -⟩ :=
    representative?_cases (ms.filter fun m => m.groupId == g)
  · rw [hnil] at hn
    cases hn
  · exact ⟨m, hsome, beq_iff_eq.1 (List.mem_filter.1 hm).2⟩

/-- Each group is listed once. -/
theorem groups_representatives (ms : List SavedMapping) :
    ((representatives ms).map SavedMapping.groupId).Perm
      (ms.map SavedMapping.groupId).eraseDups :=
  groups_chosen ms ▸ (representatives_perm ms).map SavedMapping.groupId

/-- **The list is sorted by the time of the last update**, the newest first. -/
theorem newestFirst_representatives (ms : List SavedMapping) :
    (representatives ms).Pairwise fun m n => n.updatedAt.le m.updatedAt = true := by
  have hsorted : (representatives ms).Pairwise fun m n => listedBefore m n = true :=
    List.pairwise_mergeSort listedBefore_trans listedBefore_total (chosen ms)
  exact hsorted.imp fun h => (listedBefore_iff.1 h).1

/-! ### The list of a user -/

/-- The list has one record of each of the user's groups: an active one if there is one, and of
those with the same activity one whose version none is above.  The last updated one comes first. -/
structure Overview (u : String) (ms listed : List SavedMapping) : Prop where
  owned : ∀ m ∈ listed, m ∈ ms ∧ m.userId = u
  distinct : (listed.map SavedMapping.groupId).Nodup
  complete : ∀ n ∈ ms, n.userId = u → ∃ m ∈ listed, m.groupId = n.groupId
  active : ∀ m ∈ listed, m.isActive = true ↔
    ∃ n ∈ ms, n.userId = u ∧ n.groupId = m.groupId ∧ n.isActive = true
  highest : ∀ m ∈ listed, ∀ n ∈ ms, n.userId = u → n.groupId = m.groupId →
    n.isActive = m.isActive → Version.compare n.versionOf m.versionOf ≠ .gt
  newestFirst : listed.Pairwise fun m n => n.updatedAt.le m.updatedAt = true

/-- What is listed of a user's records is an overview of the table. -/
theorem overview_representatives (u : String) (ms : List SavedMapping) :
    Overview u ms (representatives (ms.filter fun m => m.userId == u)) := by
  have hmem {n : SavedMapping} :
      n ∈ ms.filter (fun m => m.userId == u) ↔ n ∈ ms ∧ n.userId = u := by
    rw [List.mem_filter, beq_iff_eq]
  generalize ms.filter (fun m => m.userId == u) = part at hmem
  have hgroups := groups_representatives part
  have howned : ∀ m ∈ representatives part, m ∈ ms ∧ m.userId = u := fun m hm =>
    hmem.1 (stands_of_mem_representatives hm).1
  have hstands : ∀ m ∈ representatives part, ∀ n ∈ ms, n.userId = u → n.groupId = m.groupId →
      represents m n = true := fun m hm n hn hu =>
    (stands_of_mem_representatives hm).2 n (hmem.2 ⟨hn, hu⟩)
  constructor
  · exact howned
  · exact hgroups.nodup_iff.2 (nodup_eraseDups _)
  · intro n hn hu
    exact List.mem_map.1 (hgroups.mem_iff.2
      (List.mem_eraseDups.2 (List.mem_map_of_mem (hmem.2 ⟨hn, hu⟩))))
  · intro m hm
    constructor
    · intro hactive
      exact ⟨m, (howned m hm).1, (howned m hm).2, rfl, hactive⟩
    · rintro ⟨n, hn, hu, hgroup, hactive⟩
      exact (represents_iff.1 (hstands m hm n hn hu hgroup)).1 hactive
  · intro m hm n hn hu hgroup
    exact (represents_iff.1 (hstands m hm n hn hu hgroup)).2
  · exact newestFirst_representatives part

/-- The filter of a user accepts the mappings of the user. -/
theorem accepts_user : (MappingFilter.ofUser u).accepts m = (m.userId == u) := by
  rw [Bool.eq_iff_iff, MappingFilter.accepts_iff]
  simp [MappingFilter.ofUser]

/-- In memory the query answers with the representatives of the user's groups and leaves the records
as they are. -/
theorem latest_eq {r : Repository} (hu : s.userId = some u) (hr : r.InMemory) :
    s.latest r = (.ok (representatives (r.records.filter fun m => m.userId == u)),
      r.after .select r.records) := by
  have haccepts : (MappingFilter.ofUser u).accepts = fun m => m.userId == u :=
    funext fun _ => accepts_user
  rw [← haccepts, latest, user, hu]
  simp only [bind_apply, pure_apply, during, calling,
    Repository.select_eq (hr.nextFailure .select)]

/-- **The latest mappings of a user are an overview of the table.** -/
theorem latest_overview {r : Repository} (hu : s.userId = some u) (hr : r.InMemory) :
    ∃ listed, s.latest r = (.ok listed, r.after .select r.records) ∧
      Overview u r.records listed :=
  ⟨_, latest_eq hu hr, overview_representatives u r.records⟩

/-- A record of a user in a group. -/
def standingRecord (id u g version : String) (isActive : Bool) (t : Int) : SavedMapping :=
  ((SaveRequest.plain "m" none).mapping id u version (.ofFresh (.plain "m" none) g)
    ⟨0, 0⟩).withActivity isActive ⟨t, 0⟩

/-- A table with two active records in one group and none in another, with equal versions and equal
times, and with a higher version of another user. -/
def crowdedTable : Repository :=
  { Repository.blank fun n => ⟨n, 0⟩ with records :=
      [standingRecord "i" "u" "g" "1.9" true 5, standingRecord "j" "u" "g" "1.10" true 5,
        standingRecord "k" "u" "g" "2.0" false 7, standingRecord "l" "u" "h" "1.0" false 5,
        standingRecord "n" "u" "h" "1.0" false 6, standingRecord "o" "u" "h" "beta" false 8,
        standingRecord "p" "w" "g" "3.0" true 9] }

/-- Of the crowded table the user sees two representatives: a choice between two active records, and
an inactive one of a group that has no other. -/
theorem representatives_crowdedTable :
    representatives (crowdedTable.records.filter fun m => m.userId == "u") =
      [standingRecord "n" "u" "h" "1.0" false 6, standingRecord "j" "u" "g" "1.10" true 5] := by
  have hchosen : chosen (crowdedTable.records.filter fun m => m.userId == "u") =
      [standingRecord "j" "u" "g" "1.10" true 5, standingRecord "n" "u" "h" "1.0" false 6] := rfl
  have hbefore : listedBefore (standingRecord "j" "u" "g" "1.10" true 5)
      (standingRecord "n" "u" "h" "1.0" false 6) = false := rfl
  show (chosen _).mergeSort listedBefore = _
  rw [hchosen]
  simp [List.mergeSort, hbefore]

/-- Each of the user's two groups is listed once, the one without an active record first. -/
theorem latest_overview_crowdedTable :
    crowdedTable.InMemory ∧
      (Store.mk (some "u") .default).latest crowdedTable =
        (.ok [standingRecord "n" "u" "h" "1.0" false 6, standingRecord "j" "u" "g" "1.10" true 5],
          crowdedTable.after .select crowdedTable.records) ∧
      Overview "u" crowdedTable.records
        [standingRecord "n" "u" "h" "1.0" false 6, standingRecord "j" "u" "g" "1.10" true 5] := by
  have hmemory : crowdedTable.InMemory := fun _ _ => rfl
  have hlatest := latest_eq (s := .mk (some "u") .default) rfl hmemory
  obtain ⟨listed, hlisted, hoverview⟩ :=
    latest_overview (s := .mk (some "u") .default) rfl hmemory
  rw [representatives_crowdedTable] at hlatest
  obtain rfl := Except.ok.inj (Prod.ext_iff.1 (hlatest.symm.trans hlisted)).1
  exact ⟨hmemory, hlatest, hoverview⟩

end Store
end MappingCanvas
