/-
# Active versions

A group should have at most one active version.  Saving sees to it: it deactivates the versions of
its group.  Activating deactivates the mappings of a name and category instead.  These are not the
versions of a group: a save that is given a category starts no group for it, so a group may have
versions of several categories.  The activation of one of them leaves those of the others active
(`not_oneActive_returning`).

It is the only operation that does harm, and that is the only way in which it does: a group never
has two active versions exactly if every activation finds the active versions of the group in its
own category (`forall_oneActive_iff`).
-/

import MappingCanvas.Proofs.Archive.Runs

namespace MappingCanvas

open Store

/-- No user has two active mappings in one group. -/
def OneActive (ms : List SavedMapping) : Prop :=
  ∀ u g, ms.countP (fun m => inGroup u g m && m.isActive) ≤ 1

/-! ### Active ids -/

/-- The id of an active mapping in a user's group. -/
def ActiveId (ms : List SavedMapping) (u g id : String) : Prop :=
  ∃ m ∈ ms, inGroup u g m = true ∧ m.isActive = true ∧ m.id = id

variable {s : Store} {ms ms' : List SavedMapping} {op : Operation} {u g id : String}

/-- Where ids are unique, a group has one active mapping at most if its active ids are the same. -/
theorem oneActive_iff (hids : (ms.map SavedMapping.id).Nodup) :
    OneActive ms ↔ ∀ u g i j, ActiveId ms u g i → ActiveId ms u g j → i = j := by
  simp only [OneActive, countP_le_one_iff hids, Bool.and_eq_true]
  constructor
  · rintro h u g i j ⟨m, hm, hmgroup, hmactive, rfl⟩ ⟨n, hn, hngroup, hnactive, rfl⟩
    exact h u g m hm n hn ⟨hmgroup, hmactive⟩ ⟨hngroup, hnactive⟩
  · intro h u g m hm n hn ⟨hmgroup, hmactive⟩ ⟨hngroup, hnactive⟩
    exact h u g _ _ ⟨m, hm, hmgroup, hmactive, rfl⟩ ⟨n, hn, hngroup, hnactive, rfl⟩

/-- A change that makes no id active. -/
theorem OneActive.of_activeId (h : OneActive ms) (hids : (ms.map SavedMapping.id).Nodup)
    (hids' : (ms'.map SavedMapping.id).Nodup)
    (hsub : ∀ u g id, ActiveId ms' u g id → ActiveId ms u g id) : OneActive ms' :=
  (oneActive_iff hids').2 fun u g i j hi hj =>
    (oneActive_iff hids).1 h u g i j (hsub u g i hi) (hsub u g j hj)

/-- A record may be added to a group without an active version. -/
theorem OneActive.append {m : SavedMapping} (h : OneActive ms)
    (hvacant : ∀ id, ¬ActiveId ms m.userId m.groupId id) : OneActive (ms ++ [m]) := by
  intro u g
  rw [List.countP_append, List.countP_singleton]
  by_cases hin : (inGroup u g m && m.isActive) = true
  · have hgroup : m.userId = u ∧ m.groupId = g := by
      simp only [inGroup, Bool.and_eq_true, beq_iff_eq] at hin
      exact hin.1
    have hzero : ms.countP (fun m => inGroup u g m && m.isActive) = 0 := by
      refine List.countP_eq_zero.2 fun n hn hactive => ?_
      rw [Bool.and_eq_true, ← hgroup.1, ← hgroup.2] at hactive
      exact hvacant n.id ⟨n, hn, hactive.1, hactive.2, rfl⟩
    rw [hzero, if_pos hin]
  · rw [if_neg hin]
    exact h u g

/-! ### Changes of activity -/

/-- After a deactivation the active ids are those of the other active mappings. -/
theorem activeId_deactivate {p : SavedMapping → Bool} {t : Instant} :
    ActiveId (changeWhere p (·.withActivity false t) ms) u g id ↔
      ∃ m ∈ ms, p m = false ∧ inGroup u g m = true ∧ m.isActive = true ∧ m.id = id := by
  simp only [ActiveId, changeWhere, List.mem_map, exists_exists_and_eq_and]
  refine exists_congr fun m => and_congr_right fun hm => ?_
  cases hp : p m <;> simp [SavedMapping.withActivity]

/-- Deactivating mappings keeps one active mapping in each group at most. -/
theorem OneActive.deactivate (h : OneActive ms) (hids : (ms.map SavedMapping.id).Nodup)
    (p : SavedMapping → Bool) (t : Instant) :
    OneActive (changeWhere p (·.withActivity false t) ms) := by
  refine h.of_activeId hids ?_ fun u g id => ?_
  · rwa [SavedMapping.ids_withActivity]
  · rw [activeId_deactivate]
    exact fun ⟨n, hn, _, hactive⟩ => ⟨n, hn, hactive⟩

/-- After an activation there are the ids that were active, and one more. -/
theorem activeId_activate (hids : (ms.map SavedMapping.id).Nodup) {m : SavedMapping} (hm : m ∈ ms)
    {t : Instant} :
    ActiveId (changeWhere (fun n => n.id == m.id) (·.withActivity true t) ms) u g id ↔
      ActiveId ms u g id ∨ inGroup u g m = true ∧ id = m.id := by
  simp only [ActiveId, changeWhere, List.mem_map, exists_exists_and_eq_and]
  constructor
  · rintro ⟨n, hn, hactive⟩
    by_cases hid : n.id = m.id
    · obtain rfl := List.inj_on_of_nodup_map hids hn hm hid
      rw [if_pos (beq_self_eq_true n.id)] at hactive
      exact .inr ⟨hactive.1, hactive.2.2.symm⟩
    · rw [if_neg (by simpa using hid)] at hactive
      exact .inl ⟨n, hn, hactive⟩
  · rintro (⟨n, hn, hgroup, hactive, rfl⟩ | ⟨hgroup, rfl⟩)
    · refine ⟨n, hn, ?_⟩
      split
      · exact ⟨hgroup, rfl, rfl⟩
      · exact ⟨hgroup, hactive, rfl⟩
    · refine ⟨m, hm, ?_⟩
      rw [if_pos (beq_self_eq_true m.id)]
      exact ⟨hgroup, rfl, rfl⟩

/-- An activation does no harm where no other version of the group is active. -/
theorem oneActive_activate_iff (h : OneActive ms) (hids : (ms.map SavedMapping.id).Nodup)
    {m : SavedMapping} (hm : m ∈ ms) {t : Instant} :
    OneActive (changeWhere (fun n => n.id == m.id) (·.withActivity true t) ms) ↔
      ∀ id, ActiveId ms m.userId m.groupId id → id = m.id := by
  have hself : inGroup m.userId m.groupId m = true := by simp [inGroup]
  have hgroup {u g} (hin : inGroup u g m = true) : m.userId = u ∧ m.groupId = g := by
    simpa [inGroup] using hin
  rw [oneActive_iff (by rwa [SavedMapping.ids_withActivity])]
  simp only [activeId_activate hids hm]
  constructor
  · exact fun hone id hid => hone _ _ id m.id (.inl hid) (.inr ⟨hself, rfl⟩)
  · rintro hvacant u g i j (hi | ⟨hin, rfl⟩) (hj | ⟨hin', rfl⟩)
    · exact (oneActive_iff hids).1 h u g i j hi hj
    · obtain ⟨rfl, rfl⟩ := hgroup hin'
      exact hvacant i hi
    · obtain ⟨rfl, rfl⟩ := hgroup hin
      exact (hvacant j hj).symm
    · rfl

/-! ### Activations -/

namespace Store.Operation

/-- An activation gives the name and the category that the record of its id has. -/
def IsCurrent : Operation → List SavedMapping → Prop
  | activate id name category, ms => ∀ m ∈ ms, m.id = id → m.name = name ∧ m.category = category
  | _, _ => True

/-- An activation finds the active versions of the group in its own category. -/
def Covers (s : Store) : Operation → List SavedMapping → Prop
  | activate id _ category, ms => ∀ m, s.Owned ms id m →
      ∀ n ∈ ms, inGroup m.userId m.groupId n = true → n.isActive = true → n.category = category
  | _, _ => True

end Store.Operation

/-- A deactivation by name and category deactivates a group except for one id exactly if the active
versions of the group are in that category. -/
theorem deactivate_title_iff (hms : Coherent ms) {m : SavedMapping} (hm : m ∈ ms) {t : Instant} :
    (∀ id, ActiveId (changeWhere (isTitled m.userId m.name m.category) (·.withActivity false t) ms)
        m.userId m.groupId id → id = m.id) ↔
      ∀ n ∈ ms, inGroup m.userId m.groupId n = true → n.isActive = true →
        n.category = m.category := by
  simp only [activeId_deactivate]
  constructor
  · intro h n hn hgroup hactive
    by_contra hcategory
    have huntitled : isTitled m.userId m.name m.category n = false := by simp [isTitled, hcategory]
    have hid : n.id = m.id := h n.id ⟨n, hn, huntitled, hgroup, hactive, rfl⟩
    exact hcategory (List.inj_on_of_nodup_map hms.nodup_ids hn hm hid ▸ rfl)
  · rintro h _ ⟨n, hn, huntitled, hgroup, hactive, rfl⟩
    have hin : n.userId = m.userId ∧ n.groupId = m.groupId := by simpa [inGroup] using hgroup
    have hname : n.name = m.name := (hms.title_eq n hn m hm hin.2).2
    simp [isTitled, hin.1, hname, h n hn hgroup hactive] at huntitled

/-! ### Operations -/

/-- **A save keeps one active mapping in each group at most**: it deactivates those of the group
before it adds its own. -/
theorem Store.Saved.oneActive {request : SaveRequest} {freshId freshGroup : String}
    {m : SavedMapping} (h : Saved s request freshId freshGroup ms m ms')
    (hids : (ms.map SavedMapping.id).Nodup) (hone : OneActive ms) : OneActive ms' := by
  obtain ⟨-, -, -, -⟩ := h
  refine (hone.deactivate hids _ _).append fun id => ?_
  rw [activeId_deactivate]
  rintro ⟨n, -, hkept, hgroup, hactive, -⟩
  cases hkept.symm.trans (Bool.and_eq_true_iff.2 ⟨hgroup, hactive⟩)

/-- **An operation keeps a group from having two active versions, unless it activates a version
beside one of another category.** -/
theorem Store.Change.oneActive_iff (h : Change s ms op ms') (hms : Coherent ms)
    (hfresh : op.Fresh ms) (hcurrent : op.IsCurrent ms) (hone : OneActive ms) :
    OneActive ms' ↔ op.Covers s ms := by
  have hids' : (ms'.map SavedMapping.id).Nodup := (h.coherent hms hfresh).nodup_ids
  cases h with
  | kept hmiss =>
    refine iff_of_true hone ?_
    cases op with
    | activate id name category => exact fun m hm => absurd hm (hmiss id name category rfl m)
    | _ => trivial
  | saved h => exact iff_of_true (h.oneActive hms.nodup_ids hone) trivial
  | @activated id name category m t t' hm =>
    obtain ⟨rfl, rfl⟩ := hcurrent m hm.mem hm.id_eq
    obtain rfl := hm.id_eq
    have hcovers : (Operation.activate m.id m.name m.category).Covers s ms ↔ ∀ n ∈ ms,
        inGroup m.userId m.groupId n = true → n.isActive = true → n.category = m.category := by
      refine ⟨fun h => h m hm, fun h k hk => ?_⟩
      rwa [List.inj_on_of_nodup_map hms.nodup_ids hk.mem hm.mem hk.id_eq]
    have hm' : m.withActivity false t ∈
        changeWhere (isTitled m.userId m.name m.category) (·.withActivity false t) ms :=
      List.mem_map.2 ⟨m, hm.mem, if_pos (by simp [isTitled])⟩
    rw [hcovers, ← deactivate_title_iff hms hm.mem (t := t)]
    exact oneActive_activate_iff (hone.deactivate hms.nodup_ids _ _)
      (hms.withActivity _ false t).nodup_ids hm'
  | copied hm hfree =>
    refine iff_of_true (hone.append fun id hid => ?_) trivial
    obtain ⟨n, hn, hgroup, -⟩ := hid
    simp only [inGroup, Bool.and_eq_true, beq_iff_eq] at hgroup
    exact (hfresh.ne_drawn rfl).2 n hn hgroup.2
  | updated =>
    refine iff_of_true (hone.of_activeId hms.nodup_ids hids' ?_) trivial
    rintro u g id ⟨n, hn, hactive⟩
    obtain ⟨k, hk, ⟨-, rfl⟩ | ⟨-, rfl⟩⟩ := exists_of_mem_changeWhere hn
    · exact ⟨k, hk, hactive⟩
    · exact ⟨n, hk, hactive⟩
  | deleted =>
    refine iff_of_true (hone.of_activeId hms.nodup_ids hids' ?_) trivial
    rintro u g id ⟨n, hn, hactive⟩
    exact ⟨n, (List.mem_filter.1 hn).1, hactive⟩

/-! ### Runs -/

/-- **After every part of a run one mapping of each group is active at most, exactly if each
activation on the way finds the active versions of its group in its own category.** -/
theorem Reached.along_covers_iff {ids : List String} {r : Repository} {run : List Request}
    (h : Reached ids r) (hone : OneActive r.records)
    (hdrawn : (ids ++ Request.drawn run).Nodup)
    (hcurrent : Request.Along (fun q => q.operation.IsCurrent) run r) :
    (∀ k, OneActive (Request.performAll (run.take k) r).records) ↔
      Request.Along (fun q => q.operation.Covers q.store) run r := by
  induction run generalizing ids r with
  | nil => exact iff_of_true (fun k => by rwa [List.take_nil]) trivial
  | cons q run ih =>
    rw [Request.drawn, List.flatMap_cons, ← List.append_assoc] at hdrawn
    have hfirst := (List.nodup_append.1 hdrawn).1
    have hstep : OneActive (q.perform r).records ↔ q.operation.Covers q.store r.records :=
      (h.change hfirst).2.oneActive_iff h.coherent (h.fresh hfirst) hcurrent.1 hone
    constructor
    · intro hall
      have hq : OneActive (q.perform r).records := hall 1
      exact ⟨hstep.1 hq, (ih (h.perform hfirst) hq hdrawn hcurrent.2).1 fun k => hall (k + 1)⟩
    · rintro ⟨hq, hrun⟩ k
      cases k with
      | zero => exact hone
      | succ k => exact (ih (h.perform hfirst) (hstep.2 hq) hdrawn hcurrent.2).2 hrun k

/-- **When a group never has two active versions.**  In a run whose activations give the name and
the category of the record that they are about, no state has two active versions in a group if and
only if no activation finds one of another category in the group. -/
theorem forall_oneActive_iff (clock : Nat → Instant) (run : List Request)
    (hdrawn : (Request.drawn run).Nodup)
    (hcurrent : Request.Along (fun q => q.operation.IsCurrent) run (.blank clock)) :
    (∀ k, OneActive (Request.performAll (run.take k) (.blank clock)).records) ↔
      Request.Along (fun q => q.operation.Covers q.store) run (.blank clock) :=
  (Reached.blank clock).along_covers_iff (fun _ _ => Nat.zero_le 1) hdrawn hcurrent

namespace Request

/-- Two versions of a mapping, the second in the category `category`, and a return to the first. -/
def returning (category : String) : List Request :=
  [saving "u" "m" (some "A") "i" "g", saving "u" "m" (some category) "j" "h",
    ⟨⟨some "u", .default⟩, .activate "i" "m" (some "A")⟩]

end Request

/-- Within one category, the return leaves one version active. -/
theorem forall_oneActive_returning :
    (Request.drawn (Request.returning "A")).Nodup ∧
      Request.Along (fun q => q.operation.IsCurrent) (Request.returning "A")
        (.blank fun _ => ⟨0, 0⟩) ∧
      ∀ k, OneActive (Request.performAll ((Request.returning "A").take k)
        (.blank fun _ => ⟨0, 0⟩)).records := by
  have hdrawn : (Request.drawn (Request.returning "A")).Nodup := by decide +kernel
  have hcategory : ∀ n ∈ (Request.performAll ((Request.returning "A").take 2)
      (.blank fun _ => ⟨0, 0⟩)).records, n.name = "m" ∧ n.category = some "A" := by decide +kernel
  have hcurrent : Request.Along (fun q => q.operation.IsCurrent) (Request.returning "A")
      (.blank fun _ => ⟨0, 0⟩) := ⟨trivial, trivial, fun n hn _ => hcategory n hn, trivial⟩
  refine ⟨hdrawn, hcurrent, (forall_oneActive_iff _ _ hdrawn hcurrent).2 ?_⟩
  exact ⟨trivial, trivial, fun _ _ n hn _ _ => (hcategory n hn).2, trivial⟩

/-- **The return to a version in another category leaves two versions active.** -/
theorem not_oneActive_returning :
    (Request.drawn (Request.returning "B")).Nodup ∧
      Request.Along (fun q => q.operation.IsCurrent) (Request.returning "B")
        (.blank fun _ => ⟨0, 0⟩) ∧
      ¬OneActive (Request.performAll (Request.returning "B") (.blank fun _ => ⟨0, 0⟩)).records := by
  have hcurrent : ∀ n ∈ (Request.performAll ((Request.returning "B").take 2)
      (.blank fun _ => ⟨0, 0⟩)).records, n.id = "i" → n.name = "m" ∧ n.category = some "A" := by
    decide +kernel
  refine ⟨by decide +kernel, ⟨trivial, trivial, hcurrent, trivial⟩, fun h => ?_⟩
  exact absurd (h "u" "g") (by decide +kernel)

end MappingCanvas
