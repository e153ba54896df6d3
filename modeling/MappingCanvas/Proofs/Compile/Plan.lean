/-
# What a plan lists

The steps of a plan are the steps that the run has taken, in that order, and the steps left out
are reported once, in canvas order.  `plan_exact` states what this comes to in terms of the canvas
alone: which steps are planned and in which order, what their inputs are, and what is reported.
-/

import MappingCanvas.Proofs.Compile.Schedule

namespace MappingCanvas
namespace Plan

variable {c : Canvas}

/-! ### Inputs -/

/-- One list holds what another one holds, each entry once, in the order of first occurrence. -/
structure FirstOccurrences (xs ys : List String) : Prop where
  mem_iff : ∀ x, x ∈ ys ↔ x ∈ xs
  ordered : ys.Pairwise fun x y => xs.idxOf x < xs.idxOf y

/-- In a selection of a list the order of what is selected is that of the list. -/
theorem idxOf_filter_lt {p : String → Bool} {xs : List String} {x y : String} (hx : p x = true)
    (hy : p y = true) (h : (xs.filter p).idxOf x < (xs.filter p).idxOf y) :
    xs.idxOf x < xs.idxOf y := by
  induction xs with
  | nil => simp at h
  | cons a xs ih =>
    by_cases ha : p a = true
    · rw [List.filter_cons_of_pos ha] at h
      by_cases hax : a = x
      · subst hax
        have hay : a ≠ y := fun hay => by simp [hay] at h
        simp [List.idxOf_cons_ne _ hay]
      · by_cases hay : a = y
        · subst hay
          simp at h
        · rw [List.idxOf_cons_ne _ hax, List.idxOf_cons_ne _ hay] at h ⊢
          exact Nat.succ_lt_succ (ih (Nat.lt_of_succ_lt_succ h))
    · rw [List.filter_cons_of_neg ha] at h
      have hax : a ≠ x := fun hax => ha (hax ▸ hx)
      have hay : a ≠ y := fun hay => ha (hay ▸ hy)
      rw [List.idxOf_cons_ne _ hax, List.idxOf_cons_ne _ hay]
      exact Nat.succ_lt_succ (ih h)

/-- Without its duplicates a list has its entries in the order of first occurrence. -/
theorem firstOccurrences_eraseDups (xs : List String) : FirstOccurrences xs xs.eraseDups where
  mem_iff x := List.mem_eraseDups
  ordered := by
    induction hn : xs.length using Nat.strong_induction_on generalizing xs with
    | _ n ih =>
      cases xs with
      | nil => simp
      | cons a xs =>
        have hlen : (xs.filter fun b => !b == a).length < n := by
          have := List.length_filter_le (fun b => !b == a) xs
          simp only [List.length_cons] at hn
          omega
        rw [List.eraseDups_cons, List.pairwise_cons]
        have hne : ∀ b ∈ (xs.filter fun b => !b == a).eraseDups, a ≠ b := fun b hb hab => by
          have := (List.mem_filter.1 (List.mem_eraseDups.1 hb)).2
          simp [hab] at this
        refine ⟨fun b hb => by simp [List.idxOf_cons_ne _ (hne b hb)], ?_⟩
        refine (ih _ hlen _ rfl).imp_of_mem fun {x y} hx hy hxy => ?_
        rw [List.idxOf_cons_ne _ (hne x hx), List.idxOf_cons_ne _ (hne y hy)]
        exact Nat.succ_lt_succ (idxOf_filter_lt (by simpa using (hne x hx).symm)
          (by simpa using (hne y hy).symm) hxy)

/-! ### Steps and the report -/

/-- **The step of a node that was taken** lists its type and the nodes that feed it, each once. -/
theorem step?_of_mem (h : c.Coherent) {id : String} (hid : id ∈ (final c).taken) :
    ∃ n ∈ c.nodes.toList, n.id = id ∧
      step? c id = some ⟨id, n.body.typeName, ((c.incoming id).map Edge.source).eraseDups⟩ := by
  obtain ⟨n, hn, rfl⟩ := List.mem_map.1 ((mem_final_taken_iff h).1 hid).1
  have hmem := (List.mem_filter.1 hn).1
  exact ⟨n, hmem, rfl, by simp [step?, h.node?_of_mem hmem]⟩

/-- If what each element is turned into leads back to it, the list is recovered. -/
theorem map_filterMap_of_forall {α β : Type} {f : α → Option β} {g : β → α} {xs : List α}
    (h : ∀ x ∈ xs, ∃ y, f x = some y ∧ g y = x) : (xs.filterMap f).map g = xs := by
  induction xs with
  | nil => rfl
  | cons x xs ih =>
    obtain ⟨y, hy, hg⟩ := h x (by simp)
    rw [List.filterMap_cons_some hy, List.map_cons, hg, ih fun z hz => h z (by simp [hz])]

/-- **A plan lists the steps in the order in which they were taken.** -/
theorem map_nodeId_plan (h : c.Coherent) :
    (plan c).1.map Snapshot.Step.nodeId = (final c).taken :=
  map_filterMap_of_forall fun _ hid =>
    have ⟨_, _, _, hstep⟩ := step?_of_mem h hid
    ⟨_, hstep, rfl⟩

/-- **What is left out is reported once, in canvas order.**  The plan is shorter than the list of
steps exactly when it misses one, since it repeats none. -/
theorem warnings_plan (h : c.Coherent) :
    (plan c).2 =
      match c.innerIds.filter (· ∉ (final c).taken) with
      | [] => []
      | left => [.cycle left] := by
  obtain ⟨hrun, hready, -⟩ := running_final h
  have hwait : ∀ id ∈ c.innerIds,
      ((final c).waiting.getD id 0 != 0) = decide (id ∉ (final c).taken) := fun id hid => by
    have hmem := hrun.counted.mem_iff id
    rw [hready, List.append_nil, stepIds_eq] at hmem
    rw [Std.HashMap.getD_eq_getD_getElem?, hrun.counted.waiting, stepIds_eq, if_pos hid]
    by_cases hz : unserved (linksIn c) (final c).taken id = 0
    · simp [hz, hmem.2 ⟨hid, hz⟩]
    · have hout : id ∉ (final c).taken := fun hin => hz (hmem.1 hin).2
      simp [hz, hout]
  have hlength : (plan c).1.length = (final c).taken.length := by
    rw [← map_nodeId_plan h, List.length_map]
  have hnodup : (final c).taken.Nodup := (List.nodup_append.1 hrun.counted.nodup).1
  have hsub : (final c).taken ⊆ c.innerIds := fun id hid => ((mem_final_taken_iff h).1 hid).1
  have hshort : (final c).taken.length < c.innerIds.length ↔
      c.innerIds.filter (· ∉ (final c).taken) ≠ [] := by
    constructor
    · intro hlt hnil
      have hall : c.innerIds ⊆ (final c).taken := fun id hid => by
        simpa using List.filter_eq_nil_iff.1 hnil id hid
      have := (List.subperm_of_subset h.nodup_innerIds hall).length_le
      omega
    · intro hne
      obtain ⟨id, hid⟩ := List.exists_mem_of_ne_nil _ hne
      obtain ⟨hin, hout⟩ := List.mem_filter.1 hid
      have hcons : (id :: (final c).taken).Nodup :=
        List.nodup_cons.2 ⟨by simpa using hout, hnodup⟩
      exact (List.subperm_of_subset hcons (List.cons_subset.2 ⟨hin, hsub⟩)).length_le
  have hplan : (plan c).2 = if (plan c).1.length < (stepIds c).length then
      [.cycle ((stepIds c).filter fun id => (final c).waiting.getD id 0 != 0)] else [] := rfl
  rw [hplan, hlength, stepIds_eq, List.filter_congr hwait]
  cases hleft : c.innerIds.filter (· ∉ (final c).taken) with
  | nil => rw [if_neg (fun hlt => hshort.1 hlt hleft)]
  | cons id left => rw [if_pos (hshort.2 (hleft ▸ List.cons_ne_nil id left))]

/-- Where every step was taken, nothing is reported. -/
theorem warnings_plan_eq_nil (h : c.Coherent) (hall : ∀ id ∈ c.innerIds, id ∈ (final c).taken) :
    (plan c).2 = [] := by
  have hleft : c.innerIds.filter (· ∉ (final c).taken) = [] :=
    List.filter_eq_nil_iff.2 fun id hid => by simpa using hall id hid
  rw [warnings_plan h, hleft]

/-- **The plan is sound and complete.**  It lists each step at most once, and leaves out exactly the
steps on a cycle or behind one; a step stands behind every step that feeds it; the inputs of a step
are the sources of all edges that arrive at it, in the order of first occurrence; the steps left out
are reported exactly when there are any, in canvas order.  The run behind it stops only when no step
is ready, and takes no count below zero. -/
theorem plan_exact (h : c.Coherent) :
    ((plan c).1.map Snapshot.Step.nodeId).Nodup ∧
    (∀ id, id ∈ (plan c).1.map Snapshot.Step.nodeId ↔ id ∈ c.innerIds ∧ ¬BehindCycle c id) ∧
    (∀ u v, Feeds c u v → v ∈ (plan c).1.map Snapshot.Step.nodeId →
      u ∈ (plan c).1.map Snapshot.Step.nodeId ∧
        ((plan c).1.map Snapshot.Step.nodeId).idxOf u <
          ((plan c).1.map Snapshot.Step.nodeId).idxOf v) ∧
    (∀ s ∈ (plan c).1, ∃ n ∈ c.nodes.toList, n.id = s.nodeId ∧ s.typeName = n.body.typeName ∧
      FirstOccurrences ((c.edges.toList.filter (·.target == s.nodeId)).map Edge.source) s.inputs) ∧
    ((plan c).2 =
      match c.innerIds.filter (· ∉ (plan c).1.map Snapshot.Step.nodeId) with
      | [] => []
      | left => [.cycle left]) ∧
    (final c).ready = [] ∧
    checkedRun (Dependencies.ofCanvas c).feeds (stepIds c).length (start c) = some (final c) := by
  obtain ⟨hrun, hready, hchecked⟩ := running_final h
  rw [map_nodeId_plan h]
  refine ⟨(List.nodup_append.1 hrun.counted.nodup).1, fun id => mem_final_taken_iff h,
    fun u v hf hv => idxOf_lt_of_feeds h hf hv, fun s hs => ?_, warnings_plan h, hready,
    hchecked⟩
  obtain ⟨id, hid, hstep⟩ :=
    List.mem_filterMap.1 (show s ∈ (final c).taken.filterMap (step? c) from hs)
  obtain ⟨n, hn, hnid, heq⟩ := step?_of_mem h hid
  obtain rfl := Option.some.inj (heq.symm.trans hstep)
  refine ⟨n, hn, hnid, rfl, ?_⟩
  rw [← h.incoming_eq]
  exact firstOccurrences_eraseDups _

/-- A canvas of two steps: one feeds itself and the other one. -/
def selfFeeding : Canvas :=
  .ofLists [⟨"loop", .origin, .transform "loop" .passThrough⟩,
      ⟨"behind", .origin, .transform "behind" .passThrough⟩]
    [⟨"again", "loop", none, "loop", none⟩, ⟨"on", "loop", none, "behind", none⟩]

/-- Neither a step that feeds itself nor one behind it is planned. -/
theorem plan_exact_selfFeeding :
    selfFeeding.Coherent ∧ Feeds selfFeeding "loop" "loop" ∧ Feeds selfFeeding "loop" "behind" ∧
      (plan selfFeeding).1.map Snapshot.Step.nodeId = [] := by
  have hc : selfFeeding.Coherent := Canvas.coherent_ofLists _ _
  have hinner : selfFeeding.innerIds = ["loop", "behind"] := by
    rw [Canvas.innerIds, selfFeeding, Canvas.nodes_ofLists (by decide)]
    rfl
  have hedges : selfFeeding.edges.toList =
      [⟨"again", "loop", none, "loop", none⟩, ⟨"on", "loop", none, "behind", none⟩] :=
    Canvas.edges_ofLists _ _
  have hloop : Feeds selfFeeding "loop" "loop" := by
    simp [Feeds, hinner, hedges]
  have hbehind : Feeds selfFeeding "loop" "behind" := by
    simp [Feeds, hinner, hedges]
  refine ⟨hc, hloop, hbehind, List.eq_nil_iff_forall_not_mem.2 fun id hid => ?_⟩
  obtain ⟨hin, hfree⟩ := ((plan_exact hc).2.1 id).1 hid
  rw [hinner] at hin
  rcases List.mem_cons.1 hin with rfl | hin
  · exact hfree ⟨"loop", .single hloop, .refl⟩
  · obtain rfl := List.mem_singleton.1 hin
    exact hfree ⟨"loop", .single hloop, .single hbehind⟩

end Plan
end MappingCanvas
