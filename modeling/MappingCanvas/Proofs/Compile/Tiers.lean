/-
# Plans go down layer by layer

The depth of a step is the length of the longest chain of steps that ends at it (`depth`).  The run
that makes a plan takes the step that has been ready for longest, and so it takes all steps of one
depth before it takes one of the next: the queue never holds steps of more than two consecutive
depths, and these in order (`Tiered`).  A step becomes ready when the last of those that feed it is
taken, which is the deepest of them, and so its own depth is one more than that of the step taken.

Two links between the same steps count twice, when the step is put off as well as when it is served,
so they change neither depths nor layers.  A plan is in ascending order of depth, and the steps of
depth zero are in canvas order (`plan_tiered`).
-/

import Mathlib.Data.List.MinMax
import MappingCanvas.Proofs.Compile.Plan

namespace MappingCanvas
namespace Plan

variable {c : Canvas} {ids : List String} {links : List (String × String)} {s : State}

/-! ### The depth of a step -/

/-- The steps that feed a step, one entry for each link. -/
def feedersOf (links : List (String × String)) (v : String) : List String :=
  (links.filter fun l => l.2 == v).map Prod.fst

/-- The feeders of a step are those with a link to it. -/
theorem mem_feedersOf {u v : String} : u ∈ feedersOf links v ↔ (u, v) ∈ links := by
  simp only [feedersOf, List.mem_map, List.mem_filter, beq_iff_eq]
  constructor
  · rintro ⟨⟨a, b⟩, ⟨hl, rfl⟩, rfl⟩
    exact hl
  · exact fun hl => ⟨(u, v), ⟨hl, rfl⟩, rfl⟩

/-- The length of the longest chain of at most `n` links that ends at a step. -/
def longest (links : List (String × String)) : (n : Nat) → (v : String) → Nat
  | 0, _ => 0
  | n + 1, v => ((feedersOf links v).map fun u => longest links n u + 1).foldr max 0

/-- The depth of a step: how long the chains of steps are that end at it.  On a canvas with `n`
steps a chain without repetitions has fewer than `n` links. -/
def depth (c : Canvas) : String → Nat := longest (linksIn c) (stepIds c).length

/-- A step ends a longer chain than each of those that feed it. -/
theorem longest_lt {u v : String} (hl : (u, v) ∈ links) (n : Nat) :
    longest links n u < longest links (n + 1) v := by
  have hmem : longest links n u + 1 ∈ (feedersOf links v).map fun u => longest links n u + 1 :=
    List.mem_map_of_mem (f := fun u => longest links n u + 1) (mem_feedersOf.2 hl)
  exact List.le_max_of_le hmem le_rfl

/-- The greatest of some numbers is one of them, or zero. -/
theorem foldr_max_eq_zero_or_mem (xs : List Nat) : xs.foldr max 0 = 0 ∨ xs.foldr max 0 ∈ xs := by
  induction xs with
  | nil => exact .inl rfl
  | cons x xs ih =>
    right
    rw [List.foldr_cons]
    rcases ih with hzero | hmem
    · rw [hzero, Nat.max_zero]
      exact List.mem_cons_self ..
    · rcases max_choice x (xs.foldr max 0) with hmax | hmax
      · rw [hmax]
        exact List.mem_cons_self ..
      · rw [hmax]
        exact List.mem_cons_of_mem x hmem

/-- The longest chain ends with a link behind another longest one, unless it has no link. -/
theorem exists_longest (links : List (String × String)) (n : Nat) (v : String) :
    longest links (n + 1) v = 0 ∨
      ∃ u, (u, v) ∈ links ∧ longest links (n + 1) v = longest links n u + 1 := by
  refine (foldr_max_eq_zero_or_mem _).imp_right fun hmem => ?_
  obtain ⟨u, hu, heq⟩ := List.mem_map.1 hmem
  exact ⟨u, mem_feedersOf.1 hu, heq.symm⟩

/-- The longest chain to a step depends on the longest ones to those that feed it. -/
theorem longest_congr {m n : Nat} {v : String}
    (h : ∀ u, (u, v) ∈ links → longest links m u = longest links n u) :
    longest links (m + 1) v = longest links (n + 1) v := by
  have hmap : ((feedersOf links v).map fun u => longest links m u + 1) =
      (feedersOf links v).map fun u => longest links n u + 1 :=
    List.map_congr_left fun u hu => by rw [h u (mem_feedersOf.1 hu)]
  rw [longest, longest, hmap]

/-- Each entry of a list stands behind all the steps that feed it. -/
def InOrder (links : List (String × String)) (order : List String) : Prop :=
  ∀ before v after, order = before ++ v :: after → ∀ u, (u, v) ∈ links → u ∈ before

/-- The first part of a list in order is in order. -/
theorem InOrder.of_append {before after : List String} (h : InOrder links (before ++ after)) :
    InOrder links before := fun front v back hsplit u hu =>
  h front v (back ++ after) (by simp [hsplit]) u hu

/-- **In a list in order no chain is longer than the list.** -/
theorem InOrder.longest_eq {order : List String} (h : InOrder links order) {v : String}
    (hv : v ∈ order) {m n : Nat} (hm : order.length ≤ m) (hn : order.length ≤ n) :
    longest links m v = longest links n v := by
  induction order using List.reverseRecOn generalizing m n v with
  | nil => simp at hv
  | append_singleton before w ih =>
    simp only [List.length_append, List.length_singleton] at hm hn
    rcases List.mem_append.1 hv with hv | hv
    · exact ih h.of_append hv (by omega) (by omega)
    · obtain rfl := List.mem_singleton.1 hv
      obtain ⟨m, rfl⟩ := Nat.exists_eq_succ_of_ne_zero (show m ≠ 0 by omega)
      obtain ⟨n, rfl⟩ := Nat.exists_eq_succ_of_ne_zero (show n ≠ 0 by omega)
      refine longest_congr fun u hu => ?_
      exact ih h.of_append (h before v [] rfl u hu) (by omega) (by omega)

/-- **Depths are what they are said to be** for the steps of a list in order: a step is deeper than
those that feed it, and, unless its depth is zero, by one deeper than one of them. -/
theorem InOrder.depth_spec {order : List String} (h : InOrder links order) {n : Nat}
    (hn : order.length ≤ n) {v : String} (hv : v ∈ order) :
    (∀ u, (u, v) ∈ links → longest links n u < longest links n v) ∧
      (longest links n v = 0 ∨
        ∃ u, (u, v) ∈ links ∧ longest links n v = longest links n u + 1) := by
  obtain ⟨before, after, rfl⟩ := List.append_of_mem hv
  simp only [List.length_append, List.length_cons] at hn
  obtain ⟨n, rfl⟩ := Nat.exists_eq_succ_of_ne_zero (show n ≠ 0 by omega)
  have hsame : ∀ u, (u, v) ∈ links → longest links (n + 1) u = longest links n u := fun u hu =>
    h.of_append.longest_eq (h before v after rfl u hu) (by omega) (by omega)
  constructor
  · intro u hu
    rw [hsame u hu]
    exact longest_lt hu n
  · refine (exists_longest links n v).imp_right ?_
    rintro ⟨u, hu, heq⟩
    exact ⟨u, hu, by rw [hsame u hu, heq]⟩

/-- The steps taken and ready stand in order: those that are ready wait for nothing else. -/
theorem Running.inOrder (h : Running ids links s) : InOrder links (s.taken ++ s.ready) := by
  intro before v after hsplit u hu
  have hserved : u ∈ s.taken :=
    unserved_eq_zero_iff.1 ((h.counted.mem_iff v).1 (by simp [hsplit])).2 u hu
  rcases List.append_eq_append_iff.1 hsplit with ⟨middle, rfl, -⟩ | ⟨middle, htaken, hready⟩
  · exact List.mem_append_left _ hserved
  · cases middle with
    | nil => rwa [htaken, List.append_nil] at hserved
    | cons w middle =>
      obtain ⟨rfl, -⟩ := List.cons.inj hready
      exact h.behind before v middle htaken u hu

/-- The depths of the steps that are taken or ready are what they are said to be, since there are no
more of them than steps. -/
theorem Running.depth_spec (h : Running ids links s) {v : String} (hv : v ∈ s.taken ++ s.ready) :
    (∀ u, (u, v) ∈ links → longest links ids.length u < longest links ids.length v) ∧
      (longest links ids.length v = 0 ∨
        ∃ u, (u, v) ∈ links ∧ longest links ids.length v = longest links ids.length u + 1) := by
  have hsub : s.taken ++ s.ready ⊆ ids := fun id hid => ((h.counted.mem_iff id).1 hid).1
  exact h.inOrder.depth_spec (List.subperm_of_subset h.counted.nodup hsub).length_le hv

/-- A step is one deeper than the deepest of those that feed it. -/
theorem Running.depth_eq_succ (h : Running ids links s) {u v : String}
    (hv : v ∈ s.taken ++ s.ready) (hlink : (u, v) ∈ links)
    (hdeepest : ∀ w, (w, v) ∈ links → longest links ids.length w ≤ longest links ids.length u) :
    longest links ids.length v = longest links ids.length u + 1 := by
  obtain ⟨hdeeper, hattained⟩ := h.depth_spec hv
  have hlt : longest links ids.length u < longest links ids.length v := hdeeper u hlink
  rcases hattained with hzero | ⟨w, hw, heq⟩
  · exact absurd hzero (Nat.ne_zero_of_lt hlt)
  · exact le_antisymm (heq.trans_le (Nat.succ_le_succ (hdeepest w hw))) hlt

/-! ### The queue -/

/-- What a run keeps of depths: the steps taken and those that are ready are in ascending order of
depth, those that are ready are of two consecutive depths at most, and the steps of depth zero are
as they were at the start. -/
structure Tiered (depth : String → Nat) (roots : List String) (s : State) : Prop where
  ascending : (s.taken ++ s.ready).Pairwise fun u v => depth u ≤ depth v
  close : ∀ u ∈ s.ready, ∀ v ∈ s.ready, depth v ≤ depth u + 1
  roots : (s.taken ++ s.ready).filter (depth · == 0) = roots

/-- Serving puts some of the nodes served behind those that are ready. -/
theorem exists_ready_foldl_serve (vs : List String) (s : State) :
    ∃ new, (vs.foldl State.serve s).ready = s.ready ++ new ∧ new ⊆ vs := by
  induction vs generalizing s with
  | nil => exact ⟨[], by simp, List.Subset.refl _⟩
  | cons v vs ih =>
    have hserve : ∃ new, (s.serve v).ready = s.ready ++ new ∧ new ⊆ [v] := by
      unfold State.serve
      cases s.waiting[v]? with
      | none => exact ⟨[], by simp⟩
      | some n => by_cases hn : n = 1 <;> simp [hn]
    obtain ⟨first, hfirst, hv⟩ := hserve
    obtain ⟨new, hnew, hvs⟩ := ih (s.serve v)
    refine ⟨first ++ new, by rw [List.foldl_cons, hnew, hfirst, List.append_assoc], ?_⟩
    intro w hw
    rcases List.mem_append.1 hw with hw | hw
    · rw [List.mem_singleton.1 (hv hw)]
      exact List.mem_cons_self ..
    · exact List.mem_cons_of_mem v (hvs hw)

section

variable {feeds : Std.HashMap String (List String)} {roots rest : List String} {id : String}
  (hfeeds : ∀ id, feeds.getD id [] = fedBy links id) (hlinks : ∀ l ∈ links, l.2 ∈ ids)

include hfeeds hlinks

/-- **What one step of the run does**: the step taken leaves the queue, and those that were waiting
for nothing else enter it. -/
theorem Running.exists_ready_take (h : Running ids links s) (hready : s.ready = id :: rest) :
    let t := (feeds.getD id []).foldl State.serve
      { s with ready := rest, taken := s.taken ++ [id] }
    Running ids links t ∧ t.taken = s.taken ++ [id] ∧
      ∃ new, t.ready = rest ++ new ∧ ∀ v ∈ new, (id, v) ∈ links ∧
        ∀ u, (u, v) ∈ links → u ∈ s.taken ++ [id] := by
  intro t
  obtain ⟨hnext, htaken, -⟩ := h.take hfeeds hlinks hready
  obtain ⟨new, hnew, hfed⟩ := exists_ready_foldl_serve (feeds.getD id [])
    { s with ready := rest, taken := s.taken ++ [id] }
  refine ⟨hnext, htaken, new, hnew, fun v hv => ⟨?_, fun u hu => ?_⟩⟩
  · have hv := hfed hv
    rw [hfeeds] at hv
    obtain ⟨⟨a, b⟩, hl, rfl⟩ := List.mem_map.1 hv
    obtain ⟨hl, ha⟩ := List.mem_filter.1 hl
    rwa [← eq_of_beq ha]
  · have hmem : v ∈ t.taken ++ t.ready := by simp [t, hnew, hv]
    rw [← htaken]
    exact unserved_eq_zero_iff.1 ((hnext.counted.mem_iff v).1 hmem).2 u hu

/-- **One step of the run keeps what is kept of depths.**  A step that becomes ready was waiting for
the one just taken, the deepest of those before it, so it is deeper by one; and no step in the queue
is deeper than that. -/
theorem Tiered.take (hrun : Running ids links s)
    (h : Tiered (longest links ids.length) roots s) (hready : s.ready = id :: rest) :
    Tiered (longest links ids.length) roots
      ((feeds.getD id []).foldl State.serve
        { s with ready := rest, taken := s.taken ++ [id] }) := by
  obtain ⟨hnext, htaken, new, hnew, hwaited⟩ := hrun.exists_ready_take hfeeds hlinks hready
  generalize (feeds.getD id []).foldl State.serve
    { s with ready := rest, taken := s.taken ++ [id] } = t at hnext htaken hnew ⊢
  let depth := longest links ids.length
  have hold : t.taken ++ t.ready = s.taken ++ s.ready ++ new := by
    simp [htaken, hnew, hready]
  have hascending := h.ascending
  rw [hready, List.pairwise_append, List.pairwise_cons] at hascending
  obtain ⟨-, ⟨hbehind, -⟩, hbefore⟩ := hascending
  have htop : ∀ u ∈ s.taken ++ [id], depth u ≤ depth id := fun u hu => by
    rcases List.mem_append.1 hu with hu | hu
    · exact hbefore u hu id (List.mem_cons_self ..)
    · rw [List.mem_singleton.1 hu]
  have hdepth : ∀ v ∈ new, depth v = depth id + 1 := fun v hv => by
    obtain ⟨hlink, hserved⟩ := hwaited v hv
    exact hnext.depth_eq_succ (hold ▸ List.mem_append_right _ hv) hlink fun u hu =>
      htop u (hserved u hu)
  have hclose : ∀ u ∈ s.taken ++ s.ready, depth u ≤ depth id + 1 := fun u hu => by
    rcases List.mem_append.1 hu with hu | hu
    · exact Nat.le_succ_of_le (htop u (List.mem_append_left _ hu))
    · exact h.close id (by simp [hready]) u hu
  refine ⟨?_, fun u hu v hv => ?_, ?_⟩
  · rw [hold]
    refine List.pairwise_append.2 ⟨h.ascending, ?_, fun u hu v hv => ?_⟩
    · exact List.pairwise_of_forall_mem_list fun u hu v hv =>
        ((hdepth u hu).trans (hdepth v hv).symm).le
    · exact (hclose u hu).trans (hdepth v hv).ge
  · rw [hnew] at hu hv
    have hlow : depth id ≤ depth u := by
      rcases List.mem_append.1 hu with hu | hu
      · exact hbehind u hu
      · exact (Nat.le_succ _).trans (hdepth u hu).ge
    have hhigh : depth v ≤ depth id + 1 := by
      rcases List.mem_append.1 hv with hv | hv
      · exact hclose v (by simp [hready, hv])
      · exact (hdepth v hv).le
    exact hhigh.trans (Nat.succ_le_succ hlow)
  · have hnone : new.filter (depth · == 0) = [] :=
      List.filter_eq_nil_iff.2 fun v hv => by simp [hdepth v hv]
    rw [hold, List.filter_append, h.roots, hnone, List.append_nil]

/-- **A run keeps depths ascending**, as each step does. -/
theorem tiered_run {fuel : Nat} (hrun : Running ids links s)
    (h : Tiered (longest links ids.length) roots s) :
    Tiered (longest links ids.length) roots (run feeds fuel s) := by
  induction fuel generalizing s with
  | zero => exact h
  | succ fuel ih =>
    rw [run]
    split
    · exact h
    · rename_i id rest hready
      exact ih (hrun.take hfeeds hlinks hready).1 (h.take hfeeds hlinks hrun hready)

end

/-- The steps of a canvas that no step feeds, in canvas order. -/
def unfed (c : Canvas) : List String :=
  (stepIds c).filter fun v => (feedersOf (linksIn c) v).isEmpty

/-- Unfed are the steps that no step feeds. -/
theorem mem_unfed {v : String} : v ∈ unfed c ↔ v ∈ c.innerIds ∧ ∀ u, ¬Feeds c u v := by
  simp only [unfed, List.mem_filter, List.isEmpty_iff, List.eq_nil_iff_forall_not_mem,
    mem_feedersOf, mem_linksIn_iff, stepIds_eq]

/-- At the start the unfed steps are ready. -/
theorem ready_start (c : Canvas) : (start c).ready = unfed c := by
  refine List.filter_congr fun v hv => ?_
  have hcount : linksInto (linksIn c) v = (feedersOf (linksIn c) v).length := by
    rw [linksInto, List.countP_eq_length_filter, feedersOf, List.length_map]
  rw [(noted_ofCanvas c).waiting, if_pos hv, ← linksIn, hcount]
  cases feedersOf (linksIn c) v <;> rfl

/-- At the start only steps of depth zero are ready. -/
theorem tiered_start (h : c.Coherent) : Tiered (depth c) (unfed c) (start c) := by
  have hall : (start c).taken ++ (start c).ready = unfed c := by
    rw [ready_start]
    rfl
  have hzero : ∀ v ∈ unfed c, depth c v = 0 := by
    intro v hv
    refine ((running_start h).depth_spec (hall ▸ hv)).2.resolve_right ?_
    rintro ⟨u, hu, -⟩
    exact (mem_unfed.1 hv).2 u (mem_linksIn_iff.1 hu)
  refine ⟨?_, fun u _ v hv => ?_, ?_⟩
  · rw [hall]
    exact List.pairwise_of_forall_mem_list fun u hu v hv =>
      ((hzero u hu).trans (hzero v hv).symm).le
  · rw [ready_start] at hv
    rw [hzero v hv]
    exact Nat.zero_le _
  · rw [hall]
    exact List.filter_eq_self.2 fun v hv => by simp [hzero v hv]

/-- **A plan goes down layer by layer.**  A planned step that no other step feeds has depth zero,
and any other planned step is one deeper than the deepest of the steps that feed it; in these
depths the plan never goes back up, and the steps of depth zero are all the steps that no step
feeds, in canvas order. -/
theorem plan_tiered (h : c.Coherent) :
    let order := (plan c).1.map Snapshot.Step.nodeId
    (∀ v ∈ order, (∀ u, u ≠ v → ¬Feeds c u v) → depth c v = 0) ∧
    (∀ v ∈ order, (∃ u, u ≠ v ∧ Feeds c u v) →
      (∃ u, Feeds c u v ∧ depth c v = depth c u + 1) ∧
        ∀ u, Feeds c u v → depth c u + 1 ≤ depth c v) ∧
    order.Pairwise (fun u v => depth c u ≤ depth c v) ∧
    order.filter (depth c · == 0) = unfed c := by
  intro order
  obtain ⟨hrun, hready, -⟩ := running_final h
  have htiered : Tiered (depth c) (unfed c) (final c) :=
    tiered_run (noted_ofCanvas c).feeds
      (fun l hl => (mem_linksOf.1 (show (l.1, l.2) ∈ linksIn c from hl)).2.1) (running_start h)
      (tiered_start h)
  have horder : (final c).taken ++ (final c).ready = order := by
    rw [hready, List.append_nil]
    exact (map_nodeId_plan h).symm
  have hspec : ∀ v ∈ order, (∀ u, Feeds c u v → depth c u < depth c v) ∧
      (depth c v = 0 ∨ ∃ u, Feeds c u v ∧ depth c v = depth c u + 1) := fun v hv => by
    simpa only [mem_linksIn_iff, depth] using hrun.depth_spec (horder ▸ hv)
  refine ⟨fun v hv hunfed => ?_, fun v hv ⟨u, _, hu⟩ => ?_, horder ▸ htiered.ascending,
    horder ▸ htiered.roots⟩
  · refine (hspec v hv).2.resolve_right ?_
    rintro ⟨u, hu, heq⟩
    by_cases huv : u = v
    · subst huv
      exact absurd heq (Nat.ne_of_lt (Nat.lt_succ_self _))
    · exact hunfed u huv hu
  · obtain ⟨hdeeper, hdeepest⟩ := hspec v hv
    refine ⟨hdeepest.resolve_left ?_, hdeeper⟩
    exact Nat.ne_zero_of_lt (hdeeper u hu)

/-- Four steps: the last one is fed by the first over the one between them and over two edges of its
own, and one is fed by none. -/
def crossing : Canvas :=
  .ofLists [⟨"last", .origin, .transform "last" .passThrough⟩,
      ⟨"first", .origin, .transform "first" .passThrough⟩,
      ⟨"between", .origin, .transform "between" .passThrough⟩,
      ⟨"apart", .origin, .transform "apart" .passThrough⟩]
    [⟨"e1", "first", none, "last", none⟩, ⟨"e2", "first", none, "last", none⟩,
      ⟨"e3", "between", none, "last", none⟩, ⟨"e4", "first", none, "between", none⟩]

/-- The plan has the steps of depth zero in canvas order, and nothing before what is less deep. -/
theorem plan_tiered_crossing :
    let order := (plan crossing).1.map Snapshot.Step.nodeId
    crossing.Coherent ∧ order.Pairwise (fun u v => depth crossing u ≤ depth crossing v) ∧
      order.filter (depth crossing · == 0) = ["first", "apart"] ∧
      depth crossing "between" = 1 ∧ depth crossing "last" = 2 := by
  have hc : crossing.Coherent := Canvas.coherent_ofLists _ _
  have hids : stepIds crossing = ["last", "first", "between", "apart"] := by
    rw [stepIds_eq, Canvas.innerIds, crossing, Canvas.nodes_ofLists (by decide)]
    rfl
  have hlinks : linksIn crossing =
      [("first", "last"), ("first", "last"), ("between", "last"), ("first", "between")] := by
    rw [linksIn, hids, crossing, Canvas.edges_ofLists]
    decide
  have hunfed : unfed crossing = ["first", "apart"] := by
    rw [unfed, hids, hlinks]
    decide
  obtain ⟨-, -, hascending, hroots⟩ := plan_tiered hc
  refine ⟨hc, hascending, hroots.trans hunfed, ?_, ?_⟩
  · rw [depth, hids, hlinks]
    decide
  · rw [depth, hids, hlinks]
    decide

end Plan
end MappingCanvas
