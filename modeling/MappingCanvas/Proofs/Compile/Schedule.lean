/-
# The plan is sound and complete

The run that makes a plan keeps one invariant (`Running`): every count is the number of links into
the step from steps not taken yet, the steps taken or ready are those whose count is zero, and
each step that was taken stands behind all the steps that feed it.  Serving a list of links keeps it
(`foldl_serve`), so the run does (`running_run`), and its fuel suffices to leave no step ready.

At the end a step is left out exactly when it is on a cycle or behind one
(`mem_final_taken_iff`): what was taken stands in order, which no cycle does, and the steps
left out all wait for one another.  Counts are never taken below zero: the run in which that would
be a failure (`checkedRun`) does not fail.
-/

import Mathlib.Data.List.Perm.Subperm
import MappingCanvas.Compile.Plan
import MappingCanvas.Proofs.Compile.Cycle

namespace MappingCanvas

/-- The steps of a plan are the nodes between sources and targets. -/
theorem Node.Body.isStep_eq (b : Body) : b.isStep = b.schema?.isNone := by
  cases b with
  | transform label operation => cases operation <;> rfl
  | _ => rfl

namespace Plan

variable {c : Canvas} {ids : List String} {links : List (String × String)}

/-- The steps are the inner nodes. -/
theorem stepIds_eq (c : Canvas) : stepIds c = c.innerIds := by
  simp only [stepIds, Canvas.innerIds, Node.Body.isStep_eq]

/-! ### Links and counts -/

/-- The edges that lead from one step to another, as pairs of steps, one for each edge. -/
def linksOf (ids : List String) (es : List Edge) : List (String × String) :=
  (es.filter fun e => ids.contains e.source && ids.contains e.target).map fun e =>
    (e.source, e.target)

/-- A link is an edge with both ends among the steps. -/
theorem mem_linksOf {es : List Edge} {u v : String} :
    (u, v) ∈ linksOf ids es ↔ u ∈ ids ∧ v ∈ ids ∧ ∃ e ∈ es, e.source = u ∧ e.target = v := by
  simp only [linksOf, List.mem_map, List.mem_filter, Bool.and_eq_true, List.contains_iff_mem,
    Prod.mk.injEq]
  constructor
  · rintro ⟨e, ⟨he, hu, hv⟩, rfl, rfl⟩
    exact ⟨hu, hv, e, he, rfl, rfl⟩
  · rintro ⟨hu, hv, e, he, rfl, rfl⟩
    exact ⟨e, ⟨he, hu, hv⟩, rfl, rfl⟩

/-- The number of links into a step. -/
def linksInto (links : List (String × String)) (id : String) : Nat :=
  links.countP fun l => l.2 == id

/-- The steps that a step feeds, one entry for each link. -/
def fedBy (links : List (String × String)) (id : String) : List String :=
  (links.filter fun l => l.1 == id).map Prod.snd

/-- The number of links into a step from steps that are not done. -/
def unserved (links : List (String × String)) (done : List String) (id : String) : Nat :=
  links.countP fun l => l.2 == id && !done.contains l.1

/-- Before anything is done every link waits. -/
theorem unserved_nil (id : String) : unserved links [] id = linksInto links id := by
  simp [unserved, linksInto]

/-- A step waits for nothing exactly if all that feed it are done. -/
theorem unserved_eq_zero_iff {done : List String} {id : String} :
    unserved links done id = 0 ↔ ∀ u, (u, id) ∈ links → u ∈ done := by
  simp only [unserved, List.countP_eq_zero, Prod.forall]
  constructor
  · intro h u hu
    simpa using h u id hu
  · rintro h u v hu
    by_cases hv : v = id
    · subst hv
      simpa using h u hu
    · simp [hv]

/-- Doing one more step serves the links that leave it. -/
theorem unserved_append {done : List String} {u : String} (hu : u ∉ done) (id : String) :
    unserved links done id = unserved links (done ++ [u]) id + (fedBy links u).count id := by
  induction links with
  | nil => rfl
  | cons l links ih =>
    obtain ⟨a, b⟩ := l
    have hcons : ∀ d, unserved ((a, b) :: links) d id =
        unserved links d id + if b = id ∧ a ∉ d then 1 else 0 := fun d => by
      simp [unserved, List.countP_cons]
    have hfed : (fedBy ((a, b) :: links) u).count id =
        (fedBy links u).count id + if b = id ∧ a = u then 1 else 0 := by
      by_cases hau : a = u
      · simp [fedBy, hau, List.count_cons]
      · simp [fedBy, hau]
    rw [hcons, hcons, hfed, ih]
    by_cases hb : b = id
    · by_cases hau : a = u
      · subst hau
        simp [hb, hu]
        omega
      · simp [hb, hau]
        omega
    · simp [hb]

/-! ### The dependencies of a canvas -/

/-- Counts begin at zero, for the steps only. -/
theorem getElem?_foldl_insert (ids : List String) (id : String) :
    (ids.foldl (fun m id => m.insert id 0) (∅ : Std.HashMap String Nat))[id]? =
      if id ∈ ids then some 0 else none := by
  suffices h : ∀ m : Std.HashMap String Nat,
      (ids.foldl (fun m id => m.insert id 0) m)[id]? = if id ∈ ids then some 0 else m[id]? by
    simpa using h ∅
  induction ids with
  | nil => simp
  | cons x ids ih =>
    intro m
    rw [List.foldl_cons, ih, Std.HashMap.getElem?_insert]
    by_cases hx : x = id
    · simp [hx]
    · simp [hx, Ne.symm hx]

/-- What has been noted of some links: how many lead into each step, and where each step leads. -/
structure Noted (ids : List String) (links : List (String × String)) (d : Dependencies) : Prop where
  waiting : ∀ id, d.waiting[id]? = if id ∈ ids then some (linksInto links id) else none
  feeds : ∀ id, d.feeds.getD id [] = fedBy links id

/-- **Adding an edge notes its link**, if it is one. -/
theorem Noted.add {d : Dependencies} (h : Noted ids links d) (e : Edge) :
    Noted ids (links ++ linksOf ids [e]) (d.add e) := by
  unfold Dependencies.add
  by_cases hends : e.source ∈ ids ∧ e.target ∈ ids
  · have hlink : linksOf ids [e] = [(e.source, e.target)] := by simp [linksOf, hends]
    simp only [h.waiting, hends.1, hends.2, if_true, hlink]
    refine ⟨fun id => ?_, fun id => ?_⟩
    · rw [Std.HashMap.getElem?_insert, h.waiting]
      by_cases hid : e.target = id
      · subst hid
        simp [hends.2, linksInto]
      · simp [hid, linksInto]
    · rw [Std.HashMap.getD_insert, h.feeds, h.feeds]
      by_cases hid : e.source = id
      · subst hid
        simp [fedBy]
      · simp [hid, fedBy]
  · have hlink : linksOf ids [e] = [] := by
      rw [linksOf, List.filter_cons_of_neg (by simpa using hends)]
      rfl
    rw [hlink, List.append_nil]
    simp only [h.waiting]
    by_cases hs : e.source ∈ ids
    · have ht : e.target ∉ ids := fun ht => hends ⟨hs, ht⟩
      simpa only [hs, ht, if_true, if_false] using h
    · simpa only [hs, if_false] using h

/-- **The dependencies of a canvas count its links.** -/
theorem noted_ofCanvas (c : Canvas) :
    Noted (stepIds c) (linksOf (stepIds c) c.edges.toList) (.ofCanvas c) := by
  suffices h : ∀ es links d, Noted (stepIds c) links d →
      Noted (stepIds c) (links ++ linksOf (stepIds c) es) (es.foldl Dependencies.add d) by
    refine h c.edges.toList [] _ ⟨fun id => ?_, fun id => ?_⟩
    · rw [getElem?_foldl_insert]
      rfl
    · simp [fedBy]
  intro es
  induction es with
  | nil =>
    intro links d h
    simpa [linksOf] using h
  | cons e es ih =>
    intro links d h
    have hsplit : linksOf (stepIds c) (e :: es) =
        linksOf (stepIds c) [e] ++ linksOf (stepIds c) es := by
      simp only [linksOf, ← List.map_append, ← List.filter_append, List.singleton_append]
    rw [hsplit, ← List.append_assoc]
    exact ih _ _ (h.add e)

/-! ### Serving -/

/-- Serves one edge that arrives at a node, unless the count of the node is zero already. -/
def State.serve? (s : State) (id : String) : Option State :=
  if s.waiting[id]? = some 0 then none else some (s.serve id)

/-- The run of a plan in which it is a failure to serve a node whose count is zero. -/
def checkedRun (feeds : Std.HashMap String (List String)) : (fuel : Nat) → State → Option State
  | 0, s => some s
  | fuel + 1, s =>
    match s.ready with
    | [] => some s
    | id :: rest => do
      checkedRun feeds fuel
        (← (feeds.getD id []).foldlM State.serve?
          { s with ready := rest, taken := s.taken ++ [id] })

/-- The counts of a state are as given, and the steps taken or ready are those with count zero. -/
structure Counted (ids : List String) (count : String → Nat) (s : State) : Prop where
  waiting : ∀ id, s.waiting[id]? = if id ∈ ids then some (count id) else none
  nodup : (s.taken ++ s.ready).Nodup
  mem_iff : ∀ id, id ∈ s.taken ++ s.ready ↔ id ∈ ids ∧ count id = 0

/-- Counts may be replaced by equal ones. -/
theorem Counted.congr {s : State} {count count' : String → Nat} (h : Counted ids count s)
    (heq : ∀ id, count id = count' id) : Counted ids count' s := by
  rwa [← funext heq]

/-- **Serving a link into a step lowers its count by one**, and the step becomes ready when this was
its last link.  The count was not zero before, so the service cannot fail. -/
theorem Counted.serve {s : State} {count : String → Nat} {v : String} (hv : v ∈ ids)
    (h : Counted ids (fun id => count id + if v = id then 1 else 0) s) :
    Counted ids count (s.serve v) ∧ (s.serve v).taken = s.taken ∧
      s.serve? v = some (s.serve v) := by
  have hcount : s.waiting[v]? = some (count v + 1) := by simp [h.waiting, hv]
  have hout : v ∉ s.taken ++ s.ready := fun hmem => by simpa using ((h.mem_iff v).1 hmem).2
  have hserve : s.serve v =
      ⟨s.waiting.insert v (count v), if count v = 0 then s.ready ++ [v] else s.ready, s.taken⟩ := by
    simp [State.serve, hcount]
  rw [hserve]
  refine ⟨⟨fun id => ?_, ?_, fun id => ?_⟩, rfl, by simp [State.serve?, hcount, hserve]⟩
  · rw [Std.HashMap.getElem?_insert, h.waiting]
    by_cases hid : v = id
    · subst hid
      simp [hv]
    · simp [hid]
  · by_cases hz : count v = 0
    · simp only [hz, if_true, ← List.append_assoc]
      exact List.nodup_append.2 ⟨h.nodup, by simp, fun a ha b hb heq => by
        obtain rfl := List.mem_singleton.1 hb
        exact hout (heq ▸ ha)⟩
    · simpa only [hz, if_false] using h.nodup
  · have hmem := h.mem_iff id
    by_cases hid : v = id
    · subst hid
      by_cases hz : count v = 0
      · simp [hz, hv]
      · simp only [hz, if_false, and_false, iff_false]
        exact hout
    · by_cases hz : count v = 0
      · simp only [hz, if_true, ← List.append_assoc, List.mem_append (t := [v]), List.mem_singleton]
        simpa [hid, Ne.symm hid] using hmem
      · simpa [hid, hz] using hmem

/-- **Serving a list of links takes them off the counts**, and no count is taken below zero. -/
theorem foldl_serve {vs : List String} {s : State} {count : String → Nat}
    (hvs : ∀ v ∈ vs, v ∈ ids) (h : Counted ids (fun id => count id + vs.count id) s) :
    Counted ids count (vs.foldl State.serve s) ∧ (vs.foldl State.serve s).taken = s.taken ∧
      vs.foldlM State.serve? s = some (vs.foldl State.serve s) := by
  induction vs generalizing s with
  | nil => exact ⟨by simpa using h, rfl, rfl⟩
  | cons v vs ih =>
    have hstep : Counted ids (fun id => count id + vs.count id + if v = id then 1 else 0) s :=
      h.congr fun id => by simp [List.count_cons, Nat.add_assoc]
    obtain ⟨hserved, htaken, hchecked⟩ := hstep.serve (hvs v (by simp))
    obtain ⟨hcounted, htaken', hchecked'⟩ := ih (fun w hw => hvs w (by simp [hw])) hserved
    refine ⟨hcounted, htaken'.trans htaken, ?_⟩
    rw [List.foldlM_cons, hchecked]
    exact hchecked'

/-! ### The run -/

/-- What a run keeps: counts are links from steps not taken yet, and each step taken stands behind
all that feed it. -/
structure Running (ids : List String) (links : List (String × String)) (s : State) : Prop where
  counted : Counted ids (unserved links s.taken) s
  behind : ∀ before v after, s.taken = before ++ v :: after → ∀ u, (u, v) ∈ links → u ∈ before

/-- **To take a step keeps the invariant of the run.**  The step taken had no link left; those
before it are as they were. -/
theorem Running.take {s : State} {feeds : Std.HashMap String (List String)} {id : String}
    {rest : List String} (hfeeds : ∀ id, feeds.getD id [] = fedBy links id)
    (hlinks : ∀ l ∈ links, l.2 ∈ ids) (h : Running ids links s) (hready : s.ready = id :: rest) :
    let t : State := { s with ready := rest, taken := s.taken ++ [id] }
    let t' := (feeds.getD id []).foldl State.serve t
    Running ids links t' ∧ t'.taken = s.taken ++ [id] ∧
      (feeds.getD id []).foldlM State.serve? t = some t' := by
  intro t t'
  have hsame : t.taken ++ t.ready = s.taken ++ s.ready := by simp [t, hready]
  have hnot : id ∉ s.taken := fun hmem => by
    have := h.counted.nodup
    rw [hready] at this
    exact List.disjoint_of_nodup_append this hmem (by simp)
  have hcounted : Counted ids
      (fun v => unserved links (s.taken ++ [id]) v + (fedBy links id).count v) t := by
    refine ⟨?_, hsame ▸ h.counted.nodup, ?_⟩
    · simpa only [unserved_append hnot] using h.counted.waiting
    · simpa only [hsame, unserved_append hnot] using h.counted.mem_iff
  have hfed : ∀ v ∈ fedBy links id, v ∈ ids := fun v hv => by
    obtain ⟨l, hl, rfl⟩ := List.mem_map.1 hv
    exact hlinks l (List.mem_filter.1 hl).1
  obtain ⟨hdone, htaken, hchecked⟩ := foldl_serve hfed hcounted
  simp only [t', hfeeds]
  refine ⟨⟨htaken ▸ hdone, fun before v after hsplit u hu => ?_⟩, htaken, hchecked⟩
  rw [htaken] at hsplit
  rcases List.eq_nil_or_concat after with rfl | ⟨after, w, rfl⟩
  · obtain ⟨rfl, hv⟩ := List.append_inj' hsplit rfl
    obtain rfl : id = v := by simpa using hv
    have hzero : unserved links s.taken id = 0 :=
      ((h.counted.mem_iff id).1 (by simp [hready])).2
    exact unserved_eq_zero_iff.1 hzero u hu
  · have hsplit' : s.taken ++ [id] = (before ++ v :: after) ++ [w] := by simpa [t] using hsplit
    exact h.behind before v after (List.append_inj' hsplit' rfl).1 u hu

/-- **The run keeps its invariant, ends with nothing ready, and never counts below zero.**  With no
fuel left all steps have been taken, so there is no room for one that is ready. -/
theorem running_run {feeds : Std.HashMap String (List String)} {fuel : Nat} {s : State}
    (hfeeds : ∀ id, feeds.getD id [] = fedBy links id) (hlinks : ∀ l ∈ links, l.2 ∈ ids)
    (hfuel : ids.length ≤ fuel + s.taken.length) (h : Running ids links s) :
    Running ids links (run feeds fuel s) ∧ (run feeds fuel s).ready = [] ∧
      checkedRun feeds fuel s = some (run feeds fuel s) := by
  induction fuel generalizing s with
  | zero =>
    have hsub : s.taken ++ s.ready ⊆ ids := fun id hid => ((h.counted.mem_iff id).1 hid).1
    have hlen := (List.subperm_of_subset h.counted.nodup hsub).length_le
    rw [List.length_append] at hlen
    exact ⟨h, List.eq_nil_of_length_eq_zero (by show s.ready.length = 0; omega), rfl⟩
  | succ fuel ih =>
    cases hready : s.ready with
    | nil => simpa only [run, checkedRun, hready, and_self, and_true] using h
    | cons id rest =>
      obtain ⟨hnext, htaken, hchecked⟩ := h.take hfeeds hlinks hready
      have hroom : ids.length ≤ fuel + (s.taken ++ [id]).length := by
        rw [List.length_append, List.length_singleton]
        omega
      obtain ⟨hrun, hempty, hcheck⟩ := ih (by rw [htaken]; exact hroom) hnext
      simp only [run, checkedRun, hready]
      refine ⟨hrun, hempty, ?_⟩
      rw [hchecked]
      exact hcheck

/-- The state in which the run for a canvas begins. -/
def start (c : Canvas) : State :=
  let d := Dependencies.ofCanvas c
  ⟨d.waiting, (stepIds c).filter fun id => d.waiting[id]? == some 0, []⟩

/-- The links of a canvas. -/
def linksIn (c : Canvas) : List (String × String) := linksOf (stepIds c) c.edges.toList

/-- The run begins with nothing taken and all links waiting. -/
theorem running_start (h : c.Coherent) : Running (stepIds c) (linksIn c) (start c) where
  counted := by
    have hwait := (noted_ofCanvas c).waiting
    refine ⟨fun id => ?_, ?_, fun id => ?_⟩
    · simp only [unserved_nil, start]
      exact hwait id
    · have hnodup : (stepIds c).Nodup := stepIds_eq c ▸ h.nodup_innerIds
      simpa [start] using hnodup.filter _
    · by_cases hid : id ∈ stepIds c <;> simp [start, hwait, hid, unserved_nil, linksIn]
  behind before v after hsplit := by simp [start] at hsplit

/-- **What the run for a canvas comes to.** -/
theorem running_final (h : c.Coherent) :
    Running (stepIds c) (linksIn c) (final c) ∧ (final c).ready = [] ∧
      checkedRun (Dependencies.ofCanvas c).feeds (stepIds c).length (start c) = some (final c) :=
  running_run (noted_ofCanvas c).feeds
    (fun l hl => (mem_linksOf.1 (show (l.1, l.2) ∈ linksIn c from hl)).2.1) (by simp)
    (running_start h)

/-! ### Order and cycles -/

/-- A link of the canvas is an edge that feeds one step from another. -/
theorem mem_linksIn_iff {u v : String} : (u, v) ∈ linksIn c ↔ Feeds c u v := by
  rw [linksIn, mem_linksOf, stepIds_eq]
  rfl

/-- **A step that was taken stands behind every step that feeds it.** -/
theorem idxOf_lt_of_feeds (h : c.Coherent) {u v : String} (hf : Feeds c u v)
    (hv : v ∈ (final c).taken) :
    u ∈ (final c).taken ∧ (final c).taken.idxOf u < (final c).taken.idxOf v := by
  obtain ⟨hrun, -, -⟩ := running_final h
  have hnodup : (final c).taken.Nodup := (List.nodup_append.1 hrun.counted.nodup).1
  obtain ⟨before, after, hsplit⟩ := List.append_of_mem hv
  have hu : u ∈ before := hrun.behind before v after hsplit u (mem_linksIn_iff.2 hf)
  have hvb : v ∉ before := fun hmem => by
    rw [hsplit] at hnodup
    exact List.disjoint_of_nodup_append hnodup hmem (by simp)
  rw [hsplit, List.idxOf_append_of_mem hu, List.idxOf_append_of_notMem hvb]
  have := List.idxOf_lt_length_of_mem hu
  exact ⟨by simp [hu], by omega⟩

/-- **The steps taken are those that are neither on a cycle nor behind one.** -/
theorem mem_final_taken_iff (h : c.Coherent) {v : String} :
    v ∈ (final c).taken ↔ v ∈ c.innerIds ∧ ¬BehindCycle c v := by
  obtain ⟨hrun, hready, -⟩ := running_final h
  have hmem : ∀ id, id ∈ (final c).taken ↔
      id ∈ c.innerIds ∧ unserved (linksIn c) (final c).taken id = 0 := fun id => by
    simpa [hready, stepIds_eq] using hrun.counted.mem_iff id
  constructor
  · intro hv
    refine ⟨((hmem v).1 hv).1, fun ⟨w, hcycle, hpath⟩ => ?_⟩
    have hback : ∀ {a b}, Relation.ReflTransGen (Feeds c) a b → b ∈ (final c).taken →
        a ∈ (final c).taken := fun hab => by
      induction hab with
      | refl => exact id
      | tail _ hstep ih => exact fun hb => ih (idxOf_lt_of_feeds h hstep hb).1
    have hforth : ∀ {a b}, Relation.TransGen (Feeds c) a b → b ∈ (final c).taken →
        (final c).taken.idxOf a < (final c).taken.idxOf b := fun hab => by
      induction hab with
      | single hstep => exact fun hb => (idxOf_lt_of_feeds h hstep hb).2
      | tail _ hstep ih =>
        intro hb
        have hlast := idxOf_lt_of_feeds h hstep hb
        exact (ih hlast.1).trans hlast.2
    exact absurd (hforth hcycle (hback hpath hv)) (Nat.lt_irrefl _)
  · rintro ⟨hv, hfree⟩
    by_contra hout
    -- A step that is left out waits for another one that is left out.
    have hwaits : ∀ w ∈ c.innerIds.filter (· ∉ (final c).taken),
        ∃ u ∈ c.innerIds.filter (· ∉ (final c).taken), Feeds c u w := by
      intro w hw
      obtain ⟨hw, hwout⟩ := List.mem_filter.1 hw
      have hpos : ¬∀ u, (u, w) ∈ linksIn c → u ∈ (final c).taken := fun hall =>
        (by simpa using hwout : w ∉ (final c).taken)
          ((hmem w).2 ⟨hw, unserved_eq_zero_iff.2 hall⟩)
      simp only [not_forall, exists_prop] at hpos
      obtain ⟨u, hu, huout⟩ := hpos
      have hf := mem_linksIn_iff.1 hu
      exact ⟨u, List.mem_filter.2 ⟨hf.1, by simpa using huout⟩, hf⟩
    exact hfree (exists_cycle_before hwaits (List.mem_filter.2 ⟨hv, by simpa using hout⟩))

end Plan
end MappingCanvas
