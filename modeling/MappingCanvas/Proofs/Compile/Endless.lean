/-
# Endless walks and the plan

The resolver refuses a walk that is longer than its limit, and the plan reports the steps that wait
for one another; neither looks at what the other does.  They agree all the same: a walk without end
(`Canvas.Endless`) stays among steps that each have an endless one in front, and since there are
finitely many of them there is a cycle in front of each (`Endless.behindCycle`).

So, when the limit leaves room for every walk that ends, each node that a refusal names is one that
the plan leaves out and reports (`depthExceeded_exportAll`).
-/

import MappingCanvas.Proofs.Compile.Depth
import MappingCanvas.Proofs.Compile.Plan
import MappingCanvas.Proofs.Schema.Traversal

namespace MappingCanvas
namespace Canvas

variable {c : Canvas} {e : Edge} {limit steps : Nat} {id next : String}

/-! ### Endless walks -/

/-- The walk from a node has no end. -/
def Endless (c : Canvas) (id : String) : Prop := ∀ n, ¬c.WalkEnds id n

/-- An endless walk goes on to a node from which it is endless. -/
theorem Endless.exists_next (h : c.Endless id) :
    ∃ next, c.lookBack id = .inr next ∧ c.Endless next := by
  cases hb : c.lookBack id with
  | inl r => exact absurd (walkEnds_iff.2 (by rw [hb])) (h 1)
  | inr next =>
    exact ⟨next, rfl, fun n hn => h (n + 1) (walkEnds_iff.2 (by rw [hb]; exact ⟨n, rfl, hn⟩))⟩

/-- A walk goes on to steps only. -/
theorem mem_innerIds_of_lookBack (h : c.lookBack id = .inr next) : next ∈ c.innerIds := by
  obtain ⟨e, n, -, hn, hs, rfl⟩ := exists_edge_of_lookBack h
  exact mem_innerIds (mem_of_node? hn) hs

/-- Where a walk looks back from one step to another, the second feeds the first. -/
theorem Coherent.feeds_of_lookBack (hc : c.Coherent) (hid : id ∈ c.innerIds)
    (h : c.lookBack id = .inr next) : Plan.Feeds c next id := by
  obtain ⟨e, n, hi, hn, -, rfl⟩ := exists_edge_of_lookBack h
  rw [hc.firstInput?_eq] at hi
  exact ⟨mem_innerIds_of_lookBack h, hid, e, List.mem_of_find?_eq_some hi,
    (hc.node?_eq_some_iff.1 hn).2.symm, by simpa using List.find?_some hi⟩

/-- **A step from which a walk has no end lies behind a cycle.** -/
theorem Endless.behindCycle (h : c.Endless id) (hc : c.Coherent) (hid : id ∈ c.innerIds) :
    Plan.BehindCycle c id := by
  classical
  have hfront : ∀ v ∈ c.innerIds.filter fun v => c.Endless v,
      ∃ u ∈ c.innerIds.filter fun u => c.Endless u, Plan.Feeds c u v := by
    intro v hv
    obtain ⟨hin, hend⟩ := List.mem_filter.1 hv
    obtain ⟨u, hback, hu⟩ := (of_decide_eq_true hend).exists_next
    exact ⟨u, List.mem_filter.2 ⟨mem_innerIds_of_lookBack hback, decide_eq_true hu⟩,
      hc.feeds_of_lookBack hin hback⟩
  exact Plan.exists_cycle_before hfront (List.mem_filter.2 ⟨hid, decide_eq_true h⟩)

/-! ### The node that a refusal names -/

/-- The walk is refused at a node that lies on it. -/
theorem Endless.of_refused {name : String} {limit' : Nat} (hend : c.Endless id)
    (hid : id ∈ c.innerIds)
    (h : c.inputField limit steps id = .error (.depthExceeded name limit')) :
    c.Endless name ∧ name ∈ c.innerIds := by
  induction steps generalizing id with
  | zero =>
    obtain ⟨rfl, -⟩ : id = name ∧ limit = limit' := by simpa [inputField] using h
    exact ⟨hend, hid⟩
  | succ steps ih =>
    obtain ⟨next, hback, hnext⟩ := hend.exists_next
    rw [inputField_succ_of_inr hback] at h
    exact ih hnext (mem_innerIds_of_lookBack hback) h

/-- A lookup walks back from a step. -/
theorem mem_innerIds_of_lookupWalk? (h : c.lookupWalk? e = some id) : id ∈ c.innerIds := by
  unfold lookupWalk? at h
  split at h
  · rename_i n hn
    have hmem := mem_of_node? hn
    split at h
    · rename_i hb
      exact Option.some.inj h ▸ mem_innerIds hmem (by rw [hb]; rfl)
    · rename_i hb
      exact Option.some.inj h ▸ mem_innerIds hmem (by rw [hb]; rfl)
    · cases h
  · cases h

/-- A walk begins at a step. -/
theorem mem_innerIds_of_walk? {depth : Nat} (h : c.walk? e = some (id, depth)) :
    id ∈ c.innerIds := by
  unfold walk? at h
  split at h
  · rename_i n hn
    split at h
    · rename_i hb
      exact (Prod.mk.inj (Option.some.inj h)).1 ▸
        mem_innerIds (mem_of_node? hn) (by rw [hb]; rfl)
    · obtain ⟨input, -, hw⟩ := Option.bind_eq_some_iff.1 h
      obtain ⟨start, hstart, heq⟩ := Option.map_eq_some_iff.1 hw
      exact (Prod.mk.inj heq).1 ▸ mem_innerIds_of_lookupWalk? hstart
    · cases h
  · cases h

/-- **A refusal names a step behind a cycle**, when the limit leaves room for every walk that
ends. -/
theorem Coherent.behindCycle_of_refused (hc : c.Coherent) {target name : String} {limit' : Nat}
    (hl : c.innerIds.length ≤ limit)
    (h : c.resolve limit e target = .error (.depthExceeded name limit')) :
    name ∈ c.innerIds ∧ Plan.BehindCycle c name := by
  have hdeep : TooDeep (c.resolve limit e target) := ⟨name, limit', h⟩
  rcases resolve_cases c e target with ⟨-, r, hr, hall⟩ | ⟨id, depth, make, hw, hall⟩
  · exact absurd (hall limit ▸ hdeep) hr
  · have hend : c.Endless id := fun n hn => by
      obtain ⟨_, _, hw', hlong⟩ := tooDeep_resolve_iff.1 hdeep
      obtain ⟨rfl, rfl⟩ : id = _ ∧ depth = _ := by simpa [hw] using hw'
      have := hlong n hn
      have := walk_length_le hw hn
      omega
    rw [hall limit] at h
    have hwalk : c.inputField limit (limit + 1 - depth) id =
        .error (.depthExceeded name limit') := by
      cases hf : c.inputField limit (limit + 1 - depth) id with
      | ok field => simp [hf, Except.map] at h
      | error w => simpa [hf, Except.map] using h
    obtain ⟨hname, hmem⟩ := hend.of_refused (mem_innerIds_of_walk? hw) hwalk
    exact ⟨hmem, hname.behindCycle hc hmem⟩

end Canvas

/-! ### Where warnings come from -/

/-- A warning that the resolving of an edge can give. -/
def Warning.OfEdge : Warning → Prop
  | unknownNodeType _ _ | cycle _ => False
  | _ => True

/-- A refusal is one that the resolving of an edge can give. -/
def RefusesEdge {α : Type} (r : Except Warning α) : Prop := ∀ w, r = .error w → w.OfEdge

/-- An answer is no refusal. -/
@[simp] theorem refusesEdge_ok {α : Type} (a : α) : RefusesEdge (.ok a) := fun _ h => by cases h

/-- A refusal is one of an edge if its warning is. -/
@[simp] theorem refusesEdge_error {α : Type} {w : Warning} :
    RefusesEdge (.error w : Except Warning α) ↔ w.OfEdge :=
  ⟨fun h => h w rfl, fun h w' hw => by cases hw; exact h⟩

/-- What is made of an answer is refused for the same reason. -/
theorem RefusesEdge.map {α β : Type} {f : α → β} {r : Except Warning α} (h : RefusesEdge r) :
    RefusesEdge (r.map f) := by
  cases r with
  | ok a => exact refusesEdge_ok _
  | error w => exact refusesEdge_error.2 (refusesEdge_error.1 h)

namespace Canvas

variable {c : Canvas} {limit : Nat}

/-- A source refuses an edge without a handle, or with one that names no field. -/
theorem refusesEdge_fieldName (e : Edge) (id : String) (s : Schema) :
    RefusesEdge (fieldName e id s) := by
  unfold fieldName
  split
  · exact refusesEdge_error.2 trivial
  · split
    · exact refusesEdge_ok _
    · exact refusesEdge_error.2 trivial

/-- A look back that ends is refused for the edge or the node that it met. -/
theorem refusesEdge_lookBack {id : String} {r : Except Warning String}
    (h : c.lookBack id = .inl r) : RefusesEdge r := by
  unfold lookBack at h
  split at h
  · exact Sum.inl.inj h ▸ refusesEdge_error.2 trivial
  · split at h
    · exact Sum.inl.inj h ▸ refusesEdge_error.2 trivial
    · unfold backAt at h
      split at h
      · exact Sum.inl.inj h ▸ refusesEdge_fieldName _ _ _
      · exact Sum.inl.inj h ▸ refusesEdge_error.2 trivial
      all_goals cases h

/-- A walk is refused for the edge or the node at which it ends, or for its length. -/
theorem refusesEdge_inputField (c : Canvas) (limit steps : Nat) (id : String) :
    RefusesEdge (c.inputField limit steps id) := by
  induction steps generalizing id with
  | zero => exact refusesEdge_error.2 trivial
  | succ steps ih =>
    rw [inputField_succ]
    cases hb : c.lookBack id with
    | inl r => exact refusesEdge_lookBack hb
    | inr next => exact ih next

/-- A lookup is refused for the edge or the node that its input leads to. -/
theorem refusesEdge_lookupInput (c : Canvas) (limit : Nat) (e : Edge) :
    RefusesEdge (c.lookupInput limit e) := by
  rw [lookupInput_eq]
  cases c.node? e.source with
  | none => exact refusesEdge_error.2 trivial
  | some n =>
    simp only [lookupInputAt]
    split
    · exact (refusesEdge_fieldName _ _ _).map
    · exact (refusesEdge_inputField _ _ _ _).map
    · exact (refusesEdge_inputField _ _ _ _).map
    · exact refusesEdge_error.2 trivial

/-- **Resolving an edge never warns of a cycle or of the type of a node.** -/
theorem refusesEdge_resolve (c : Canvas) (limit : Nat) (e : Edge) (target : String) :
    RefusesEdge (c.resolve limit e target) := by
  rw [resolve_eq]
  cases c.node? e.source with
  | none => exact refusesEdge_error.2 trivial
  | some n =>
    simp only [ruleAt]
    split
    · exact (refusesEdge_fieldName _ _ _).map
    · split
      · exact refusesEdge_ok _
      · exact refusesEdge_error.2 trivial
    · exact (refusesEdge_inputField _ _ _ _).map
    · rw [resolveLookup_eq]
      split
      · split
        · exact refusesEdge_ok _
        · exact refusesEdge_error.2 trivial
      · exact (refusesEdge_lookupInput _ _ _).map
    · exact refusesEdge_error.2 trivial

end Canvas

namespace Exporter

open Plan

variable {c : Canvas} {x : Exporter} {w : Warning}

/-- The warnings of an export are those about nodes and edges, those of the plan, and those of the
rules. -/
theorem mem_exportAll_warnings :
    w ∈ (x.exportAll c).2.2 ↔
      ((w ∈ c.nodes.toList.filterMap nodeWarning? ∨ w ∈ c.edges.toList.filterMap (edgeWarning? c)) ∨
        w ∈ (plan c).2) ∨ w ∈ (x.exportRules c).2 := by
  simp only [exportAll, exportSnapshot, List.mem_append]

/-- The warnings of a rule set are the refusals of the edges that arrive. -/
theorem mem_exportRules_warnings :
    w ∈ (x.exportRules c).2 ↔
      ∃ a ∈ c.arrivals, c.resolve x.options.maxResolveDepth a.1 a.2 = .error w := by
  rw [exportRules_eq, List.mem_filterMap]
  refine exists_congr fun a => and_congr_right fun _ => ?_
  cases c.resolve x.options.maxResolveDepth a.1 a.2 <;> simp [warning?]

/-- The warnings about nodes and edges are of unknown types and unknown ends. -/
theorem not_mem_nodeWarning?_edgeWarning? (h : ∀ id typeName, w ≠ .unknownNodeType id typeName)
    (h' : ∀ id nodeId, w ≠ .unknownNode id nodeId) :
    ¬(w ∈ c.nodes.toList.filterMap nodeWarning? ∨
      w ∈ c.edges.toList.filterMap (edgeWarning? c)) := by
  simp only [List.mem_filterMap]
  rintro (⟨n, -, hn⟩ | ⟨e, -, he⟩)
  · unfold nodeWarning? at hn
    split at hn
    · exact h _ _ (Option.some.inj hn).symm
    · cases hn
  · obtain ⟨id, -, heq⟩ := Option.map_eq_some_iff.1 he
    exact h' _ _ heq.symm

/-- Only an edge is refused for its walk. -/
theorem depthExceeded_mem_exportAll (h : c.Coherent) {id : String} {limit : Nat} :
    .depthExceeded id limit ∈ (x.exportAll c).2.2 ↔
      ∃ a ∈ c.arrivals,
        c.resolve x.options.maxResolveDepth a.1 a.2 = .error (.depthExceeded id limit) := by
  rw [mem_exportAll_warnings, ← mem_exportRules_warnings]
  refine or_iff_right fun hmem => ?_
  refine hmem.elim (not_mem_nodeWarning?_edgeWarning? (by simp) (by simp)) fun hplan => ?_
  rw [warnings_plan h] at hplan
  split at hplan
  · cases hplan
  · cases List.mem_singleton.1 hplan

/-- Only the plan reports a cycle: all steps that it leaves out, if there are any. -/
theorem cycle_mem_exportAll (h : c.Coherent) {left : List String} :
    .cycle left ∈ (x.exportAll c).2.2 ↔
      left = c.innerIds.filter (· ∉ (final c).taken) ∧ left ≠ [] := by
  have hrules : .cycle left ∉ (x.exportRules c).2 := fun hmem => by
    obtain ⟨a, -, ha⟩ := mem_exportRules_warnings.1 hmem
    exact Canvas.refusesEdge_resolve _ _ _ _ _ ha
  rw [mem_exportAll_warnings, or_iff_left hrules,
    or_iff_right (not_mem_nodeWarning?_edgeWarning? (by simp) (by simp)), warnings_plan h]
  cases hleft : c.innerIds.filter (· ∉ (final c).taken) with
  | nil => simp
  | cons id ids =>
    simp only [List.mem_singleton, Warning.cycle.injEq, iff_self_and]
    rintro rfl
    exact List.cons_ne_nil _ _

/-- **The resolver and the plan agree about cycles.**  Under a limit of as many nodes as there are
besides sources and targets, every node at which a walk is refused stands in the one report of steps
that the plan leaves out; so nothing is refused for its walk where the plan leaves out no step. -/
theorem refused_mem_cycle (h : c.Coherent) (x : Exporter)
    (hl : (c.nodes.toList.filter fun n => n.body.schema?.isNone).length ≤
      x.options.maxResolveDepth) :
    (∀ id limit, .depthExceeded id limit ∈ (x.exportAll c).2.2 →
      (∃ left, .cycle left ∈ (x.exportAll c).2.2) ∧
        ∀ left, .cycle left ∈ (x.exportAll c).2.2 → id ∈ left) ∧
    ((∀ n ∈ c.nodes.toList, n.body.isStep →
        n.id ∈ (x.exportAll c).1.steps.map Snapshot.Step.nodeId) →
      ∀ id limit, .depthExceeded id limit ∉ (x.exportAll c).2.2) := by
  have hleft : ∀ id limit, .depthExceeded id limit ∈ (x.exportAll c).2.2 →
      id ∈ c.innerIds.filter (· ∉ (final c).taken) := by
    intro id limit hmem
    obtain ⟨a, -, ha⟩ := (depthExceeded_mem_exportAll h).1 hmem
    obtain ⟨hin, hcycle⟩ := h.behindCycle_of_refused
      (by rw [Canvas.innerIds, List.length_map]; exact hl) ha
    have hout : id ∉ (final c).taken := fun htaken => ((mem_final_taken_iff h).1 htaken).2 hcycle
    exact List.mem_filter.2 ⟨hin, decide_eq_true hout⟩
  refine ⟨fun id limit hmem => ⟨⟨_, (cycle_mem_exportAll h).2 ⟨rfl, List.ne_nil_of_mem
    (hleft id limit hmem)⟩⟩, fun left hcycle => ?_⟩, fun hall id limit hmem => ?_⟩
  · rw [((cycle_mem_exportAll h).1 hcycle).1]
    exact hleft id limit hmem
  · obtain ⟨hin, hout⟩ := List.mem_filter.1 (hleft id limit hmem)
    rw [← stepIds_eq] at hin
    obtain ⟨n, hn, rfl⟩ := List.mem_map.1 hin
    obtain ⟨hmemn, hstep⟩ := List.mem_filter.1 hn
    have htaken : n.id ∈ (plan c).1.map Snapshot.Step.nodeId := hall n hmemn hstep
    rw [map_nodeId_plan h] at htaken
    exact of_decide_eq_true hout htaken

/-- Two steps that feed each other, and a target that one of them feeds. -/
def mutualSteps : Canvas :=
  .ofLists
    [⟨"if", .origin, .transform "if" (.conditional ⟨.equals, .null, .null, .null⟩)⟩,
      ⟨"pass", .origin, .transform "pass" .passThrough⟩,
      ⟨"out", .origin, .target (.ofFields "out" [.ofName "x" .string])⟩]
    [⟨"on", "if", none, "pass", none⟩, ⟨"back", "pass", none, "if", none⟩,
      ⟨"write", "if", none, "out", some "x"⟩]

/-- An exporter that lets a walk go through two nodes. -/
def twoStepExporter : Exporter := ⟨⟨2, "1.0"⟩, "mutual", "Mutual", none, ⟨0, 0⟩, none, []⟩

/-- The walk around two steps is refused at the first of them, which the plan reports. -/
theorem refused_mem_cycle_mutualSteps :
    mutualSteps.Coherent ∧
      (mutualSteps.nodes.toList.filter fun n => n.body.schema?.isNone).length ≤
        twoStepExporter.options.maxResolveDepth ∧
      .depthExceeded "if" 2 ∈ (twoStepExporter.exportAll mutualSteps).2.2 ∧
      ∃ left, .cycle left ∈ (twoStepExporter.exportAll mutualSteps).2.2 ∧ "if" ∈ left := by
  have hc : mutualSteps.Coherent := Canvas.coherent_ofLists _ _
  have hnodes : mutualSteps.nodes.toList = _ := Canvas.nodes_ofLists (by decide) _
  have hedges : mutualSteps.edges.toList = _ := Canvas.edges_ofLists _ _
  have hif : mutualSteps.node? "if" = some _ :=
    hc.node?_of_mem (hnodes ▸ List.mem_cons_self)
  have hpass : mutualSteps.node? "pass" = some _ :=
    hc.node?_of_mem (hnodes ▸ List.mem_cons_of_mem _ List.mem_cons_self)
  have hback : mutualSteps.lookBack "if" = .inr "pass" := by
    rw [Canvas.lookBack_node (hc.firstInput?_eq.trans (by rw [hedges]; rfl)) hpass]
    rfl
  have hback' : mutualSteps.lookBack "pass" = .inr "if" := by
    rw [Canvas.lookBack_node (hc.firstInput?_eq.trans (by rw [hedges]; rfl)) hif]
    rfl
  have hwalk : mutualSteps.inputField 2 2 "if" = .error (.depthExceeded "if" 2) := by
    rw [Canvas.inputField_succ_of_inr hback, Canvas.inputField_succ_of_inr hback']
    rfl
  have harrivals : mutualSteps.arrivals = [(⟨"write", "if", none, "out", some "x"⟩, "x")] := by
    simp only [Canvas.arrivals, hnodes, List.flatMap_cons, List.flatMap_nil, Canvas.arrivalsAt,
      Node.Body.targetSchema?, Field.walk_eq_preorder, Canvas.incomingAt, hc.incoming_eq, hedges]
    rfl
  have hlength : (mutualSteps.nodes.toList.filter fun n => n.body.schema?.isNone).length ≤
      twoStepExporter.options.maxResolveDepth := by
    rw [hnodes]
    decide
  have hrefused : .depthExceeded "if" 2 ∈ (twoStepExporter.exportAll mutualSteps).2.2 := by
    refine (depthExceeded_mem_exportAll hc).2 ⟨_, harrivals ▸ List.mem_singleton_self _, ?_⟩
    rw [Canvas.resolve_eq, hif]
    simp only [Canvas.ruleAt, twoStepExporter, hwalk, Except.map]
  obtain ⟨⟨left, hleft⟩, hall⟩ :=
    (refused_mem_cycle hc twoStepExporter hlength).1 "if" 2 hrefused
  exact ⟨hc, hlength, hrefused, left, hleft, hall left hleft⟩

end Exporter
end MappingCanvas
