/-
# Canvases that no rule tells apart

Two canvases are indistinct (`Canvas.Indistinct`) when they have the same nodes in essence, their
targets in the same order, the same edges at each field of a target, and the same first input of
every other node.  Everything else may differ: where nodes stand, what they are called and show,
their order apart from that of the targets, the places of the edges, and all but the first of the
edges that arrive at a transform or lookup.

Indistinct canvases agree, so they resolve every edge alike; and the same edges arrive in the same
order (`Indistinct.arrivals_eq`).  So they export the same rules with the same warnings
(`exportRules_noninterference`).
-/

import MappingCanvas.Proofs.Compile.Agreement
import MappingCanvas.Proofs.Schema.Traversal

namespace MappingCanvas
namespace Canvas

variable {c d : Canvas} {n m : Node}

/-- The targets, in canvas order. -/
def targets (c : Canvas) : List Node :=
  c.nodes.toList.filter fun n => n.body.targetSchema?.isSome

/-- Two canvases differ at most in what rules do not read. -/
structure Indistinct (c d : Canvas) : Prop where
  /-- Under every id there is the same node in essence, or none. -/
  node : ∀ id, (c.node? id).map Node.essence = (d.node? id).map Node.essence
  /-- The targets stand in the same order. -/
  target : c.targets.map Node.id = d.targets.map Node.id
  /-- The same edges arrive at each field of a target, in the same order. -/
  arrival : ∀ n ∈ c.targets, ∀ s, n.body.targetSchema? = some s → ∀ f ∈ Field.walk s.fields,
    c.incomingAt n.id f.id = d.incomingAt n.id f.id
  /-- Every other node has the same first input, or none. -/
  input : ∀ n ∈ c.nodes.toList, n.body.targetSchema? = none →
    c.firstInput? n.id = d.firstInput? n.id

/-- Targets are the nodes that are targets. -/
theorem mem_targets : n ∈ c.targets ↔ n ∈ c.nodes.toList ∧ n.body.targetSchema?.isSome := by
  simp [targets]

/-- Indistinct canvases agree on what rules read. -/
theorem Indistinct.agree (h : Indistinct c d) : Agree c d where
  node := h.node
  input _ n hn hbody := h.input n (mem_of_node? hn) hbody

/-! ### Targets -/

/-- What is collected from targets alone is collected from the targets. -/
theorem flatMap_targets {α : Type} {f : Node → List α}
    (hf : ∀ n, n.body.targetSchema? = none → f n = []) :
    c.targets.flatMap f = c.nodes.toList.flatMap f := by
  unfold targets
  induction c.nodes.toList with
  | nil => rfl
  | cons n ns ih =>
    rw [List.flatMap_cons, ← ih]
    cases hn : n.body.targetSchema? with
    | none => rw [List.filter_cons_of_neg (by simp [hn]), hf n hn, List.nil_append]
    | some s => rw [List.filter_cons_of_pos (by simp [hn]), List.flatMap_cons]

/-- Lists that look alike give the same where elements that look alike do. -/
theorem flatMap_eq_of_map_eq {α β κ : Type} {key : α → κ} {f g : α → List β} {xs ys : List α}
    (h : xs.map key = ys.map key)
    (hfg : ∀ x ∈ xs, ∀ y, key x = key y → f x = g y) : xs.flatMap f = ys.flatMap g := by
  induction xs generalizing ys with
  | nil =>
    obtain rfl := List.map_eq_nil_iff.1 h.symm
    rfl
  | cons x xs ih =>
    obtain ⟨y, ys, rfl, hkey, hrest⟩ := List.map_eq_cons_iff.1 h.symm
    obtain ⟨hx, hxs⟩ := List.forall_mem_cons.1 hfg
    rw [List.flatMap_cons, List.flatMap_cons, hx y hkey.symm, ih hrest.symm hxs]

/-- The essence of each target is that of the node under its id. -/
theorem Coherent.filterMap_targets (h : c.Coherent) :
    (c.targets.map Node.id).filterMap (fun id => (c.node? id).map Node.essence) =
      c.targets.map Node.essence := by
  rw [List.filterMap_map, ← List.filterMap_eq_map]
  refine List.filterMap_congr fun n hn => ?_
  simp only [Function.comp_apply, h.node?_of_mem (mem_targets.1 hn).1, Option.map_some]

/-- Targets of indistinct canvases have the same essence, one by one. -/
theorem Indistinct.map_essence_targets (h : Indistinct c d) (hc : c.Coherent) (hd : d.Coherent) :
    c.targets.map Node.essence = d.targets.map Node.essence := by
  rw [← hc.filterMap_targets, ← hd.filterMap_targets, h.target]
  exact List.filterMap_congr fun id _ => h.node id

/-- What is left of a target in essence is its fields. -/
theorem targetSchema?_essence (b : Node.Body) :
    b.essence.targetSchema? = b.targetSchema?.map fun s => .ofFields "" s.fields := by
  cases b <;> rfl

/-- The fields of nodes that look alike are the same. -/
theorem fields_eq_of_essence (h : n.essence = m.essence) :
    (n.body.targetSchema?.map Schema.fields) = m.body.targetSchema?.map Schema.fields := by
  have hbody : n.body.essence = m.body.essence := (Node.mk.inj h).2.2
  have hschema := congrArg (fun b => b.targetSchema?.map Schema.fields) hbody
  simpa only [targetSchema?_essence, Option.map_map, Function.comp_def, Schema.ofFields] using
    hschema

/-! ### Arrivals and groupings -/

/-- What arrives at a target depends on its fields and the edges at each of them. -/
theorem arrivalsAt_congr (hnm : n.essence = m.essence)
    (harrival : ∀ s, n.body.targetSchema? = some s → ∀ f ∈ Field.walk s.fields,
      c.incomingAt n.id f.id = d.incomingAt n.id f.id) : c.arrivalsAt n = d.arrivalsAt m := by
  have hid : n.id = m.id := (Node.mk.inj hnm).1
  have hfields := fields_eq_of_essence hnm
  unfold arrivalsAt
  cases hn : n.body.targetSchema? with
  | none =>
    rw [hn, Option.map_none, eq_comm, Option.map_eq_none_iff] at hfields
    rw [hfields]
  | some s =>
    rw [hn, Option.map_some, eq_comm, Option.map_eq_some_iff] at hfields
    obtain ⟨t, ht, heq⟩ := hfields
    rw [ht]
    simp only [heq]
    refine List.flatMap_congr fun f hf => ?_
    rw [harrival s hn f hf, hid]

/-- **At indistinct canvases the same edges arrive in the same order.** -/
theorem Indistinct.arrivals_eq (h : Indistinct c d) (hc : c.Coherent) (hd : d.Coherent) :
    c.arrivals = d.arrivals := by
  have hnone (c : Canvas) : ∀ n, n.body.targetSchema? = none → c.arrivalsAt n = [] := by
    intro n hn
    simp only [arrivalsAt, hn]
  rw [arrivals, arrivals, ← flatMap_targets (hnone c), ← flatMap_targets (hnone d)]
  exact flatMap_eq_of_map_eq (h.map_essence_targets hc hd) fun n hn m hnm =>
    arrivalsAt_congr hnm (h.arrival n hn)

/-- Indistinct canvases have the same groupings. -/
theorem Indistinct.groupings_eq (h : Indistinct c d) (hc : c.Coherent) (hd : d.Coherent) :
    c.nodes.toList.flatMap Exporter.targetGroupings =
      d.nodes.toList.flatMap Exporter.targetGroupings := by
  have heq (n : Node) : Exporter.targetGroupings n =
      ((n.body.targetSchema?.map Schema.fields).map Grouping.collect).getD [] := by
    unfold Exporter.targetGroupings
    cases n.body.targetSchema? <;> rfl
  have hnone : ∀ n, n.body.targetSchema? = none → Exporter.targetGroupings n = [] := by
    intro n hn
    simp only [Exporter.targetGroupings, hn]
  rw [← flatMap_targets hnone, ← flatMap_targets hnone]
  refine flatMap_eq_of_map_eq (h.map_essence_targets hc hd) fun n _ m hnm => ?_
  rw [heq, heq, fields_eq_of_essence hnm]

/-- **Indistinct canvases export the same rules and warnings.** -/
theorem Indistinct.exportRules_eq (h : Indistinct c d) (hc : c.Coherent) (hd : d.Coherent)
    (x : Exporter) : x.exportRules c = x.exportRules d :=
  exportRules_congr h.agree (h.arrivals_eq hc hd) (h.groupings_eq hc hd) x

/-! ### Changes that no rule sees -/

/-- Nodes in the same order, alike one by one, leave only the edges to be told apart. -/
theorem Coherent.indistinct (hc : c.Coherent) (hd : d.Coherent)
    (hnodes : c.nodes.toList.map Node.essence = d.nodes.toList.map Node.essence)
    (harrival : ∀ n ∈ c.targets, c.incoming n.id = d.incoming n.id)
    (hinput : ∀ n ∈ c.nodes.toList, n.body.targetSchema? = none →
      c.firstInput? n.id = d.firstInput? n.id) : Indistinct c d where
  node := hc.map_essence_node? hd fun k => by rw [hnodes]
  target := by
    have hids (ns : List Node) : (ns.filter fun n => n.body.targetSchema?.isSome).map Node.id =
        ((ns.map Node.essence).filter fun n => n.body.targetSchema?.isSome).map Node.id := by
      rw [List.filter_map, List.map_map]
      simp only [Function.comp_def, Node.essence, targetSchema?_essence, Option.isSome_map]
    rw [targets, targets, hids c.nodes.toList, hids d.nodes.toList, hnodes]
  arrival n hn s _ f _ := by
    rw [incomingAt, incomingAt, harrival n hn]
  input := hinput

/-- **Rules do not interfere with what they do not read.**  Indistinct canvases export the same
rules and warnings under the same settings.  In particular nothing changes when nodes are moved,
relabelled or show something else, when edges to different nodes change places, or when a node that
is no target is given one more input behind its first. -/
theorem exportRules_noninterference (hc : c.Coherent) (hd : d.Coherent) (x : Exporter) :
    (Indistinct c d → x.exportRules c = x.exportRules d) ∧
    (c.nodes.toList.map Node.essence = d.nodes.toList.map Node.essence →
      c.edges.toList = d.edges.toList → x.exportRules c = x.exportRules d) ∧
    (c.nodes.toList = d.nodes.toList →
      (∀ id, c.edges.toList.filter (·.target == id) = d.edges.toList.filter (·.target == id)) →
      x.exportRules c = x.exportRules d) ∧
    ∀ before e after, c.nodes.toList = d.nodes.toList →
      c.edges.toList = before ++ after → d.edges.toList = before ++ e :: after →
      (∃ first ∈ before, first.target = e.target) →
      (∀ n ∈ c.nodes.toList, n.id = e.target → n.body.targetSchema? = none) →
      x.exportRules c = x.exportRules d := by
  refine ⟨fun h => h.exportRules_eq hc hd x, fun hnodes hedges => ?_, fun hnodes hedges => ?_, ?_⟩
  · have hincoming (id : String) : c.incoming id = d.incoming id := by
      rw [hc.incoming_eq, hd.incoming_eq, hedges]
    exact (hc.indistinct hd hnodes (fun n _ => hincoming n.id) fun n _ _ => by
      rw [firstInput?, firstInput?, hincoming]).exportRules_eq hc hd x
  · have hincoming (id : String) : c.incoming id = d.incoming id := by
      rw [hc.incoming_eq, hd.incoming_eq, hedges]
    exact (hc.indistinct hd (by rw [hnodes]) (fun n _ => hincoming n.id) fun n _ _ => by
      rw [firstInput?, firstInput?, hincoming]).exportRules_eq hc hd x
  · rintro before e after hnodes hce hde ⟨first, hfirst, htarget⟩ hinner
    refine (hc.indistinct hd (by rw [hnodes]) (fun n hn => ?_) fun n _ _ => ?_).exportRules_eq
      hc hd x
    · -- The new edge does not arrive at a target.
      obtain ⟨hmem, hsome⟩ := mem_targets.1 hn
      have hne : e.target ≠ n.id := fun heq => by
        rw [hinner n hmem heq.symm] at hsome
        cases hsome
      rw [hc.incoming_eq, hd.incoming_eq, hce, hde, List.filter_append, List.filter_append,
        List.filter_cons_of_neg (by simpa using hne)]
    · rw [firstInput?, firstInput?, hc.incoming_eq, hd.incoming_eq, hce, hde, List.filter_append,
        List.filter_append]
      by_cases heq : e.target = n.id
      · -- It stands behind the first input of its node.
        have hne : before.filter (·.target == n.id) ≠ [] :=
          List.ne_nil_of_mem (List.mem_filter.2 ⟨hfirst, by simp [htarget, heq]⟩)
        rw [List.head?_append_of_ne_nil _ hne, List.head?_append_of_ne_nil _ hne]
      · rw [List.filter_cons_of_neg (by simpa using heq)]

/-! ### Two indistinct canvases -/

/-- A canvas of a source, a conditional that reads it, and a target that the conditional feeds. -/
def conditionalFlow : Canvas :=
  .ofLists
    [⟨"in", .origin, .source (.ofFields "Input" [.ofName "a" .string])⟩,
      ⟨"if", .origin, .transform "Choose" (.conditional ⟨.equals, .null, .null, .null⟩)⟩,
      ⟨"out", .origin, .target (.ofFields "Output" [.ofName "x" .string])⟩]
    [⟨"read", "in", some "a", "if", none⟩, ⟨"write", "if", none, "out", some "x"⟩]

/-- The same flow drawn otherwise: the nodes stand in another order under other labels, one of them
elsewhere, the edges have changed places, and the conditional has a second input. -/
def redrawnFlow : Canvas :=
  .ofLists
    [⟨"out", .origin, .target (.ofFields "Result" [.ofName "x" .string])⟩,
      ⟨"in", ⟨10, 20⟩, .source (.ofFields "Start" [.ofName "a" .string])⟩,
      ⟨"if", .origin, .transform "Decide" (.conditional ⟨.equals, .null, .null, .null⟩)⟩]
    [⟨"write", "if", none, "out", some "x"⟩, ⟨"read", "in", some "a", "if", none⟩,
      ⟨"second", "in", none, "if", none⟩]

/-- Both drawings of one flow export the same rules. -/
theorem exportRules_noninterference_redrawnFlow :
    conditionalFlow.Coherent ∧ redrawnFlow.Coherent ∧ Indistinct conditionalFlow redrawnFlow ∧
      ∀ x : Exporter, x.exportRules conditionalFlow = x.exportRules redrawnFlow := by
  have hc : conditionalFlow.Coherent := coherent_ofLists _ _
  have hd : redrawnFlow.Coherent := coherent_ofLists _ _
  have hnodes : conditionalFlow.nodes.toList = _ := nodes_ofLists (by decide) _
  have hnodes' : redrawnFlow.nodes.toList = _ := nodes_ofLists (by decide) _
  have hedges : conditionalFlow.edges.toList = _ := edges_ofLists _ _
  have hedges' : redrawnFlow.edges.toList = _ := edges_ofLists _ _
  have h : Indistinct conditionalFlow redrawnFlow :=
    { node := hc.map_essence_node? hd fun k => by
        rw [hnodes, hnodes']
        simp only [List.map_cons, List.map_nil, List.mem_cons, List.not_mem_nil, Node.essence,
          Node.Body.essence, Schema.ofFields]
        tauto
      target := by
        rw [targets, targets, hnodes, hnodes']
        rfl
      arrival := fun n hn s hs f hf => by
        rw [targets, hnodes] at hn
        obtain rfl := List.mem_singleton.1 hn
        obtain rfl := Option.some.inj hs
        rw [Field.walk_eq_preorder] at hf
        obtain rfl := List.mem_singleton.1 hf
        rw [incomingAt, incomingAt, hc.incoming_eq, hd.incoming_eq, hedges, hedges']
        rfl
      input := fun n hn _ => by
        rw [hnodes] at hn
        rw [firstInput?, firstInput?, hc.incoming_eq, hd.incoming_eq, hedges, hedges']
        rcases List.mem_cons.1 hn with rfl | hn
        · rfl
        · rcases List.mem_cons.1 hn with rfl | hn
          · rfl
          · obtain rfl := List.mem_singleton.1 hn
            rfl }
  exact ⟨hc, hd, h, fun x => (exportRules_noninterference hc hd x).1 h⟩

end Canvas
end MappingCanvas
