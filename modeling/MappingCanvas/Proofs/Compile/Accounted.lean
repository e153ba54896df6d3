/-
# What becomes of the edges into targets

An edge into a target whose handle is the id of a field comes to a rule for the field or to a
warning (`Canvas.outcome?`).  An export goes through the ports and asks for the edges at each.  As
long as the ids of fields do not repeat inside a target that is the same as to go through the edges
and to ask for the port of each (`arrivals_perm`), and so every edge with a port is counted once:
its outcome is one of the rules or one of the warnings (`exportRules_accounted`).

An edge into a target that names no handle, or one that is the id of no field there, has no port.
It comes to nothing, and no warning tells of it (`exportRules_loses_removedField`).
-/

import MappingCanvas.Proofs.Compile.Arrivals
import MappingCanvas.Proofs.Compile.Origin
import MappingCanvas.Proofs.Lists

namespace MappingCanvas
namespace Canvas

variable {c : Canvas} {e : Edge}

/-! ### The port of an edge -/

/-- The field at which an edge arrives. -/
def field? (c : Canvas) (e : Edge) : Option Field := (c.ports.find? e.meets).map Prod.snd

/-- The ids of fields do not repeat inside a target. -/
def DistinctFields (c : Canvas) : Prop :=
  ∀ n ∈ c.nodes.toList, ∀ s, n.body = .target s →
    ((Field.preorderForest s.fields).map Field.id).Nodup

/-- An edge arrives at a field when its handle is the id of a field of its target. -/
theorem field?_isSome_iff :
    (c.field? e).isSome = true ↔ ∃ n ∈ c.nodes.toList, n.id = e.target ∧ ∃ s, n.body = .target s ∧
      ∃ f ∈ Field.preorderForest s.fields, e.targetHandle? = some f.id := by
  rw [field?, Option.isSome_map, List.find?_isSome]
  constructor
  · rintro ⟨port, hport, hmeets⟩
    obtain ⟨htarget, hhandle⟩ := Edge.meets_iff.1 hmeets
    obtain ⟨n, hn, hid, s, hs, hf⟩ := mem_ports.1 hport
    exact ⟨n, hn, hid.trans htarget.symm, s, hs, port.2, hf, hhandle⟩
  · rintro ⟨n, hn, hid, s, hs, f, hf, hhandle⟩
    exact ⟨(e.target, f), mem_ports.2 ⟨n, hn, hid, s, hs, hf⟩, Edge.meets_iff.2 ⟨rfl, hhandle⟩⟩

/-- No two ports have the same target and the same field id. -/
theorem DistinctFields.nodup_ports (hd : c.DistinctFields) (hc : c.Coherent) :
    (c.ports.map fun port => (port.1, port.2.id)).Nodup := by
  have hfst : ∀ n : Node, ∀ key ∈ n.ports.map fun port => (port.1, port.2.id), key.1 = n.id := by
    intro n key hkey
    obtain ⟨port, hport, rfl⟩ := List.mem_map.1 hkey
    exact (Node.mem_ports.1 hport).1
  rw [ports, List.map_flatMap, List.nodup_flatMap]
  constructor
  · intro n hn
    obtain ⟨id, position, body⟩ := n
    cases body with
    | target s =>
      have hids := (hd _ hn s rfl).map (Prod.mk_right_injective id)
      simpa [Node.ports, Node.Body.targetSchema?, Function.comp_def] using hids
    | _ => exact List.nodup_nil
  · refine (List.pairwise_map.1 hc.nodup_ids).imp fun hne => ?_
    intro key hkey hkey'
    exact hne ((hfst _ _ hkey).symm.trans (hfst _ _ hkey'))

/-- An edge meets one port at most. -/
theorem DistinctFields.filter_meets (hd : c.DistinctFields) (hc : c.Coherent) (e : Edge) :
    c.ports.filter e.meets = (c.ports.find? e.meets).toList := by
  refine filter_eq_toList_find? (hd.nodup_ports hc) fun port port' h h' => ?_
  obtain ⟨hid, hhandle⟩ := Edge.meets_iff.1 h
  obtain ⟨hid', hhandle'⟩ := Edge.meets_iff.1 h'
  exact Prod.ext (hid.symm.trans hid') (Option.some.inj (hhandle.symm.trans hhandle'))

/-- **The edges that arrive somewhere, edge by edge.** -/
theorem DistinctFields.arrivals_perm (hd : c.DistinctFields) (hc : c.Coherent) :
    c.arrivals.Perm
      (c.edges.toList.filterMap fun e => (c.field? e).map fun f => (e, f.name)) := by
  have hedge : ∀ e : Edge,
      (c.ports.flatMap fun port => if e.meets port then [(e, port.2.name)] else []) =
        ((c.field? e).map fun f => (e, f.name)).toList := by
    intro e
    rw [← map_filter_eq_flatMap, hd.filter_meets hc, field?]
    cases c.ports.find? e.meets <;> rfl
  rw [hc.arrivals_eq, List.filterMap_eq_flatMap_toList]
  simp only [map_filter_eq_flatMap, ← hedge]
  exact flatMap_swap_perm _ _ _

/-! ### Outcomes -/

/-- What an edge that arrives at a field comes to. -/
def outcome? (c : Canvas) (limit : Nat) (e : Edge) : Option (Except Warning Rule) :=
  (c.field? e).map fun f => c.resolve limit e f.name

/-- The edges whose target is a target. -/
def intoTargets (c : Canvas) : List Edge :=
  c.edges.toList.filter fun e =>
    c.nodes.toList.any fun n => n.id == e.target && n.body.targetSchema?.isSome

/-- The edges into targets that arrive at no field. -/
def lost (c : Canvas) : List Edge := c.intoTargets.filter fun e => (c.field? e).isNone

/-- What the edges into targets come to, in edge order. -/
def outcomes (c : Canvas) (limit : Nat) : List (Except Warning Rule) :=
  c.intoTargets.filterMap (c.outcome? limit)

/-- Only an edge into a target arrives at a field. -/
theorem outcomes_eq (c : Canvas) (limit : Nat) :
    c.outcomes limit = c.edges.toList.filterMap (c.outcome? limit) := by
  rw [outcomes, intoTargets, List.filterMap_filter]
  refine List.filterMap_congr fun e _ => ?_
  cases hf : c.field? e with
  | none => simp [outcome?, hf]
  | some f =>
    obtain ⟨n, hn, hid, s, hs, -⟩ := field?_isSome_iff.1 (by rw [hf]; rfl)
    exact if_pos (List.any_eq_true.2 ⟨n, hn, by simp [hid, hs, Node.Body.targetSchema?]⟩)

/-- **The edges that arrive at fields come to their outcomes.** -/
theorem DistinctFields.outcomes_perm (hd : c.DistinctFields) (hc : c.Coherent) (limit : Nat) :
    (c.arrivals.map fun a => c.resolve limit a.1 a.2).Perm (c.outcomes limit) := by
  have h := (hd.arrivals_perm hc).map fun a => c.resolve limit a.1 a.2
  simp only [List.map_filterMap, Option.map_map, Function.comp_def] at h
  rw [outcomes_eq]
  exact h

/-- An edge has an outcome or is lost. -/
theorem length_outcomes_add_lost (c : Canvas) (limit : Nat) :
    (c.outcomes limit).length + c.lost.length = c.intoTargets.length := by
  rw [outcomes, lost]
  induction c.intoTargets with
  | nil => rfl
  | cons e es ih =>
    cases hf : c.field? e <;> simp [outcome?, hf] <;> omega

end Canvas

namespace Exporter

open Canvas

variable {c : Canvas}

/-- An outcome is a rule or a warning, and not both. -/
theorem length_rules_add_warnings (outcomes : List (Except Warning Rule)) :
    (outcomes.filterMap rule?).length + (outcomes.filterMap warning?).length =
      outcomes.length := by
  induction outcomes with
  | nil => rfl
  | cons outcome outcomes ih =>
    cases outcome with
    | ok r =>
      simp only [List.filterMap_cons, rule?, warning?, List.length_cons]
      omega
    | error w =>
      simp only [List.filterMap_cons, rule?, warning?, List.length_cons]
      omega

/-- **Every edge that arrives at a field is counted once.**  Where the ids of fields do not repeat
inside a target, the rules and the warnings of an export are the outcomes of the edges into targets,
one for each edge that has one.  Those that have none are the edges whose handle is missing or is
the id of no field of their target; with them the edges into targets are complete. -/
theorem exportRules_accounted (hc : c.Coherent) (hd : c.DistinctFields) (x : Exporter) :
    (x.exportRules c).1.rules.Perm ((c.outcomes x.options.maxResolveDepth).filterMap rule?) ∧
    (x.exportRules c).2.Perm ((c.outcomes x.options.maxResolveDepth).filterMap warning?) ∧
    (x.exportRules c).1.rules.length + (x.exportRules c).2.length + c.lost.length =
      c.intoTargets.length ∧
    ∀ e ∈ c.intoTargets, e ∈ c.lost ↔
      ∀ n ∈ c.nodes.toList, n.id = e.target → ∀ s, n.body = .target s →
        ∀ f ∈ Field.preorderForest s.fields, e.targetHandle? ≠ some f.id := by
  have hperm := hd.outcomes_perm hc x.options.maxResolveDepth
  have hrules : (x.exportRules c).1.rules.Perm
      ((c.outcomes x.options.maxResolveDepth).filterMap rule?) := by
    rw [exportRules_eq]
    simpa only [List.filterMap_map, Function.comp_def] using hperm.filterMap rule?
  have hwarnings : (x.exportRules c).2.Perm
      ((c.outcomes x.options.maxResolveDepth).filterMap warning?) := by
    rw [exportRules_eq]
    simpa only [List.filterMap_map, Function.comp_def] using hperm.filterMap warning?
  refine ⟨hrules, hwarnings, ?_, fun e he => ?_⟩
  · rw [hrules.length_eq, hwarnings.length_eq, length_rules_add_warnings,
      length_outcomes_add_lost]
  · have hlost : e ∈ c.lost ↔ ¬(c.field? e).isSome = true := by
      rw [lost, List.mem_filter, Option.not_isSome_iff_eq_none, Option.isNone_iff_eq_none]
      exact and_iff_right he
    rw [hlost, field?_isSome_iff]
    simp only [not_exists, not_and, ne_eq]

/-! ### Edges that are lost -/

/-- A source and a target with one field each, and three edges between them: one that copies the
field, one from a field that the source does not have, and one to a field that the target does not
have. -/
def removedField : Canvas :=
  .ofLists
    [⟨"in", .origin, .source (.ofFields "Input" [.ofName "a" .string])⟩,
      ⟨"out", .origin, .target (.ofFields "Output" [.ofName "x" .string])⟩]
    [⟨"copy", "in", some "a", "out", some "x"⟩, ⟨"from", "in", some "b", "out", some "x"⟩,
      ⟨"to", "in", some "a", "out", some "y"⟩]

theorem coherent_removedField : removedField.Coherent := Canvas.coherent_ofLists _ _

theorem nodes_removedField : removedField.nodes.toList =
    [⟨"in", .origin, .source (.ofFields "Input" [.ofName "a" .string])⟩,
      ⟨"out", .origin, .target (.ofFields "Output" [.ofName "x" .string])⟩] :=
  Canvas.nodes_ofLists (by decide) _

theorem edges_removedField : removedField.edges.toList =
    [⟨"copy", "in", some "a", "out", some "x"⟩, ⟨"from", "in", some "b", "out", some "x"⟩,
      ⟨"to", "in", some "a", "out", some "y"⟩] := Canvas.edges_ofLists _ _

/-- Neither the source nor the target repeats the id of a field. -/
theorem distinctFields_removedField : removedField.DistinctFields := by
  intro n hn s hs
  rw [nodes_removedField] at hn
  rcases List.mem_cons.1 hn with rfl | hn
  · cases hs
  · obtain rfl := List.mem_singleton.1 hn
    obtain rfl := Node.Body.target.inj hs
    decide

/-- Two of the three edges are counted and one is lost. -/
theorem exportRules_accounted_removedField :
    removedField.Coherent ∧ removedField.DistinctFields ∧
      removedField.lost = [⟨"to", "in", some "a", "out", some "y"⟩] ∧
      (plainExporter.exportRules removedField).1.rules.length +
        (plainExporter.exportRules removedField).2.length + 1 = 3 := by
  have hinto : removedField.intoTargets = removedField.edges.toList := by
    rw [Canvas.intoTargets, nodes_removedField, edges_removedField]
    decide
  have hlost : removedField.lost = [⟨"to", "in", some "a", "out", some "y"⟩] := by
    simp only [Canvas.lost, hinto, Canvas.field?, Canvas.ports, nodes_removedField,
      edges_removedField]
    decide
  obtain ⟨-, -, hcount, -⟩ := exportRules_accounted coherent_removedField
    distinctFields_removedField plainExporter
  rw [hlost, hinto, edges_removedField] at hcount
  exact ⟨coherent_removedField, distinctFields_removedField, hlost, hcount⟩

/-- **An edge to a field that the target does not have is lost.**  Three edges go into the target;
of one of them neither a rule nor a warning tells. -/
theorem exportRules_loses_removedField :
    removedField.Coherent ∧ removedField.DistinctFields ∧ removedField.intoTargets.length = 3 ∧
      ∀ x : Exporter, (x.exportRules removedField).1.rules = [⟨some "a", "x", .copy⟩] ∧
        (x.exportRules removedField).2 = [.unknownField "in" "b"] := by
  have hinto : removedField.intoTargets.length = 3 := by
    rw [Canvas.intoTargets, nodes_removedField, edges_removedField]
    decide
  have harrivals : removedField.arrivals =
      [(⟨"copy", "in", some "a", "out", some "x"⟩, "x"),
        (⟨"from", "in", some "b", "out", some "x"⟩, "x")] := by
    simp only [Canvas.arrivals, nodes_removedField, List.flatMap_cons, List.flatMap_nil,
      Canvas.arrivalsAt, Node.Body.targetSchema?, Field.walk_eq_preorder, Canvas.incomingAt,
      coherent_removedField.incoming_eq, edges_removedField]
    rfl
  have hin : removedField.node? "in" =
      some ⟨"in", .origin, .source (.ofFields "Input" [.ofName "a" .string])⟩ :=
    coherent_removedField.node?_eq_some_iff.2 ⟨by simp [nodes_removedField], rfl⟩
  have hfield : Field.find? [.ofName "a" .string] "a" = some (.ofName "a" .string) := by
    simp only [Field.find?, Field.findById?, Field.walk_eq_preorder]
    rfl
  have hnone : Field.find? [.ofName "a" .string] "b" = none := by
    simp only [Field.find?, Field.findById?, Field.walk_eq_preorder]
    rfl
  have hcopy : ∀ limit, removedField.resolve limit
      ⟨"copy", "in", some "a", "out", some "x"⟩ "x" = .ok ⟨some "a", "x", .copy⟩ := by
    intro limit
    exact Canvas.resolve_eq_ok_iff.2
      (.source hin rfl (Canvas.fieldName_eq_ok_iff.2 ⟨"a", _, by decide, hfield, rfl⟩))
  have hfrom : ∀ limit, removedField.resolve limit
      ⟨"from", "in", some "b", "out", some "x"⟩ "x" = .error (.unknownField "in" "b") := by
    intro limit
    have hhandle : Edge.sourceHandle? ⟨"from", "in", some "b", "out", some "x"⟩ = some "b" := by
      decide
    simp only [Canvas.resolve_eq, hin, Canvas.ruleAt, Canvas.fieldName, hhandle, Schema.ofFields,
      hnone, Except.map]
  refine ⟨coherent_removedField, distinctFields_removedField, hinto, fun x => ?_⟩
  rw [exportRules_eq, harrivals]
  simp only [List.filterMap_cons, List.filterMap_nil, hcopy, hfrom, rule?, warning?, and_self]

end Exporter
end MappingCanvas
