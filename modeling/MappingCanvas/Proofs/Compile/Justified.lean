/-
# What stands behind a rule

A rule is not made up: it stands for an edge that arrives at a field of a target, and its source
field, if it has one, is found at the other end of a chain of edges.  The chain leads backwards from
that edge, each link arriving at the step that the one in front of it leaves (`Canvas.Behind`), and
its last edge leaves a source at a handle that finds the field (`Canvas.Reads`).  The one exception
is a lookup that nothing arrives at, which names the field it remembers.

A walk has such a chain behind it (`backed_of_inputField`, by induction on the steps it may take),
so does the input of a lookup, and with the ways to a rule (`Canvas.Resolves`) that is all there is
(`exportRules_justified`).
-/

import Mathlib.Logic.Relation
import MappingCanvas.Proofs.Compile.Arrivals
import MappingCanvas.Proofs.Compile.Origin

namespace MappingCanvas

/-- The constant that is found is one of the list. -/
theorem Constant.mem_of_find? {values : List Constant} {handle : Option String} {k : Constant}
    (h : find? values handle = some k) : k ∈ values := by
  cases handle with
  | none => exact List.mem_of_mem_head? h
  | some handle =>
    simp only [find?] at h
    split at h
    · rename_i k' hk'
      exact Option.some.inj h ▸ List.mem_of_find?_eq_some hk'
    · split at h
      · exact Option.some.inj h ▸ List.mem_singleton_self _
      · cases h

namespace Canvas

open Relation

variable {c : Canvas} {e input : Edge} {n : Node} {limit steps : Nat} {field : String}

/-! ### Chains of edges -/

/-- An edge stands behind another one when it arrives at the node that the other one leaves, which
is neither source nor target. -/
def Behind (c : Canvas) (e e' : Edge) : Prop :=
  e' ∈ c.edges.toList ∧ e'.target = e.source ∧
    ∃ n ∈ c.nodes.toList, n.id = e.source ∧ n.body.schema? = none

/-- An edge reads a field: it leaves a source whose tree has a field of this name, found by the
handle of the edge. -/
def Reads (c : Canvas) (e : Edge) (field : String) : Prop :=
  ∃ n ∈ c.nodes.toList, n.id = e.source ∧ ∃ s, n.body = .source s ∧
    ∃ handle, e.sourceHandle? = some handle ∧
      ∃ f ∈ Field.preorderForest s.fields, Field.find? s.fields handle = some f ∧ f.name = field

/-- A chain of edges leads back from an edge to one that reads a field. -/
def Backed (c : Canvas) (e : Edge) (field : String) : Prop :=
  ∃ last, ReflTransGen c.Behind e last ∧ c.Reads last field

/-- An edge leaves a lookup at which no edge arrives and which remembers a field. -/
def Remembers (c : Canvas) (e : Edge) (field : String) (table : Table) : Prop :=
  ∃ n ∈ c.nodes.toList, n.id = e.source ∧ (∀ e' ∈ c.edges.toList, e'.target ≠ n.id) ∧
    ∃ l, n.body = .lookup l ∧ l.sourceField = some field ∧ l.table = table

/-- An edge leaves a node of constants that has one of this value. -/
def Supplies (c : Canvas) (e : Edge) (value : Value) : Prop :=
  ∃ n ∈ c.nodes.toList, n.id = e.source ∧ ∃ label values,
    n.body = .transform label (.constants values) ∧ ∃ k ∈ values, k.value = value

/-- An edge to which a source answers with a field reads this field. -/
theorem Coherent.reads_of_fieldName (hc : c.Coherent) {s : Schema}
    (hn : c.node? e.source = some n) (hb : n.body = .source s)
    (h : fieldName e n.id s = .ok field) : c.Reads e field := by
  obtain ⟨hmem, hid⟩ := hc.node?_eq_some_iff.1 hn
  obtain ⟨handle, f, hhandle, hf, hname⟩ := fieldName_eq_ok_iff.1 h
  exact ⟨n, hmem, hid, s, hb, handle, hhandle, f, Field.mem_of_find? hf, hf, hname⟩

/-- The first input of a step stands behind every edge that leaves the step. -/
theorem Coherent.behind_of_firstInput? (hc : c.Coherent) (hn : c.node? e.source = some n)
    (hs : n.body.schema? = none) (hi : c.firstInput? n.id = some input) : c.Behind e input := by
  obtain ⟨hmem, hid⟩ := hc.node?_eq_some_iff.1 hn
  rw [hc.firstInput?_eq] at hi
  have htarget : input.target = n.id := by simpa using List.find?_some hi
  exact ⟨List.mem_of_find?_eq_some hi, htarget.trans hid, n, hmem, hid, hs⟩

/-- A chain of edges can be continued in front. -/
theorem Backed.of_behind (h : c.Behind e input) (hb : c.Backed input field) : c.Backed e field := by
  obtain ⟨last, hchain, hreads⟩ := hb
  exact ⟨last, .head h hchain, hreads⟩

/-- **A walk that finds a field has a chain of edges behind it.**  Of the answers given at a node
only that of a source is a field, so the chain ends at one. -/
theorem Coherent.backed_of_inputField (hc : c.Coherent) (hn : c.node? e.source = some n)
    (hs : n.body.schema? = none) (h : c.inputField limit steps n.id = .ok field) :
    c.Backed e field := by
  induction steps generalizing e n with
  | zero => cases h
  | succ steps ih =>
    rw [inputField_succ] at h
    cases hi : c.firstInput? n.id with
    | none => simp [lookBack_noInput hi] at h
    | some input =>
      have hbehind := hc.behind_of_firstInput? hn hs hi
      cases hm : c.node? input.source with
      | none => simp [lookBack_unknownNode hi hm] at h
      | some m =>
        rw [lookBack_node hi hm] at h
        cases hb : backAt input m.id m.body with
        | inr next =>
          obtain ⟨hms, rfl⟩ := backAt_eq_inr_iff.1 hb
          rw [hb] at h
          exact .of_behind hbehind (ih hm hms h)
        | inl r =>
          rw [hb] at h
          obtain rfl : r = .ok field := h
          obtain ⟨s, hsource⟩ : ∃ s, m.body = .source s := by
            cases hbody : m.body with
            | source s => exact ⟨s, rfl⟩
            | _ => simp [hbody, backAt] at hb
          rw [hsource] at hb
          exact ⟨input, .single hbehind, hc.reads_of_fieldName hm hsource (Sum.inl.inj hb)⟩

/-- A lookup that takes a field from its input has a chain of edges behind it. -/
theorem Coherent.backed_of_lookupInput (hc : c.Coherent) {step : Option TextStep}
    (h : c.lookupInput limit input = .ok (field, step)) : c.Backed input field := by
  obtain ⟨m, hm, ⟨s, hb, hf, -⟩ | ⟨label, o, hb, -, hf⟩⟩ := lookupInput_eq_ok_iff.1 h
  · exact ⟨input, .refl, hc.reads_of_fieldName hm hb hf⟩
  · exact hc.backed_of_inputField hm (by rw [hb]; rfl) hf

/-! ### Rules -/

/-- What an edge has to show for a rule: a constant for a rule that reads nothing, and a field that
is read through a chain of edges, or remembered by a lookup, for one that reads a field. -/
def Justifies (c : Canvas) (e : Edge) (r : Rule) : Prop :=
  match r.source with
  | none => ∃ value, r.action = .constant value ∧ c.Supplies e value
  | some field => c.Backed e field ∨
      ∃ table, r.action = .lookUp table none ∧ c.Remembers e field table

/-- **An edge justifies every rule that it can come to.** -/
theorem Coherent.justifies_of_resolves (hc : c.Coherent) {target : String} {r : Rule}
    (h : c.Resolves limit e target r) : c.Justifies e r := by
  cases h with
  | source hn hb hf => exact .inl ⟨e, .refl, hc.reads_of_fieldName hn hb hf⟩
  | @constant n label values k hn hb hk =>
    obtain ⟨hmem, hid⟩ := hc.node?_eq_some_iff.1 hn
    exact ⟨k.value, rfl, n, hmem, hid, label, values, hb, k, Constant.mem_of_find? hk, rfl⟩
  | conditional hn hb hf => exact .inl (hc.backed_of_inputField hn (by rw [hb]; rfl) hf)
  | @remembered n l field hn hb hi hf =>
    obtain ⟨hmem, hid⟩ := hc.node?_eq_some_iff.1 hn
    have hnone : ∀ e' ∈ c.edges.toList, e'.target ≠ n.id := by
      rw [hc.firstInput?_eq] at hi
      simpa using hi
    exact .inr ⟨l.table, rfl, n, hmem, hid, hnone, l, hb, hf, rfl⟩
  | lookup hn hb hi hf =>
    exact .inl (.of_behind (hc.behind_of_firstInput? hn (by rw [hb]; rfl) hi)
      (hc.backed_of_lookupInput hf))

/-- A rule that an edge comes to is for the field asked about, and its source field goes with its
action. -/
theorem Resolves.wellFormed {target : String} {r : Rule} (h : c.Resolves limit e target r) :
    r.target = target ∧ r.validate = .ok () ∧ r.action ≠ .skip := by
  cases h <;> exact ⟨rfl, rfl, by simp⟩

end Canvas

namespace Exporter

variable {c : Canvas}

/-- The rules of an export are those that the arriving edges resolve to. -/
theorem mem_rules_iff {x : Exporter} {r : Rule} :
    r ∈ (x.exportRules c).1.rules ↔
      ∃ a ∈ c.arrivals, c.Resolves x.options.maxResolveDepth a.1 a.2 r := by
  rw [exportRules_eq, List.mem_filterMap]
  refine exists_congr fun a => and_congr_right fun _ => ?_
  rw [← Canvas.resolve_eq_ok_iff]
  cases c.resolve x.options.maxResolveDepth a.1 a.2 <;> simp [rule?]

/-- **Every rule is valid and justified.**  The rules of an export pass the check of a rule set, and
none is a skip.  Each is named for a field of a target, and stands for an edge that arrives there at
the id of that field; a rule that reads no field sets a constant of the node that the edge leaves,
and a rule that reads one has a chain of edges that leads from the edge back to a source which has
the field, or looks up what an unconnected lookup remembers. -/
theorem exportRules_justified (hc : c.Coherent) (x : Exporter) :
    (x.exportRules c).1.validate = .ok () ∧
    ∀ r ∈ (x.exportRules c).1.rules, r.validate = .ok () ∧ r.action ≠ .skip ∧
      ∃ n ∈ c.nodes.toList, ∃ s, n.body = .target s ∧
        ∃ f ∈ Field.preorderForest s.fields, f.name = r.target ∧
          ∃ e ∈ c.edges.toList, e.target = n.id ∧ e.targetHandle? = some f.id ∧
            c.Justifies e r := by
  refine ⟨(RuleSet.validate_eq_ok_iff _).2 fun r hr => ?_, fun r hr => ?_⟩
  · obtain ⟨_, -, hresolves⟩ := mem_rules_iff.1 hr
    exact hresolves.wellFormed.2.1
  · obtain ⟨⟨e, name⟩, ha, hresolves⟩ := mem_rules_iff.1 hr
    obtain ⟨htarget, hvalid, hskip⟩ := hresolves.wellFormed
    obtain ⟨he, n, hn, hid, s, hs, f, hf, hhandle, hname⟩ := hc.mem_arrivals.1 ha
    exact ⟨hvalid, hskip, n, hn, s, hs, f, hf, hname.trans htarget.symm, e, he, hid.symm, hhandle,
      hc.justifies_of_resolves hresolves⟩

/-- A lookup that reads a field of a source through a split, and a target field that it feeds. -/
def splitLookup : Canvas :=
  .ofLists
    [⟨"in", .origin, .source (.ofFields "Input" [.ofName "a" .string])⟩,
      ⟨"split", .origin, .transform "Split" (.split ⟨",", 0⟩)⟩,
      ⟨"table", .origin, .lookup ⟨"Table", .empty, none⟩⟩,
      ⟨"out", .origin, .target (.ofFields "Output" [.ofName "x" .string])⟩]
    [⟨"read", "in", some "a", "split", none⟩, ⟨"pass", "split", none, "table", none⟩,
      ⟨"write", "table", none, "out", some "x"⟩]

/-- The rule of the lookup reads a field through a chain of edges. -/
theorem exportRules_justified_splitLookup :
    splitLookup.Coherent ∧
      ⟨some "a", "x", .lookUp .empty (some (.split "," 0))⟩ ∈
        (plainExporter.exportRules splitLookup).1.rules ∧
      ∃ e ∈ splitLookup.edges.toList, ∃ last, Relation.ReflTransGen splitLookup.Behind e last ∧
        splitLookup.Reads last "a" := by
  have hc : splitLookup.Coherent := Canvas.coherent_ofLists _ _
  have hnodes : splitLookup.nodes.toList = _ := Canvas.nodes_ofLists (by decide) _
  have hedges : splitLookup.edges.toList = _ := Canvas.edges_ofLists _ _
  have hin : splitLookup.node? "in" = some _ := hc.node?_of_mem (hnodes ▸ List.mem_cons_self)
  have hsplit : splitLookup.node? "split" = some _ :=
    hc.node?_of_mem (hnodes ▸ List.mem_cons_of_mem _ List.mem_cons_self)
  have htable : splitLookup.node? "table" =
      some ⟨"table", .origin, .lookup ⟨"Table", .empty, none⟩⟩ :=
    hc.node?_eq_some_iff.2 ⟨by simp [hnodes], rfl⟩
  have hout : ⟨"out", .origin, .target (.ofFields "Output" [.ofName "x" .string])⟩ ∈
      splitLookup.nodes.toList := by simp [hnodes]
  have hfirst : splitLookup.firstInput? "split" = some ⟨"read", "in", some "a", "split", none⟩ := by
    rw [hc.firstInput?_eq, hedges]
    rfl
  have hfirst' : splitLookup.firstInput? "table" =
      some ⟨"pass", "split", none, "table", none⟩ := by
    rw [hc.firstInput?_eq, hedges]
    rfl
  have hfield : Field.findById? [.ofName "a" .string] "a" = some (.ofName "a" .string) := by
    rw [Field.findById?, Field.walk_eq_preorder]
    rfl
  have hwalk : splitLookup.inputField 32 31 "split" = .ok "a" := by
    rw [Canvas.inputField_succ, Canvas.lookBack_node hfirst hin]
    refine Canvas.fieldName_eq_ok_iff.2 ⟨"a", .ofName "a" .string, by decide, ?_, rfl⟩
    simp only [Field.find?, Schema.ofFields, hfield]
  have hrule : ⟨some "a", "x", .lookUp .empty (some (.split "," 0))⟩ ∈
      (plainExporter.exportRules splitLookup).1.rules := by
    refine mem_rules_iff.2 ⟨(⟨"write", "table", none, "out", some "x"⟩, "x"), ?_, ?_⟩
    · exact hc.mem_arrivals.2 ⟨by simp [hedges], _, hout, rfl, _, rfl, .ofName "x" .string,
        List.mem_cons_self, by decide, rfl⟩
    · have hinput : splitLookup.lookupInput 32 ⟨"pass", "split", none, "table", none⟩ =
          .ok ("a", some (.split "," 0)) :=
        Canvas.lookupInput_eq_ok_iff.2 ⟨_, hsplit, .inr ⟨_, _, rfl, rfl, hwalk⟩⟩
      exact .lookup (l := ⟨"Table", .empty, none⟩) htable rfl hfirst' hinput
  obtain ⟨-, hall⟩ := exportRules_justified hc plainExporter
  obtain ⟨-, -, n, -, s, -, f, -, -, e, he, -, -, hjustified⟩ := hall _ hrule
  refine ⟨hc, hrule, e, he, ?_⟩
  rcases hjustified with hbacked | ⟨table, haction, -⟩
  · exact hbacked
  · cases haction

end Exporter
end MappingCanvas
