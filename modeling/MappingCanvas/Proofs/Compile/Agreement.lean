/-
# Canvases on which the rules agree

Of a node the resolving of an edge reads only its essence: neither where it stands nor its label,
what it shows of its samples or expanded paths, nor data kept untouched.  Of the edges that arrive
at a node that is no target it reads only the first.

So two canvases that agree in this (`Canvas.Agree`) resolve every edge alike (`resolve_congr`), and
export the same rules when the same edges arrive at the same fields (`exportRules_congr`).
-/

import MappingCanvas.Proofs.Canvas.Index
import MappingCanvas.Proofs.Compile.Arrivals
import MappingCanvas.Proofs.Compile.Origin

namespace MappingCanvas

/-- What rules read of a node. -/
def Node.Body.essence : Body → Body
  | source s => source (.ofFields "" s.fields)
  | target s => target (.ofFields "" s.fields)
  | lookup l => lookup { l with label := "" }
  | transform _ operation => transform "" operation
  | unknown typeName _ => unknown typeName .null

/-- What rules read of a node, and its id. -/
def Node.essence (n : Node) : Node := ⟨n.id, .origin, n.body.essence⟩

namespace Canvas

variable {c d : Canvas} {limit : Nat}

/-! ### The decisions read the essence -/

/-- A look back reads no more of a node than its essence. -/
theorem backAt_essence (e : Edge) (id : String) (b : Node.Body) :
    backAt e id b.essence = backAt e id b := by
  cases b <;> rfl

/-- What a lookup takes from the node in front is decided by the essence of this node. -/
theorem lookupInputAt_essence (c : Canvas) (limit : Nat) (e : Edge) (id : String) (b : Node.Body) :
    c.lookupInputAt limit e id b.essence = c.lookupInputAt limit e id b := by
  cases b with
  | transform label operation => cases operation <;> rfl
  | _ => rfl

/-- The rule of an edge is decided by the essence of the node that it leaves. -/
theorem ruleAt_essence (c : Canvas) (limit : Nat) (e : Edge) (target id : String) (b : Node.Body) :
    c.ruleAt limit e target id b.essence = c.ruleAt limit e target id b := by
  cases b with
  | transform label operation => cases operation <;> rfl
  | lookup l =>
    simp only [Node.Body.essence, ruleAt, resolveLookup_eq]
  | _ => rfl

/-! ### Agreement -/

/-- Two canvases have the same nodes in essence, and the same first input of each node that is no
target. -/
structure Agree (c d : Canvas) : Prop where
  node : ∀ id, (c.node? id).map Node.essence = (d.node? id).map Node.essence
  input : ∀ key n, c.node? key = some n → n.body.targetSchema? = none →
    c.firstInput? n.id = d.firstInput? n.id

/-- Coherent canvases with the same nodes in essence have the same node in essence under every
id. -/
theorem Coherent.map_essence_node? (hc : c.Coherent) (hd : d.Coherent)
    (hnodes : ∀ k, k ∈ c.nodes.toList.map Node.essence ↔ k ∈ d.nodes.toList.map Node.essence)
    (id : String) : (c.node? id).map Node.essence = (d.node? id).map Node.essence := by
  have hmem {c : Canvas} (hc : c.Coherent) (k : Node) : (c.node? id).map Node.essence = some k ↔
      k ∈ c.nodes.toList.map Node.essence ∧ k.id = id := by
    simp only [Option.map_eq_some_iff, hc.node?_eq_some_iff, List.mem_map]
    constructor
    · rintro ⟨n, ⟨hn, hid⟩, rfl⟩
      exact ⟨⟨n, hn, rfl⟩, hid⟩
    · rintro ⟨⟨n, hn, rfl⟩, hid⟩
      exact ⟨n, ⟨hn, hid⟩, rfl⟩
  refine Option.ext fun k => ?_
  rw [hmem hc, hmem hd, hnodes]

/-- **Coherent canvases with the same nodes in essence and the same edges agree.** -/
theorem Coherent.agree (hc : c.Coherent) (hd : d.Coherent)
    (hnodes : ∀ k, k ∈ c.nodes.toList.map Node.essence ↔ k ∈ d.nodes.toList.map Node.essence)
    (hedges : c.edges.toList = d.edges.toList) : Agree c d where
  node := hc.map_essence_node? hd hnodes
  input key n _ _ := by
    rw [firstInput?, firstInput?, hc.incoming_eq, hd.incoming_eq, hedges]

/-- An id that a node which is no target gives for its own. -/
def Inner (c : Canvas) (id : String) : Prop :=
  ∃ key n, c.node? key = some n ∧ n.body.targetSchema? = none ∧ n.id = id

/-- The nodes that two canvases have under one id. -/
theorem Agree.node_cases (h : Agree c d) (id : String) :
    (c.node? id = none ∧ d.node? id = none) ∨
      ∃ n m, c.node? id = some n ∧ d.node? id = some m ∧ n.id = m.id ∧
        n.body.essence = m.body.essence := by
  have hnode := h.node id
  cases hc : c.node? id with
  | none =>
    rw [hc, Option.map_none, eq_comm, Option.map_eq_none_iff] at hnode
    exact .inl ⟨rfl, hnode⟩
  | some n =>
    rw [hc, Option.map_some, eq_comm, Option.map_eq_some_iff] at hnode
    obtain ⟨m, hm, heq⟩ := hnode
    obtain ⟨hid, -, hbody⟩ := Node.mk.inj heq
    exact .inr ⟨n, m, rfl, hm, hid.symm, hbody.symm⟩

/-- Canvases that agree have the same first input at every node that is no target. -/
theorem Agree.input_eq (h : Agree c d) {id : String} (hid : c.Inner id) :
    c.firstInput? id = d.firstInput? id := by
  obtain ⟨key, n, hn, hbody, rfl⟩ := hid
  exact h.input key n hn hbody

/-- **A look back is the same in canvases that agree.** -/
theorem lookBack_congr (h : Agree c d) {id : String} (hid : c.Inner id) :
    c.lookBack id = d.lookBack id := by
  unfold lookBack
  rw [h.input_eq hid]
  cases d.firstInput? id with
  | none => rfl
  | some e =>
    rcases h.node_cases e.source with ⟨hc, hd⟩ | ⟨n, m, hc, hd, hnm, hbody⟩
    · simp only [hc, hd]
    · simp only [hc, hd]
      rw [← backAt_essence, hbody, backAt_essence, hnm]

/-- A walk goes on to nodes that are no targets only. -/
theorem inner_of_lookBack {id next : String} (h : c.lookBack id = .inr next) : c.Inner next := by
  unfold lookBack at h
  split at h
  · cases h
  · split at h
    · cases h
    · rename_i n hn
      obtain ⟨hbody, hid⟩ := backAt_eq_inr_iff.1 h
      refine ⟨_, n, hn, ?_, hid⟩
      cases hn : n.body <;> simp_all [Node.Body.schema?, Node.Body.targetSchema?]

/-- **Walks that start alike end alike.** -/
theorem inputField_congr (h : Agree c d) (steps : Nat) {id : String} (hid : c.Inner id) :
    c.inputField limit steps id = d.inputField limit steps id := by
  induction steps generalizing id with
  | zero => rfl
  | succ steps ih =>
    rw [inputField_succ, inputField_succ, ← lookBack_congr h hid]
    cases hback : c.lookBack id with
    | inl r => rfl
    | inr next => exact ih (inner_of_lookBack hback)

/-- What a lookup takes from its input is the same in canvases that agree. -/
theorem lookupInput_congr (h : Agree c d) (e : Edge) :
    c.lookupInput limit e = d.lookupInput limit e := by
  rw [lookupInput_eq, lookupInput_eq]
  rcases h.node_cases e.source with ⟨hc, hd⟩ | ⟨n, m, hc, hd, hnm, hbody⟩
  · simp only [hc, hd]
  · simp only [hc, hd]
    rw [← d.lookupInputAt_essence, ← hbody, d.lookupInputAt_essence, ← hnm]
    cases hn : n.body with
    | transform label operation =>
      have hid : c.Inner n.id := ⟨_, n, hc, by rw [hn]; rfl, rfl⟩
      cases operation <;> simp only [lookupInputAt, inputField_congr h _ hid]
    | _ => rfl

/-- The rule of a lookup is the same in canvases that agree. -/
theorem resolveLookup_congr (h : Agree c d) {id : String} (hid : c.Inner id) (l : Lookup)
    (target : String) : c.resolveLookup limit id l target = d.resolveLookup limit id l target := by
  rw [resolveLookup_eq, resolveLookup_eq, h.input_eq hid]
  cases d.firstInput? id with
  | none => rfl
  | some e => simp only [lookupInput_congr h e]

/-- **Canvases that agree resolve every edge alike.** -/
theorem resolve_congr (h : Agree c d) (e : Edge) (target : String) :
    c.resolve limit e target = d.resolve limit e target := by
  rw [resolve_eq, resolve_eq]
  rcases h.node_cases e.source with ⟨hc, hd⟩ | ⟨n, m, hc, hd, hnm, hbody⟩
  · simp only [hc, hd]
  · simp only [hc, hd]
    rw [← d.ruleAt_essence, ← hbody, d.ruleAt_essence, ← hnm]
    cases hn : n.body with
    | transform label operation =>
      have hid : c.Inner n.id := ⟨_, n, hc, by rw [hn]; rfl, rfl⟩
      cases operation <;> simp only [ruleAt, inputField_congr h _ hid]
    | lookup l =>
      exact resolveLookup_congr h ⟨_, n, hc, by rw [hn]; rfl, rfl⟩ l target
    | _ => rfl

/-- **Canvases that agree and have the same arrivals and groupings export the same rules.** -/
theorem exportRules_congr (h : Agree c d) (harrivals : c.arrivals = d.arrivals)
    (hgroupings : c.nodes.toList.flatMap Exporter.targetGroupings =
      d.nodes.toList.flatMap Exporter.targetGroupings) (x : Exporter) :
    x.exportRules c = x.exportRules d := by
  rw [Exporter.exportRules_eq, Exporter.exportRules_eq, harrivals, hgroupings]
  simp only [resolve_congr h]

end Canvas
end MappingCanvas
