/-
# Canvases in layers

In a canvas in layers edges lead from sources to steps and to targets, and from steps to targets,
but not from one step to another (`Canvas.Layered`).  So no step waits for another one, and a plan
has all of them in the order of the canvas (`Plan.taken_final_of_unfed`).  A walk back from a step
is at a source after one edge, so a limit of one node suffices for every walk.

When sources and constants also have what edges ask of them, little is left to warn of
(`Exporter.exportAll_layered`): steps that make no value, steps that nothing feeds, and edges that
leave a source without a handle.
-/

import MappingCanvas.Proofs.Compile.Endless

namespace MappingCanvas

/-- The warnings about where the value of a field comes from: from a node that makes none, from a
node that nothing feeds, or from a source without a handle. -/
def Warning.OfOrigin : Warning → Prop
  | unsupportedOrigin _ _ _ | missingInput _ | missingHandle _ _ => True
  | _ => False

namespace Node.Body

/-- Whether an edge may lead from one node to another: from a source to a step or a target, and from
a step to a target. -/
def mayFeed (tail head : Body) : Bool :=
  match tail, head with
  | .source _, .transform _ _ | .source _, .lookup _ | .source _, .target _ => true
  | .transform _ _, .target _ | .lookup _, .target _ => true
  | _, _ => false

/-- A node has what an edge leaving it at a handle asks for: a source the field, constants the
constant. -/
def Offers (b : Body) (handle : Option String) : Prop :=
  match b, handle with
  | .source s, some handle => (Field.find? s.fields handle).isSome
  | .transform _ (.constants values), handle => (Constant.find? values handle).isSome
  | _, _ => True

variable {tail head : Body}

/-- Only sources feed steps. -/
theorem eq_source_of_mayFeed (h : tail.mayFeed head = true) (hstep : head.schema? = none) :
    ∃ s, tail = .source s := by
  cases tail <;> cases head <;> simp_all [mayFeed, schema?]

end Node.Body

/-- Nodes are of known types, edges lead from layer to layer, and the nodes that they leave have
what they ask for. -/
structure Canvas.Layered (c : Canvas) : Prop where
  known : ∀ n ∈ c.nodes.toList, ∀ typeName data, n.body ≠ .unknown typeName data
  ends : ∀ e ∈ c.edges.toList, ∃ m ∈ c.nodes.toList, ∃ n ∈ c.nodes.toList,
    m.id = e.source ∧ n.id = e.target ∧ m.body.mayFeed n.body = true
  offers : ∀ e ∈ c.edges.toList, ∀ n ∈ c.nodes.toList, n.id = e.source →
    n.body.Offers e.sourceHandle?

/-! ### Plans without dependencies -/

namespace Plan

variable {c : Canvas}

/-- A run in which nothing is fed takes what is ready, in that order. -/
theorem taken_run_of_unfed {feeds : Std.HashMap String (List String)} {fuel : Nat} {s : State}
    (hfeeds : ∀ id, feeds.getD id [] = []) (hfuel : s.ready.length ≤ fuel) :
    (run feeds fuel s).taken = s.taken ++ s.ready := by
  induction fuel generalizing s with
  | zero =>
    have hready : s.ready = [] := List.eq_nil_of_length_eq_zero (Nat.le_zero.1 hfuel)
    rw [run, hready, List.append_nil]
  | succ fuel ih =>
    rw [run]
    cases hready : s.ready with
    | nil => simp
    | cons id rest =>
      have hrest : rest.length ≤ fuel := by simpa [hready] using hfuel
      simp only [hfeeds, List.foldl_nil]
      rw [ih hrest, List.append_assoc, List.singleton_append]

/-- **Where no step feeds another one, all are taken in the order of the canvas.** -/
theorem taken_final_of_unfed (h : ∀ u v, ¬Feeds c u v) : (final c).taken = stepIds c := by
  have hlinks : linksOf (stepIds c) c.edges.toList = [] :=
    List.eq_nil_iff_forall_not_mem.2 fun ⟨u, v⟩ hl => h u v (mem_linksIn_iff.1 hl)
  obtain ⟨hwaiting, hfeeds⟩ := noted_ofCanvas c
  rw [hlinks] at hwaiting hfeeds
  have hready : (start c).ready = stepIds c := List.filter_eq_self.2 fun id hid => by
    simp [hwaiting, hid, linksInto]
  have hrun : final c = run (Dependencies.ofCanvas c).feeds (stepIds c).length (start c) := rfl
  rw [hrun, taken_run_of_unfed (by simpa [fedBy] using hfeeds) (by rw [hready]), hready]
  rfl

end Plan

/-! ### Walks of one edge -/

namespace Canvas

variable {c : Canvas} {e : Edge} {m n : Node} {limit steps : Nat} {id target : String} {w : Warning}

/-- The first input of a node is an edge that arrives there. -/
theorem Coherent.mem_of_firstInput? (hc : c.Coherent) (h : c.firstInput? id = some e) :
    e ∈ c.edges.toList ∧ e.target = id := by
  rw [hc.firstInput?_eq] at h
  exact ⟨List.mem_of_find?_eq_some h, by simpa using List.find?_some h⟩

/-- What feeds a step is a source. -/
theorem Layered.exists_source (h : c.Layered) (hc : c.Coherent) (hn : n ∈ c.nodes.toList)
    (hstep : n.body.schema? = none) (he : e ∈ c.edges.toList) (htarget : e.target = n.id) :
    ∃ m ∈ c.nodes.toList, m.id = e.source ∧ ∃ s, m.body = .source s := by
  obtain ⟨m, hm, n', hn', hsource, hid, hfeed⟩ := h.ends e he
  have hsame := hc.node?_of_mem hn'
  rw [hid, htarget, hc.node?_of_mem hn] at hsame
  obtain rfl := Option.some.inj hsame
  exact ⟨m, hm, hsource, Node.Body.eq_source_of_mayFeed hfeed hstep⟩

/-- **No step feeds another one.** -/
theorem Layered.not_feeds (h : c.Layered) (hc : c.Coherent) (u v : String) :
    ¬Plan.Feeds c u v := by
  rintro ⟨hu, hv, e, he, rfl, hhead⟩
  obtain ⟨n, hn, rfl⟩ := List.mem_map.1 hv
  obtain ⟨hmem, hstep⟩ := List.mem_filter.1 hn
  obtain ⟨m, hm, hid, s, hs⟩ :=
    h.exists_source hc hmem (Option.isNone_iff_eq_none.1 hstep) he hhead
  exact hc.not_mem_innerIds hm (by rw [hs]; rfl) (hid ▸ hu)

/-- A source of a layered canvas refuses an edge only because of where its value comes from: it has
the field that any handle asks for. -/
theorem Layered.fieldName_error (h : c.Layered) (he : e ∈ c.edges.toList) (hn : n ∈ c.nodes.toList)
    (hid : n.id = e.source) {s : Schema} (hs : n.body = .source s)
    (hw : fieldName e id s = .error w) : w.OfOrigin := by
  have hoffers := h.offers e he n hn hid
  unfold fieldName at hw
  cases hhandle : e.sourceHandle? with
  | none =>
    rw [hhandle] at hw
    cases hw
    trivial
  | some handle =>
    rw [hs, hhandle] at hoffers
    obtain ⟨f, hf⟩ := Option.isSome_iff_exists.1 hoffers
    simp only [hhandle, hf] at hw
    cases hw

/-- A walk on a layered canvas is refused only because of where its value comes from: it ends after
one look back, at a source. -/
theorem Layered.inputField_error (h : c.Layered) (hc : c.Coherent) (hn : n ∈ c.nodes.toList)
    (hstep : n.body.schema? = none) (hsteps : 1 ≤ steps)
    (hw : c.inputField limit steps n.id = .error w) : w.OfOrigin := by
  obtain ⟨steps, rfl⟩ := Nat.exists_eq_add_of_le' hsteps
  rw [inputField_succ] at hw
  cases hi : c.firstInput? n.id with
  | none =>
    rw [lookBack_noInput hi] at hw
    cases hw
    trivial
  | some e =>
    obtain ⟨he, htarget⟩ := hc.mem_of_firstInput? hi
    obtain ⟨m, hm, hid, s, hs⟩ := h.exists_source hc hn hstep he htarget
    rw [lookBack_node hi (hc.node?_eq_some_iff.2 ⟨hm, hid⟩), hs] at hw
    exact h.fieldName_error he hm hid hs hw

/-- A lookup of a layered canvas is refused only because of where its field comes from. -/
theorem Layered.resolveLookup_error (h : c.Layered) (hc : c.Coherent) (hn : n ∈ c.nodes.toList)
    {l : Lookup} (hl : n.body = .lookup l) (hw : c.resolveLookup limit n.id l target = .error w) :
    w.OfOrigin := by
  rw [resolveLookup_eq] at hw
  cases hi : c.firstInput? n.id with
  | none =>
    rw [hi] at hw
    cases hfield : l.sourceField with
    | none =>
      simp only [hfield] at hw
      cases hw
      trivial
    | some field =>
      simp only [hfield] at hw
      cases hw
  | some e =>
    rw [hi] at hw
    obtain ⟨he, htarget⟩ := hc.mem_of_firstInput? hi
    obtain ⟨m, hm, hid, s, hs⟩ := h.exists_source hc hn (by rw [hl]; rfl) he htarget
    have hread := map_eq_error_iff.1 hw
    rw [lookupInput_eq, hc.node?_eq_some_iff.2 ⟨hm, hid⟩] at hread
    simp only [hs] at hread
    exact h.fieldName_error he hm hid hs (map_eq_error_iff.1 hread)

/-- **An edge is refused only for its origin.** -/
theorem Layered.resolve_error (h : c.Layered) (hc : c.Coherent) (he : e ∈ c.edges.toList)
    (hlimit : 1 ≤ limit) (hw : c.resolve limit e target = .error w) : w.OfOrigin := by
  obtain ⟨n, hn, -, -, hid, -, -⟩ := h.ends e he
  rw [resolve_eq, hc.node?_eq_some_iff.2 ⟨hn, hid⟩] at hw
  simp only at hw
  cases hb : n.body with
  | source s =>
    rw [hb] at hw
    exact h.fieldName_error he hn hid hb (map_eq_error_iff.1 hw)
  | lookup l =>
    rw [hb] at hw
    exact h.resolveLookup_error hc hn hb hw
  | transform label operation =>
    rw [hb] at hw
    cases operation with
    | constants values =>
      have hoffers := h.offers e he n hn hid
      rw [hb] at hoffers
      obtain ⟨constant, hconstant⟩ := Option.isSome_iff_exists.1 hoffers
      simp only [ruleAt, hconstant] at hw
      cases hw
    | conditional p =>
      exact h.inputField_error hc hn (by rw [hb]; rfl) hlimit (map_eq_error_iff.1 hw)
    | _ =>
      cases hw
      trivial
  | _ =>
    rw [hb] at hw
    cases hw
    trivial

end Canvas

/-! ### Exports -/

namespace Exporter

variable {c : Canvas}

/-- **A canvas in layers is planned in its own order, and warned of only for origins.** -/
theorem exportAll_layered (h : c.Layered) (hc : c.Coherent) (x : Exporter)
    (hlimit : 1 ≤ x.options.maxResolveDepth) :
    (x.exportAll c).1.steps.map Snapshot.Step.nodeId =
        (c.nodes.toList.filter fun n => n.body.isStep).map Node.id ∧
      ∀ w ∈ (x.exportAll c).2.2, w.OfOrigin := by
  have htaken : (Plan.final c).taken = Plan.stepIds c :=
    Plan.taken_final_of_unfed (h.not_feeds hc)
  refine ⟨(Plan.map_nodeId_plan hc).trans htaken, fun w hw => ?_⟩
  rcases mem_exportAll_warnings.1 hw with ((hw | hw) | hw) | hw
  · obtain ⟨n, hn, hw⟩ := List.mem_filterMap.1 hw
    unfold nodeWarning? at hw
    split at hw
    · rename_i hb
      exact absurd hb (h.known n hn _ _)
    · cases hw
  · obtain ⟨e, he, hw⟩ := List.mem_filterMap.1 hw
    obtain ⟨m, hm, n, hn, hsource, htarget, -⟩ := h.ends e he
    have hends : missingEnd? c e = none := by
      simp [missingEnd?, hc.contains_iff.2 ⟨m, hm, hsource⟩, hc.contains_iff.2 ⟨n, hn, htarget⟩]
    rw [edgeWarning?, hends] at hw
    cases hw
  · rw [Plan.warnings_plan_eq_nil hc (by rw [htaken, Plan.stepIds_eq]; exact fun _ h => h)] at hw
    cases hw
  · obtain ⟨a, ha, hw⟩ := mem_exportRules_warnings.1 hw
    exact h.resolve_error hc (hc.mem_arrivals.1 ha).1 hlimit hw

end Exporter
end MappingCanvas
