/-
# Compiling what was drawn

A canvas that was drawn for rules shows them (`Shows`): between one source and one target stand the
steps that the rules ask for, and the edges are their links.  The first input of a step is the one
that a leading rule asked for (`Shows.exists_firstInput?`), and so the edge of a rule comes to the
rule that leads it (`Shows.resolves_leader`).  The compiler goes through the target fields and takes
the edges of each in order, which groups the rules by target field
(`Shows.map_resolve_arrivals_leader`).  As long as no two rules of one kind that needs steps have
the same target field, every rule leads itself and comes back.  There is nothing to warn of, because
every node has a known type, every edge both its ends, and no step waits for itself.
-/

import MappingCanvas.Proofs.Compile.Arrivals
import MappingCanvas.Proofs.Compile.Origin
import MappingCanvas.Proofs.Compile.Partition
import MappingCanvas.Proofs.Compile.Plan
import MappingCanvas.Proofs.Lists
import MappingCanvas.Proofs.Restore.Drawing
import MappingCanvas.Proofs.Schema.Traversal

namespace MappingCanvas

/-! ### Text fields -/

namespace Restore

/-- Text fields have nothing below them. -/
theorem preorderForest_textFields (names : List String) :
    Field.preorderForest (textFields names) = textFields names := by
  unfold textFields
  induction names.eraseDups with
  | nil => rfl
  | cons name names ih =>
    rw [List.map_cons, Field.preorderForest, ih]
    rfl

/-- The field of a name is found by the name. -/
theorem find?_textFields {names : List String} {name : String} (h : name ∈ names) :
    Field.find? (textFields names) name = some (.ofName name .string) := by
  have hid : Field.findById? (textFields names) name = some (.ofName name .string) := by
    rw [Field.findById?, Field.walk_eq_preorder, preorderForest_textFields, textFields,
      List.find?_map]
    have hmem : name ∈ names.eraseDups := List.mem_eraseDups.2 h
    cases hf : names.eraseDups.find? ((fun f => f.id == name) ∘ fun name =>
        Field.ofName name .string) with
    | none => exact absurd (List.find?_eq_none.1 hf name hmem) (by simp [Field.ofName])
    | some other =>
      have hother : other = name := by simpa [Field.ofName] using List.find?_some hf
      rw [hother]
      rfl
  rw [Field.find?, hid]

/-- Text fields have no groupings to put back. -/
theorem restore_textFields (gs : List Grouping) (names : List String) :
    Grouping.restore gs (textFields names) = textFields names := by
  unfold textFields
  induction names.eraseDups with
  | nil => rfl
  | cons name names ih =>
    rw [List.map_cons, Grouping.restore, ih]
    rfl

/-! ### The canvas of a rule set -/

/-- Rules that can be drawn and compiled again. -/
structure Recompilable (s : RuleSet) : Prop where
  valid : s.validate = .ok ()
  target_ne : ∀ r ∈ s.rules, skips r = false → r.target ≠ ""
  source_ne : ∀ r ∈ s.rules, skips r = false → r.source ≠ some ""
  separate : Separate s.rules

/-- Rules that can be drawn: they are valid, and their fields have names. -/
structure Drawable (s : RuleSet) : Prop where
  valid : s.validate = .ok ()
  target_ne : ∀ r ∈ s.rules, skips r = false → r.target ≠ ""
  source_ne : ∀ r ∈ s.rules, skips r = false → r.source ≠ some ""

/-- The body of the source that all rules share. -/
def sourceBody (s : RuleSet) : Node.Body :=
  .source (.ofFields "Source" (textFields (s.rules.filterMap Rule.source)))

/-- The body of the target that all rules share. -/
def targetBody (s : RuleSet) : Node.Body :=
  .target (.ofFields "Target" (textFields (s.rules.map Rule.target)))

/-- A canvas shows a rule set: between one source and one target stand the steps that the rules ask
for, of several under one id the first, and its edges are the links that they ask for. -/
structure Shows (c : Canvas) (s : RuleSet) : Prop where
  coherent : c.Coherent
  nodes_eq : ∃ position position' between, c.nodes.toList =
    [⟨Drawing.sourceId, position, sourceBody s⟩, ⟨Drawing.targetId, position', targetBody s⟩] ++
      between ∧ ∀ n ∈ between, (n.id, n.body) ∈ s.rules.flatMap steps
  exists_node : ∀ p, (s.rules.flatMap steps).find? (fun q => q.1 == p.1) = some p →
    ∃ n, c.node? p.1 = some n ∧ n.id = p.1 ∧ n.body = p.2
  links_eq : c.edges.toList.map link = s.rules.flatMap links

variable {s : RuleSet} {c : Canvas} {r : Rule} {e : Edge} {l : Link} {limit : Nat}

/-- The common source has the fields that are read, and the common target those that are written;
there is no array whose grouping could be put back. -/
theorem ends_eq (gs : List Grouping) (layout : Layout) (s : RuleSet) : ends gs layout s =
    [⟨Drawing.sourceId, layout.position .source 0, sourceBody s⟩,
      ⟨Drawing.targetId, layout.position .target 0, targetBody s⟩] := by
  rw [ends, restore_textFields]
  rfl

/-- Rules that can be compiled again can be drawn. -/
theorem Recompilable.drawable (h : Recompilable s) : Drawable s :=
  ⟨h.valid, h.target_ne, h.source_ne⟩

/-- **What is drawn for rules shows them.** -/
theorem Drawable.shows_fromRules (h : Drawable s) (gs : List Grouping) (layout : Layout) :
    Shows (fromRules gs layout s) s := by
  have hends : ((ends gs layout s).map Node.id).Nodup := by
    simp only [ends_eq, List.map_cons, List.map_nil]
    decide
  have hfirst : ∀ n ∈ ends gs layout s, ∀ role target, n.id ≠ Role.id role target := by
    intro n hn role target
    rw [ends_eq] at hn
    rcases List.mem_cons.1 hn with rfl | hn
    · exact (Role.id_ne_sourceId role target).symm
    · obtain rfl := List.mem_singleton.1 hn
      exact (Role.id_ne_targetId role target).symm
  have hdrawn : Drawn (ends gs layout s) (s.rules.flatMap steps) (s.rules.flatMap links)
      (s.rules.foldl (Drawing.addRule layout) ⟨ends gs layout s, [], 0⟩) :=
    (drawn_start hends).foldl_addRule ((RuleSet.validate_eq_ok_iff s).1 h.valid)
  have hc : (fromRules gs layout s).Coherent := Canvas.coherent_ofLists _ _
  have hnodes : (fromRules gs layout s).nodes.toList = _ :=
    Canvas.nodes_ofLists hdrawn.nodup_ids _
  refine ⟨hc, ?_, fun p hp => ?_, ?_⟩
  · obtain ⟨between, hbetween, hasked⟩ := hdrawn.nodes_eq
    rw [hnodes, hbetween, ends_eq]
    exact ⟨_, _, between, rfl, fun n hn => List.mem_of_find?_eq_some (hasked n hn)⟩
  · obtain ⟨r, -, hstep⟩ := List.mem_flatMap.1 (List.mem_of_find?_eq_some hp)
    obtain ⟨role, hid, -⟩ := exists_plays_of_mem_steps hstep
    obtain ⟨n, hn, hid, hbody⟩ := hdrawn.exists_node
      (fun n hn => hid ▸ hfirst n hn role r.target) hp
    exact ⟨n, hc.node?_eq_some_iff.2 ⟨hnodes ▸ hn, hid⟩, hid, hbody⟩
  · rw [fromRules, Canvas.edges_ofLists]
    exact hdrawn.links_eq

/-- What is drawn for rules that can be compiled again shows them. -/
theorem Recompilable.shows_fromRules (h : Recompilable s) (gs : List Grouping) (layout : Layout) :
    Shows (fromRules gs layout s) s :=
  h.drawable.shows_fromRules gs layout

/-! ### Looking up what is shown -/

/-- The common source is on the canvas. -/
theorem Shows.node?_sourceId (hc : Shows c s) :
    ∃ n, c.node? Drawing.sourceId = some n ∧ n.body = sourceBody s := by
  obtain ⟨position, position', between, hnodes, -⟩ := hc.nodes_eq
  exact ⟨⟨Drawing.sourceId, position, sourceBody s⟩,
    hc.coherent.node?_eq_some_iff.2 ⟨hnodes ▸ List.mem_cons_self, rfl⟩, rfl⟩

/-- A rule with links into a step is no skip. -/
theorem skips_of_mem_inputs (hl : l ∈ inputs r) : skips r = false := by
  obtain ⟨source, target, action⟩ := r
  cases action with
  | skip => cases hl
  | _ => rfl

/-- Links into the steps of a rule are among its links. -/
theorem mem_links_of_mem_inputs (hl : l ∈ inputs r) : l ∈ links r := by
  rw [links_of_not_skips (skips_of_mem_inputs hl)]
  exact List.mem_append_left _ hl

/-- A link of a rule leads into one of its steps or to its target field. -/
theorem mem_links (hl : l ∈ links r) : l ∈ inputs r ∨ l = arrival r ∧ skips r = false := by
  cases hskips : skips r with
  | true => simp [links, hskips] at hl
  | false =>
    rw [links_of_not_skips hskips] at hl
    exact (List.mem_append.1 hl).imp_right fun hl => ⟨List.mem_singleton.1 hl, rfl⟩

/-- The last link of a rule arrives at the common target. -/
theorem target_arrival (r : Rule) : (arrival r).target = Drawing.targetId := by
  unfold arrival
  split <;> rfl

/-- The last link of a rule arrives at its target field. -/
theorem targetHandle_arrival (r : Rule) : (arrival r).targetHandle = some r.target := by
  unfold arrival
  split <;> rfl

/-- A link into a step does not lead to the common target. -/
theorem target_ne_of_mem_inputs (hl : l ∈ inputs r) : l.target ≠ Drawing.targetId := by
  obtain ⟨role, htarget, -⟩ := exists_plays_of_mem_inputs hl
  exact htarget ▸ Role.id_ne_targetId role r.target

/-- A link leads to a step of its rule or to the target. -/
theorem exists_plays_or_eq_of_mem_links (hl : l ∈ links r) :
    (∃ role, Plays r role l.target) ∨ l.target = Drawing.targetId := by
  rcases mem_links hl with hinput | ⟨rfl, -⟩
  · exact .inl (exists_plays_of_mem_inputs hinput)
  · exact .inr (target_arrival r)

/-- A step that a leading rule asks for is there as it was asked for. -/
theorem Shows.exists_step (hc : Shows c s) (hr : r ∈ s.rules) (hleads : leader s.rules r = r)
    {p : String × Node.Body} (hp : p ∈ steps r) :
    ∃ n, c.node? p.1 = some n ∧ n.id = p.1 ∧ n.body = p.2 := by
  obtain ⟨role, hplays⟩ := exists_plays_of_mem_steps hp
  exact hc.exists_node p (find?_flatMap_of_leads (fun _ _ h => .inl (exists_plays_of_mem_steps h))
    nodup_steps hr hleads hp hplays)

/-- Something stands under every id that was asked for. -/
theorem Shows.mem_ids (hc : Shows c s) {p : String × Node.Body}
    (hp : p ∈ s.rules.flatMap steps) : p.1 ∈ c.nodes.toList.map Node.id := by
  cases hfirst : (s.rules.flatMap steps).find? fun q => q.1 == p.1 with
  | none => exact absurd (beq_self_eq_true p.1) (List.find?_eq_none.1 hfirst p hp)
  | some first =>
    have hid : first.1 = p.1 := by simpa using List.find?_some hfirst
    obtain ⟨n, hn, hnid, -⟩ := hc.exists_node first (hid.symm ▸ hfirst)
    exact List.mem_map.2 ⟨n, Canvas.mem_of_node? hn, hnid.trans hid⟩

/-- **The first input of a step is the one that a leading rule asked for.** -/
theorem Shows.exists_firstInput? (hc : Shows c s) (hr : r ∈ s.rules)
    (hleads : leader s.rules r = r) (hl : l ∈ inputs r) :
    ∃ e, c.firstInput? l.target = some e ∧ link e = l := by
  obtain ⟨role, hplays⟩ := exists_plays_of_mem_inputs hl
  have hfirst : (s.rules.flatMap links).find? (fun l' => l'.target == l.target) = some l :=
    find?_flatMap_of_leads (fun _ _ h => exists_plays_or_eq_of_mem_links h) nodup_links hr hleads
      (mem_links_of_mem_inputs hl) hplays
  rw [← hc.links_eq, List.find?_map, Option.map_eq_some_iff] at hfirst
  rw [hc.coherent.firstInput?_eq]
  exact hfirst

/-! ### Resolving what is shown -/

/-- An edge with the source field of a rule finds the field. -/
theorem Drawable.fieldName_sourceBody (h : Drawable s) (hr : r ∈ s.rules)
    (hskips : skips r = false) {field id : String} (hsource : r.source = some field)
    (he : e.sourceHandle = r.source) :
    Canvas.fieldName e id (.ofFields "Source" (textFields (s.rules.filterMap Rule.source))) =
      .ok field := by
  have hne : field.isEmpty = false := by
    have := h.source_ne r hr hskips
    rw [hsource] at this
    simpa [String.isEmpty_iff] using this
  have hhandle : e.sourceHandle? = some field := by
    rw [Edge.sourceHandle?, he, hsource, Edge.named?, Option.filter_some, hne]
    rfl
  exact Canvas.fieldName_eq_ok_iff.2 ⟨field, _, hhandle,
    find?_textFields (List.mem_filterMap.2 ⟨r, hr, hsource⟩), rfl⟩

/-- A walk from a step that reads the source ends there. -/
theorem Shows.inputField_eq (hc : Shows c s) (h : Drawable s) (hr : r ∈ s.rules)
    (hleads : leader s.rules r = r) {id field : String}
    (hl : ⟨Drawing.sourceId, r.source, id, none⟩ ∈ inputs r) (hsource : r.source = some field)
    {steps : Nat} :
    c.inputField limit (steps + 1) id = .ok field := by
  obtain ⟨e, hfirst, hlink⟩ := hc.exists_firstInput? hr hleads hl
  obtain ⟨n, hn, hbody⟩ := hc.node?_sourceId
  have hsrc : e.source = Drawing.sourceId := congrArg Link.source hlink
  have hhandle : e.sourceHandle = r.source := congrArg Link.sourceHandle hlink
  rw [Canvas.inputField_succ, Canvas.lookBack_node hfirst (hsrc ▸ hn), hbody]
  exact h.fieldName_sourceBody hr (skips_of_mem_inputs hl) hsource hhandle

/-- A lookup captures the step that a transform was made for. -/
theorem captured?_operation (step : TextStep) :
    Canvas.captured? step.operation = some (some step) := by
  cases step <;> rfl

/-- The first input of a lookup finds the source field, and the step on its way. -/
theorem Shows.exists_lookupInput (hc : Shows c s) (h : Drawable s) {field target : String}
    {table : Table} {step : Option TextStep} (hlimit : 2 ≤ limit)
    (hr : ⟨some field, target, .lookUp table step⟩ ∈ s.rules)
    (hleads : leader s.rules ⟨some field, target, .lookUp table step⟩ =
      ⟨some field, target, .lookUp table step⟩) :
    ∃ input, c.firstInput? (Role.table.id target) = some input ∧
      c.lookupInput limit input = .ok (field, step) := by
  cases step with
  | none =>
    obtain ⟨input, hfirst, hlink⟩ := hc.exists_firstInput? hr hleads List.mem_cons_self
    have hsrc : input.source = Drawing.sourceId := congrArg Link.source hlink
    obtain ⟨n, hn, hbody⟩ := hc.node?_sourceId
    exact ⟨input, hfirst, Canvas.lookupInput_eq_ok_iff.2 ⟨n, hsrc ▸ hn, .inl ⟨_, hbody,
      h.fieldName_sourceBody hr rfl rfl (congrArg Link.sourceHandle hlink), rfl⟩⟩⟩
  | some step =>
    obtain ⟨input, hfirst, hlink⟩ :=
      hc.exists_firstInput? hr hleads (List.mem_cons_of_mem _ List.mem_cons_self)
    have hsrc : input.source = Role.transform.id target := congrArg Link.source hlink
    obtain ⟨n, hn, hid, hbody⟩ := hc.exists_step hr hleads
      (List.mem_cons_of_mem _ List.mem_cons_self)
    obtain ⟨k, rfl⟩ : ∃ k, limit = k + 2 := ⟨limit - 2, by omega⟩
    have hwalk : c.inputField (k + 2) (k + 1) n.id = .ok field :=
      hid ▸ hc.inputField_eq h hr hleads List.mem_cons_self rfl
    exact ⟨input, hfirst, Canvas.lookupInput_eq_ok_iff.2 ⟨n, hsrc ▸ hn,
      .inr ⟨_, _, hbody, captured?_operation step, hwalk⟩⟩⟩

/-- **The edge of a leading rule comes to the rule.** -/
theorem Shows.resolves (hc : Shows c s) (h : Drawable s) (hlimit : 2 ≤ limit) (hr : r ∈ s.rules)
    (hleads : leader s.rules r = r) (hskips : skips r = false) (he : link e = arrival r) :
    c.Resolves limit e r.target r := by
  have hvalid : r.validate = .ok () := (RuleSet.validate_eq_ok_iff s).1 h.valid r hr
  have hstep : ∀ p ∈ steps r, ∃ n, c.node? p.1 = some n ∧ n.id = p.1 ∧ n.body = p.2 := fun p hp =>
    hc.exists_step hr hleads hp
  have hsrc : e.source = (arrival r).source := congrArg Link.source he
  have hhandle : e.sourceHandle = (arrival r).sourceHandle := congrArg Link.sourceHandle he
  obtain ⟨source, target, action⟩ := r
  cases action with
  | copy =>
    cases source with
    | none => cases hvalid
    | some field =>
      obtain ⟨n, hn, hbody⟩ := hc.node?_sourceId
      exact .source (hsrc ▸ hn) hbody (h.fieldName_sourceBody hr hskips rfl hhandle)
  | constant value =>
    cases source with
    | some field => cases hvalid
    | none =>
      obtain ⟨n, hn, -, hbody⟩ := hstep _ List.mem_cons_self
      have hfind : Constant.find? [⟨Drawing.constantHandle, value⟩] e.sourceHandle? =
          some ⟨Drawing.constantHandle, value⟩ := by
        rw [Edge.sourceHandle?, hhandle]
        rfl
      exact .constant (hsrc ▸ hn) hbody hfind
  | choose condition whenTrue whenFalse =>
    cases source with
    | none => cases hvalid
    | some field =>
      obtain ⟨n, hn, hid, hbody⟩ := hstep _ List.mem_cons_self
      obtain ⟨k, rfl⟩ : ∃ k, limit = k + 1 := ⟨limit - 1, by omega⟩
      have hwalk : c.inputField (k + 1) (k + 1) n.id = .ok field :=
        hid ▸ hc.inputField_eq h hr hleads List.mem_cons_self rfl
      exact .conditional (hsrc ▸ hn) hbody hwalk
  | lookUp table step =>
    cases source with
    | none => cases hvalid
    | some field =>
      obtain ⟨n, hn, hid, hbody⟩ := hstep (Role.table.id target, _) List.mem_cons_self
      obtain ⟨input, hfirst, hread⟩ := hc.exists_lookupInput h hlimit hr hleads
      exact .lookup (hsrc ▸ hn) hbody (hid ▸ hfirst) hread
  | skip => cases hskips

/-- The link that arrives for a rule arrives for the rule that leads it. -/
theorem arrival_leader (rs : List Rule) (r : Rule) : arrival (leader rs r) = arrival r := by
  rcases leader_cases rs r with hself | ⟨-, hshares⟩
  · rw [hself]
  · generalize leader rs r = first at hshares
    obtain ⟨hstep, hname, htarget⟩ := sharesStep_iff.1 hshares
    obtain ⟨source, target, action⟩ := r
    obtain ⟨source', target', action'⟩ := first
    obtain rfl : target' = target := htarget
    cases action <;> cases action' <;>
      simp [arrival, Rule.Action.name, stepActions] at hname hstep ⊢

/-- A rule is a skip exactly by the name of its action. -/
theorem skips_eq (r : Rule) : skips r = (r.action.name == "skip") := by
  obtain ⟨source, target, action⟩ := r
  cases action <;> rfl

/-- A rule is a skip if its leader is. -/
theorem skips_leader (rs : List Rule) (r : Rule) : skips (leader rs r) = skips r := by
  rw [skips_eq, skips_eq, actionName_leader]

/-- **The edge of a rule comes to the rule that leads it.** -/
theorem Shows.resolves_leader (hc : Shows c s) (h : Drawable s) (hlimit : 2 ≤ limit)
    (hr : r ∈ s.rules) (hskips : skips r = false) (he : link e = arrival r) :
    c.Resolves limit e r.target (leader s.rules r) :=
  target_leader s.rules r ▸ hc.resolves h hlimit (leader_mem hr) (leader_leader s.rules r)
    ((skips_leader s.rules r).trans hskips) (he.trans (arrival_leader s.rules r).symm)

/-! ### The order of the rules -/

/-- Rules grouped by target field, without skips.  The groups stand in the order in which their
target fields occur first, be it in a skip. -/
def grouped (rs : List Rule) : List Rule :=
  (rs.map Rule.target).eraseDups.flatMap fun target =>
    rs.filter fun r => r.target == target && !skips r

/-- Of the links of a rule the last one arrives at its target field, unless the rule is a skip, and
none arrives at another field. -/
theorem filter_links (hr : skips r = false → r.target ≠ "") (target : String) :
    ((links r).filter fun l =>
      Edge.named? l.targetHandle == some target && l.target == Drawing.targetId) =
      if r.target == target && !skips r then [arrival r] else [] := by
  cases hskips : skips r with
  | true => simp [links, hskips]
  | false =>
    have hinputs : ((inputs r).filter fun l =>
        Edge.named? l.targetHandle == some target && l.target == Drawing.targetId) = [] :=
      List.filter_eq_nil_iff.2 fun l hl => by simp [target_ne_of_mem_inputs hl]
    have hnamed : Edge.named? (some r.target) = some r.target := by
      simp [Edge.named?, hr hskips]
    rw [links_of_not_skips hskips, List.filter_append, hinputs, List.nil_append, List.filter_cons,
      targetHandle_arrival, target_arrival, hnamed]
    simp

/-- **At the target field arrive the edges of its rules, in their order.** -/
theorem Shows.map_link_incomingAt (hc : Shows c s) (h : Drawable s) (target : String) :
    (c.incomingAt Drawing.targetId target).map link =
      (s.rules.filter fun r => r.target == target && !skips r).map arrival := by
  have hfilter : c.incomingAt Drawing.targetId target = c.edges.toList.filter
      ((fun l => Edge.named? l.targetHandle == some target && l.target == Drawing.targetId) ∘
        link) := by
    rw [Canvas.incomingAt, hc.coherent.incoming_eq, List.filter_filter]
    rfl
  rw [hfilter, ← List.filter_map, hc.links_eq, List.filter_flatMap, map_filter_eq_flatMap]
  exact List.flatMap_congr fun r hr => filter_links (h.target_ne r hr) target

/-- A step is neither source nor target, and its type is known. -/
theorem body_of_mem_steps (r : Rule) :
    ∀ p ∈ steps r, p.2.schema? = none ∧ p.2.nodeType?.isSome = true := by
  obtain ⟨source, target, action⟩ := r
  rcases action with _ | _ | _ | ⟨table, _ | step⟩ | _ <;>
    simp [steps, Node.Body.schema?, Node.Body.nodeType?]

/-- **Edges arrive group by group**, since the common target has one field for each target of a
rule. -/
theorem Shows.arrivals_eq (hc : Shows c s) : c.arrivals =
    (s.rules.map Rule.target).eraseDups.flatMap fun target =>
      (c.incomingAt Drawing.targetId target).map (·, target) := by
  obtain ⟨position, position', between, hnodes, hasked⟩ := hc.nodes_eq
  have hbetween : between.flatMap c.arrivalsAt = [] := by
    refine List.flatMap_eq_nil_iff.2 fun n hn => ?_
    obtain ⟨r, -, hstep⟩ := List.mem_flatMap.1 (hasked n hn)
    have hschema : n.body.schema? = none := (body_of_mem_steps r _ hstep).1
    unfold Canvas.arrivalsAt
    cases hb : n.body with
    | target s => simp [hb, Node.Body.schema?] at hschema
    | _ => rfl
  rw [Canvas.arrivals, hnodes, List.flatMap_append, hbetween, List.append_nil]
  simp only [List.flatMap_cons, List.flatMap_nil, List.append_nil, Canvas.arrivalsAt, sourceBody,
    targetBody, Node.Body.targetSchema?, Schema.ofFields, Field.walk_eq_preorder,
    preorderForest_textFields, List.nil_append]
  rw [textFields, List.flatMap_map]
  rfl

/-- **The edges come to the leading rules, group by group.** -/
theorem Shows.map_resolve_arrivals_leader (hc : Shows c s) (h : Drawable s) (hlimit : 2 ≤ limit) :
    (c.arrivals.map fun a => c.resolve limit a.1 a.2) =
      ((grouped s.rules).map (leader s.rules)).map .ok := by
  rw [hc.arrivals_eq, grouped, List.map_flatMap, List.map_flatMap, List.map_flatMap]
  refine List.flatMap_congr fun target _ => ?_
  rw [List.map_map, List.map_map]
  refine map_eq_map_of_map_eq (hc.map_link_incomingAt h target) fun r hr e he => ?_
  obtain ⟨hmem, hr⟩ := List.mem_filter.1 hr
  obtain ⟨rfl, hskips⟩ : r.target = target ∧ skips r = false := by simpa using hr
  exact Canvas.resolve_eq_ok_iff.2 (hc.resolves_leader h hlimit hmem hskips he)

/-- Grouping adds no rule. -/
theorem mem_of_mem_grouped {rs : List Rule} (hr : r ∈ grouped rs) : r ∈ rs := by
  obtain ⟨target, -, hr⟩ := List.mem_flatMap.1 hr
  exact List.mem_of_mem_filter hr

/-- **The edges come to the rules, group by group.** -/
theorem Shows.map_resolve_arrivals (hc : Shows c s) (h : Recompilable s) (hlimit : 2 ≤ limit) :
    (c.arrivals.map fun a => c.resolve limit a.1 a.2) = (grouped s.rules).map .ok := by
  rw [hc.map_resolve_arrivals_leader h.drawable hlimit, List.map_map]
  exact List.map_congr_left fun r hr =>
    congrArg _ (h.separate.leader_eq (mem_of_mem_grouped hr))

/-! ### Nothing to warn of -/

/-- A link leads from the source or a step to a step or the target. -/
theorem ends_of_mem_links (r : Rule) : ∀ l ∈ links r,
    (l.source = Drawing.sourceId ∨ l.source ∈ (steps r).map Prod.fst) ∧
      (l.target = Drawing.targetId ∨ l.target ∈ (steps r).map Prod.fst) := by
  obtain ⟨source, target, action⟩ := r
  rcases action with _ | _ | _ | ⟨table, _ | step⟩ | _ <;>
    simp [links, skips, inputs, arrival, steps]

/-- A link from step to step leads from a transform to a table. -/
theorem between_of_mem_links (r : Rule) : ∀ l ∈ links r,
    l.source = Drawing.sourceId ∨ l.target = Drawing.targetId ∨
      l.source = Role.transform.id r.target ∧ l.target = Role.table.id r.target := by
  obtain ⟨source, target, action⟩ := r
  rcases action with _ | _ | _ | ⟨table, _ | step⟩ | _ <;>
    simp [links, skips, inputs, arrival]

/-- Each edge is a link that some rule asks for. -/
theorem Shows.exists_mem_links (hc : Shows c s) (he : e ∈ c.edges.toList) :
    ∃ r ∈ s.rules, link e ∈ links r :=
  List.mem_flatMap.1 (hc.links_eq ▸ List.mem_map_of_mem he)

/-- No node is of an unknown type. -/
theorem Shows.unknownNodes_eq (hc : Shows c s) : c.unknownNodes = [] := by
  obtain ⟨position, position', between, hnodes, hasked⟩ := hc.nodes_eq
  rw [Canvas.unknownNodes, hnodes, List.filter_append]
  refine List.append_eq_nil_iff.2 ⟨rfl, List.filter_eq_nil_iff.2 fun n hn => ?_⟩
  obtain ⟨r, -, hstep⟩ := List.mem_flatMap.1 (hasked n hn)
  have htype : n.body.nodeType?.isSome = true := (body_of_mem_steps r _ hstep).2
  rw [Option.isSome_iff_ne_none] at htype
  simpa using htype

/-- No edge lacks an end. -/
theorem Shows.droppedEdges_eq (hc : Shows c s) : c.droppedEdges = [] := by
  obtain ⟨position, position', between, hnodes, -⟩ := hc.nodes_eq
  have hsource : Drawing.sourceId ∈ c.nodes.toList.map Node.id := by simp [hnodes]
  have htarget : Drawing.targetId ∈ c.nodes.toList.map Node.id := by simp [hnodes]
  have hstep : ∀ r ∈ s.rules, ∀ id ∈ (steps r).map Prod.fst, id ∈ c.nodes.toList.map Node.id := by
    intro r hr id hid
    obtain ⟨p, hp, rfl⟩ := List.mem_map.1 hid
    exact hc.mem_ids (List.mem_flatMap.2 ⟨r, hr, hp⟩)
  refine List.filter_eq_nil_iff.2 fun e he => ?_
  obtain ⟨r, hr, hl⟩ := hc.exists_mem_links he
  obtain ⟨hs, ht⟩ := ends_of_mem_links r _ hl
  have hes : (link e).source ∈ c.nodes.toList.map Node.id := hs.elim (· ▸ hsource) (hstep r hr _)
  have het : (link e).target ∈ c.nodes.toList.map Node.id := ht.elim (· ▸ htarget) (hstep r hr _)
  have hkept : e ∈ c.keptEdges := Canvas.mem_keptEdges.2 ⟨he, hes, het⟩
  simpa [Canvas.keptEdges, he] using hkept

/-- **No step waits for itself.**  A step on a cycle feeds a step and is fed by one, so it would be
a transform and a table at once. -/
theorem Shows.not_behindCycle (hc : Shows c s) (id : String) : ¬Plan.BehindCycle c id := by
  obtain ⟨position, position', between, hnodes, -⟩ := hc.nodes_eq
  have hsourceId : Drawing.sourceId ∉ c.innerIds :=
    hc.coherent.not_mem_innerIds (n := ⟨Drawing.sourceId, position, sourceBody s⟩)
      (by simp [hnodes]) rfl
  have htargetId : Drawing.targetId ∉ c.innerIds :=
    hc.coherent.not_mem_innerIds (n := ⟨Drawing.targetId, position', targetBody s⟩)
      (by simp [hnodes]) rfl
  have hfeeds : ∀ u v, Plan.Feeds c u v →
      (∃ target, u = Role.transform.id target) ∧ ∃ target, v = Role.table.id target := by
    rintro u v ⟨hu, hv, e, he, rfl, rfl⟩
    obtain ⟨r, -, hl⟩ := hc.exists_mem_links he
    rcases between_of_mem_links r _ hl with hsource | htarget | ⟨hsource, htarget⟩
    · exact absurd (hsource ▸ hu : Drawing.sourceId ∈ c.innerIds) hsourceId
    · exact absurd (htarget ▸ hv : Drawing.targetId ∈ c.innerIds) htargetId
    · exact ⟨⟨_, hsource⟩, _, htarget⟩
  rintro ⟨w, hcycle, -⟩
  obtain ⟨_, hfirst, -⟩ := Relation.TransGen.head'_iff.1 hcycle
  obtain ⟨_, -, hlast⟩ := Relation.TransGen.tail'_iff.1 hcycle
  obtain ⟨⟨target, htransform⟩, -⟩ := hfeeds _ _ hfirst
  obtain ⟨-, target', htable⟩ := hfeeds _ _ hlast
  obtain ⟨hrole, -⟩ := Role.id_inj.1 (htransform.symm.trans htable)
  cases hrole

/-- The plan leaves out no step. -/
theorem Shows.warnings_plan_eq (hc : Shows c s) : (Plan.plan c).2 = [] :=
  Plan.warnings_plan_eq_nil hc.coherent fun id hid =>
    (Plan.mem_final_taken_iff hc.coherent).2 ⟨hid, hc.not_behindCycle id⟩

end Restore

namespace Exporter

open Restore

variable {s : RuleSet}

/-- **Rules that are drawn and compiled again are the same rules.**  No two constants, no two
choices and no two lookups may have one target field, fields must have names, and a walk must be
allowed two nodes; then nothing is warned of, and the rules come back group by group. -/
theorem exportAll_fromRules (h : Recompilable s) (gs : List Grouping) (layout : Layout)
    (x : Exporter) (hlimit : 2 ≤ x.options.maxResolveDepth) :
    (x.exportAll (fromRules gs layout s)).2.1.rules = grouped s.rules ∧
      (x.exportAll (fromRules gs layout s)).2.2 = [] := by
  have hc := h.shows_fromRules gs layout
  have hresolved := hc.map_resolve_arrivals h hlimit
  have hrules : (x.exportRules (fromRules gs layout s)).1.rules = grouped s.rules := by
    have hanswers := congrArg (List.filterMap rule?) hresolved
    rw [List.filterMap_map, List.filterMap_map] at hanswers
    rw [exportRules_eq]
    exact hanswers.trans (List.filterMap_some ..)
  have hwarnings : (x.exportRules (fromRules gs layout s)).2 = [] := by
    have hanswers := congrArg (List.filterMap warning?) hresolved
    rw [List.filterMap_map, List.filterMap_map] at hanswers
    rw [exportRules_eq]
    exact hanswers.trans (List.filterMap_eq_nil_iff.2 fun _ _ => rfl)
  have hsnapshot : (x.exportSnapshot (fromRules gs layout s)).2 = [] := by
    rw [warnings_exportSnapshot hc.coherent, hc.unknownNodes_eq, hc.droppedEdges_eq,
      hc.warnings_plan_eq]
    rfl
  refine ⟨hrules, ?_⟩
  have hall : (x.exportAll (fromRules gs layout s)).2.2 =
      (x.exportSnapshot (fromRules gs layout s)).2 ++
        (x.exportRules (fromRules gs layout s)).2 := rfl
  rw [hall, hsnapshot, hwarnings]
  rfl

/-- Rules of every kind for three target fields. -/
def mixedRules : RuleSet :=
  ⟨none, none,
    [⟨none, "z", .skip⟩, ⟨some "a", "x", .copy⟩, ⟨none, "y", .constant .null⟩,
      ⟨some "b", "x", .choose ⟨.isEmpty, .null⟩ .null .null⟩,
      ⟨some "a", "y", .lookUp .empty (some (.split "," 0))⟩, ⟨some "b", "z", .copy⟩,
      ⟨some "b", "x", .copy⟩], []⟩

/-- The mixed rules can be compiled again. -/
theorem recompilable_mixedRules : Recompilable mixedRules where
  valid := rfl
  target_ne := by simp [mixedRules]
  source_ne := by simp [mixedRules]
  separate := by
    unfold Separate
    decide

/-- The rules come back group by group, those for the skipped field in front. -/
theorem exportAll_fromRules_mixedRules :
    Recompilable mixedRules ∧ 2 ≤ plainExporter.options.maxResolveDepth ∧
      (plainExporter.exportAll (fromRules [] default mixedRules)).2.1.rules =
        [⟨some "b", "z", .copy⟩, ⟨some "a", "x", .copy⟩,
          ⟨some "b", "x", .choose ⟨.isEmpty, .null⟩ .null .null⟩, ⟨some "b", "x", .copy⟩,
          ⟨none, "y", .constant .null⟩, ⟨some "a", "y", .lookUp .empty (some (.split "," 0))⟩] ∧
      (plainExporter.exportAll (fromRules [] default mixedRules)).2.2 = [] := by
  obtain ⟨hrules, hwarnings⟩ := exportAll_fromRules recompilable_mixedRules [] default
    plainExporter (by decide)
  exact ⟨recompilable_mixedRules, by decide, hrules.trans rfl, hwarnings⟩

end Exporter
end MappingCanvas
