/-
# Rules of a suggested canvas

A canvas that was drawn for suggestions compiles to what the suggestions say, in their order
(`exportRules_canvas`): a copy, a constant, a lookup or a choice for each that says so, and a
warning for each other one that is drawn (`outcome?`).

When no two suggestions share a target field, everything in the canvas belongs to one suggestion or
is a source field.  The target field has one edge coming in, which leaves the node of the
suggestion; that node has an edge from each source field that the suggestion reads, and no other.
-/

import MappingCanvas.Proofs.Compile.Arrivals
import MappingCanvas.Proofs.Compile.Noninterference
import MappingCanvas.Proofs.Suggestion.Connections

namespace MappingCanvas
namespace Suggestion

/-! ### What a suggestion compiles to -/

/-- The refusal of an edge from a node that makes no value. -/
def unsupported (role : Role) (type : NodeType) (target : String) : Warning :=
  .unsupportedOrigin (Sketch.edgeId (role.id target) (Role.target.id target)) (role.id target)
    type.name

/-- The choice that some branches make. -/
def choice (branches : List Branch) : Rule.Action :=
  let p := conditionalOf branches
  .choose ⟨p.operator, p.compareValue⟩ p.thenValue p.elseValue

/-- What a suggestion compiles to, if it is drawn. -/
def outcome? : Suggestion → Option (Except Warning Rule)
  | .direct target source => some (.ok ⟨some source, target, .copy⟩)
  | .constant target value => some (.ok ⟨none, target, .constant value⟩)
  | .conditional target source branches =>
    match (Sketch.conditionalInputs source branches).head? with
    | some field => some (.ok ⟨some field, target, choice branches⟩)
    | none => some (.error (.missingInput (Role.conditional.id target)))
  | .table target source entries => some (.ok ⟨some source, target, .lookUp entries none⟩)
  | .date target _ _ => some (.error (unsupported .date .date target))
  | .concat target _ _ => some (.error (unsupported .concat .concat target))
  | .split target _ _ _ => some (.error (unsupported .split .split target))
  | .skip _ _ | .unrecognised _ _ _ => none

/-- Suggestions that can be compiled one by one: those that are drawn have different target fields,
all fields have names, and no two edges with different ends have one id. -/
structure Compilable (ss : List Suggestion) : Prop where
  nodup_targets : (ss.filterMap field?).Nodup
  target_ne : ∀ target ∈ ss.filterMap field?, target ≠ ""
  source_ne : ∀ s ∈ ss, ∀ field ∈ s.sources, field ≠ ""
  unambiguous : Unambiguous ss

variable {samples : List Value} {layout : Layout} {ss : List Suggestion} {s s' : Suggestion}
  {target field : String} {own : Own} {e : Edge} {limit : Nat}

/-! ### Fields that are read -/

/-- A condition never names the empty field. -/
theorem ne_empty_of_parseCondition? {text : String} {p : ParsedCondition}
    (h : parseCondition? text = some p) (hfield : p.field = some field) : field ≠ "" := by
  unfold parseCondition? at h
  obtain ⟨⟨before, symbol, behind⟩, -, h⟩ := Option.bind_eq_some_iff.1 h
  obtain ⟨operator, -, h⟩ := Option.bind_eq_some_iff.1 h
  obtain rfl := Option.some.inj h
  rintro rfl
  simp only at hfield
  split at hfield
  · cases hfield
  · rename_i hne
    exact hne (by rw [Option.some.inj hfield]; rfl)

/-- A field that a condition names has a name. -/
theorem Compilable.input_ne (h : Compilable ss) (hs : s ∈ ss) (hfield : field ∈ s.inputs) :
    field ≠ "" := by
  cases s with
  | conditional target source branches =>
    cases source with
    | some source =>
      obtain rfl := List.mem_singleton.1 hfield
      exact h.source_ne _ hs _ (List.mem_singleton_self _)
    | none =>
      obtain ⟨b, -, hb⟩ := List.exists_of_findSome?_eq_some (Option.mem_toList.1 hfield)
      obtain ⟨p, hp, hpfield⟩ := Option.bind_eq_some_iff.1 hb
      exact ne_empty_of_parseCondition? hp hpfield
  | _ => exact h.source_ne _ hs _ hfield

/-! ### One suggestion for each target field -/

/-- Two suggestions for one target field are one. -/
theorem Compilable.eq_of_field? (h : Compilable ss) (hs : s ∈ ss) (hs' : s' ∈ ss)
    (htarget : s.field? = some target) (htarget' : s'.field? = some target) : s = s' :=
  eq_of_nodup_filterMap h.nodup_targets hs hs' htarget htarget'

/-- **What arrives at a node for a target field, its suggestion asked for.** -/
theorem Compilable.mem_incoming (h : Compilable ss) (hs : s ∈ ss) (htarget : s.field? = some target)
    {role : Role} : e ∈ (canvas samples layout ss).incoming (role.id target) ↔
      e ∈ s.wires ∧ e.target = role.id target := by
  rw [(coherent_canvas samples layout ss).incoming_eq, List.mem_filter, h.unambiguous.mem_edges,
    beq_iff_eq, List.mem_flatMap]
  refine and_congr_left fun hhead => ⟨fun ⟨s', hs', he⟩ => ?_, fun he => ⟨s, hs, he⟩⟩
  obtain ⟨target', htarget', ⟨field, -, rfl⟩ | ⟨own, -, rfl⟩⟩ := mem_wires.1 he <;>
  · obtain ⟨-, rfl⟩ := Role.id_inj.1 hhead
    exact h.eq_of_field? hs hs' htarget htarget' ▸ he

/-- No edge arrives at a node twice. -/
theorem nodup_incoming (id : String) : ((canvas samples layout ss).incoming id).Nodup := by
  rw [(coherent_canvas samples layout ss).incoming_eq, edges_canvas]
  exact (List.Nodup.of_map _ (nodup_firsts Edge.id _)).filter _

/-- An edge that arrives at a target field arrives at the handle there. -/
theorem incomingAt_of_incoming {c : Canvas} {tail : Role} {x : String} (hne : target ≠ "")
    (h : c.incoming (Role.target.id target) = [wire tail x .target target]) :
    c.incomingAt (Role.target.id target) target = [wire tail x .target target] := by
  have hhandle : (wire tail x .target target).targetHandle? = some target := by
    simp [wire, Edge.targetHandle?, Edge.named?, Role.input, hne]
  rw [Canvas.incomingAt, h, List.filter_cons_of_pos (by simp [hhandle]), List.filter_nil]

/-- **The edge into the target field leaves the node of the suggestion.** -/
theorem Compilable.incomingAt_own (h : Compilable ss) (hs : s ∈ ss)
    (htarget : s.field? = some target) (hown : s.own? = some own) :
    (canvas samples layout ss).incomingAt (Role.target.id target) target =
      [wire own.role target .target target] := by
  refine incomingAt_of_incoming (h.target_ne target (List.mem_filterMap.2 ⟨s, hs, htarget⟩))
    (eq_singleton_of_nodup (nodup_incoming _) fun e => ?_)
  rw [h.mem_incoming hs htarget, mem_wires]
  constructor
  · rintro ⟨⟨target', htarget', ⟨field, -, rfl⟩ | ⟨own', hown', rfl⟩⟩, hhead⟩
    · have hconsumer : s.consumer = .target := (Role.id_inj.1 hhead).1
      exact absurd (consumer_of_own hown ▸ hconsumer) (role_own hown).2
    · obtain rfl := Option.some.inj (htarget.symm.trans htarget')
      obtain rfl := Option.some.inj (hown.symm.trans hown')
      rfl
  · rintro rfl
    exact ⟨⟨target, htarget, .inr ⟨own, hown, rfl⟩⟩, rfl⟩

/-- The edge into the target field of a copy leaves the source field. -/
theorem Compilable.incomingAt_direct (h : Compilable ss) (hs : .direct target field ∈ ss) :
    (canvas samples layout ss).incomingAt (Role.target.id target) target =
      [wire .source field .target target] := by
  refine incomingAt_of_incoming (h.target_ne target (List.mem_filterMap.2 ⟨_, hs, rfl⟩))
    (eq_singleton_of_nodup (nodup_incoming _) fun e => ?_)
  rw [h.mem_incoming hs rfl]
  have hwires : (direct target field).wires = [wire .source field .target target] := rfl
  rw [hwires, List.mem_singleton]
  exact and_iff_left_of_imp fun he => he ▸ rfl

/-- **The edges into the node of a suggestion come from the source fields that feed it.** -/
theorem Compilable.mem_incoming_own (h : Compilable ss) (hs : s ∈ ss)
    (htarget : s.field? = some target) (hown : s.own? = some own) :
    e ∈ (canvas samples layout ss).incoming (own.role.id target) ↔
      ∃ field ∈ s.inputs, e = wire .source field own.role target := by
  rw [h.mem_incoming hs htarget, mem_wires]
  constructor
  · rintro ⟨⟨target', htarget', ⟨field, hfield, rfl⟩ | ⟨own', hown', rfl⟩⟩, hhead⟩
    · obtain rfl := Option.some.inj (htarget.symm.trans htarget')
      exact ⟨field, hfield, by rw [consumer_of_own hown]⟩
    · exact absurd (Role.id_inj.1 hhead).1.symm (role_own hown).2
  · rintro ⟨field, hfield, rfl⟩
    exact ⟨⟨target, htarget, .inl ⟨field, hfield, by rw [consumer_of_own hown]⟩⟩, rfl⟩

section

variable (samples layout)

/-! ### Nodes -/

/-- **The node of a suggestion is there as it was asked for.** -/
theorem Compilable.exists_own (h : Compilable ss) (hs : s ∈ ss) (htarget : s.field? = some target)
    (hown : s.own? = some own) :
    ∃ n, (canvas samples layout ss).node? (own.role.id target) = some n ∧
      n.id = own.role.id target ∧ n.body = own.body := by
  refine exists_node_canvas (n := own.node target)
    (List.mem_flatMap.2 ⟨s, hs, mem_asked.2 ⟨target, htarget, .inr (.inl ⟨own, hown, rfl⟩)⟩⟩)
    fun m hm hid => ?_
  obtain ⟨s', hs', hm⟩ := List.mem_flatMap.1 hm
  obtain ⟨hsource, htarget'⟩ := role_own hown
  obtain ⟨hfield, own', hown', -, rfl⟩ := (eq_of_id_asked hm hid).2.2 hsource htarget'
  obtain rfl := h.eq_of_field? hs hs' htarget hfield
  rw [Option.some.inj (hown.symm.trans hown')]

/-- The node of a source field is there, whatever suggestion asked for it. -/
theorem exists_source (hs : s ∈ ss) (htarget : s.field? = some target) (hfield : field ∈ s.inputs) :
    ∃ n, (canvas samples layout ss).node? (Role.source.id field) = some n ∧
      n.id = Role.source.id field ∧ n.body = .source (sourceSchema samples field) := by
  refine exists_node_canvas (n := sourceNode samples field) (List.mem_flatMap.2
    ⟨s, hs, mem_asked.2 ⟨target, htarget, .inr (.inr ⟨field, hfield, rfl⟩)⟩⟩) fun m hm hid => ?_
  obtain ⟨s', -, hm⟩ := List.mem_flatMap.1 hm
  exact (eq_of_id_asked hm hid).1 rfl

/-- The tree of one field is walked at once. -/
theorem walk_ofName (name : String) (type : DataType) :
    Field.walk [Field.ofName name type] = [Field.ofName name type] := by
  rw [Field.walk_eq_preorder]
  cases type <;> rfl

/-- A source has its field. -/
theorem find?_sourceSchema (field : String) :
    Field.find? (sourceSchema samples field).fields field =
      some (Field.ofName field (inferType samples field)) := by
  have hid : Field.findById? (sourceSchema samples field).fields field =
      some (Field.ofName field (inferType samples field)) := by
    rw [Field.findById?, sourceSchema, Schema.ofFields, walk_ofName]
    exact List.find?_cons_of_pos (beq_self_eq_true field)
  rw [Field.find?, hid]

/-- A source field is named by its handle. -/
theorem fieldName_wire {head : Role} {y id : String} (hne : field ≠ "") :
    Canvas.fieldName (wire .source field head y) id (sourceSchema samples field) = .ok field := by
  have hhandle : (wire .source field head y).sourceHandle? = some field := by
    simp [wire, Edge.sourceHandle?, Edge.named?, Role.output, hne]
  exact Canvas.fieldName_eq_ok_iff.2 ⟨field, _, hhandle, find?_sourceSchema samples field, rfl⟩

/-! ### Resolving -/

/-- A node that at most one source field feeds has that field as its first input. -/
theorem Compilable.firstInput?_own (h : Compilable ss) (hs : s ∈ ss)
    (htarget : s.field? = some target) (hown : s.own? = some own) {input : Option String}
    (hinput : s.inputs = input.toList) :
    (canvas samples layout ss).firstInput? (own.role.id target) =
      input.map fun field => wire .source field own.role target := by
  have hmem {e : Edge} : e ∈ (canvas samples layout ss).incoming (own.role.id target) ↔
      ∃ field ∈ input.toList, e = wire .source field own.role target :=
    hinput ▸ h.mem_incoming_own hs htarget hown
  rw [Canvas.firstInput?]
  cases input with
  | none =>
    have hnil : (canvas samples layout ss).incoming (own.role.id target) = [] :=
      List.eq_nil_iff_forall_not_mem.2 fun e he => by simpa using hmem.1 he
    rw [hnil]
    rfl
  | some field =>
    have hone : (canvas samples layout ss).incoming (own.role.id target) =
        [wire .source field own.role target] :=
      eq_singleton_of_nodup (nodup_incoming _) fun e => hmem.trans (by simp)
    rw [hone]
    rfl

/-- What arrives at the target field is resolved by what the node of the suggestion is. -/
theorem Compilable.map_resolve_own (h : Compilable ss) (hs : s ∈ ss)
    (htarget : s.field? = some target) (hown : s.own? = some own) :
    (((canvas samples layout ss).incomingAt (Role.target.id target) target).map fun e =>
      (canvas samples layout ss).resolve limit e target) =
      [(canvas samples layout ss).ruleAt limit (wire own.role target .target target) target
        (own.role.id target) own.body] := by
  obtain ⟨n, hn, hid, hbody⟩ := h.exists_own samples layout hs htarget hown
  have hsource : (canvas samples layout ss).node? (wire own.role target .target target).source =
      some n := hn
  rw [h.incomingAt_own hs htarget hown, List.map_singleton, Canvas.resolve_eq, hsource, ← hid,
    ← hbody]

/-- The source field that feeds a node is the one that its suggestion reads. -/
theorem Compilable.inputField_own (h : Compilable ss) (hs : s ∈ ss)
    (htarget : s.field? = some target) (hown : s.own? = some own) {input : Option String}
    (hinput : s.inputs = input.toList) (hlimit : 1 ≤ limit) :
    (canvas samples layout ss).inputField limit limit (own.role.id target) =
      input.elim (.error (.missingInput (own.role.id target))) .ok := by
  have hfirst := h.firstInput?_own samples layout hs htarget hown hinput
  obtain ⟨steps, rfl⟩ : ∃ steps, limit = steps + 1 := ⟨limit - 1, by omega⟩
  rw [Canvas.inputField_succ]
  cases input with
  | none =>
    rw [Canvas.lookBack_noInput hfirst]
    rfl
  | some field =>
    have hfield : field ∈ s.inputs := by simp [hinput]
    obtain ⟨n, hn, -, hbody⟩ := exists_source samples layout hs htarget hfield
    rw [Canvas.lookBack_node hfirst hn, hbody]
    exact fieldName_wire samples (h.input_ne hs hfield)

/-- **What arrives at a target field comes to what the suggestion says.** -/
theorem Compilable.map_resolve_incomingAt (h : Compilable ss) (hs : s ∈ ss)
    (htarget : s.field? = some target) (hlimit : 1 ≤ limit) :
    (((canvas samples layout ss).incomingAt (Role.target.id target) target).map fun e =>
      (canvas samples layout ss).resolve limit e target) = s.outcome?.toList := by
  cases s with
  | direct target' source =>
    cases htarget
    obtain ⟨n, hn, -, hbody⟩ := exists_source samples layout hs rfl
      (List.mem_singleton_self source)
    rw [h.incomingAt_direct hs, List.map_singleton, Canvas.resolve_eq_ok_iff.2
      (.source hn hbody (fieldName_wire samples (h.input_ne hs (List.mem_singleton_self _))))]
    rfl
  | constant target' value =>
    cases htarget
    rw [h.map_resolve_own samples layout hs rfl rfl]
    rfl
  | conditional target' source branches =>
    cases htarget
    have hinput : (conditional target source branches).inputs =
        (Sketch.conditionalInputs source branches).head?.toList := by
      cases source with
      | some source => rfl
      | none =>
        rw [inputs, Sketch.conditionalInputs]
        cases branches.findSome? _ <;> rfl
    have hwalk := h.inputField_own samples layout hs rfl rfl hinput hlimit
    rw [h.map_resolve_own samples layout hs rfl rfl]
    simp only [Own.transform] at hwalk ⊢
    rw [Canvas.ruleAt, hwalk, outcome?]
    cases (Sketch.conditionalInputs source branches).head? <;> rfl
  | table target' source entries =>
    cases htarget
    obtain ⟨n, hn, hid, hbody⟩ := h.exists_own samples layout hs rfl rfl
    obtain ⟨m, hm, -, hsource⟩ := exists_source samples layout hs rfl
      (List.mem_singleton_self source)
    have hinput : (table target source entries).inputs = (some source).toList := rfl
    have hfirst := h.firstInput?_own samples layout hs rfl rfl hinput
    have hread : (canvas samples layout ss).lookupInput limit (wire .source source .table target) =
        .ok (source, none) :=
      Canvas.lookupInput_eq_ok_iff.2 ⟨m, hm, .inl ⟨_, hsource,
        fieldName_wire samples (h.input_ne hs (List.mem_singleton_self _)), rfl⟩⟩
    rw [h.incomingAt_own hs rfl rfl, List.map_singleton,
      Canvas.resolve_eq_ok_iff.2 (.lookup hn hbody (hid ▸ hfirst) hread)]
    rfl
  | skip target' reason => cases htarget
  | unrecognised mappingType target' reason => cases htarget
  | _ =>
    cases htarget
    rw [h.map_resolve_own samples layout hs rfl rfl]
    rfl

end

/-! ### Target fields -/

/-- The node of a suggestion is no target. -/
theorem targetSchema?_own (h : s.own? = some own) : own.body.targetSchema? = none := by
  cases s <;> simp [own?] at h <;> subst h <;> rfl

/-- A node that was asked for is a target exactly when its id is that of a target field. -/
theorem exists_role_of_mem_asked {n : Node} (hn : n ∈ s.asked samples) :
    ∃ role field, n.id = role.id field ∧
      n.body.targetSchema?.isSome = decide (role = Role.target) := by
  obtain ⟨target, -, rfl | ⟨own, hown, rfl⟩ | ⟨field, -, rfl⟩⟩ := mem_asked.1 hn
  · exact ⟨.target, target, rfl, rfl⟩
  · refine ⟨own.role, target, rfl, ?_⟩
    simp [Own.node, targetSchema?_own hown, (role_own hown).2]
  · exact ⟨.source, field, rfl, rfl⟩

/-- A suggestion that is drawn asks for one target. -/
theorem filter_asked (s : Suggestion) :
    (s.asked samples).filter (fun n => n.body.targetSchema?.isSome) =
      (s.field?.map targetNode).toList := by
  unfold asked
  cases s.field? with
  | none => rfl
  | some target =>
    have hown : (s.own?.toList.map (Own.node target)).filter
        (fun n => n.body.targetSchema?.isSome) = [] := by
      refine List.filter_eq_nil_iff.2 (List.forall_mem_map.2 fun own hown => ?_)
      simp [Own.node, targetSchema?_own (Option.mem_toList.1 hown)]
    have hinputs : (s.inputs.map (sourceNode samples)).filter
        (fun n => n.body.targetSchema?.isSome) = [] :=
      List.filter_eq_nil_iff.2 (List.forall_mem_map.2 fun field _ => by
        simp [sourceNode, Node.Body.targetSchema?])
    simp only [List.cons_append]
    rw [List.filter_cons_of_pos rfl, List.filter_append, hown, hinputs]
    rfl

/-- **The targets of the canvas are the target fields, in the order of their suggestions.** -/
theorem Compilable.map_content_targets (h : Compilable ss) :
    (canvas samples layout ss).targets.map Node.content =
      ((ss.filterMap field?).map targetNode).map Node.content := by
  have hasked : (ss.flatMap (asked samples)).filter (fun n => n.body.targetSchema?.isSome) =
      (ss.filterMap field?).map targetNode := by
    rw [List.filter_flatMap, List.map_filterMap, List.filterMap_eq_flatMap_toList]
    exact List.flatMap_congr fun s _ => filter_asked s
  have hids : (((ss.filterMap field?).map targetNode).map Node.id).Nodup := by
    rw [List.map_map]
    exact h.nodup_targets.map fun _ _ hid => (Role.id_inj.1 hid).2
  have hkey : ∀ n ∈ ss.flatMap (asked samples), ∀ m ∈ ss.flatMap (asked samples), n.id = m.id →
      n.body.targetSchema?.isSome = m.body.targetSchema?.isSome := by
    intro n hn m hm hid
    obtain ⟨_, -, hn⟩ := List.mem_flatMap.1 hn
    obtain ⟨_, -, hm⟩ := List.mem_flatMap.1 hm
    obtain ⟨role, field, hnid, hn⟩ := exists_role_of_mem_asked hn
    obtain ⟨role', field', hmid, hm⟩ := exists_role_of_mem_asked hm
    rw [hn, hm, (Role.id_inj.1 (hnid.symm.trans (hid.trans hmid))).1]
  calc (canvas samples layout ss).targets.map Node.content
      = ((canvas samples layout ss).nodes.toList.map Node.content).filter
          (fun content => content.2.targetSchema?.isSome) := by
        rw [List.filter_map]
        rfl
    _ = ((firsts Node.id (ss.flatMap (asked samples))).filter
          fun n => n.body.targetSchema?.isSome).map Node.content := by
        rw [map_content_nodes_canvas, List.filter_map]
        rfl
    _ = ((ss.filterMap field?).map targetNode).map Node.content := by
        rw [filter_firsts hkey, hasked, firsts_of_nodup hids]

/-- **What targets alone give, the target fields give, in the order of their suggestions.** -/
theorem Compilable.flatMap_nodes (h : Compilable ss) {α : Type} {f : Node → List α}
    (hcontent : ∀ n m : Node, n.content = m.content → f n = f m)
    (hnone : ∀ n : Node, n.body.targetSchema? = none → f n = []) :
    (canvas samples layout ss).nodes.toList.flatMap f =
      (ss.filterMap field?).flatMap fun target => f (targetNode target) := by
  rw [← Canvas.flatMap_targets hnone,
    Canvas.flatMap_eq_of_map_eq h.map_content_targets fun n _ m heq => hcontent n m heq,
    List.flatMap_map]

/-- At the node of a target field arrive the edges at this field. -/
theorem arrivalsAt_targetNode (c : Canvas) (target : String) :
    c.arrivalsAt (targetNode target) =
      (c.incomingAt (Role.target.id target) target).map (·, target) := by
  simp only [Canvas.arrivalsAt, targetNode, Node.Body.targetSchema?, Schema.ofFields, walk_ofName,
    List.flatMap_singleton]
  rfl

/-- A target field has no grouping. -/
theorem targetGroupings_targetNode (target : String) :
    Exporter.targetGroupings (targetNode target) = [] := by
  simp only [Exporter.targetGroupings, targetNode, Node.Body.targetSchema?, Schema.ofFields,
    Grouping.collect, walk_ofName]
  rfl

/-- **The edges of the canvas come to what the suggestions say, in their order.** -/
theorem Compilable.map_resolve_arrivals (h : Compilable ss) (samples : List Value) (layout : Layout)
    (hlimit : 1 ≤ limit) :
    ((canvas samples layout ss).arrivals.map fun a =>
      (canvas samples layout ss).resolve limit a.1 a.2) = ss.filterMap outcome? := by
  have hcontent : ∀ n m : Node, n.content = m.content →
      (canvas samples layout ss).arrivalsAt n = (canvas samples layout ss).arrivalsAt m := by
    rintro ⟨id, position, body⟩ ⟨id', position', body'⟩ heq
    obtain ⟨rfl, rfl⟩ := Prod.mk.inj heq
    rfl
  rw [Canvas.arrivals, h.flatMap_nodes hcontent fun n hn => by simp only [Canvas.arrivalsAt, hn]]
  simp only [arrivalsAt_targetNode, List.map_flatMap, List.map_map, Function.comp_def,
    List.filterMap_eq_flatMap_toList, List.flatMap_assoc]
  refine List.flatMap_congr fun s hs => ?_
  cases htarget : s.field? with
  | none => cases s <;> cases htarget <;> rfl
  | some target =>
    simpa using h.map_resolve_incomingAt samples layout hs htarget hlimit

/-- **A suggested canvas compiles to what the suggestions say.**  When the suggestions that are
drawn have different target fields, all fields have names, no two edges with different ends have one
id, and a walk is allowed a node, then the rules of the canvas are those of the suggestions, in
their order, and the warnings are those of the suggestions that come to no rule. -/
theorem exportRules_canvas (h : Compilable ss) (samples : List Value) (layout : Layout)
    (x : Exporter) (hlimit : 1 ≤ x.options.maxResolveDepth) :
    x.exportRules (canvas samples layout ss) =
      (⟨if x.name.isEmpty then none else some x.name, some x.version,
          (ss.filterMap outcome?).filterMap Exporter.rule?, []⟩,
        (ss.filterMap outcome?).filterMap Exporter.warning?) := by
  have hresolved := h.map_resolve_arrivals samples layout hlimit
  have hgroupings : (canvas samples layout ss).nodes.toList.flatMap Exporter.targetGroupings =
      [] := by
    rw [h.flatMap_nodes (f := Exporter.targetGroupings)]
    · exact List.flatMap_eq_nil_iff.2 fun target _ => targetGroupings_targetNode target
    · rintro ⟨id, position, body⟩ ⟨id', position', body'⟩ heq
      obtain ⟨rfl, rfl⟩ := Prod.mk.inj heq
      rfl
    · intro n hn
      simp only [Exporter.targetGroupings, hn]
  rw [Exporter.exportRules_eq, hgroupings, ← hresolved, List.filterMap_map, List.filterMap_map]
  rfl

/-- Suggestions of every kind, some of which read the same source field. -/
def everyKind : List Suggestion :=
  [.split "part" "code" "-" 1, .direct "mail" "e_mail", .skip (some "mail") none,
    .conditional "kind" none [⟨"code == 'A'", .string "first"⟩, ⟨"else", .null⟩],
    .constant "origin" (.string "import"), .concat "both" ["code", "code"] " ",
    .conditional "rest" none [⟨"otherwise", .null⟩],
    .table "country" "code" (.ofList [("A", "Austria")]), .date "day" "at" "%Y",
    .unrecognised "guess" (some "mail") "unknown mapping_type"]

/-- The suggestions of every kind can be compiled one by one. -/
theorem compilable_everyKind : Compilable everyKind where
  nodup_targets := by decide
  target_ne := by decide
  source_ne := by simp [everyKind, sources]
  unambiguous := Plain.unambiguous (.inr (by decide))

/-- Four of them come to rules and four to warnings. -/
theorem exportRules_canvas_everyKind :
    Compilable everyKind ∧ 1 ≤ Exporter.plainExporter.options.maxResolveDepth ∧
      Exporter.plainExporter.exportRules (canvas [] .default everyKind) =
        (⟨none, some "1.0",
            [⟨some "e_mail", "mail", .copy⟩,
              ⟨some "code", "kind", .choose ⟨.equals, .string "A"⟩ (.string "first") .null⟩,
              ⟨none, "origin", .constant (.string "import")⟩,
              ⟨some "code", "country", .lookUp (.ofList [("A", "Austria")]) none⟩], []⟩,
          [.unsupportedOrigin "e_split_part_target_part" "split_part" "splitterTransform",
            .unsupportedOrigin "e_concat_both_target_both" "concat_both" "concatTransform",
            .missingInput "conditional_rest",
            .unsupportedOrigin "e_date_day_target_day" "date_day" "dateConversion"]) := by
  refine ⟨compilable_everyKind, by decide, ?_⟩
  exact (exportRules_canvas compilable_everyKind [] .default Exporter.plainExporter
    (by decide)).trans rfl

end Suggestion
end MappingCanvas
