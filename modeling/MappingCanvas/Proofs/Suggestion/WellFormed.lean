/-
# Suggested canvases are well formed

Whatever the suggestions are, the id of a node tells its kind: a source, a target, or what
suggestions of one kind draw (`body_of_mem_nodes`).  An edge was asked for together with its ends,
and since the nodes of its ends are of the kinds that their ids tell, a canvas of suggestions is in
layers (`layered_canvas`): source fields feed the nodes of suggestions or target fields, and nodes
of suggestions feed target fields.  It stays in layers when edges are lost because their ids are
taken.

So every export of such a canvas plans all nodes of suggestions, in the order of the canvas, and
warns of little (`canvas_wellFormed`).
-/

import MappingCanvas.Proofs.Compile.Layered
import MappingCanvas.Proofs.Suggestion.Rules
import MappingCanvas.Schema.Validation

namespace MappingCanvas
namespace Suggestion

variable {samples : List Value} {layout : Layout} {ss : List Suggestion} {s : Suggestion}
  {own : Own} {n : Node} {e : Edge} {role : Role} {field : String}

/-! ### Kinds of nodes -/

/-- The node of a suggestion transforms or looks up. -/
theorem body_own (h : s.own? = some own) :
    (∃ l, own.body = .lookup l) ∨ ∃ label operation, own.body = .transform label operation := by
  cases s <;> simp [own?] at h <;> subst h <;> simp [Own.transform]

/-- Of constants, the node of a suggestion has the one that its edge asks for. -/
theorem offers_own (h : s.own? = some own) :
    own.body.Offers (Edge.named? (own.role.output field)) := by
  cases s <;> simp [own?] at h <;> subst h <;> trivial

/-- The source of a field offers the field, unless it has no name and so is not asked for it. -/
theorem offers_sourceSchema :
    (Node.Body.source (sourceSchema samples field)).Offers (Edge.named? (some field)) := by
  by_cases hne : field = ""
  · subst hne
    trivial
  · have hnamed : Edge.named? (some field) = some field := by simp [Edge.named?, hne]
    rw [hnamed]
    exact congrArg Option.isSome (find?_sourceSchema samples field)

/-- A field without children is well shaped. -/
theorem validateForest_ofName (name : String) (type : DataType) :
    Field.validateForest [Field.ofName name type] = .ok () := by
  cases type <;> rfl

/-- **The id of a node tells its kind.** -/
theorem body_of_mem_nodes (hn : n ∈ (canvas samples layout ss).nodes.toList)
    (hid : n.id = role.id field) :
    (role = .source → n.body = .source (sourceSchema samples field)) ∧
      (role = .target → n.body = (targetNode field).body) ∧
      (role ≠ .source → role ≠ .target → ∃ s : Suggestion, ∃ own, s.own? = some own ∧
        own.role = role ∧ n.body = own.body) := by
  obtain ⟨m, hm, hcontent⟩ := exists_asked_of_mem hn
  obtain ⟨hmid, hbody⟩ := Prod.mk.inj hcontent
  obtain ⟨s, -, hm⟩ := List.mem_flatMap.1 hm
  obtain ⟨hsource, htarget, hown⟩ := eq_of_id_asked hm (hmid.trans hid)
  rw [← hbody]
  refine ⟨fun h => by rw [hsource h]; rfl, fun h => by rw [htarget h], fun h h' => ?_⟩
  obtain ⟨-, own, hs, hrole, rfl⟩ := hown h h'
  exact ⟨s, own, hs, hrole, rfl⟩

/-- Each node has the id of a role and a field. -/
theorem exists_role_of_mem_nodes (hn : n ∈ (canvas samples layout ss).nodes.toList) :
    ∃ (role : Role) (field : String), n.id = role.id field := by
  obtain ⟨m, hm, hcontent⟩ := exists_asked_of_mem hn
  obtain ⟨s, -, hm⟩ := List.mem_flatMap.1 hm
  obtain ⟨role, field, hid⟩ := exists_role_of_asked hm
  exact ⟨role, field, (congrArg Prod.fst hcontent).symm.trans hid⟩

/-- What was asked for is there, or another node under its id. -/
theorem exists_mem_nodes (samples : List Value) (layout : Layout) (hs : s ∈ ss)
    (hn : n ∈ s.asked samples) : ∃ m ∈ (canvas samples layout ss).nodes.toList, m.id = n.id := by
  refine List.mem_map.1 (?_ : n.id ∈ (canvas samples layout ss).nodes.toList.map Node.id)
  rw [nodes_canvas, Layout.map_id_arrange]
  exact mem_map_firsts.2 (List.mem_map_of_mem (List.mem_flatMap.2 ⟨s, hs, hn⟩))

/-! ### Layers -/

/-- Under the id of the node of a suggestion there is one that sources may feed and that may feed
targets. -/
theorem exists_step (samples : List Value) (layout : Layout) (hs : s ∈ ss)
    (hfield : s.field? = some field) (hown : s.own? = some own) :
    ∃ n ∈ (canvas samples layout ss).nodes.toList, n.id = own.role.id field ∧
      ∀ schema, (Node.Body.source schema).mayFeed n.body = true ∧
        n.body.mayFeed (.target schema) = true := by
  obtain ⟨n, hn, hid⟩ := exists_mem_nodes samples layout hs
    (mem_asked.2 ⟨field, hfield, .inr (.inl ⟨own, hown, rfl⟩)⟩)
  obtain ⟨hsource, htarget⟩ := role_own hown
  obtain ⟨s', own', hown', -, hbody⟩ := (body_of_mem_nodes hn hid).2.2 hsource htarget
  refine ⟨n, hn, hid, fun schema => ?_⟩
  rw [hbody]
  rcases body_own hown' with ⟨l, hl⟩ | ⟨label, operation, hoperation⟩
  · rw [hl]
    exact ⟨rfl, rfl⟩
  · rw [hoperation]
    exact ⟨rfl, rfl⟩

/-- **The ends of an edge are there, and of kinds between which edges may lead.** -/
theorem exists_ends (he : e ∈ (canvas samples layout ss).edges.toList) :
    ∃ m ∈ (canvas samples layout ss).nodes.toList, ∃ n ∈ (canvas samples layout ss).nodes.toList,
      m.id = e.source ∧ n.id = e.target ∧ m.body.mayFeed n.body = true := by
  rw [edges_canvas] at he
  obtain ⟨s, hs, he⟩ := List.mem_flatMap.1 (mem_of_mem_firsts he)
  obtain ⟨target, hfield, he⟩ := mem_wires.1 he
  obtain ⟨t, ht, htid⟩ := exists_mem_nodes samples layout hs
    (mem_asked.2 ⟨target, hfield, .inl rfl⟩)
  have htbody := (body_of_mem_nodes ht htid).2.1 rfl
  rcases he with ⟨field, hinput, rfl⟩ | ⟨own, hown, rfl⟩
  · obtain ⟨m, hm, hmid⟩ := exists_mem_nodes samples layout hs
      (mem_asked.2 ⟨target, hfield, .inr (.inr ⟨field, hinput, rfl⟩)⟩)
    have hmbody := (body_of_mem_nodes hm hmid).1 rfl
    cases hown : s.own? with
    | none =>
      have hconsumer : s.consumer = .target := by simp [consumer, hown]
      refine ⟨m, hm, t, ht, hmid, ?_, ?_⟩
      · rw [hconsumer]
        exact htid
      · rw [hmbody, htbody]
        rfl
    | some own =>
      obtain ⟨n, hn, hnid, hfeeds⟩ := exists_step samples layout hs hfield hown
      refine ⟨m, hm, n, hn, hmid, ?_, ?_⟩
      · rw [consumer_of_own hown]
        exact hnid
      · rw [hmbody]
        exact (hfeeds _).1
  · obtain ⟨m, hm, hmid, hfeeds⟩ := exists_step samples layout hs hfield hown
    refine ⟨m, hm, t, ht, hmid, htid, ?_⟩
    rw [htbody]
    exact (hfeeds _).2

/-- **A canvas of suggestions is in layers.** -/
theorem layered_canvas (samples : List Value) (layout : Layout) (ss : List Suggestion) :
    (canvas samples layout ss).Layered where
  known n hn typeName data hunknown := by
    obtain ⟨role, field, hid⟩ := exists_role_of_mem_nodes hn
    obtain ⟨hsource, htarget, hother⟩ := body_of_mem_nodes hn hid
    by_cases hissource : role = .source
    · cases (hsource hissource).symm.trans hunknown
    by_cases histarget : role = .target
    · cases (htarget histarget).symm.trans hunknown
    obtain ⟨s, own, hown, -, hbody⟩ := hother hissource histarget
    rw [hunknown] at hbody
    rcases body_own hown with ⟨l, hl⟩ | ⟨label, operation, hoperation⟩
    · cases hbody.trans hl
    · cases hbody.trans hoperation
  ends _ he := exists_ends he
  offers e he n hn hid := by
    rw [edges_canvas] at he
    obtain ⟨s, -, he⟩ := List.mem_flatMap.1 (mem_of_mem_firsts he)
    obtain ⟨tail, field, head, target, rfl⟩ := exists_wire_of_mem he
    have hid' : n.id = tail.id field := hid
    have hhandle : (wire tail field head target).sourceHandle? =
        Edge.named? (tail.output field) := rfl
    obtain ⟨hsource, htarget, hother⟩ := body_of_mem_nodes hn hid'
    rw [hhandle]
    by_cases hissource : tail = .source
    · rw [hsource hissource, hissource]
      exact offers_sourceSchema
    by_cases histarget : tail = .target
    · rw [htarget histarget]
      trivial
    obtain ⟨s', own, hown, rfl, hbody⟩ := hother hissource histarget
    rw [hbody]
    exact offers_own hown

/-- The fields of sources and targets have the shape that fields must have. -/
theorem validateForest_of_mem_nodes (hn : n ∈ (canvas samples layout ss).nodes.toList)
    {schema : Schema} (hschema : n.body.schema? = some schema) :
    Field.validateForest schema.fields = .ok () := by
  obtain ⟨m, hm, hcontent⟩ := exists_asked_of_mem hn
  have hbody : m.body = n.body := congrArg Prod.snd hcontent
  rw [← hbody] at hschema
  obtain ⟨s, -, hm⟩ := List.mem_flatMap.1 hm
  obtain ⟨target, -, rfl | ⟨own, hown, rfl⟩ | ⟨field, -, rfl⟩⟩ := mem_asked.1 hm
  · obtain rfl := Option.some.inj hschema
    exact validateForest_ofName target .string
  · rcases body_own hown with ⟨l, hl⟩ | ⟨label, operation, hoperation⟩
    · cases (congrArg Node.Body.schema? hl).symm.trans hschema
    · cases (congrArg Node.Body.schema? hoperation).symm.trans hschema
  · obtain rfl := Option.some.inj hschema
    exact validateForest_ofName field _

/-- **Every canvas of suggestions is well formed.**  No two nodes and no two edges have one id; both
ends of each edge are there, and it leads from a source to a step or a target or from a step to a
target; the fields of sources and targets have the right shape.  Where a walk may go through one
node, each export plans all steps in the order of the canvas, and warns only of steps that make no
value or that nothing feeds and of edges without a handle. -/
theorem canvas_wellFormed (samples : List Value) (layout : Layout) (ss : List Suggestion) :
    ((canvas samples layout ss).nodes.toList.map Node.id).Nodup ∧
    ((canvas samples layout ss).edges.toList.map Edge.id).Nodup ∧
    (∀ e ∈ (canvas samples layout ss).edges.toList,
      ∃ m ∈ (canvas samples layout ss).nodes.toList,
        ∃ n ∈ (canvas samples layout ss).nodes.toList,
          m.id = e.source ∧ n.id = e.target ∧ m.body.mayFeed n.body = true) ∧
    (∀ n ∈ (canvas samples layout ss).nodes.toList, ∀ schema, n.body.schema? = some schema →
      Field.validateForest schema.fields = .ok ()) ∧
    ∀ x : Exporter, 1 ≤ x.options.maxResolveDepth →
      (x.exportAll (canvas samples layout ss)).1.steps.map Snapshot.Step.nodeId =
          ((canvas samples layout ss).nodes.toList.filter fun n => n.body.isStep).map Node.id ∧
        ∀ w ∈ (x.exportAll (canvas samples layout ss)).2.2, w.OfOrigin := by
  have hc := coherent_canvas samples layout ss
  refine ⟨hc.nodup_ids, ?_, fun e he => exists_ends he,
    fun n hn _ hschema => validateForest_of_mem_nodes hn hschema,
    fun x hlimit => Exporter.exportAll_layered (layered_canvas samples layout ss) hc x hlimit⟩
  rw [edges_canvas]
  exact nodup_firsts Edge.id _

/-- Suggestions of which none can be compiled: a date, a choice that reads no field, and a copy of a
field without a name. -/
def uncompilable : List Suggestion :=
  [.date "day" "time" "%F", .conditional "adult" none [], .direct "name" ""]

/-- Their steps are planned in order all the same. -/
theorem canvas_wellFormed_uncompilable :
    1 ≤ Exporter.plainExporter.options.maxResolveDepth ∧
      (Exporter.plainExporter.exportAll (canvas [] .default uncompilable)).1.steps.map
          Snapshot.Step.nodeId = ["date_day", "conditional_adult"] ∧
      ∀ w ∈ (Exporter.plainExporter.exportAll (canvas [] .default uncompilable)).2.2,
        w.OfOrigin := by
  have hlimit : 1 ≤ Exporter.plainExporter.options.maxResolveDepth := by decide
  obtain ⟨-, -, -, -, hexport⟩ := canvas_wellFormed [] .default uncompilable
  obtain ⟨hsteps, hwarnings⟩ := hexport _ hlimit
  refine ⟨hlimit, hsteps.trans ?_, hwarnings⟩
  rw [nodes_canvas]
  rfl

end Suggestion
end MappingCanvas
