/-
# What is drawn for suggestions

A suggestion that is drawn asks for nodes, its target field, the node of its own if it is more than
a copy, and the source fields that it reads (`asked`), and for edges from each source field to the
node that consumes it and from its own node into the target field (`wires`).  Nodes and edges are
drawn independently of each other, so a canvas holds the first node of each id and the first edge of
each id among all that were asked for, in that order (`toCanvas_eq`).

The id of a node tells what the node is for and which field it belongs to (`Role.id_inj`).  The id
of an edge does not tell its ends.
-/

import MappingCanvas.Proofs.Canvas.Index
import MappingCanvas.Proofs.Firsts
import MappingCanvas.Suggestion.Sketch

namespace MappingCanvas

/-! ### Layout -/

/-- A node without its place. -/
def Node.content (n : Node) : String × Node.Body := (n.id, n.body)

/-- An arrangement changes no more of nodes than their places. -/
theorem Layout.map_content_arrangeAfter (l : Layout) (before : List Column) (ns : List Node) :
    (l.arrangeAfter before ns).map Node.content = ns.map Node.content := by
  induction ns generalizing before with
  | nil => rfl
  | cons n ns ih => exact congrArg (n.content :: ·) (ih _)

/-- **A layout changes only where nodes stand.** -/
theorem Layout.map_content_arrange (l : Layout) (ns : List Node) :
    (l.arrange ns).map Node.content = ns.map Node.content := l.map_content_arrangeAfter [] ns

/-- An arrangement keeps the ids of the nodes in order. -/
theorem Layout.map_id_arrange (l : Layout) (ns : List Node) :
    (l.arrange ns).map Node.id = ns.map Node.id := by
  have h := congrArg (List.map Prod.fst) (l.map_content_arrange ns)
  rwa [List.map_map, List.map_map] at h

namespace Suggestion

/-! ### Ids of nodes -/

/-- What a node is for: a field of one side, or a suggestion of one kind. -/
inductive Role
  | source | target | constant | conditional | table | date | concat | split
  deriving DecidableEq

namespace Role

/-- The name of a role in the ids of nodes. -/
def name : Role → String
  | source => "source"
  | target => "target"
  | constant => "static"
  | conditional => "conditional"
  | table => "table"
  | date => "date"
  | concat => "concat"
  | split => "split"

/-- The id of the node that has a role for a field. -/
def id (role : Role) (field : String) : String := role.name ++ "_" ++ field

/-- **An id tells the role and the field.** -/
theorem id_inj {role role' : Role} {field field' : String} :
    role.id field = role'.id field' ↔ role = role' ∧ field = field' := by
  rw [← String.toList_inj, ← String.toList_inj]
  cases role <;> cases role' <;> simp [id, name, String.toList_append]

/-- The handle at which edges leave the node of a field. -/
def output (role : Role) (field : String) : Option String :=
  match role with
  | source => some field
  | constant => some Sketch.constantHandle
  | _ => none

/-- The handle at which edges arrive at the node of a field. -/
def input (role : Role) (field : String) : Option String :=
  match role with
  | target => some field
  | _ => none

end Role

/-! ### What a suggestion asks for -/

/-- The target field of a suggestion that is drawn. -/
def field? : Suggestion → Option String
  | .direct target _ | .constant target _ | .conditional target _ _ | .table target _ _
  | .date target _ _ | .concat target _ _ | .split target _ _ _ => some target
  | .skip _ _ | .unrecognised _ _ _ => none

/-- The source fields that feed a suggestion. -/
def inputs : Suggestion → List String
  | .conditional _ source branches => Sketch.conditionalInputs source branches
  | s => s.sources

/-- The node that stands for a suggestion between source and target fields. -/
structure Own where
  role : Role
  body : Node.Body

/-- A transform, labelled with its role and its target field. -/
def Own.transform (role : Role) (target : String) (operation : Operation) : Own :=
  ⟨role, .transform (role.name ++ " " ++ target) operation⟩

/-- The node of a suggestion; a copy has none. -/
def own? : Suggestion → Option Own
  | .constant target value =>
    some (.transform .constant target (.constants [⟨Sketch.constantHandle, value⟩]))
  | .conditional target _ branches =>
    some (.transform .conditional target (.conditional (conditionalOf branches)))
  | .table target source entries =>
    some ⟨.table, .lookup ⟨"Lookup " ++ target, entries, some source⟩⟩
  | .date target _ format => some (.transform .date target (.date ⟨none, format⟩))
  | .concat target sources separator =>
    some (.transform .concat target (.concat ⟨sources, separator⟩))
  | .split target _ delimiter index =>
    some (.transform .split target (.split ⟨delimiter, index⟩))
  | .direct _ _ | .skip _ _ | .unrecognised _ _ _ => none

/-- What the node that consumes the source fields is for: it is the target field of a copy, and
otherwise the node of the suggestion. -/
def consumer (s : Suggestion) : Role := (s.own?.map Own.role).getD .target

/-- The schema of a source field. -/
def sourceSchema (samples : List Value) (field : String) : Schema :=
  .ofFields field [Field.ofName field (inferType samples field)]

/-- The node of a source field. -/
def sourceNode (samples : List Value) (field : String) : Node :=
  ⟨Role.source.id field, .origin, .source (sourceSchema samples field)⟩

/-- The node of a target field. -/
def targetNode (field : String) : Node :=
  ⟨Role.target.id field, .origin, .target (.ofFields field [Field.ofName field .string])⟩

/-- The node of a suggestion for a target field. -/
def Own.node (target : String) (own : Own) : Node := ⟨own.role.id target, .origin, own.body⟩

/-- The nodes that a suggestion asks for. -/
def asked (samples : List Value) (s : Suggestion) : List Node :=
  match s.field? with
  | some target =>
    targetNode target :: s.own?.toList.map (Own.node target) ++ s.inputs.map (sourceNode samples)
  | none => []

/-- The edge between the nodes that have two roles for two fields. -/
def wire (tail : Role) (tailField : String) (head : Role) (headField : String) : Edge :=
  ⟨Sketch.edgeId (tail.id tailField) (head.id headField), tail.id tailField,
    tail.output tailField, head.id headField, head.input headField⟩

/-- The edges that a suggestion asks for: from each source field to the node that consumes it, and
from the node of the suggestion into the target field. -/
def wires (s : Suggestion) : List Edge :=
  match s.field? with
  | some target =>
    (s.inputs.map fun field => wire .source field s.consumer target) ++
      s.own?.toList.map fun own => wire own.role target .target target
  | none => []

/-- What is noted of a suggestion that is not drawn. -/
def skipped? : Suggestion → Option Skipped
  | .skip target reason => some ⟨target, "skip", reason.getD "skip"⟩
  | .unrecognised mappingType target reason => some ⟨target, mappingType, reason⟩
  | _ => none

/-! ### Drawing -/

namespace Sketch

variable {samples : List Value}

/-- Draws some nodes and some edges. -/
def draw (k : Sketch) (ns : List Node) (es : List Edge) : Sketch :=
  ⟨ns.foldl (addFirst Node.id) k.nodes, es.foldl (addFirst Edge.id) k.edges, k.skipped⟩

/-- To draw twice is to draw both at once. -/
theorem draw_draw (k : Sketch) (ns ns' : List Node) (es es' : List Edge) :
    (k.draw ns es).draw ns' es' = k.draw (ns ++ ns') (es ++ es') := by
  simp only [draw, List.foldl_append]

theorem addNode_eq (k : Sketch) (id : String) (body : Node.Body) :
    k.addNode id body = k.draw [⟨id, .origin, body⟩] [] := by
  simp only [addNode, draw, List.foldl_cons, List.foldl_nil, addFirst]
  split <;> rfl

/-- To connect two nodes is to draw the wire between them. -/
theorem connect_eq (k : Sketch) (tail : Role) (tailField : String) (head : Role)
    (headField : String) :
    k.connect (tail.id tailField) (tail.output tailField) (head.id headField)
      (head.input headField) = k.draw [] [wire tail tailField head headField] := by
  simp only [connect, draw, List.foldl_cons, List.foldl_nil, addFirst, wire]
  split <;> rfl

/-- To feed a field into a node is to draw its source and the wire from there. -/
theorem feed_eq (role : Role) (target : String) (k : Sketch) (field : String) :
    feed samples (role.id target) (role.input target) k field =
      k.draw [sourceNode samples field] [wire .source field role target] := by
  have hconnect := connect_eq (k.draw [sourceNode samples field] []) .source field role target
  rw [draw_draw] at hconnect
  rw [feed, addNode_eq]
  exact hconnect

/-- To feed several fields is to draw their sources and wires. -/
theorem foldl_feed (role : Role) (target : String) (k : Sketch) (fields : List String) :
    fields.foldl (feed samples (role.id target) (role.input target)) k =
      k.draw (fields.map (sourceNode samples))
        (fields.map fun field => wire .source field role target) := by
  induction fields generalizing k with
  | nil => rfl
  | cons field fields ih =>
    rw [List.foldl_cons, ih, feed_eq, draw_draw]
    rfl

/-- To add a target field is to draw its node. -/
theorem addTarget_eq (k : Sketch) (target : String) :
    k.addTarget target = k.draw [targetNode target] [] := addNode_eq k _ _

/-- The node of a suggestion is drawn behind the target field and in front of the source fields. -/
theorem draw_own (k : Sketch) (target : String) (own : Own) (fields : List String)
    (hinput : own.role.input target = none) :
    ((fields.foldl (feed samples (own.role.id target) none)
        ((k.addTarget target).addNode (own.role.id target) own.body)).connect
      (own.role.id target) (own.role.output target) (targetId target) (some target)) =
      k.draw (targetNode target :: own.node target :: fields.map (sourceNode samples))
        ((fields.map fun field => wire .source field own.role target) ++
          [wire own.role target .target target]) := by
  have hconnect := connect_eq (k.draw
    (targetNode target :: own.node target :: fields.map (sourceNode samples))
    (fields.map fun field => wire .source field own.role target)) own.role target .target target
  rw [draw_draw, List.append_nil] at hconnect
  rw [← hconnect, ← hinput, foldl_feed, addTarget_eq, addNode_eq, draw_draw, draw_draw]
  rfl

/-- Notes what was not drawn. -/
def note (k : Sketch) (notes : List Skipped) : Sketch := { k with skipped := k.skipped ++ notes }

/-- **A suggestion draws what it asks for, or is noted.** -/
theorem add_eq (k : Sketch) (s : Suggestion) :
    k.add samples s = (k.draw (asked samples s) (wires s)).note (skipped? s).toList := by
  have hdrawn : ∀ ns es, k.draw ns es = (k.draw ns es).note [] := by simp [note]
  cases s with
  | direct target source =>
    refine Eq.trans ?_ (hdrawn _ _)
    rw [add, addTarget_eq]
    exact (feed_eq .target target _ source).trans (draw_draw _ _ _ _ _)
  | constant target value =>
    exact (draw_own k target (.transform .constant target _) [] rfl).trans (hdrawn _ _)
  | conditional target source branches =>
    exact (draw_own k target (.transform .conditional target _) _ rfl).trans (hdrawn _ _)
  | table target source entries =>
    exact (draw_own k target ⟨.table, _⟩ [source] rfl).trans (hdrawn _ _)
  | date target source format =>
    exact (draw_own k target (.transform .date target _) [source] rfl).trans (hdrawn _ _)
  | concat target sources separator =>
    exact (draw_own k target (.transform .concat target _) sources rfl).trans (hdrawn _ _)
  | split target source delimiter index =>
    exact (draw_own k target (.transform .split target _) [source] rfl).trans (hdrawn _ _)
  | skip target reason => rfl
  | unrecognised mappingType target reason => rfl

/-- **Suggestions draw what they ask for, one after the other.** -/
theorem foldl_add (k : Sketch) (ss : List Suggestion) : ss.foldl (add samples) k =
    (k.draw (ss.flatMap (asked samples)) (ss.flatMap wires)).note (ss.filterMap skipped?) := by
  induction ss generalizing k with
  | nil => simp [draw, note]
  | cons s ss ih =>
    rw [List.foldl_cons, ih, add_eq, List.filterMap_cons]
    cases skipped? s <;> simp [draw, note, List.foldl_append]

end Sketch

/-! ### The canvas -/

section

variable (samples : List Value) (layout : Layout) (ss : List Suggestion)

/-- **A canvas holds the first node of each id and the first edge of each id**, of all that its
suggestions ask for. -/
theorem toCanvas_eq : toCanvas samples layout ss =
    ⟨.ofLists (layout.arrange (firsts Node.id (ss.flatMap (asked samples))))
      (firsts Edge.id (ss.flatMap wires)), ss.filterMap skipped?⟩ := by
  rw [toCanvas, Sketch.foldl_add]
  rfl

/-- The canvas of some suggestions. -/
abbrev canvas : Canvas := (toCanvas samples layout ss).canvas

theorem coherent_canvas : (canvas samples layout ss).Coherent := by
  rw [canvas, toCanvas_eq]
  exact Canvas.coherent_ofLists _ _

/-- **The nodes of the canvas are those that were asked for**, of several under one id the first, in
their places. -/
theorem nodes_canvas : (canvas samples layout ss).nodes.toList =
    layout.arrange (firsts Node.id (ss.flatMap (asked samples))) := by
  rw [canvas, toCanvas_eq]
  exact Canvas.nodes_ofLists (by rw [Layout.map_id_arrange]; exact nodup_firsts _ _) _

/-- But for their places, the nodes are those that were asked for first. -/
theorem map_content_nodes_canvas : (canvas samples layout ss).nodes.toList.map Node.content =
    (firsts Node.id (ss.flatMap (asked samples))).map Node.content := by
  rw [nodes_canvas, Layout.map_content_arrange]

/-- **The edges of the canvas are the wires that were asked for**, of several with one id the
first. -/
theorem edges_canvas :
    (canvas samples layout ss).edges.toList = firsts Edge.id (ss.flatMap wires) := by
  rw [canvas, toCanvas_eq]
  exact Canvas.edges_ofLists _ _

end

/-! ### What was asked for -/

section

variable {samples : List Value} {layout : Layout} {ss : List Suggestion} {s : Suggestion}
  {target : String} {own : Own} {n : Node} {e e' : Edge}

/-- A suggestion asks for its target field, for a node of its own if it has one, and for the source
fields that it reads. -/
theorem mem_asked : n ∈ s.asked samples ↔ ∃ target, s.field? = some target ∧
    (n = targetNode target ∨ (∃ own, s.own? = some own ∧ n = own.node target) ∨
      ∃ field ∈ s.inputs, n = sourceNode samples field) := by
  unfold asked
  cases s.field? with
  | none => simp
  | some target => simp [eq_comm]

/-- A suggestion asks for wires from the source fields that it reads, and for one from its own node
into the target field. -/
theorem mem_wires : e ∈ s.wires ↔ ∃ target, s.field? = some target ∧
    ((∃ field ∈ s.inputs, e = wire .source field s.consumer target) ∨
      ∃ own, s.own? = some own ∧ e = wire own.role target .target target) := by
  unfold wires
  cases s.field? with
  | none => simp
  | some target => simp [eq_comm]

/-- The node of a suggestion stands for no field. -/
theorem role_own (h : s.own? = some own) : own.role ≠ .source ∧ own.role ≠ .target := by
  cases s <;> simp [own?] at h <;> subst h <;> simp [Own.transform]

/-- **What the id of a node tells of it**: the node of a field is told by the field, any other one
by the suggestion, whose target field the id tells. -/
theorem eq_of_id_asked {role : Role} {field : String} (h : n ∈ s.asked samples)
    (hid : n.id = role.id field) :
    (role = .source → n = sourceNode samples field) ∧
      (role = .target → n = targetNode field) ∧
      (role ≠ .source → role ≠ .target → s.field? = some field ∧
        ∃ own, s.own? = some own ∧ own.role = role ∧ n = own.node field) := by
  obtain ⟨target, htarget, rfl | ⟨own, hown, rfl⟩ | ⟨field', -, rfl⟩⟩ := mem_asked.1 h <;>
    obtain ⟨rfl, rfl⟩ := Role.id_inj.1 hid
  · exact ⟨nofun, fun _ => rfl, fun _ hne => absurd rfl hne⟩
  · obtain ⟨hsource, htarget'⟩ := role_own hown
    exact ⟨fun heq => absurd heq hsource, fun heq => absurd heq htarget',
      fun _ _ => ⟨htarget, own, hown, rfl, rfl⟩⟩
  · exact ⟨fun _ => rfl, nofun, fun hne => absurd rfl hne⟩

/-- Whatever is asked for has the id of a role and a field. -/
theorem exists_role_of_asked (h : n ∈ s.asked samples) :
    ∃ (role : Role) (field : String), n.id = role.id field := by
  obtain ⟨target, -, rfl | ⟨own, -, rfl⟩ | ⟨field, -, rfl⟩⟩ := mem_asked.1 h
  · exact ⟨.target, target, rfl⟩
  · exact ⟨own.role, target, rfl⟩
  · exact ⟨.source, field, rfl⟩

/-- The node of a suggestion consumes its source fields. -/
theorem consumer_of_own (h : s.own? = some own) : s.consumer = own.role := by
  simp [consumer, h]

/-- The ends of an edge tell its handles. -/
theorem wire_eq_of_ends {tail tail' head head' : Role} {x x' y y' : String}
    (hsource : (wire tail x head y).source = (wire tail' x' head' y').source)
    (htarget : (wire tail x head y).target = (wire tail' x' head' y').target) :
    wire tail x head y = wire tail' x' head' y' := by
  obtain ⟨rfl, rfl⟩ := Role.id_inj.1 hsource
  obtain ⟨rfl, rfl⟩ := Role.id_inj.1 htarget
  rfl

/-- Whatever edge is asked for is a wire. -/
theorem exists_wire_of_mem (h : e ∈ s.wires) : ∃ tail x head y, e = wire tail x head y := by
  obtain ⟨target, -, ⟨field, -, rfl⟩ | ⟨own, -, rfl⟩⟩ := mem_wires.1 h
  · exact ⟨_, _, _, _, rfl⟩
  · exact ⟨_, _, _, _, rfl⟩

/-- Edges that were asked for between the same nodes are the same. -/
theorem eq_of_ends (he : e ∈ ss.flatMap wires) (he' : e' ∈ ss.flatMap wires)
    (hsource : e.source = e'.source) (htarget : e.target = e'.target) : e = e' := by
  obtain ⟨s, -, he⟩ := List.mem_flatMap.1 he
  obtain ⟨s', -, he'⟩ := List.mem_flatMap.1 he'
  obtain ⟨_, _, _, _, rfl⟩ := exists_wire_of_mem he
  obtain ⟨_, _, _, _, rfl⟩ := exists_wire_of_mem he'
  exact wire_eq_of_ends hsource htarget

/-- No two edges with different ends have one id. -/
def Unambiguous (ss : List Suggestion) : Prop :=
  ∀ e ∈ ss.flatMap wires, ∀ e' ∈ ss.flatMap wires, e.id = e'.id →
    e.source = e'.source ∧ e.target = e'.target

/-- Where ids are unambiguous, an id tells the edge. -/
theorem Unambiguous.eq_of_id (h : Unambiguous ss) (he : e ∈ ss.flatMap wires)
    (he' : e' ∈ ss.flatMap wires) (hid : e.id = e'.id) : e = e' := by
  obtain ⟨hsource, htarget⟩ := h e he e' he' hid
  exact eq_of_ends he he' hsource htarget

/-- **Where ids are unambiguous, all edges that were asked for are there.** -/
theorem Unambiguous.mem_edges (h : Unambiguous ss) :
    e ∈ (canvas samples layout ss).edges.toList ↔ e ∈ ss.flatMap wires := by
  rw [edges_canvas]
  exact ⟨mem_of_mem_firsts, fun he =>
    mem_firsts_of_forall he fun e' he' hid => h.eq_of_id he' he hid⟩

/-- What is there was asked for. -/
theorem exists_asked_of_mem (h : n ∈ (canvas samples layout ss).nodes.toList) :
    ∃ m ∈ ss.flatMap (asked samples), m.content = n.content := by
  have hcontent := List.mem_map_of_mem (f := Node.content) h
  rw [map_content_nodes_canvas] at hcontent
  obtain ⟨m, hm, heq⟩ := List.mem_map.1 hcontent
  exact ⟨m, mem_of_mem_firsts hm, heq⟩

/-- A node that was asked for is there, if nothing else was asked for under its id. -/
theorem exists_node_canvas (hn : n ∈ ss.flatMap (asked samples))
    (hunique : ∀ m ∈ ss.flatMap (asked samples), m.id = n.id → m = n) :
    ∃ m, (canvas samples layout ss).node? n.id = some m ∧ m.id = n.id ∧ m.body = n.body := by
  have hmem := List.mem_map_of_mem (f := Node.content) (mem_firsts_of_forall hn hunique)
  rw [← map_content_nodes_canvas samples layout] at hmem
  obtain ⟨m, hm, hcontent⟩ := List.mem_map.1 hmem
  obtain ⟨hid, hbody⟩ := Prod.mk.inj hcontent
  exact ⟨m, hid ▸ (coherent_canvas samples layout ss).node?_of_mem hm, hid, hbody⟩

end

end Suggestion
end MappingCanvas
