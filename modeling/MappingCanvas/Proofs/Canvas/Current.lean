/-
# Canvases are current once saved

Older documents keep the data of a node in other places and under other names.  Reading brings all
of it into the current layout, and what is written is in that layout: each part of a canvas is read
from what is written for it, so a canvas that was loaded and saved is loaded as the same canvas,
and saved as the same document, ever after (`decode_toJson_of_decode`).

Documents are trees here, with numbers as they can be written (`Json.InRange`); a position that was
read from one is a pair of real numbers, and would be written as `null` otherwise.
-/

import MappingCanvas.Proofs.Canvas.Payloads
import MappingCanvas.Proofs.Json.Range

namespace MappingCanvas

/-! ### Positions -/

/-- A number in range is read as a finite one. -/
theorem Decoder.float_ensuresOn :
    Decoder.float.EnsuresOn Json.InRange fun x => x.isFinite = true := by
  intro mode j x hdoc h
  cases j with
  | number n =>
    cases n with
    | integer n =>
      cases h
      exact Number.isFinite_ofInt hdoc
    | float y =>
      cases h
      exact hdoc
  | _ => cases h

namespace Position

/-- A position of real numbers. -/
def IsFinite (p : Position) : Prop := p.x.isFinite = true ∧ p.y.isFinite = true

/-- The position of a document in range is finite. -/
theorem decode_ensuresOn : Position.decode.EnsuresOn Json.InRange IsFinite :=
  ((Form.EnsuresOn.required "x" Decoder.float_ensuresOn).and
    (Form.EnsuresOn.required "y" Decoder.float_ensuresOn)).map (fun _ h => h)
    |>.decode Json.hereditary_inRange

variable {p : Position}

/-- A finite position is written as its two numbers; other numbers would be written as null. -/
theorem toJson_of_isFinite (h : p.IsFinite) :
    p.toJson = .object [("x", .number (.float p.x)), ("y", .number (.float p.y))] := by
  rw [toJson, Json.float, Json.float, if_pos h.1, if_pos h.2]

/-- A finite position is written without a repeated name. -/
theorem isTidy_toJson (h : p.IsFinite) : p.toJson.IsTidy := by
  simp [toJson_of_isFinite h]

/-- **A position is read again.** -/
theorem reads_toJson (h : p.IsFinite) : decode.Reads p.toJson p := by
  rw [toJson_of_isFinite h]
  have hx : (Form.required "x" .float).Reads
      [("x", .number (.float p.x)), ("y", .number (.float p.y))] p.x :=
    Form.reads_required rfl (Decoder.reads_float p.x)
  have hy : (Form.required "y" .float).Reads
      [("x", .number (.float p.x)), ("y", .number (.float p.y))] p.y :=
    Form.reads_required rfl (Decoder.reads_float p.y)
  exact ((hx.and hy (by simp)).map rfl).decode (by simp)

end Position

/-! ### Nodes -/

namespace Node

/-- The nodes of a document in range are genuine and at finite positions. -/
theorem decode_ensuresOn :
    Node.decode.EnsuresOn Json.InRange fun n => n.Genuine ∧ n.position.IsFinite := by
  have horigin : Position.origin.IsFinite := ⟨Number.isFinite_zero, Number.isFinite_zero⟩
  have hposition : Stored.form.EnsuresOn Json.InRange fun s => s.position.IsFinite :=
    ((Form.EnsuresOn.any "id" [] none .text).and
      ((Form.EnsuresOn.any "type" [] none .text).and
        ((Form.EnsuresOn.defaulted "position" horigin Position.decode_ensuresOn).and
          (Form.EnsuresOn.any "data" [] (some Value.null) .value)))).map
      fun _ h => h.2.2.1
  intro mode j n hdoc h
  refine ⟨Node.decode_ensures mode j n h, ?_⟩
  obtain ⟨stored, hstored, h⟩ := bind_eq_ok.1 h
  have hfinite := hposition.decode Json.hereditary_inRange mode j stored hdoc hstored
  split at h
  · cases h
    exact hfinite
  · cases h

variable {n : Node}

/-- The members of a node. -/
def members (n : Node) : List (String × Json) :=
  [("id", .string n.id), ("type", .string n.body.typeName), ("position", n.position.toJson),
    ("data", (Payload.nodeData n.body).json)]

/-- A node is written without a repeated name. -/
theorem isTidy_toJson (h : n.position.IsFinite) : n.toJson.IsTidy := by
  simp [toJson, Position.isTidy_toJson h,
    Json.isTidy_of_isCanonical _ (Payload.nodeData n.body).canonical]

/-- **A node is read again.** -/
theorem reads_toJson (hbody : n.Genuine) (hposition : n.position.IsFinite) :
    decode.Reads n.toJson n := by
  have hid : (Form.required "id" .text).Reads n.members n.id :=
    Form.reads_required rfl (Decoder.reads_text n.id)
  have htype : (Form.required "type" .text).Reads n.members n.body.typeName :=
    Form.reads_required rfl (Decoder.reads_text n.body.typeName)
  have hplace : (Form.defaulted "position" Position.origin Position.decode).Reads n.members
      n.position := Form.reads_defaulted rfl (Position.reads_toJson hposition)
  have hdata : (Form.defaulted "data" Value.null .value).Reads n.members
      (Payload.nodeData n.body) := Form.reads_defaulted rfl (Decoder.reads_value _)
  have hstored : Stored.form.decode.Reads n.toJson
      ⟨n.id, n.body.typeName, n.position, Payload.nodeData n.body⟩ :=
    ((hid.and (htype.and (hplace.and hdata (by simp)) (by simp)) (by simp)).map rfl).decode
      (Json.isTidy_object.1 (isTidy_toJson hposition)).1
  intro mode doc hdoc
  simp only [decode, hstored mode doc hdoc, bind, Except.bind,
    Payload.nodeBody_nodeData n.id hbody]
  rfl

end Node

/-! ### Edges -/

namespace Edge

/-- The members of an edge. -/
def members (e : Edge) : List (String × Json) :=
  [("id", .string e.id), ("source", .string e.source)] ++
    Json.member? "sourceHandle" (e.sourceHandle.map .string) ++ [("target", .string e.target)] ++
    Json.member? "targetHandle" (e.targetHandle.map .string)

/-- An edge is written without a repeated name. -/
theorem isTidy_toJson (e : Edge) : e.toJson.IsTidy := by
  obtain ⟨id, source, sourceHandle, target, targetHandle⟩ := e
  cases sourceHandle <;> cases targetHandle <;> simp [toJson, Json.member?]

/-- The optional handles of an edge are left out when it has none, and its target is always
there. -/
theorem get?_members (e : Edge) :
    (Json.object e.members).get? "sourceHandle" = e.sourceHandle.map .string ∧
      (Json.object e.members).get? "target" = some (.string e.target) ∧
      (Json.object e.members).get? "targetHandle" = e.targetHandle.map .string := by
  obtain ⟨id, source, sourceHandle, target, targetHandle⟩ := e
  cases sourceHandle <;> cases targetHandle <;> exact ⟨rfl, rfl, rfl⟩

/-- **An edge is read again.** -/
theorem reads_toJson (e : Edge) : decode.Reads e.toJson e := by
  obtain ⟨hgetSource, hgetTarget, hgetTargetHandle⟩ := e.get?_members
  have hid : (Form.required "id" .text).Reads e.members e.id :=
    Form.reads_required rfl (Decoder.reads_text e.id)
  have hsource : (Form.required "source" .text).Reads e.members e.source :=
    Form.reads_required rfl (Decoder.reads_text e.source)
  have hsourceHandle : (Form.optional "sourceHandle" .text).Reads e.members e.sourceHandle :=
    Form.reads_optional hgetSource (fun _ => rfl) fun s _ => Decoder.reads_text s
  have htarget : (Form.required "target" .text).Reads e.members e.target :=
    Form.reads_required hgetTarget (Decoder.reads_text e.target)
  have htargetHandle : (Form.optional "targetHandle" .text).Reads e.members e.targetHandle :=
    Form.reads_optional hgetTargetHandle (fun _ => rfl) fun s _ => Decoder.reads_text s
  exact ((hid.and (hsource.and (hsourceHandle.and (htarget.and htargetHandle (by simp))
    (by simp)) (by simp)) (by simp)).map rfl).decode (Json.isTidy_object.1 e.isTidy_toJson).1

end Edge

/-! ### Canvases -/

namespace Canvas

variable {c : Canvas}

/-- A canvas is written without a repeated name, if its positions are finite. -/
theorem isTidy_toJson (h : ∀ n ∈ c.nodes.toList, n.position.IsFinite) : c.toJson.IsTidy := by
  have hnodes : ∀ n ∈ c.nodes.toList, n.toJson.IsTidy := fun n hn => Node.isTidy_toJson (h n hn)
  simpa [toJson, Edge.isTidy_toJson] using hnodes

/-- **A canvas is read again**, node by node and edge by edge. -/
theorem reads_toJson (h : ∀ n ∈ c.nodes.toList, n.Genuine ∧ n.position.IsFinite) :
    decode.Reads c.toJson (ofLists c.nodes.toList c.edges.toList) := by
  have hnodes : (Form.defaulted "nodes" [] (.list Node.decode)).Reads
      [("nodes", .array (c.nodes.toList.map Node.toJson)),
        ("edges", .array (c.edges.toList.map Edge.toJson))] c.nodes.toList :=
    Form.reads_defaulted rfl
      (Decoder.reads_list fun n hn => Node.reads_toJson (h n hn).1 (h n hn).2)
  have hedges : (Form.defaulted "edges" [] (.list Edge.decode)).Reads
      [("nodes", .array (c.nodes.toList.map Node.toJson)),
        ("edges", .array (c.edges.toList.map Edge.toJson))] c.edges.toList :=
    Form.reads_defaulted rfl (Decoder.reads_list fun e _ => e.reads_toJson)
  exact ((hnodes.and hedges (by simp)).map rfl).decode (by simp)

/-- **A canvas is read again as the lists of its nodes and edges**, from which the indices are built
anew. -/
theorem decode_toJson (h : ∀ n ∈ c.nodes.toList, n.Genuine ∧ n.position.IsFinite)
    (mode : Reading) : decode mode c.toJson = .ok (ofLists c.nodes.toList c.edges.toList) :=
  (reads_toJson h).eq_ok (isTidy_toJson fun n hn => (h n hn).2) mode

/-- What is read from a document is read again from what is written for it. -/
theorem decode_toJson_of_inRange {mode : Reading} {doc : Json}
    (h : Canvas.decode mode doc = .ok c) (hdoc : doc.InRange) (mode' : Reading) :
    Canvas.decode mode' c.toJson = .ok c := by
  obtain ⟨ns, es, rfl, hns⟩ :=
    decode_ensuresOn Json.hereditary_inRange Node.decode_ensuresOn mode doc c hdoc h
  rw [decode_toJson (fun n hn => hns n (mem_of_mem_ofLists hn)) mode', ofLists_toList]

/-- A text needs no condition on its numbers. -/
theorem decode_toJson_of_ofText {text : String} (h : Canvas.decode.ofText text = .ok c)
    (mode : Reading) : Canvas.decode mode c.toJson = .ok c := by
  obtain ⟨d, hd, h⟩ := bind_eq_ok.1 h
  have hd := decode_toJson_of_inRange hd (Json.inRange_readBytes _) mode
  split at h
  · cases h
  · cases h
    exact hd

/-- **A canvas is current once saved.**  Of a canvas read from a document in any layout, the data
written for a node is read as the node, under any id, and so is the data of a transform in the
layout of stored configurations; the document written for the canvas is read as the canvas; and what
is written after that is the same document.  All this is said of trees.  That a tree is read from
its text is no part of it: there floats may be rounded, and trees of more than 127 levels are
refused. -/
theorem decode_toJson_of_decode {mode : Reading} {doc : Json}
    (h : Canvas.decode mode doc = .ok c) (hdoc : doc.InRange) :
    (∀ n ∈ c.nodes.toList, ∀ id,
      Payload.nodeBody id n.body.typeName (Payload.nodeData n.body) = .ok n.body ∧
        ∀ label operation, n.body = .transform label operation →
          Payload.nodeBody id n.body.typeName
            (Payload.configured label operation.parameters) = .ok n.body) ∧
      ∀ mode', Canvas.decode mode' c.toJson = .ok c ∧
        (Canvas.decode mode' c.toJson).map Canvas.toJson = .ok c.toJson := by
  refine ⟨fun n hn id => ⟨?_, fun label operation hbody => ?_⟩, fun mode' => ?_⟩
  · exact Payload.nodeBody_nodeData id ((decode_ensures mode doc c h).2 n hn)
  · rw [hbody]
    exact Payload.nodeBody_configured id label operation
  · have hagain := decode_toJson_of_inRange h hdoc mode'
    exact ⟨hagain, by rw [hagain]; rfl⟩

/-- A split whose parameters stand in three places under older names, and a note. -/
def olderDocument : Json :=
  .object [("nodes", .array [
    .object [("id", .string "part"), ("type", .string "split"),
      ("position", .object [("x", .number (.integer 1)), ("y", .number (.float 2.5))]),
      ("data", .object [("title", .string "Part"), ("config", .object [
        ("separator", .string ";"), ("parameters", .object [("part", .string "2")])])])],
    .object [("id", .string "note"), ("type", .string "note"), ("data", .array [.bool true])]])]

/-- The canvas of the document. -/
def olderCanvas : Canvas :=
  .ofLists [⟨"part", ⟨1, 2.5⟩, .transform "Part" (.split ⟨";", 2⟩)⟩,
    ⟨"note", .origin, .unknown "note" (.ofJson (.array [.bool true]))⟩] []

/-- The sample document has no number out of range. -/
theorem inRange_olderDocument : olderDocument.InRange := by
  have hone : (Number.integer 1).InRange := by decide
  have hfloat : (Number.float 2.5).InRange := by decide +kernel
  simp [olderDocument, Json.InRange, Json.ItemsInRange, Json.MembersInRange, hone, hfloat]

/-- The split is saved in the current layout and stays as it is. -/
theorem decode_toJson_of_decode_olderCanvas :
    Canvas.decode .held olderDocument = .ok olderCanvas ∧ olderDocument.InRange ∧
      Canvas.decode .held olderCanvas.toJson = .ok olderCanvas := by
  have hread : Canvas.decode .held olderDocument = .ok olderCanvas := rfl
  obtain ⟨-, hagain⟩ := decode_toJson_of_decode hread inRange_olderDocument
  exact ⟨hread, inRange_olderDocument, (hagain .held).1⟩

end Canvas
end MappingCanvas
