/-
# Canvases read from documents

What can be said of a canvas because it was read from a document: it is coherent, and a node of it
that keeps its data untouched is of a type that is not known (`decode_ensures`).
-/

import MappingCanvas.Canvas.Document
import MappingCanvas.Proofs.Canvas.Index
import MappingCanvas.Proofs.Json.Ensures

namespace MappingCanvas

/-- Only a node of a type that is not known keeps its data untouched. -/
def Node.Genuine (n : Node) : Prop :=
  ∀ typeName data, n.body = .unknown typeName data → NodeType.ofName? typeName = none

namespace Payload

/-- Data of a type that is known never comes out as a node of an unknown type. -/
theorem decodeBody_ne_unknown {label typeName : String} {v data : Value} {type : NodeType} :
    decodeBody label v type ≠ .ok (.unknown typeName data) := by
  intro h
  cases type with
  | passThrough => cases h
  | _ =>
    obtain ⟨_, -, h⟩ := map_eq_ok_iff.1 h
    cases h

/-- **Data of a known type is not kept untouched.** -/
theorem ofName?_of_nodeBody {id typeName typeName' : String} {data data' : Value}
    (h : nodeBody id typeName data = .ok (.unknown typeName' data')) :
    NodeType.ofName? typeName' = none := by
  unfold nodeBody at h
  split at h
  · obtain ⟨rfl, -⟩ := Node.Body.unknown.inj (Except.ok.inj h)
    assumption
  · rename_i type _
    cases hrecord : isRecord data.json with
    | false =>
      rw [hrecord] at h
      cases h
    | true =>
      simp only [hrecord, Bool.not_true, Bool.false_eq_true, if_false] at h
      obtain ⟨v, -, h⟩ := bind_eq_ok.1 h
      cases hbody : decodeBody (label type data.json) v type with
      | error e =>
        rw [hbody] at h
        cases h
      | ok b =>
        rw [hbody] at h
        obtain rfl := Except.ok.inj h
        exact absurd hbody decodeBody_ne_unknown

end Payload

/-- A node that is read keeps its data untouched only for a type that is not known. -/
theorem Node.decode_ensures : Node.decode.Ensures Node.Genuine := by
  intro mode j n h
  obtain ⟨stored, -, h⟩ := bind_eq_ok.1 h
  split at h
  · obtain rfl := Except.ok.inj h
    rintro typeName data rfl
    exact Payload.ofName?_of_nodeBody ‹_›
  · cases h

namespace Canvas

/-- Pushing nodes brings in no others, though it may replace some. -/
theorem mem_of_mem_foldl_pushNode {ns : List Node} {c : Canvas} {n : Node}
    (h : n ∈ (ns.foldl pushNode c).nodes.toList) : n ∈ c.nodes.toList ∨ n ∈ ns := by
  induction ns generalizing c with
  | nil => exact .inl h
  | cons m ns ih =>
    rcases ih h with h | h
    · unfold pushNode at h
      split at h
      · rw [Array.toList_setIfInBounds] at h
        rcases List.mem_or_eq_of_mem_set h with h | rfl
        · exact .inl h
        · exact .inr (List.mem_cons_self ..)
      · rw [Array.toList_push, List.mem_append, List.mem_singleton] at h
        rcases h with h | rfl
        · exact .inl h
        · exact .inr (List.mem_cons_self ..)
    · exact .inr (List.mem_cons_of_mem m h)

/-- A canvas of lists has only nodes of the list. -/
theorem mem_of_mem_ofLists {ns : List Node} {es : List Edge} {n : Node}
    (h : n ∈ (ofLists ns es).nodes.toList) : n ∈ ns := by
  rw [ofLists, nodes_setEdges] at h
  rcases mem_of_mem_foldl_pushNode h with h | h
  · simp [clearNodes] at h
  · exact h

/-- What is read from a document is a canvas of nodes that were read. -/
theorem decode_ensuresOn {D : Json → Prop} {P : Node → Prop} (hD : Json.Hereditary D)
    (h : Node.decode.EnsuresOn D P) :
    Canvas.decode.EnsuresOn D fun c => ∃ ns es, c = ofLists ns es ∧ ∀ n ∈ ns, P n := by
  have hnodes := Form.EnsuresOn.defaulted "nodes" (List.forall_mem_nil _) (h.list hD)
  exact ((hnodes.and (Form.EnsuresOn.any "edges" [] (some []) (.list Edge.decode))).map
    fun x hx => ⟨x.1, x.2, rfl, hx.1⟩).decode hD

/-- **What is read from a document is coherent and keeps only data of unknown types.** -/
theorem decode_ensures :
    Canvas.decode.Ensures fun c => c.Coherent ∧ ∀ n ∈ c.nodes.toList, n.Genuine := by
  intro mode j c h
  obtain ⟨ns, es, rfl, hns⟩ :=
    decode_ensuresOn Json.hereditary_true Node.decode_ensures.on mode j c trivial h
  exact ⟨coherent_ofLists ns es, fun n hn => hns n (mem_of_mem_ofLists hn)⟩

end Canvas
end MappingCanvas
