/-
# The order of suggestions

Suggestions draw what they ask for, one after the other, and the first node and the first edge of
an id stay.  So their order decides where nodes stand, and which suggestion has its node where
several ask for one id; it does not decide which ids there are, nor what is noted
(`toCanvas_unordered`).  Several ask for one id with different nodes only when they have one mapping
type and one target field: the node of a field is the same for all suggestions that have to do with
it.

Suggestions that are not drawn ask for nothing, so a canvas is the same without them.
-/

import MappingCanvas.Proofs.Suggestion.Sketch

namespace MappingCanvas
namespace Suggestion

variable {samples : List Value} {layout : Layout} {ss ss' : List Suggestion} {s : Suggestion}
  {own : Own} {n m : Node}

/-- The mapping type of the suggestions whose nodes have a role. -/
def Role.mappingType? : Role → Option String
  | constant => some "static"
  | conditional => some "conditional"
  | table => some "table"
  | date => some "date_conversion"
  | concat => some "concat"
  | split => some "split"
  | source | target => none

/-- The role of a suggestion's node tells its mapping type. -/
theorem mappingType?_role (h : s.own? = some own) :
    own.role.mappingType? = some s.mappingType := by
  cases s <;> simp [own?] at h <;> subst h <;> rfl

/-- The mapping type and the target field of a suggestion that is drawn. -/
def place? (s : Suggestion) : Option (String × String) :=
  s.field?.map fun target => (s.mappingType, target)

/-! ### Nodes with one id -/

/-- **Where no two suggestions have one place, nodes with one id are the same.** -/
theorem eq_of_asked (h : (ss.filterMap place?).Nodup) (hn : n ∈ ss.flatMap (asked samples))
    (hm : m ∈ ss.flatMap (asked samples)) (hid : n.id = m.id) : n = m := by
  obtain ⟨s, hs, hn⟩ := List.mem_flatMap.1 hn
  obtain ⟨s', hs', hm⟩ := List.mem_flatMap.1 hm
  obtain ⟨role, field, hrole⟩ := exists_role_of_asked hn
  obtain ⟨hsource, htarget, hother⟩ := eq_of_id_asked hn hrole
  obtain ⟨hsource', htarget', hother'⟩ := eq_of_id_asked hm (hid.symm.trans hrole)
  by_cases hissource : role = .source
  · rw [hsource hissource, hsource' hissource]
  by_cases histarget : role = .target
  · rw [htarget histarget, htarget' histarget]
  obtain ⟨hfield, own, hown, hownrole, rfl⟩ := hother hissource histarget
  obtain ⟨hfield', own', hown', hownrole', rfl⟩ := hother' hissource histarget
  have htype : s.mappingType = s'.mappingType := by
    have h := mappingType?_role hown
    rw [hownrole, ← hownrole', mappingType?_role hown'] at h
    exact (Option.some.inj h).symm
  have hplace : s.place? = some (s.mappingType, field) := by rw [place?, hfield, Option.map_some]
  have hplace' : s'.place? = some (s.mappingType, field) := by
    rw [place?, hfield', Option.map_some, htype]
  obtain rfl := eq_of_nodup_filterMap h hs hs' hplace hplace'
  rw [Option.some.inj (hown.symm.trans hown')]

/-! ### Suggestions that are not drawn -/

/-- What comes of the suggestions that are drawn comes of all. -/
theorem flatMap_filter_drawn {α : Type} (f : Suggestion → List α)
    (h : ∀ s : Suggestion, s.field? = none → f s = []) (ss : List Suggestion) :
    (ss.filter fun s => s.field?.isSome).flatMap f = ss.flatMap f := by
  induction ss with
  | nil => rfl
  | cons s ss ih =>
    cases hs : s.field? with
    | none => simp [hs, h s hs, ih]
    | some target => simp [hs, ih]

/-- **A canvas is the same without the suggestions that are not drawn.** -/
theorem canvas_filter_drawn (samples : List Value) (layout : Layout) (ss : List Suggestion) :
    canvas samples layout (ss.filter fun s => s.field?.isSome) = canvas samples layout ss := by
  have hasked : ∀ s : Suggestion, s.field? = none → s.asked samples = [] := fun s h => by
    rw [asked, h]
  have hwires : ∀ s : Suggestion, s.field? = none → s.wires = [] := fun s h => by rw [wires, h]
  simp only [canvas, toCanvas_eq, flatMap_filter_drawn _ hasked, flatMap_filter_drawn _ hwires]

/-- What is noted are the suggestions that are not drawn. -/
theorem map_some_filterMap_skipped? (ss : List Suggestion) :
    (ss.filterMap skipped?).map some = (ss.filter fun s => s.field?.isNone).map skipped? := by
  induction ss with
  | nil => rfl
  | cons s ss ih =>
    have hnoted : s.field?.isNone = s.skipped?.isSome := by cases s <;> rfl
    rw [List.filterMap_cons, List.filter_cons, hnoted]
    cases hs : s.skipped? with
    | none => exact ih
    | some note => simp [hs, ih]

/-! ### Suggestions in another order -/

/-- **Neither the order of suggestions nor those that are not drawn matter.**  In any order they
draw nodes and edges of the same ids and note the same; and where no two of them that are drawn have
both one mapping type and one target field, nodes with one id have one kind, with all that belongs
to it.  With and without any suggestions that are not drawn the canvas is the same, down to the
places of its nodes.  What is noted are these suggestions, in their order. -/
theorem toCanvas_unordered (samples : List Value) (layout : Layout) :
    (∀ ss ss', ss.Perm ss' →
      ((canvas samples layout ss).nodes.toList.map Node.id).Perm
          ((canvas samples layout ss').nodes.toList.map Node.id) ∧
        ((canvas samples layout ss).edges.toList.map Edge.id).Perm
          ((canvas samples layout ss').edges.toList.map Edge.id) ∧
        (toCanvas samples layout ss).skipped.Perm (toCanvas samples layout ss').skipped ∧
        ((ss.filterMap place?).Nodup →
          ∀ n ∈ (canvas samples layout ss).nodes.toList,
            ∀ m ∈ (canvas samples layout ss').nodes.toList, n.id = m.id → n.body = m.body)) ∧
    (∀ ss ss', (ss.filter fun s => s.field?.isSome) = (ss'.filter fun s => s.field?.isSome) →
      canvas samples layout ss = canvas samples layout ss') ∧
    ∀ ss, (toCanvas samples layout ss).skipped.map some =
      (ss.filter fun s => s.field?.isNone).map skipped? := by
  refine ⟨fun ss ss' h => ⟨?_, ?_, ?_, fun hplaces n hn m hm hid => ?_⟩, fun ss ss' h => ?_,
    fun ss => ?_⟩
  · rw [nodes_canvas, nodes_canvas, Layout.map_id_arrange, Layout.map_id_arrange]
    exact perm_map_firsts (h.flatMap_right _)
  · rw [edges_canvas, edges_canvas]
    exact perm_map_firsts (h.flatMap_right _)
  · rw [toCanvas_eq, toCanvas_eq]
    exact h.filterMap skipped?
  · obtain ⟨x, hx, hxn⟩ := exists_asked_of_mem hn
    obtain ⟨y, hy, hym⟩ := exists_asked_of_mem hm
    obtain ⟨hxid, hxbody⟩ := Prod.mk.inj hxn
    obtain ⟨hyid, hybody⟩ := Prod.mk.inj hym
    have hxy : x = y := eq_of_asked hplaces hx ((h.flatMap_right _).mem_iff.2 hy)
      (hxid.trans (hid.trans hyid.symm))
    rw [← hxbody, ← hybody, hxy]
  · rw [← canvas_filter_drawn, h, canvas_filter_drawn]
  · rw [toCanvas_eq]
    exact map_some_filterMap_skipped? ss

/-- Suggestions that share a source field, two of them for one target field. -/
def hosts : List Suggestion :=
  [.direct "mail" "e_mail", .split "host" "e_mail" "@" 1, .skip (some "note") none,
    .constant "host" .null]

/-- In the opposite order their nodes have the same kinds, and with one more that is not recognised
in front they draw the same canvas. -/
theorem toCanvas_unordered_hosts :
    hosts.Perm hosts.reverse ∧ (hosts.filterMap place?).Nodup ∧
      (∀ n ∈ (canvas [] .default hosts).nodes.toList,
        ∀ m ∈ (canvas [] .default hosts.reverse).nodes.toList, n.id = m.id → n.body = m.body) ∧
      canvas [] .default (.unrecognised "magic" none "unknown" :: hosts) =
        canvas [] .default hosts := by
  have hplaces : (hosts.filterMap place?).Nodup := by decide
  obtain ⟨hperm, hdrawn, -⟩ := toCanvas_unordered [] .default
  exact ⟨hosts.reverse_perm.symm, hplaces, (hperm _ _ hosts.reverse_perm.symm).2.2.2 hplaces,
    hdrawn _ _ rfl⟩

end Suggestion
end MappingCanvas
