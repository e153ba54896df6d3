/-
# Connections of a suggested canvas

The id of an edge is made of the ids of its ends with an underscore between them.  Field names may
hold underscores too, so edges with different ends can have one id; then only the first of them is
drawn, and the other connection is lost without a note.  A connection is there exactly when its edge
is the first of its id, so all of them are there exactly when ids are unambiguous
(`connections_kept`).  Ids are unambiguous when no source field that is read has an underscore, and
also when no target field has one.
-/

import MappingCanvas.Proofs.Suggestion.Sketch

namespace MappingCanvas

/-- There is an edge from one node to another. -/
def Canvas.Joins (c : Canvas) (source target : String) : Prop :=
  ∃ e ∈ c.edges.toList, e.source = source ∧ e.target = target

namespace Suggestion

variable {samples : List Value} {layout : Layout} {ss : List Suggestion} {s : Suggestion}
  {e e' : Edge}

/-- The connections of a suggestion are there: from each source field that it reads to the node that
consumes it, and from the node of the suggestion into the target field. -/
def Connected (c : Canvas) (s : Suggestion) : Prop :=
  ∀ target, s.field? = some target →
    (∀ field ∈ s.inputs, c.Joins (Role.source.id field) (s.consumer.id target)) ∧
      ∀ own, s.own? = some own → c.Joins (own.role.id target) (Role.target.id target)

/-- The connections of a suggestion are the edges that it asks for. -/
theorem connected_iff {c : Canvas} : Connected c s ↔ ∀ e ∈ s.wires, c.Joins e.source e.target := by
  constructor
  · intro h e he
    obtain ⟨target, htarget, ⟨field, hfield, rfl⟩ | ⟨own, hown, rfl⟩⟩ := mem_wires.1 he
    · exact (h target htarget).1 field hfield
    · exact (h target htarget).2 own hown
  · exact fun h target htarget =>
      ⟨fun field hfield => h _ (mem_wires.2 ⟨target, htarget, .inl ⟨field, hfield, rfl⟩⟩),
        fun own hown => h _ (mem_wires.2 ⟨target, htarget, .inr ⟨own, hown, rfl⟩⟩)⟩

/-- **A connection is there when its edge is the first of its id.** -/
theorem joins_iff (he : e ∈ ss.flatMap wires) :
    (canvas samples layout ss).Joins e.source e.target ↔
      (ss.flatMap wires).find? (fun e' => e'.id == e.id) = some e := by
  rw [← mem_firsts, ← edges_canvas samples layout]
  refine ⟨fun ⟨e', he', hsource, htarget⟩ => ?_, fun h => ⟨e, h, rfl, rfl⟩⟩
  have hmem : e' ∈ ss.flatMap wires := mem_of_mem_firsts (edges_canvas samples layout ss ▸ he')
  exact eq_of_ends hmem he hsource htarget ▸ he'

/-- **All suggestions are connected exactly if ids are unambiguous.** -/
theorem forall_connected_iff :
    (∀ s ∈ ss, Connected (canvas samples layout ss) s) ↔ Unambiguous ss := by
  have hall : (∀ s ∈ ss, Connected (canvas samples layout ss) s) ↔
      ∀ e ∈ ss.flatMap wires, (canvas samples layout ss).Joins e.source e.target := by
    simp only [connected_iff, List.mem_flatMap]
    exact ⟨fun h e ⟨s, hs, he⟩ => h s hs e he, fun h s hs e he => h e ⟨s, hs, he⟩⟩
  rw [hall]
  constructor
  · intro h e he e' he' hid
    have hfirst := (joins_iff he).1 (h e he)
    have hfirst' := (joins_iff he').1 (h e' he')
    rw [hid, hfirst'] at hfirst
    rw [Option.some.inj hfirst]
    exact ⟨rfl, rfl⟩
  · exact fun h e he => ⟨e, h.mem_edges.2 he, rfl, rfl⟩

/-! ### Names without underscores -/

/-- What stands before the first separator and behind it is told by the whole. -/
theorem append_cons_inj {α : Type} {c : α} {a a' b b' : List α} (ha : c ∉ a) (ha' : c ∉ a') :
    a ++ c :: b = a' ++ c :: b' ↔ a = a' ∧ b = b' := by
  refine ⟨fun h => ?_, fun ⟨ha, hb⟩ => by rw [ha, hb]⟩
  induction a generalizing a' with
  | nil =>
    cases a' with
    | nil => exact ⟨rfl, (List.cons.inj h).2⟩
    | cons x xs => exact absurd (List.mem_cons.2 (.inl (List.cons.inj h).1)) ha'
  | cons x xs ih =>
    cases a' with
    | nil => exact absurd (List.mem_cons.2 (.inl (List.cons.inj h).1.symm)) ha
    | cons y ys =>
      rw [List.cons_append, List.cons_append] at h
      obtain ⟨rfl, htail⟩ := List.cons.inj h
      obtain ⟨rfl, rfl⟩ := ih (fun hx => ha (List.mem_cons_of_mem _ hx))
        (fun hx => ha' (List.mem_cons_of_mem _ hx)) htail
      exact ⟨rfl, rfl⟩

/-- What stands before the last separator and behind it is told by the whole. -/
theorem append_cons_inj_last {α : Type} {c : α} {a a' b b' : List α} (hb : c ∉ b) (hb' : c ∉ b') :
    a ++ c :: b = a' ++ c :: b' ↔ a = a' ∧ b = b' := by
  rw [← List.reverse_inj]
  simp only [List.reverse_append, List.reverse_cons, List.append_assoc, List.singleton_append]
  rw [append_cons_inj (by simpa using hb) (by simpa using hb'), List.reverse_inj, List.reverse_inj,
    and_comm]

namespace Role

/-- The id of a node is its role, an underscore and its field. -/
theorem toList_id (role : Role) (field : String) :
    (role.id field).toList = role.name.toList ++ '_' :: field.toList := by
  simp [id, String.toList_append]

/-- No role has an underscore in its name. -/
theorem underscore_notMem_name (role : Role) : '_' ∉ role.name.toList := by
  cases role <;> decide

/-- Roles have different names. -/
theorem eq_of_toList_name {role role' : Role} (h : role.name.toList = role'.name.toList) :
    role = role' := by
  cases role <;> cases role' <;> simp [name] at h ⊢

end Role

/-- **The id of an edge tells the role of its tail**, and how the field there, an underscore and the
other id are put together. -/
theorem id_wire_eq_iff {tail tail' head head' : Role} {x x' y y' : String} :
    (wire tail x head y).id = (wire tail' x' head' y').id ↔ tail = tail' ∧
      x.toList ++ '_' :: (head.id y).toList = x'.toList ++ '_' :: (head'.id y').toList := by
  have htoList : ∀ (tail head : Role) (x y : String), (wire tail x head y).id.toList =
      ['e', '_'] ++ (tail.name.toList ++ '_' :: (x.toList ++ '_' :: (head.id y).toList)) := by
    intro tail head x y
    simp [wire, Sketch.edgeId, String.toList_append, Role.toList_id tail]
  rw [← String.toList_inj, htoList, htoList, List.append_cancel_left_eq,
    append_cons_inj tail.underscore_notMem_name tail'.underscore_notMem_name]
  exact and_congr_left' ⟨Role.eq_of_toList_name, congrArg fun role : Role => role.name.toList⟩

/-- Two edges into target fields that leave nodes for the same fields differ in their ids. -/
theorem eq_of_id_yield {role role' : Role} {x x' : String}
    (h : (wire role x .target x).id = (wire role' x' .target x').id) : role = role' ∧ x = x' := by
  obtain ⟨hrole, hrest⟩ := id_wire_eq_iff.1 h
  have hlength : x.toList.length = x'.toList.length := by
    have := congrArg List.length hrest
    simp only [Role.toList_id, List.length_append, List.length_cons] at this
    omega
  exact ⟨hrole, String.toList_inj.1 (List.append_inj_left hrest hlength)⟩

/-- Where source fields have no underscores, an id tells the ends of an edge from a source. -/
theorem eq_of_id_feed_source {head head' : Role} {x x' y y' : String} (hx : '_' ∉ x.toList)
    (hx' : '_' ∉ x'.toList) (h : (wire .source x head y).id = (wire .source x' head' y').id) :
    x = x' ∧ head = head' ∧ y = y' := by
  obtain ⟨-, hrest⟩ := id_wire_eq_iff.1 h
  obtain ⟨hfield, hid⟩ := (append_cons_inj hx hx').1 hrest
  exact ⟨String.toList_inj.1 hfield, Role.id_inj.1 (String.toList_inj.1 hid)⟩

/-- Where target fields have no underscores, an id tells the ends of an edge from a source: the
target field is what stands behind the last underscore, and its role what stands behind the one
before. -/
theorem eq_of_id_feed_target {head head' : Role} {x x' y y' : String} (hy : '_' ∉ y.toList)
    (hy' : '_' ∉ y'.toList) (h : (wire .source x head y).id = (wire .source x' head' y').id) :
    x = x' ∧ head = head' ∧ y = y' := by
  obtain ⟨-, hrest⟩ := id_wire_eq_iff.1 h
  simp only [Role.toList_id] at hrest
  rw [← List.cons_append, ← List.cons_append, ← List.append_assoc, ← List.append_assoc,
    append_cons_inj_last hy hy',
    append_cons_inj_last head.underscore_notMem_name head'.underscore_notMem_name] at hrest
  obtain ⟨⟨hfield, hhead⟩, htarget⟩ := hrest
  exact ⟨String.toList_inj.1 hfield, Role.eq_of_toList_name hhead, String.toList_inj.1 htarget⟩

/-- No source field that is read has an underscore, or no target field has one. -/
def Plain (ss : List Suggestion) : Prop :=
  (∀ s ∈ ss, ∀ field ∈ s.inputs, '_' ∉ field.toList) ∨
    ∀ target ∈ ss.filterMap field?, '_' ∉ target.toList

/-- **Ids are unambiguous where one side has no underscores.** -/
theorem Plain.unambiguous (h : Plain ss) : Unambiguous ss := by
  intro e he e' he' hid
  obtain ⟨s, hs, he⟩ := List.mem_flatMap.1 he
  obtain ⟨s', hs', he'⟩ := List.mem_flatMap.1 he'
  obtain ⟨target, htarget, ⟨field, hfield, rfl⟩ | ⟨own, hown, rfl⟩⟩ := mem_wires.1 he <;>
    obtain ⟨target', htarget', ⟨field', hfield', rfl⟩ | ⟨own', hown', rfl⟩⟩ := mem_wires.1 he'
  · have hends : field = field' ∧ s.consumer = s'.consumer ∧ target = target' := by
      rcases h with hsource | hplain
      · exact eq_of_id_feed_source (hsource s hs field hfield) (hsource s' hs' field' hfield') hid
      · exact eq_of_id_feed_target (hplain target (List.mem_filterMap.2 ⟨s, hs, htarget⟩))
          (hplain target' (List.mem_filterMap.2 ⟨s', hs', htarget'⟩)) hid
    obtain ⟨rfl, hconsumer, rfl⟩ := hends
    rw [hconsumer]
    exact ⟨rfl, rfl⟩
  · exact absurd (id_wire_eq_iff.1 hid).1.symm (role_own hown').1
  · exact absurd (id_wire_eq_iff.1 hid).1 (role_own hown).1
  · obtain ⟨hrole, rfl⟩ := eq_of_id_yield hid
    rw [hrole]
    exact ⟨rfl, rfl⟩

/-- **Which connections are there.**  Of the edges that suggestions ask for, the canvas has one
between the ends of `e` exactly when `e` is the first with its id.  So all connections of all
suggestions are there exactly when no two edges with different ends have one id, as when no source
field that is read has an underscore, or no target field has one. -/
theorem connections_kept (samples : List Value) (layout : Layout) (ss : List Suggestion) :
    (∀ e ∈ ss.flatMap wires, (canvas samples layout ss).Joins e.source e.target ↔
        (ss.flatMap wires).find? (fun e' => e'.id == e.id) = some e) ∧
      ((∀ s ∈ ss, Connected (canvas samples layout ss) s) ↔ Unambiguous ss) ∧
      (Plain ss → ∀ s ∈ ss, Connected (canvas samples layout ss) s) :=
  ⟨fun _ he => joins_iff he, forall_connected_iff,
    fun h => forall_connected_iff.2 h.unambiguous⟩

/-- Two copies whose edges have one id: `a_target_b` to `c`, and `a` to `b_target_c`. -/
def crossedCopies : List Suggestion :=
  [.direct "c" "a_target_b", .direct "b_target_c" "a"]

/-- The second copy is lost, and not noted. -/
theorem not_connected_crossedCopies :
    ¬(∀ s ∈ crossedCopies, s.field?.isSome → Connected (canvas [] .default crossedCopies) s) ∧
      (toCanvas [] .default crossedCopies).skipped = [] := by
  refine ⟨fun h => ?_, by rw [toCanvas_eq]; rfl⟩
  have hsecond := h (.direct "b_target_c" "a") (by simp [crossedCopies]) rfl
  obtain ⟨e, he, hsource, -⟩ := (hsecond "b_target_c" rfl).1 "a" (List.mem_singleton_self _)
  have hedges : (canvas [] .default crossedCopies).edges.toList =
      [wire .source "a_target_b" .target "c"] := by
    rw [edges_canvas]
    decide
  rw [hedges, List.mem_singleton] at he
  rw [he] at hsource
  exact absurd hsource (by decide)

/-- Suggestions that share a source field with an underscore, for target fields without one. -/
def sharedSource : List Suggestion :=
  [.direct "mail" "e_mail", .split "host" "e_mail" "@" 1, .constant "mode" .null, .skip none none]

/-- All their connections are there. -/
theorem connections_kept_sharedSource :
    Plain sharedSource ∧
      ∀ s ∈ sharedSource, Connected (canvas [] .default sharedSource) s := by
  have hplain : Plain sharedSource := .inr (by decide)
  exact ⟨hplain, (connections_kept [] .default sharedSource).2.2 hplain⟩

end Suggestion
end MappingCanvas
