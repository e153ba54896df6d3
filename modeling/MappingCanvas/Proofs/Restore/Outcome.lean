/-
# Restoring succeeds or fails as a whole

Two things can be wrong with a snapshot, and they are looked for in this order: the parameters of a
transform of known type that cannot be read (`Refuses`), and an id that occurs twice among the
nodes.  In both cases the first one is reported.  There is no other failure, and a canvas into which
a snapshot is restored is not touched before both have been ruled out; then it is cleared of edges,
given all nodes, and given all edges (`restore_whole`).

A canvas of this library that does these commands comes to what the staged nodes and edges make
alone, whatever it held before.
-/

import MappingCanvas.Proofs.Restore.Expansion

namespace MappingCanvas

/-- The node whose data could not be read. -/
def PayloadError.nodeId : PayloadError → String
  | notAnObject nodeId | badTable nodeId _ | undecodable nodeId _ _ => nodeId

namespace Payload

variable {nodeId typeName : String} {cause : PayloadError}

/-- Parameters that cannot be read are blamed on the node that they are for. -/
theorem nodeId_of_parameters {type : NodeType} {data : Json}
    (h : parameters nodeId typeName type data = .error cause) : cause.nodeId = nodeId := by
  cases type with
  | lookup =>
    simp only [parameters] at h
    split at h
    · cases h
    · split at h
      · cases h
      · obtain rfl := Except.error.inj h
        rfl
  | _ => cases h

/-- **An error of reading names the node that was read.** -/
theorem nodeId_of_nodeBody {data : Value} (h : nodeBody nodeId typeName data = .error cause) :
    cause.nodeId = nodeId := by
  unfold nodeBody at h
  split at h
  · cases h
  · split at h
    · obtain rfl := Except.error.inj h
      rfl
    · rcases bind_eq_error.1 h with h | ⟨v, -, h⟩
      · exact nodeId_of_parameters h
      · obtain ⟨error, -, rfl⟩ := mapError_eq_error_iff.1 h
        rfl

end Payload

namespace Restore

variable {groupings : List Grouping} {s : Snapshot} {e : Snapshot.TransformEntry}
  {cause : PayloadError}

/-! ### Refused parameters -/

/-- A transform of known type has parameters that cannot be read. -/
def Refuses (e : Snapshot.TransformEntry) (cause : PayloadError) : Prop :=
  (NodeType.ofName? e.typeName).isSome ∧
    Payload.nodeBody e.id e.typeName (Payload.configured e.label e.parameters) = .error cause

/-- A refusal names the transform whose parameters are refused. -/
theorem Refuses.nodeId_eq (h : Refuses e cause) : cause.nodeId = e.id :=
  Payload.nodeId_of_nodeBody h.2

/-- The parameters of a transform are read like node data if its type is known, and kept untouched
otherwise. -/
theorem transformNode_eq (e : Snapshot.TransformEntry) :
    transformNode e =
      (match NodeType.ofName? e.typeName with
        | some _ => Payload.nodeBody e.id e.typeName (Payload.configured e.label e.parameters)
        | none => .ok (.unknown e.typeName e.parameters)).map fun body =>
          ⟨e.id, e.position, body⟩ := by
  unfold transformNode
  cases NodeType.ofName? e.typeName <;> rfl

/-- **Building a transform fails when its parameters are refused.** -/
theorem transformNode_eq_error_iff : transformNode e = .error cause ↔ Refuses e cause := by
  rw [transformNode_eq, map_eq_error_iff, Refuses]
  cases NodeType.ofName? e.typeName <;> simp

/-- A transform is built exactly if its parameters are not refused. -/
theorem exists_transformNode_iff :
    (∃ n, transformNode e = .ok n) ↔ ∀ cause, ¬Refuses e cause := by
  simp only [← transformNode_eq_error_iff]
  cases transformNode e <;> simp

/-- A transform is built under the id of its entry. -/
theorem id_of_transformNode {n : Node} (h : transformNode e = .ok n) : n.id = e.id := by
  rw [transformNode_eq] at h
  obtain ⟨body, -, rfl⟩ := map_eq_ok_iff.1 h
  rfl

/-! ### Nodes and ids -/

/-- The nodes of a snapshot are those of its entries, and only transforms can be refused. -/
theorem nodes_eq (groupings : List Grouping) (s : Snapshot.Nodes) :
    nodes groupings s = (s.transforms.mapM transformNode).map fun transforms =>
      s.sources.map sourceNode ++ s.targets.map (targetNode groupings) ++ transforms ++
        s.lookups.map lookupNode := rfl

/-- No parameters are refused. -/
def AllAccepted (entries : List Snapshot.TransformEntry) : Prop :=
  ∀ e ∈ entries, ∀ cause, ¬Refuses e cause

/-- The first transform whose parameters are refused, with what is wrong with them. -/
def FirstRefused (entries : List Snapshot.TransformEntry) (cause : PayloadError) : Prop :=
  ∃ before e after, entries = before ++ e :: after ∧ AllAccepted before ∧ Refuses e cause ∧
    cause.nodeId = e.id

/-- The nodes of a snapshot cannot be built because of the first transform that is refused. -/
theorem nodes_eq_error_iff :
    nodes groupings s.nodes = .error cause ↔ FirstRefused s.nodes.transforms cause := by
  simp only [nodes_eq, map_eq_error_iff, mapM_eq_error_iff, exists_transformNode_iff,
    transformNode_eq_error_iff, FirstRefused, AllAccepted]
  constructor
  · rintro ⟨before, e, after, hsplit, hbefore, h⟩
    exact ⟨before, e, after, hsplit, hbefore, h, h.nodeId_eq⟩
  · rintro ⟨before, e, after, hsplit, hbefore, h, -⟩
    exact ⟨before, e, after, hsplit, hbefore, h⟩

/-- The nodes of a snapshot can be built exactly if no transform is refused. -/
theorem exists_nodes_iff (groupings : List Grouping) :
    (∃ ns, nodes groupings s.nodes = .ok ns) ↔ AllAccepted s.nodes.transforms := by
  simp only [AllAccepted, ← exists_transformNode_iff, ← exists_mapM_eq_ok_iff, nodes_eq,
    map_eq_ok_iff]
  constructor
  · rintro ⟨ns, transforms, h, -⟩
    exact ⟨transforms, h⟩
  · rintro ⟨transforms, h⟩
    exact ⟨_, transforms, h, rfl⟩

/-- **The nodes of a snapshot have the ids of its entries.** -/
theorem ids_of_nodes {ns : List Node} (h : nodes groupings s.nodes = .ok ns) :
    ns.map Node.id = s.nodes.ids := by
  rw [nodes_eq] at h
  obtain ⟨transforms, htransforms, rfl⟩ := map_eq_ok_iff.1 h
  have hids : transforms.map Node.id = s.nodes.transforms.map Snapshot.TransformEntry.id := by
    refine List.forall₂_eq_eq_eq ▸ ?_
    rw [List.forall₂_map_left_iff, List.forall₂_map_right_iff]
    exact (mapM_eq_ok_iff.1 htransforms).flip.imp fun n e h => id_of_transformNode h
  simp only [Snapshot.Nodes.ids, List.map_append, hids, List.map_map]
  rfl

/-! ### Repeated ids -/

/-- A duplicate is looked for in the first part of a list and then in the rest. -/
theorem duplicate?_append (seen before after : List String) :
    duplicate? seen (before ++ after) =
      (duplicate? seen before).or (duplicate? (before.reverse ++ seen) after) := by
  induction before generalizing seen with
  | nil => rfl
  | cons id before ih =>
    rw [List.cons_append, duplicate?, duplicate?]
    by_cases hid : seen.contains id
    · rw [if_pos hid, if_pos hid, Option.some_or]
    · rw [if_neg hid, if_neg hid, ih, List.reverse_cons, List.append_assoc, List.singleton_append]

/-- What has occurred before stands behind ids that have not. -/
theorem exists_of_duplicate? {seen ids : List String} {id : String}
    (h : duplicate? seen ids = some id) : ∃ before after, ids = before ++ id :: after ∧
      duplicate? seen before = none ∧ (id ∈ seen ∨ id ∈ before) := by
  induction ids generalizing seen with
  | nil => cases h
  | cons x ids ih =>
    rw [duplicate?] at h
    by_cases hx : x ∈ seen
    · rw [if_pos (List.contains_iff_mem.2 hx)] at h
      obtain rfl := Option.some.inj h
      exact ⟨[], ids, rfl, rfl, .inl hx⟩
    · rw [if_neg (mt List.contains_iff_mem.1 hx)] at h
      obtain ⟨before, after, rfl, hbefore, hid⟩ := ih h
      refine ⟨x :: before, after, rfl, by simpa [duplicate?, hx] using hbefore, ?_⟩
      rcases hid with hid | hid
      · rcases List.mem_cons.1 hid with rfl | hid
        · exact .inr (List.mem_cons_self ..)
        · exact .inl hid
      · exact .inr (List.mem_cons_of_mem x hid)

/-- The first id that has occurred before. -/
theorem duplicate?_eq_some_iff {seen ids : List String} {id : String} :
    duplicate? seen ids = some id ↔ ∃ before after, ids = before ++ id :: after ∧
      duplicate? seen before = none ∧ (id ∈ seen ∨ id ∈ before) := by
  refine ⟨exists_of_duplicate?, ?_⟩
  rintro ⟨before, after, rfl, hbefore, hid⟩
  have hseen : id ∈ before.reverse ++ seen := by simpa [or_comm] using hid
  rw [duplicate?_append, hbefore, Option.none_or, duplicate?,
    if_pos (List.contains_iff_mem.2 hseen)]

/-- The first id of a list that has occurred before. -/
def FirstRepeated (ids : List String) (id : String) : Prop :=
  ∃ before after, ids = before ++ id :: after ∧ before.Nodup ∧ id ∈ before

/-- The duplicate that is reported is the first id that has occurred before. -/
theorem duplicate?_nil_eq_some_iff {ids : List String} {id : String} :
    duplicate? [] ids = some id ↔ FirstRepeated ids id := by
  simp [duplicate?_eq_some_iff, duplicate?_eq_none, FirstRepeated]

/-! ### The outcome -/

/-- **A snapshot is refused for its parameters before anything else.** -/
theorem stage_eq_payload_iff :
    stage groupings s = .error (.payload cause) ↔ FirstRefused s.nodes.transforms cause := by
  rw [← nodes_eq_error_iff, stage_eq, bind_eq_error, mapError_eq_error_iff]
  constructor
  · rintro (⟨other, h, heq⟩ | ⟨ns, -, h⟩)
    · rwa [← RestoreError.payload.inj heq]
    · cases hduplicate : duplicate? [] (ns.map Node.id) <;> simp [hduplicate] at h
  · exact fun h => .inl ⟨cause, h, rfl⟩

/-- **A snapshot is refused for a repeated id if all parameters are accepted.** -/
theorem stage_eq_duplicateNode_iff {id : String} :
    stage groupings s = .error (.duplicateNode id) ↔
      AllAccepted s.nodes.transforms ∧ FirstRepeated s.nodes.ids id := by
  rw [← exists_nodes_iff groupings, ← duplicate?_nil_eq_some_iff, stage_eq,
    bind_eq_error, mapError_eq_error_iff]
  constructor
  · rintro (⟨other, h, heq⟩ | ⟨ns, hns, h⟩)
    · cases heq
    · rw [mapError_eq_ok_iff] at hns
      rw [ids_of_nodes hns] at h
      refine ⟨⟨ns, hns⟩, ?_⟩
      cases hduplicate : duplicate? [] s.nodes.ids with
      | none => simp [hduplicate] at h
      | some other => simpa [hduplicate] using h
  · rintro ⟨⟨ns, hns⟩, h⟩
    refine .inr ⟨ns, mapError_eq_ok_iff.2 hns, ?_⟩
    rw [ids_of_nodes hns, h]

/-- **Restoring has no other failure.** -/
theorem exists_stage_iff :
    (∃ staged, stage groupings s = .ok staged) ↔
      AllAccepted s.nodes.transforms ∧ s.nodes.ids.Nodup := by
  rw [← exists_nodes_iff groupings]
  constructor
  · rintro ⟨staged, h⟩
    obtain ⟨ns, hns, hnodup, -⟩ := exists_nodes_of_stage h
    exact ⟨⟨ns, hns⟩, ids_of_nodes hns ▸ hnodup⟩
  · rintro ⟨⟨ns, hns⟩, hnodup⟩
    have hduplicate : duplicate? [] s.nodes.ids = none :=
      duplicate?_eq_none.2 ⟨hnodup, fun _ _ => List.not_mem_nil⟩
    rw [stage_eq, mapError_eq_ok_iff.2 hns]
    simp only [bind, Except.bind, ids_of_nodes hns, hduplicate]
    exact ⟨_, rfl⟩

/-- A snapshot that can be staged is given to the canvas command by command. -/
theorem drive_of_stage {staged : Staged} (h : stage groupings s = .ok staged) {κ : Type}
    (take : κ → Command → κ) (k : κ) :
    drive take groupings s k = (.ok (), staged.commands.foldl take k) := by
  rw [drive, h]

/-- Restoring into a canvas of this library does to it what restoring does to any canvas. -/
theorem into_eq_drive (groupings : List Grouping) (s : Snapshot) (c : Canvas) :
    into groupings s c =
      (drive Command.apply groupings s c).1.map fun _ => (drive Command.apply groupings s c).2 := by
  rw [into, drive]
  cases stage groupings s <;> rfl

/-- What is done after nodes and edges are known does not depend on what the canvas held. -/
theorem foldl_apply_commands (staged : Staged) (c : Canvas) :
    staged.commands.foldl Command.apply c = staged.commit := rfl

/-- **Restoring succeeds or fails as a whole.**  It fails in two cases only: with the first
transform whose parameters are refused, or, when none is, with the first id of a node that has
occurred before.  A restore that fails gives the canvas no command.  One that succeeds gives it
three: to clear its edges, to take all nodes, to take the edges of all connections in order.  A
canvas of this library then holds just these nodes and edges, whatever was on it. -/
theorem restore_whole (groupings : List Grouping) (s : Snapshot) :
    ((∃ staged, stage groupings s = .ok staged) ↔
      AllAccepted s.nodes.transforms ∧ s.nodes.ids.Nodup) ∧
    (∀ cause, stage groupings s = .error (.payload cause) ↔
      FirstRefused s.nodes.transforms cause) ∧
    (∀ id, stage groupings s = .error (.duplicateNode id) ↔
      AllAccepted s.nodes.transforms ∧ FirstRepeated s.nodes.ids id) ∧
    (∀ cause, stage groupings s = .error cause →
      ∀ (κ : Type) (take : κ → Command → κ) (k : κ),
        drive take groupings s k = (.error cause, k)) ∧
    (∀ staged, stage groupings s = .ok staged →
      staged.nodes.map Node.id = s.nodes.ids ∧
      (∀ (κ : Type) (take : κ → Command → κ) (k : κ), drive take groupings s k =
        (.ok (), take (take (take k .clearEdges) (.setNodes staged.nodes))
          (.setEdges (s.connections.map edge)))) ∧
      ∀ c : Canvas, drive Command.apply groupings s c = (.ok (), staged.commit) ∧
        into groupings s c = .ok staged.commit) := by
  refine ⟨exists_stage_iff, fun cause => stage_eq_payload_iff, fun id => stage_eq_duplicateNode_iff,
    fun cause h κ take k => ?_, fun staged h => ?_⟩
  · rw [drive, h]
  · obtain ⟨ns, hns, -, rfl⟩ := exists_nodes_of_stage h
    refine ⟨?_, fun κ take k => drive_of_stage h take k, fun c => ⟨?_, ?_⟩⟩
    · rw [← ids_of_nodes hns, List.map_map]
      exact List.map_congr_left fun n _ => id_expand _ n
    · rw [drive_of_stage h, foldl_apply_commands]
    · rw [into_eq_drive, drive_of_stage h, foldl_apply_commands]
      rfl

/-- A transform of a type that is not known, which nothing refuses. -/
def oddEntry : Snapshot.TransformEntry := ⟨"odd", "custom", "", .origin, .ofJson (.nat 1)⟩

/-- A split whose index is not a number. -/
def brokenSplit : Snapshot.TransformEntry :=
  ⟨"part", "split", "", .origin, .ofJson (.object [("index", .string "-")])⟩

/-- A lookup whose table is neither an object nor a list. -/
def brokenLookup : Snapshot.TransformEntry :=
  ⟨"codes", "mapping", "", .origin, .ofJson (.object [("table", .nat 1)])⟩

/-- A snapshot with the transforms given, the id `"a"` of whose source is the id of its lookup. -/
def repeated (transforms : List Snapshot.TransformEntry) : Snapshot :=
  ⟨"cfg", "n", "1.0", ⟨0, 0⟩,
    ⟨[⟨"a", "", .origin, [], [], .empty⟩], [⟨"b", "", .origin, [], [], .empty⟩], transforms,
      [⟨"a", "", .origin, .empty, none⟩]⟩, [], [], .empty⟩

/-- What is refused comes before what is repeated, the first of it alone; and a canvas that writes
down its commands has written none. -/
theorem restore_whole_repeated :
    let cause := PayloadError.undecodable "part" "split" (.invalidType (.string "-"))
    FirstRefused [oddEntry, brokenSplit, brokenLookup] cause ∧
    stage [] (repeated [oddEntry, brokenSplit, brokenLookup]) = .error (.payload cause) ∧
    FirstRepeated (repeated [oddEntry]).nodes.ids "a" ∧
    stage [] (repeated [oddEntry]) = .error (.duplicateNode "a") ∧
    drive (fun log command => log ++ [command]) [] (repeated [oddEntry]) [] =
      (.error (.duplicateNode "a"), []) := by
  intro cause
  have hodd : AllAccepted [oddEntry] := by
    refine List.forall_mem_singleton.2 ?_
    rintro other ⟨hknown, -⟩
    exact absurd hknown (by decide)
  have hrefused : FirstRefused [oddEntry, brokenSplit, brokenLookup] cause :=
    ⟨[oddEntry], brokenSplit, [brokenLookup], rfl, hodd, ⟨by decide, rfl⟩, rfl⟩
  have hrepeated : FirstRepeated (repeated [oddEntry]).nodes.ids "a" :=
    ⟨["a", "b", "odd"], [], rfl, by decide, by decide⟩
  obtain ⟨-, hpayload, -⟩ := restore_whole [] (repeated [oddEntry, brokenSplit, brokenLookup])
  obtain ⟨-, -, hduplicate, huntouched, -⟩ := restore_whole [] (repeated [oddEntry])
  have hstage : stage [] (repeated [oddEntry]) = .error (.duplicateNode "a") :=
    (hduplicate "a").2 ⟨hodd, hrepeated⟩
  exact ⟨hrefused, (hpayload cause).2 hrefused, hrepeated, hstage, huntouched _ hstage _ _ _⟩

end Restore
end MappingCanvas
