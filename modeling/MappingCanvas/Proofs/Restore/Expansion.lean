/-
# What is expanded in restored sources

A connection to a field inside other fields is lost if the field is not shown, so restoring expands
the fields around it.  The paths to expand are made from the handle of the connection alone, and
the field is looked for by the same handle in another way; where ids are dot paths the two meet
(`DotPaths.mem_ancestors`), so each field around a connected field is expanded but for a root
without an id, which no handle can name (`stage_expands`).

Nothing else changes: what was expanded stays so, nothing is expanded that no connection needs, and
nodes of other kinds are as they were built.
-/

import MappingCanvas.Proofs.Restore.RoundTrip
import MappingCanvas.Proofs.Schema.Path

namespace MappingCanvas
namespace Restore

variable {groupings : List Grouping} {s : Snapshot} {staged : Staged}

/-- A snapshot is staged by building its nodes, refusing a repeated id, and expanding what the edges
need. -/
theorem stage_eq (groupings : List Grouping) (s : Snapshot) :
    stage groupings s = (nodes groupings s.nodes).mapError .payload >>= fun ns =>
      match duplicate? [] (ns.map Node.id) with
      | some id => .error (.duplicateNode id)
      | none => .ok ⟨ns.map (expand (s.connections.map edge)), s.connections.map edge⟩ := rfl

/-- **What is staged are the nodes as they were built, expanded.** -/
theorem exists_nodes_of_stage (h : stage groupings s = .ok staged) :
    ∃ ns, nodes groupings s.nodes = .ok ns ∧ (ns.map Node.id).Nodup ∧
      staged = ⟨ns.map (expand (s.connections.map edge)), s.connections.map edge⟩ := by
  rw [stage_eq] at h
  obtain ⟨ns, hns, h⟩ := bind_eq_ok.1 h
  cases hduplicate : duplicate? [] (ns.map Node.id) with
  | some id =>
    rw [hduplicate] at h
    cases h
  | none =>
    rw [hduplicate] at h
    exact ⟨ns, mapError_eq_ok_iff.1 hns, (duplicate?_eq_none.1 hduplicate).1,
      (Except.ok.inj h).symm⟩

/-- The node of a source entry is built. -/
theorem sourceNode_mem {ns : List Node} (h : nodes groupings s.nodes = .ok ns)
    {entry : Snapshot.SchemaEntry} (hentry : entry ∈ s.nodes.sources) : sourceNode entry ∈ ns := by
  obtain ⟨transforms, -, h⟩ := bind_eq_ok.1 h
  obtain rfl := Except.ok.inj h
  simp only [List.append_assoc]
  exact List.mem_append_left _ (List.mem_map_of_mem hentry)

/-- **In the source of an entry the paths are expanded that were, and those that the connections
leaving it need.** -/
theorem expanded?_of_stage (h : stage groupings s = .ok staged) {entry : Snapshot.SchemaEntry}
    (hentry : entry ∈ s.nodes.sources) :
    staged.expanded? entry.id =
      some (entry.expanded.addAll (neededPaths (s.connections.map edge) entry.id)) := by
  obtain ⟨ns, hns, hnodup, rfl⟩ := exists_nodes_of_stage h
  have hmem := List.mem_map_of_mem (f := expand (s.connections.map edge))
    (sourceNode_mem hns hentry)
  have hids : ((ns.map (expand (s.connections.map edge))).map Node.id).Nodup := by
    rw [List.map_map]
    simpa only [Function.comp_def, id_expand] using hnodup
  have hfind := find?_key hids hmem
  rw [id_expand] at hfind
  exact (congrArg (Option.bind · _) hfind).trans rfl

/-- **Every field around a connected field is expanded.**  In each source that is staged the paths
stay expanded that were; and where its ids are dot paths, all fields around the field that a handle
of a connection leaving it finds are expanded, but for a root without an id.  A source gets no other
paths than the ancestors of such handles, and nodes of other kinds are staged as they were built. -/
theorem stage_expands (h : stage groupings s = .ok staged) :
    (∀ entry ∈ s.nodes.sources, ∃ expanded, staged.expanded? entry.id = some expanded ∧
      (∀ path ∈ entry.expanded.toList, path ∈ expanded.toList) ∧
      (Field.DotPaths entry.fields → ∀ c ∈ s.connections, c.source = entry.id →
        ∀ handle f, (edge c).sourceHandle? = some handle →
          Field.find? entry.fields handle = some f →
          ∀ a ∈ Field.preorderForest entry.fields, f.Inside a → a.id ≠ "" →
            a.id ∈ expanded.toList)) ∧
    ∃ ns, nodes groupings s.nodes = .ok ns ∧
      List.Forall₂ (Regained (s.connections.map edge)) ns staged.nodes := by
  refine ⟨fun entry hentry => ⟨_, expanded?_of_stage h hentry, fun path hpath => ?_, ?_⟩, ?_⟩
  · exact TextSet.mem_addAll.2 (.inr hpath)
  · intro hdots c hc hsource handle f hhandle hfind a ha hinside hne
    refine TextSet.mem_addAll.2 (.inl (mem_neededPaths.2 ?_))
    exact ⟨edge c, List.mem_map_of_mem hc, hsource, handle, hhandle,
      hdots.mem_ancestors hfind ha hinside hne⟩
  · obtain ⟨ns, hns, -, rfl⟩ := exists_nodes_of_stage h
    exact ⟨ns, hns, List.forall₂_map_right_iff.2
      (List.forall₂_same.2 fun n _ => regained_expand _ n)⟩

/-- A city inside the addresses of some items. -/
def cityField : Field := ⟨"items.address.city", "city", .string, none, none⟩

/-- The addresses of some items. -/
def addressField : Field := ⟨"items.address", "address", .object, some [cityField], none⟩

/-- Items with addresses. -/
def itemsField : Field := ⟨"items", "items", .array, some [addressField], none⟩

/-- The city of the third item, connected while something else is expanded. -/
def thirdCity : Snapshot :=
  ⟨"orders", "Orders", "1.0", ⟨0, 0⟩,
    ⟨[⟨"shop", "Shop", .origin, [itemsField], [], .ofList ["kept"]⟩], [], [], []⟩,
    [⟨"c", "shop", some "items[2].address.city", "gone", none, .direct⟩], [], .empty⟩

/-- The tree of items in preorder. -/
theorem preorder_itemsField :
    Field.preorderForest [itemsField] = [itemsField, addressField, cityField] := by
  simp [Field.preorderForest, Field.preorder_eq, itemsField, addressField, cityField,
    Field.childList]

/-- The ids of the items are the dot paths of their fields. -/
theorem dotPaths_itemsField : Field.DotPaths [itemsField] where
  root := by decide +kernel
  child := by
    rw [preorder_itemsField]
    simp only [List.forall_mem_cons]
    refine ⟨fun g hg => ?_, fun g hg => ?_, fun g hg => ?_, by simp⟩
    · obtain rfl : g = addressField := List.mem_singleton.1 hg
      exact ⟨"address", by decide, by simp, by decide +kernel⟩
    · obtain rfl : g = cityField := List.mem_singleton.1 hg
      exact ⟨"city", by decide, by simp, by decide +kernel⟩
    · exact absurd hg (by simp [cityField, Field.childList])

/-- A handle with an index finds the field without one. -/
theorem find?_thirdCity :
    Field.find? [itemsField] "items[2].address.city" = some cityField := by
  have hstrip : Path.stripIndices "items[2].address.city" = "items.address.city" := by
    decide +kernel
  simp only [Field.find?, Field.findById?, Field.walk_eq_preorder, preorder_itemsField, hstrip]
  rfl

/-- The items and their addresses are expanded, and so is what was. -/
theorem stage_expands_thirdCity : ∃ staged expanded, stage [] thirdCity = .ok staged ∧
    staged.expanded? "shop" = some expanded ∧ "kept" ∈ expanded.toList ∧
      "items" ∈ expanded.toList ∧ "items.address" ∈ expanded.toList := by
  obtain ⟨staged, hstage⟩ : ∃ staged, stage [] thirdCity = .ok staged := ⟨_, rfl⟩
  obtain ⟨expanded, hexpanded, hkept, hneeded⟩ :=
    (stage_expands hstage).1 _ (List.mem_singleton.2 rfl)
  have hcity : ∀ a ∈ [itemsField, addressField], cityField.Inside a → a.id ≠ "" →
      a.id ∈ expanded.toList := by
    intro a ha
    refine hneeded dotPaths_itemsField _ (List.mem_singleton.2 rfl) rfl _ _ rfl find?_thirdCity a ?_
    rw [preorder_itemsField]
    exact List.mem_append_left [cityField] ha
  have haddress : cityField.Inside addressField := .single (by simp [addressField, Field.childList])
  have hitems : cityField.Inside itemsField :=
    .head (by simp [itemsField, Field.childList]) haddress
  exact ⟨staged, expanded, hstage, hexpanded, hkept _ (by decide +kernel),
    hcity _ (by simp) hitems (by decide), hcity _ (by simp) haddress (by decide)⟩

/-- A town inside a root without an id. -/
def townField : Field := ⟨".city", "city", .string, none, none⟩

/-- A root without an id. -/
def namelessRoot : Field := ⟨"", "root", .object, some [townField], none⟩

/-- A connection from a town inside a root without an id. -/
def namelessTown : Snapshot :=
  ⟨"cfg", "n", "1.0", ⟨0, 0⟩,
    ⟨[⟨"src", "", .origin, [namelessRoot], [], .empty⟩],
      [⟨"tgt", "", .origin, [⟨"town", "town", .string, none, none⟩], [], .empty⟩], [], []⟩,
    [⟨"c", "src", some ".city", "tgt", some "town", .direct⟩], [], .empty⟩

/-- The ids below a root without an id are dot paths as well. -/
theorem dotPaths_namelessRoot : Field.DotPaths [namelessRoot] where
  root := by decide +kernel
  child := by
    have hpreorder : Field.preorderForest [namelessRoot] = [namelessRoot, townField] := by
      simp [Field.preorderForest, Field.preorder_eq, namelessRoot, townField, Field.childList]
    rw [hpreorder]
    simp only [List.forall_mem_cons]
    refine ⟨fun g hg => ?_, fun g hg => ?_, by simp⟩
    · obtain rfl : g = townField := List.mem_singleton.1 hg
      exact ⟨"city", by decide, by simp, by decide +kernel⟩
    · exact absurd hg (by simp [townField, Field.childList])

/-- A root without an id is not expanded, though a field inside it is connected and all ids are dot
paths: ancestors without characters are left out of what a handle needs. -/
theorem not_expanded_namelessRoot :
    ∃ staged expanded, stage [] namelessTown = .ok staged ∧
      staged.expanded? "src" = some expanded ∧ Field.DotPaths [namelessRoot] ∧
      (∀ entry ∈ namelessTown.nodes.sources, entry.id = "src" ∧ entry.fields = [namelessRoot]) ∧
      (∃ c ∈ namelessTown.connections, c.source = "src" ∧
        (edge c).sourceHandle? = some ".city" ∧
          Field.find? [namelessRoot] ".city" = some townField) ∧
      townField.Inside namelessRoot ∧ namelessRoot.id ∉ expanded.toList := by
  have hfind : Field.find? [namelessRoot] ".city" = some townField := by
    rw [Field.find?, Field.findById?, Field.walk_eq_preorder]
    simp [Field.preorderForest, Field.preorder_eq, namelessRoot, townField, Field.childList]
  refine ⟨_, _, rfl, rfl, dotPaths_namelessRoot, ?_, ⟨_, List.mem_singleton.2 rfl, rfl, rfl, hfind⟩,
    .single (by simp [namelessRoot, Field.childList]), ?_⟩
  · intro entry hentry
    obtain rfl := List.mem_singleton.1 hentry
    exact ⟨rfl, rfl⟩
  · decide +kernel

end Restore
end MappingCanvas
