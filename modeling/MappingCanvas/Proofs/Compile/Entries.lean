/-
# The entries of a snapshot

The nodes of a canvas are entered into a snapshot one by one, each at the end of the list of its
category.  So a list holds what the nodes of its category are shown as, in canvas order
(`foldl_addNode`), and the ids it holds are theirs (`idsOf_entries`).
-/

import MappingCanvas.Compile.Export
import MappingCanvas.Proofs.Restore.Category

namespace MappingCanvas

/-- The ids of the entries of a category. -/
def Snapshot.Nodes.idsOf (s : Snapshot.Nodes) : Category → List String
  | .source => s.sources.map SchemaEntry.id
  | .target => s.targets.map SchemaEntry.id
  | .transform => s.transforms.map TransformEntry.id
  | .lookup => s.lookups.map LookupEntry.id

/-- The ids of a snapshot are those of its categories, one after the other. -/
theorem Snapshot.Nodes.ids_eq (s : Snapshot.Nodes) : s.ids = Category.all.flatMap s.idsOf := by
  simp [Category.all, ids, idsOf]

namespace Exporter

/-! ### One node -/

/-- What a source is shown as. -/
def shownSource? (n : Node) : Option Snapshot.SchemaEntry :=
  match n.body with
  | .source s => some (schemaEntry n s)
  | _ => none

/-- What a target is shown as. -/
def shownTarget? (n : Node) : Option Snapshot.SchemaEntry :=
  match n.body with
  | .target s => some (schemaEntry n s)
  | _ => none

/-- What a transform, or a node of unknown type, is shown as. -/
def shownTransform? (n : Node) : Option Snapshot.TransformEntry :=
  match n.body with
  | .transform label operation =>
    some ⟨n.id, n.body.typeName, label, n.position, operation.parameters⟩
  | .unknown typeName data => some ⟨n.id, typeName, n.body.label, n.position, data⟩
  | _ => none

/-- What a lookup is shown as. -/
def shownLookup? (n : Node) : Option Snapshot.LookupEntry :=
  match n.body with
  | .lookup l => some ⟨n.id, l.label, n.position, l.table, l.sourceField⟩
  | _ => none

/-! ### All nodes -/

/-- The entries of some nodes, by category. -/
def entries (ns : List Node) : Snapshot.Nodes :=
  ⟨ns.filterMap shownSource?, ns.filterMap shownTarget?, ns.filterMap shownTransform?,
    ns.filterMap shownLookup?⟩

/-- A node is entered behind the entries of its category. -/
theorem addNode_entries (ns : List Node) (n : Node) :
    addNode (entries ns) n = entries (ns ++ [n]) := by
  obtain ⟨id, position, body⟩ := n
  cases body <;>
    simp [addNode, entries, List.filterMap_append, shownSource?, shownTarget?, shownTransform?,
      shownLookup?]

/-- Nodes are added to the entries of others in order. -/
theorem foldl_addNode (ns ms : List Node) : ms.foldl addNode (entries ns) = entries (ns ++ ms) := by
  induction ms generalizing ns with
  | nil => rw [List.append_nil]; rfl
  | cons m ms ih => rw [List.foldl_cons, addNode_entries, ih, List.append_assoc]; rfl

/-- **The nodes of a snapshot are the entries of those of the canvas.** -/
theorem nodes_exportSnapshot (x : Exporter) (c : Canvas) :
    (x.exportSnapshot c).1.nodes = entries c.nodes.toList :=
  foldl_addNode [] c.nodes.toList

/-- What is read off the entries of a category may be read off its nodes. -/
theorem map_filterMap_nodes {α β : Type} {ns : List Node} {k : Category} {shown? : Node → Option α}
    {read : α → β} {f : Node → β}
    (h : ∀ n, (shown? n).map read = if n.category = k then some (f n) else none) :
    (ns.filterMap shown?).map read = (k.nodes ns).map f := by
  simp only [List.map_filterMap, h, Category.nodes]
  induction ns with
  | nil => rfl
  | cons n ns ih => by_cases hk : n.category = k <;> simp [hk, ih]

/-- **The entries of a category have the ids of its nodes.** -/
theorem idsOf_entries (ns : List Node) (k : Category) :
    (entries ns).idsOf k = (k.nodes ns).map Node.id := by
  cases k <;> refine map_filterMap_nodes fun n => ?_ <;> obtain ⟨id, position, body⟩ := n <;>
    cases body <;> rfl

end Exporter
end MappingCanvas
