/-
# Categories of nodes

A snapshot keeps its nodes in four categories.  `regroup` is what becomes of a list of nodes when
the categories are put one behind the other: the same nodes, in their order within each category
(`perm_regroup`).  To regroup again changes nothing (`regroup_regroup`).
-/

import Mathlib.Data.List.Nodup
import Mathlib.Data.List.Perm.Basic
import MappingCanvas.Canvas.Node

namespace MappingCanvas

/-- The categories of nodes, transforms together with nodes of unknown types. -/
inductive Category
  | source | target | transform | lookup
  deriving DecidableEq

namespace Category

/-- The categories in the order of a snapshot. -/
def all : List Category := [source, target, transform, lookup]

theorem mem_all (k : Category) : k ∈ all := by
  cases k <;> decide

theorem nodup_all : all.Nodup := by
  decide

end Category

/-- The category of a node. -/
def Node.category (n : Node) : Category :=
  match n.body with
  | .source _ => .source
  | .target _ => .target
  | .transform _ _ | .unknown _ _ => .transform
  | .lookup _ => .lookup

/-- Only targets have the schema of a target. -/
theorem Node.targetSchema?_of_ne {n : Node} (h : n.category ≠ .target) :
    n.body.targetSchema? = none := by
  cases hb : n.body with
  | target s => exact absurd (by rw [category, hb]) h
  | _ => rfl

namespace Category

/-- The nodes of a category. -/
def nodes (k : Category) (ns : List Node) : List Node := ns.filter fun n => n.category = k

/-- The nodes category by category. -/
def regroup (ns : List Node) : List Node := all.flatMap fun k => k.nodes ns

variable {k : Category} {ns : List Node} {n : Node}

/-- The nodes of a category are those of some nodes that are in it. -/
theorem mem_nodes : n ∈ k.nodes ns ↔ n ∈ ns ∧ n.category = k := by
  simp [nodes]

/-- Nodes of a category are selected from each part of a list. -/
theorem nodes_append (ns ns' : List Node) : k.nodes (ns ++ ns') = k.nodes ns ++ k.nodes ns' :=
  List.filter_append ..

/-- Regrouped nodes are the sources, the targets, the transforms and the lookups. -/
theorem regroup_eq (ns : List Node) :
    regroup ns = source.nodes ns ++ target.nodes ns ++ transform.nodes ns ++ lookup.nodes ns := by
  simp [regroup, all]

/-- Regrouping is about the order alone. -/
theorem mem_regroup : n ∈ regroup ns ↔ n ∈ ns := by
  simp only [regroup, List.mem_flatMap, mem_nodes]
  exact ⟨fun ⟨_, _, h, _⟩ => h, fun h => ⟨n.category, mem_all _, h, rfl⟩⟩

/-- No node is in two categories. -/
theorem nodes_nodes (k' : Category) :
    k.nodes (k'.nodes ns) = if k = k' then k.nodes ns else [] := by
  split
  · rename_i h
    subst h
    exact List.filter_eq_self.2 fun n hn => by simpa using (mem_nodes.1 hn).2
  · rename_i h
    refine List.filter_eq_nil_iff.2 fun n hn => ?_
    have := (mem_nodes.1 hn).2
    simpa using fun hk => h (hk.symm.trans this)

/-- The categories of regrouped nodes are those of the nodes. -/
theorem nodes_regroup : k.nodes (regroup ns) = k.nodes ns := by
  cases k <;> simp [regroup, all, nodes_append, nodes_nodes]

/-- **To regroup again changes nothing.** -/
theorem regroup_regroup (ns : List Node) : regroup (regroup ns) = regroup ns :=
  congrArg all.flatMap (funext fun _ => nodes_regroup)

/-- A change of nodes that leaves their categories alone may come before or after. -/
theorem regroup_map {f : Node → Node} (hf : ∀ n, (f n).category = n.category) :
    regroup (ns.map f) = (regroup ns).map f := by
  simp only [regroup, nodes, List.map_flatMap, List.filter_map, Function.comp_def, hf]

/-- Regrouping repeats no node. -/
theorem nodup_regroup (h : ns.Nodup) : (regroup ns).Nodup := by
  refine List.nodup_flatMap.2 ⟨fun k _ => h.filter _, nodup_all.imp fun hkk' => ?_⟩
  intro n hn hn'
  exact hkk' ((mem_nodes.1 hn).2.symm.trans (mem_nodes.1 hn').2)

/-- **Regrouping loses no node and adds none.** -/
theorem perm_regroup (h : ns.Nodup) : (regroup ns).Perm ns :=
  (List.perm_ext_iff_of_nodup (nodup_regroup h) h).2 fun _ => mem_regroup

/-- What concerns the nodes of one category only can be collected before or after. -/
theorem flatMap_regroup {α : Type} {f : Node → List α}
    (hf : ∀ n, n.category ≠ k → f n = []) : (regroup ns).flatMap f = ns.flatMap f := by
  have hnodes (ns : List Node) : (k.nodes ns).flatMap f = ns.flatMap f := by
    induction ns with
    | nil => rfl
    | cons n ns ih =>
      by_cases hn : n.category = k
      · simp only [nodes, List.filter_cons, hn, decide_true, if_true, List.flatMap_cons] at ih ⊢
        rw [ih]
      · simp only [nodes, List.filter_cons, hn, decide_false, List.flatMap_cons, hf n hn] at ih ⊢
        simpa using ih
  rw [← hnodes, nodes_regroup, hnodes]

end Category
end MappingCanvas
