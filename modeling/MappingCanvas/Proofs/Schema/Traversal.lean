/-
# The order of a walk

A walk with a stack visits a forest in preorder (`walk_eq_preorder`), and so a field that is found
by its handle is one of the fields of the forest (`mem_of_find?`).
-/

import MappingCanvas.Schema.Field

namespace MappingCanvas
namespace Field

/-- The preorder of two forests is that of the first and then that of the other. -/
theorem preorderForest_append (fs gs : List Field) :
    preorderForest (fs ++ gs) = preorderForest fs ++ preorderForest gs := by
  induction fs with
  | nil => rfl
  | cons f fs ih => rw [List.cons_append, preorderForest, preorderForest, ih, List.append_assoc]

/-- A field comes before the fields in it. -/
theorem preorder_eq (f : Field) : f.preorder = f :: preorderForest f.childList := by
  obtain ⟨id, name, dataType, children, groupBy⟩ := f
  cases children <;> simp [preorder, preorderChildren, childList, preorderForest]

/-- **What holds of a forest if it holds of the children of its first tree and of the other trees
holds of all forests.** -/
@[elab_as_elim]
theorem forest_induction {P : List Field → Prop} (nil : P [])
    (cons : ∀ f fs, P f.childList → P fs → P (f :: fs)) : ∀ fs, P fs
  | [] => nil
  | f :: fs => cons f fs (forest_induction nil cons f.childList) (forest_induction nil cons fs)
termination_by fs => weightForest fs
decreasing_by
  all_goals
    rw [weightForest, weight_eq]
    omega

/-- **A walk visits each field before its children, siblings in order.** -/
theorem walk_eq_preorder (forest : List Field) : walk forest = preorderForest forest := by
  induction forest using walk.induct with
  | case1 => rw [walk, preorderForest]
  | case2 f rest ih =>
    rw [walk, ih, preorderForest_append, preorderForest, preorder_eq, List.cons_append]

variable {forest : List Field} {f : Field}

/-- What is found by its id is a field of the forest. -/
theorem mem_of_findById? {id : String} (h : findById? forest id = some f) :
    f ∈ preorderForest forest := by
  rw [findById?, walk_eq_preorder] at h
  exact List.mem_of_find?_eq_some h

/-- **What is found is a field of the forest.** -/
theorem mem_of_find? {handle : String} (h : find? forest handle = some f) :
    f ∈ preorderForest forest := by
  simp only [find?] at h
  split at h
  · rename_i g hg
    obtain rfl := Option.some.inj h
    exact mem_of_findById? hg
  · split at h
    · cases h
    · exact mem_of_findById? h

end Field
end MappingCanvas
