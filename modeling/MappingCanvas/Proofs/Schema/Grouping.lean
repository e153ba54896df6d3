/-
# Groupings by name

The list of groupings knows an array only by its name, so it can give every array its grouping back
exactly when arrays of one name agree on it (`Grouping.Agree`).  Restoring from any list settles the
arrays by that list (`settled_restore`), and what is settled stays as it is (`restore_eq_self`).

So restoring a second time changes nothing, be it from the same list or from the groupings that were
collected after the first time; and nothing but groupings of arrays ever changes (`restore_exact`).
-/

import Mathlib.Data.List.Forall2
import MappingCanvas.Proofs.Schema.Traversal
import MappingCanvas.Schema.Grouping

namespace MappingCanvas
namespace Grouping

variable {gs : List Grouping} {fs : List Field}

/-- Arrays of one name have one grouping. -/
def Agree (fs : List Field) : Prop :=
  ∀ f ∈ fs, ∀ g ∈ fs, f.dataType = .array → g.dataType = .array → f.name = g.name →
    f.groupBy = g.groupBy

/-- An array has the grouping that a list gives to its name. -/
def Settled (gs : List Grouping) (f : Field) : Prop :=
  f.dataType = .array → groupBy? gs f.name = f.groupBy

/-- Where all arrays have the groupings of a list, those of one name have the same. -/
theorem agree_of_settled (h : ∀ f ∈ fs, Settled gs f) : Agree fs := by
  intro f hf g hg hfa hga hname
  rw [← h f hf hfa, ← h g hg hga, hname]

/-! ### Collecting -/

/-- The grouping of one field, if it is an array that has one. -/
def ofField? (f : Field) : Option Grouping :=
  if f.dataType = .array then f.groupBy.map fun g => ⟨f.name, none, some g⟩ else none

/-- The groupings of a forest are those of its fields in preorder. -/
theorem collect_eq (forest : List Field) :
    collect forest = (Field.preorderForest forest).filterMap ofField? := by
  rw [collect, Field.walk_eq_preorder]
  rfl

/-- Only an array with a grouping gives an entry, with its name and without a source. -/
theorem ofField?_eq_some_iff {f : Field} {g : Grouping} :
    ofField? f = some g ↔
      f.dataType = .array ∧ g.target = f.name ∧ g.source = none ∧ g.groupBy = f.groupBy ∧
        f.groupBy.isSome := by
  obtain ⟨target, source, groupBy⟩ := g
  unfold ofField?
  by_cases h : f.dataType = .array
  · cases hg : f.groupBy with
    | none => simp [h]
    | some b => simp [h, eq_comm]
  · simp [h]

/-- **Arrays that agree are settled by the groupings collected from them.** -/
theorem settled_of_agree (h : Agree fs) : ∀ f ∈ fs, Settled (fs.filterMap ofField?) f := by
  intro f hf ha
  unfold groupBy?
  cases hfind : (fs.filterMap ofField?).find? fun g => g.target == f.name with
  | none =>
    cases hg : f.groupBy with
    | none => rfl
    | some b =>
      have hmem : (⟨f.name, none, some b⟩ : Grouping) ∈ fs.filterMap ofField? :=
        List.mem_filterMap.2 ⟨f, hf, by simp [ofField?, ha, hg]⟩
      have := List.find?_eq_none.1 hfind _ hmem
      simp at this
  | some g =>
    obtain ⟨f', hf', hg⟩ := List.mem_filterMap.1 (List.mem_of_find?_eq_some hfind)
    obtain ⟨ha', htarget, -, hgroup, -⟩ := ofField?_eq_some_iff.1 hg
    have hname : g.target = f.name := by simpa using List.find?_some hfind
    exact hgroup.trans (h f' hf' f hf ha' ha (htarget.symm.trans hname))

/-! ### Restoring -/

mutual
/-- **A field in which everything is settled is restored to itself.** -/
theorem restoreField_eq_self : ∀ f : Field, (∀ g ∈ f.preorder, Settled gs g) →
    restoreField gs f = f
  | ⟨id, name, dataType, children, groupBy⟩, h => by
    obtain ⟨hself, hchildren⟩ := List.forall_mem_cons.1 h
    rw [restoreField, restoreChildren_eq_self children hchildren]
    by_cases ha : dataType = .array
    · rw [if_pos ha, hself ha]
    · rw [if_neg ha]

/-- Children in which everything is settled are restored to themselves. -/
theorem restoreChildren_eq_self : ∀ cs : Option (List Field),
    (∀ g ∈ Field.preorderChildren cs, Settled gs g) → restoreChildren gs cs = cs
  | none, _ => rfl
  | some fs, h => by rw [restoreChildren, restore_eq_self fs h]

/-- Fields that are settled stay as they are. -/
theorem restore_eq_self : ∀ fs : List Field,
    (∀ g ∈ Field.preorderForest fs, Settled gs g) → restore gs fs = fs
  | [], _ => rfl
  | f :: fs, h => by
    obtain ⟨hf, hfs⟩ := List.forall_mem_append.1 h
    rw [restore, restoreField_eq_self f hf, restore_eq_self fs hfs]
end

mutual
/-- To restore a field is to restore all fields in it where they stand. -/
theorem preorder_restoreField : ∀ f : Field,
    (restoreField gs f).preorder = f.preorder.map (restoreField gs)
  | ⟨id, name, dataType, children, groupBy⟩ => by
    rw [Field.preorder, List.map_cons, restoreField, Field.preorder,
      preorder_restoreChildren children]

/-- To restore children is to restore all fields in them where they stand. -/
theorem preorder_restoreChildren : ∀ cs : Option (List Field),
    Field.preorderChildren (restoreChildren gs cs) =
      (Field.preorderChildren cs).map (restoreField gs)
  | none => rfl
  | some fs => preorder_restore fs

/-- Restoring leaves the shape of a forest alone. -/
theorem preorder_restore : ∀ fs : List Field,
    Field.preorderForest (restore gs fs) = (Field.preorderForest fs).map (restoreField gs)
  | [] => rfl
  | f :: fs => by
    rw [restore, Field.preorderForest, Field.preorderForest, List.map_append,
      preorder_restoreField f, preorder_restore fs]
end

/-- **A restored field is settled.** -/
theorem settled_restoreField (f : Field) : Settled gs (restoreField gs f) := by
  obtain ⟨id, name, dataType, children, groupBy⟩ := f
  intro ha
  rw [restoreField] at ha ⊢
  exact (if_pos ha).symm

/-- **Restored fields are settled by the list that they were restored from.** -/
theorem settled_restore (fs : List Field) :
    ∀ f ∈ Field.preorderForest (restore gs fs), Settled gs f := by
  rw [preorder_restore]
  intro f hf
  obtain ⟨f', -, rfl⟩ := List.mem_map.1 hf
  exact settled_restoreField f'

/-- A forest comes back from its own groupings exactly if its arrays agree. -/
theorem restore_collect_eq_self_iff :
    restore (collect fs) fs = fs ↔ Agree (Field.preorderForest fs) := by
  constructor
  · intro h
    have hsettled : ∀ f ∈ Field.preorderForest (restore (collect fs) fs),
        Settled (collect fs) f := settled_restore fs
    rw [h] at hsettled
    exact agree_of_settled hsettled
  · intro h
    have hsettled := settled_of_agree h
    rw [← collect_eq] at hsettled
    exact restore_eq_self fs hsettled

/-! ### What stays -/

/-- Two fields that are the same, and the same inside, but for the groupings of arrays. -/
inductive Regrouped : Field → Field → Prop
  | intro {f g : Field} (hid : f.id = g.id) (hname : f.name = g.name)
      (htype : f.dataType = g.dataType)
      (hchildren : Option.Rel (List.Forall₂ Regrouped) f.children g.children)
      (hgroup : f.dataType ≠ .array → f.groupBy = g.groupBy) : Regrouped f g

mutual
/-- **Restoring changes groupings of arrays only.** -/
theorem regrouped_restoreField : ∀ f : Field, Regrouped f (restoreField gs f)
  | ⟨id, name, dataType, children, groupBy⟩ => by
    rw [restoreField]
    exact .intro rfl rfl rfl (regrouped_restoreChildren children) fun ha => (if_neg ha).symm

/-- Restoring changes groupings of arrays only, in children as well. -/
theorem regrouped_restoreChildren : ∀ cs : Option (List Field),
    Option.Rel (List.Forall₂ Regrouped) cs (restoreChildren gs cs)
  | none => .none
  | some fs => .some (regrouped_restore fs)

/-- Restoring changes no more than groupings of arrays. -/
theorem regrouped_restore : ∀ fs : List Field, List.Forall₂ Regrouped fs (restore gs fs)
  | [] => .nil
  | f :: fs => .cons (regrouped_restoreField f) (regrouped_restore fs)
end

/-- **What restoring does, and when it undoes collecting.**  A forest is restored from its own
groupings exactly if arrays of one name have one grouping, wherever in the forest they are.  From
any list, restoring changes no more than groupings of arrays; to restore once more, from the same
list or from the groupings that are there now, changes nothing. -/
theorem restore_exact :
    (∀ fs : List Field, restore (collect fs) fs = fs ↔ Agree (Field.preorderForest fs)) ∧
      ∀ (gs : List Grouping) (fs : List Field), List.Forall₂ Regrouped fs (restore gs fs) ∧
        restore gs (restore gs fs) = restore gs fs ∧
        restore (collect (restore gs fs)) (restore gs fs) = restore gs fs := by
  refine ⟨fun fs => restore_collect_eq_self_iff, fun gs fs => ?_⟩
  have hsettled : ∀ f ∈ Field.preorderForest (restore gs fs), Settled gs f := settled_restore fs
  refine ⟨regrouped_restore fs, restore_eq_self _ hsettled, ?_⟩
  exact restore_collect_eq_self_iff.2 (agree_of_settled hsettled)

end Grouping
end MappingCanvas
