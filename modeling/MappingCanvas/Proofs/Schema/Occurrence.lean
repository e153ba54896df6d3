/-
# Where fields occur

A field occurs at a position: the number of a tree, then for each field on the way down the number
of a child (`at?`).  In the order of positions an ancestor stands before what is in it, and what is
in a field stands before the next sibling; this is the order of a walk.  A walk meets every
occurrence once and nothing else (`map_snd_occurrences`, `mem_occurrences`,
`pairwise_occurrences`), even where equal fields occur in several places.

A walk is also what one gets step by step from a stack of which the top is taken off and its
children are put on (`head?_iterate_unstack`).
-/

import Mathlib.Logic.Function.Iterate
import MappingCanvas.Proofs.Schema.Traversal

namespace MappingCanvas
namespace Field

variable {fs : List Field} {f : Field} {p : List Nat}

/-! ### Positions -/

/-- The field at a position of a forest. -/
def at? : List Field → List Nat → Option Field
  | _, [] => none
  | fs, [i] => fs[i]?
  | fs, i :: j :: p => fs[i]?.bind fun f => at? f.childList (j :: p)

theorem at?_nil (p : List Nat) : at? [] p = none := by
  match p with
  | [] | [_] | _ :: _ :: _ => rfl

/-- Behind a zero the position goes on in the children of the first tree. -/
theorem at?_zero (hp : p ≠ []) : at? (f :: fs) (0 :: p) = at? f.childList p := by
  cases p with
  | nil => exact absurd rfl hp
  | cons j p => rfl

/-- A position in a later tree is one in the other trees. -/
theorem at?_succ (f : Field) (fs : List Field) (i : Nat) (p : List Nat) :
    at? (f :: fs) ((i + 1) :: p) = at? fs (i :: p) := by
  cases p with
  | nil => rfl
  | cons j p => rfl

/-- The fields of a forest with their positions, where the trees are counted from `place` on. -/
def occurrences (place : Nat) : List Field → List (List Nat × Field)
  | [] => []
  | f :: fs =>
    (([place], f) :: (occurrences 0 f.childList).map fun o => (place :: o.1, o.2)) ++
      occurrences (place + 1) fs
termination_by fs => weightForest fs
decreasing_by
  all_goals
    rw [weightForest, weight_eq]
    omega

/-- The first tree is met in front of the others, and in it the field in front of its children. -/
theorem occurrences_cons (place : Nat) (f : Field) (fs : List Field) :
    occurrences place (f :: fs) =
      (([place], f) :: (occurrences 0 f.childList).map fun o => (place :: o.1, o.2)) ++
        occurrences (place + 1) fs := by
  rw [occurrences]

/-- **The fields that occur are those of a walk, in its order.** -/
theorem map_snd_occurrences (place : Nat) (fs : List Field) :
    (occurrences place fs).map Prod.snd = walk fs := by
  rw [walk_eq_preorder]
  induction fs using forest_induction generalizing place with
  | nil => rw [occurrences, preorderForest, List.map_nil]
  | cons f fs ihchildren ih =>
    rw [occurrences_cons, List.map_append, List.map_cons, List.map_map, ih, preorderForest,
      preorder_eq, ← ihchildren 0]
    rfl

/-- A field occurs at a position when the forest has it there, whatever number the trees begin
with. -/
theorem mem_occurrences_iff {place : Nat} :
    (p, f) ∈ occurrences place fs ↔
      ∃ i q, p = (place + i) :: q ∧ at? fs (i :: q) = some f := by
  induction fs using forest_induction generalizing place p f with
  | nil => simp [occurrences, at?_nil]
  | cons g fs ihchildren ih =>
    rw [occurrences_cons, List.mem_append, List.mem_cons, List.mem_map, ih]
    constructor
    · rintro ((heq | ⟨⟨q, f'⟩, hq, heq⟩) | ⟨i, q, rfl, hat⟩)
      · obtain ⟨rfl, rfl⟩ := Prod.mk.inj heq
        exact ⟨0, [], rfl, rfl⟩
      · obtain ⟨rfl, rfl⟩ := Prod.mk.inj heq
        obtain ⟨i, q, rfl, hat⟩ := ihchildren.1 hq
        refine ⟨0, (0 + i) :: q, rfl, ?_⟩
        rw [at?_zero (List.cons_ne_nil _ _), Nat.zero_add]
        exact hat
      · exact ⟨i + 1, q, by rw [Nat.add_assoc, Nat.add_comm 1], (at?_succ g fs i q).trans hat⟩
    · rintro ⟨i, q, rfl, hat⟩
      cases i with
      | succ i =>
        exact .inr ⟨i, q, by rw [Nat.add_assoc, Nat.add_comm 1], (at?_succ g fs i q).symm.trans hat⟩
      | zero =>
        refine .inl ?_
        cases q with
        | nil =>
          obtain rfl := Option.some.inj hat
          exact .inl rfl
        | cons j q => exact .inr ⟨(j :: q, f), ihchildren.2 ⟨j, q, by rw [Nat.zero_add], hat⟩, rfl⟩

/-- **The occurrences are the positions that hold a field, each with its field.** -/
theorem mem_occurrences : (p, f) ∈ occurrences 0 fs ↔ at? fs p = some f := by
  rw [mem_occurrences_iff]
  constructor
  · rintro ⟨i, q, rfl, hat⟩
    rwa [Nat.zero_add]
  · intro hat
    cases p with
    | nil => cases hat
    | cons i q => exact ⟨i, q, by rw [Nat.zero_add], hat⟩

/-- **The positions ascend**, so no occurrence is met twice. -/
theorem pairwise_occurrences (place : Nat) (fs : List Field) :
    (occurrences place fs).Pairwise fun o o' => o.1 < o'.1 := by
  induction fs using forest_induction generalizing place with
  | nil => rw [occurrences]; exact .nil
  | cons f fs ihchildren ih =>
    rw [occurrences_cons]
    refine List.pairwise_append.2 ⟨List.pairwise_cons.2 ⟨fun o ho => ?_, ?_⟩, ih (place + 1), ?_⟩
    · -- A field comes before what is in it: its position is a part of the others.
      obtain ⟨o', ho', rfl⟩ := List.mem_map.1 ho
      obtain ⟨i, q, hq, -⟩ := mem_occurrences_iff.1 ho'
      rw [hq]
      exact List.cons_lt_cons_iff.2 (.inr ⟨rfl, List.nil_lt_cons _ _⟩)
    · exact List.pairwise_map.2 ((ihchildren 0).imp fun hlt =>
        List.cons_lt_cons_iff.2 (.inr ⟨rfl, hlt⟩))
    · -- What is in one tree comes before the next one: the first numbers differ.
      intro o ho o' ho'
      obtain ⟨i, q, hq, -⟩ := mem_occurrences_iff.1 ho'
      obtain ⟨q', hq'⟩ : ∃ q', o.1 = place :: q' := by
        rcases List.mem_cons.1 ho with rfl | ho
        · exact ⟨[], rfl⟩
        · obtain ⟨o'', -, rfl⟩ := List.mem_map.1 ho
          exact ⟨o''.1, rfl⟩
      rw [hq, hq']
      exact List.cons_lt_cons_iff.2 (.inl (by omega))

/-! ### Step by step -/

/-- The stack after one step: the children of the top field are put on in its place. -/
def unstack : List Field → List Field
  | [] => []
  | f :: rest => f.childList ++ rest

/-- **The field on top after some steps is the next one of the walk**, and none after the last. -/
theorem head?_iterate_unstack (stack : List Field) (n : Nat) :
    (unstack^[n] stack).head? = (walk stack)[n]? := by
  induction stack using walk.induct generalizing n with
  | case1 =>
    rw [walk, List.getElem?_nil, Function.iterate_fixed rfl]
    rfl
  | case2 f rest ih =>
    cases n with
    | zero => rw [walk]; rfl
    | succ n => rw [walk, Function.iterate_succ_apply, unstack, ih, List.getElem?_cons_succ]

/-- **A walk takes as many steps as there are fields.** -/
theorem length_walk (stack : List Field) : (walk stack).length = weightForest stack := by
  induction stack using walk.induct with
  | case1 => rw [walk, weightForest]; rfl
  | case2 f rest ih =>
    rw [walk, List.length_cons, ih, weightForest_append, weightForest, weight_eq]
    omega

/-- **The stack is empty after as many steps as there are fields, and not before.** -/
theorem iterate_unstack_eq_nil_iff {stack : List Field} {n : Nat} :
    unstack^[n] stack = [] ↔ weightForest stack ≤ n := by
  rw [← List.head?_eq_none_iff, head?_iterate_unstack, List.getElem?_eq_none_iff, length_walk]

end Field
end MappingCanvas
