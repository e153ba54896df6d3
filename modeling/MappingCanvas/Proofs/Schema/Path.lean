/-
# Ancestors of connected fields

In a forest whose ids are dot paths (`Field.DotPaths`) the id of a field begins with the ids of all
fields around it, each with a dot behind.  A connection may name a field with array indices in its
handle; the id of the field is then what stands outside the brackets, so each of those dots stands
outside brackets in the handle, and what is in front of it is the id once the indices are taken out
(`exists_split_of_outside`).

So the ancestors of a handle, which are made from the handle alone, hold the ids of all fields
around the field that the handle finds (`DotPaths.mem_ancestors`).  An id without characters is no
ancestor; only the root of a tree can have it.
-/

import Mathlib.Logic.Relation
import MappingCanvas.Proofs.Schema.Traversal

namespace MappingCanvas

namespace Path

/-! ### Outside brackets -/

/-- An opening bracket leads one level in. -/
theorem outside_opening (depth : Nat) (cs : List Char) :
    outside depth ('[' :: cs) = outside (depth + 1) cs := by
  simp [outside]

/-- A closing bracket leads one level out. -/
theorem outside_closing (depth : Nat) (cs : List Char) :
    outside (depth + 1) (']' :: cs) = outside depth cs := by
  simp [outside]

/-- Outside brackets a character is kept, and so is a closing bracket that closes none. -/
theorem outside_zero {c : Char} (hc : c ≠ '[') (cs : List Char) :
    outside 0 (c :: cs) = c :: outside 0 cs := by
  simp [outside, hc]

/-- Inside brackets a character is dropped. -/
theorem outside_succ {depth : Nat} {c : Char} (hopening : c ≠ '[') (hclosing : c ≠ ']')
    (cs : List Char) : outside (depth + 1) (c :: cs) = outside (depth + 1) cs := by
  simp [outside, hopening, hclosing]

/-- **A character that is left stood behind what leaves the characters in front of it.**  Where a
character is not left itself, the split is that of the rest with the character in front. -/
theorem exists_split_of_outside {depth : Nat} {cs before behind : List Char} {c : Char}
    (h : outside depth cs = before ++ c :: behind) :
    ∃ before' behind', cs = before' ++ c :: behind' ∧ outside depth before' = before := by
  induction cs generalizing depth before with
  | nil => simp [outside] at h
  | cons x xs ih =>
    have hskipped : ∀ {depth' : Nat}, (∀ ys, outside depth (x :: ys) = outside depth' ys) →
        ∃ before' behind', x :: xs = before' ++ c :: behind' ∧
          outside depth before' = before := by
      intro depth' hskip
      obtain ⟨front, back, rfl, hfront⟩ := ih ((hskip xs).symm.trans h)
      exact ⟨x :: front, back, rfl, (hskip front).trans hfront⟩
    by_cases hopening : x = '['
    · subst hopening
      exact hskipped (outside_opening depth)
    · cases depth with
      | succ depth =>
        by_cases hclosing : x = ']'
        · subst hclosing
          exact hskipped (outside_closing depth)
        · exact hskipped (outside_succ hopening hclosing)
      | zero =>
        rw [outside_zero hopening] at h
        cases before with
        | nil =>
          obtain ⟨rfl, -⟩ := List.cons.inj h
          exact ⟨[], xs, rfl, rfl⟩
        | cons b before =>
          obtain ⟨rfl, hxs⟩ := List.cons.inj h
          obtain ⟨front, back, rfl, hfront⟩ := ih hxs
          exact ⟨x :: front, back, rfl, by rw [outside_zero hopening, hfront]⟩

/-- Without an opening bracket everything is outside. -/
theorem outside_eq_self {cs : List Char} (h : '[' ∉ cs) : outside 0 cs = cs := by
  induction cs with
  | nil => rfl
  | cons c cs ih =>
    obtain ⟨hc, hcs⟩ := List.ne_and_not_mem_of_not_mem_cons h
    rw [outside_zero (Ne.symm hc), ih hcs]

/-- A path without opening brackets has no indices. -/
theorem stripIndices_eq_self {path : String} (h : '[' ∉ path.toList) :
    stripIndices path = path := by
  rw [stripIndices, outside_eq_self h, String.ofList_toList]

/-! ### In front of dots -/

/-- What stands before dots is every part of a path that a dot follows. -/
theorem mem_beforeDots {cs before : List Char} :
    before ∈ beforeDots cs ↔ ∃ behind, cs = before ++ '.' :: behind := by
  induction cs generalizing before with
  | nil => simp [beforeDots]
  | cons c cs ih =>
    rw [beforeDots]
    cases before with
    | nil => by_cases hdot : c = '.' <;> simp [hdot]
    | cons b before =>
      have hbehind : ∀ rest : List (List Char),
          b :: before ∈ (if c = '.' then [] :: rest else rest) ↔ b :: before ∈ rest := by
        intro rest
        split <;> simp
      have hrest : b :: before ∈ (beforeDots cs).map (c :: ·) ↔
          c = b ∧ before ∈ beforeDots cs := by
        simp only [List.mem_map, List.cons.injEq]
        exact ⟨fun ⟨front, hfront, hc, heq⟩ => ⟨hc, heq ▸ hfront⟩,
          fun ⟨hc, hfront⟩ => ⟨before, hfront, hc, rfl⟩⟩
      rw [hbehind, hrest, ih]
      simp only [List.cons_append, List.cons.injEq, exists_and_left]

/-- **The ids in front of the dots of a stripped handle are ancestors of the handle.** -/
theorem mem_ancestors_of_stripIndices {handle path rest : String}
    (h : stripIndices handle = path ++ "." ++ rest) (hne : path ≠ "") :
    path ∈ ancestors handle := by
  have hchars : outside 0 handle.toList = path.toList ++ '.' :: rest.toList := by
    have htoList := congrArg String.toList h
    simpa [stripIndices, String.toList_append] using htoList
  obtain ⟨before, behind, hsplit, hbefore⟩ := exists_split_of_outside hchars
  refine List.mem_filter.2 ⟨List.mem_map.2 ⟨before, mem_beforeDots.2 ⟨behind, hsplit⟩, ?_⟩, ?_⟩
  · rw [hbefore, String.ofList_toList]
  · simpa using hne

end Path

namespace Field

variable {forest : List Field} {f g a : Field}

/-! ### Fields inside fields -/

/-- One field lies inside another, at any depth. -/
def Inside (f a : Field) : Prop := Relation.TransGen (fun a f => f ∈ a.childList) a f

/-- Ids are dot paths: that of a root has no brackets, and that of a child is the id of its parent,
a dot, and a segment that is not empty and has neither dots nor brackets. -/
structure DotPaths (forest : List Field) : Prop where
  root : ∀ f ∈ forest, '[' ∉ f.id.toList ∧ ']' ∉ f.id.toList
  child : ∀ f ∈ preorderForest forest, ∀ g ∈ f.childList, ∃ segment : String, segment ≠ "" ∧
    (∀ c ∈ segment.toList, c ≠ '.' ∧ c ≠ '[' ∧ c ≠ ']') ∧ g.id = f.id ++ "." ++ segment

/-- The roots of a forest are fields of it. -/
theorem mem_preorderForest_of_mem (h : f ∈ forest) : f ∈ preorderForest forest := by
  obtain ⟨before, behind, rfl⟩ := List.append_of_mem h
  rw [preorderForest_append, preorderForest, preorder_eq]
  exact List.mem_append_right _ (List.mem_append_left _ List.mem_cons_self)

/-- **What is in a field of a forest is in the forest.** -/
theorem mem_preorderForest_of_childList (hf : f ∈ preorderForest forest) (hg : g ∈ f.childList) :
    g ∈ preorderForest forest := by
  rw [← walk_eq_preorder] at hf ⊢
  induction forest using walk.induct with
  | case1 => simp [walk] at hf
  | case2 root rest ih =>
    rw [walk, List.mem_cons] at hf ⊢
    rcases hf with rfl | hf
    · rw [walk_eq_preorder]
      exact .inr (mem_preorderForest_of_mem (List.mem_append_left _ hg))
    · exact .inr (ih hf)

/-- **What holds of the roots, and of the children of what it holds of, holds of all fields.** -/
theorem forall_mem_preorderForest {P : Field → Prop} (hroot : ∀ f ∈ forest, P f)
    (hchild : ∀ f ∈ preorderForest forest, P f → ∀ g ∈ f.childList, P g) :
    ∀ f ∈ preorderForest forest, P f := by
  rw [← walk_eq_preorder] at hchild ⊢
  induction forest using walk.induct with
  | case1 => simp [walk]
  | case2 root rest ih =>
    rw [walk, List.forall_mem_cons] at hchild ⊢
    obtain ⟨hfirst, hrest⟩ := List.forall_mem_cons.1 hroot
    refine ⟨hfirst, ih (fun f hf => ?_) hchild.2⟩
    rcases List.mem_append.1 hf with hf | hf
    · exact hchild.1 hfirst f hf
    · exact hrest f hf

/-! ### Ids of ancestors -/

/-- In a forest whose ids are paths, no id has brackets. -/
theorem DotPaths.bracket_notMem (h : DotPaths forest) : ∀ f ∈ preorderForest forest,
    '[' ∉ f.id.toList := by
  refine forall_mem_preorderForest (fun f hf => (h.root f hf).1) fun f hf hid g hg => ?_
  obtain ⟨segment, -, hsegment, heq⟩ := h.child f hf g hg
  rw [heq, String.toList_append, String.toList_append]
  simp only [List.mem_append, not_or]
  exact ⟨⟨hid, by decide⟩, fun hmem => (hsegment _ hmem).2.1 rfl⟩

/-- **The id of a field begins with the id of each field around it, and a dot.** -/
theorem DotPaths.exists_id_eq (h : DotPaths forest) (ha : a ∈ preorderForest forest)
    (hinside : Inside f a) :
    f ∈ preorderForest forest ∧ ∃ rest, f.id = a.id ++ "." ++ rest := by
  induction hinside with
  | single hchild =>
    obtain ⟨segment, -, -, heq⟩ := h.child a ha _ hchild
    exact ⟨mem_preorderForest_of_childList ha hchild, segment, heq⟩
  | tail _ hchild ih =>
    obtain ⟨hmem, rest, hid⟩ := ih
    obtain ⟨segment, -, -, heq⟩ := h.child _ hmem _ hchild
    refine ⟨mem_preorderForest_of_childList hmem hchild, rest ++ "." ++ segment, ?_⟩
    rw [heq, hid]
    simp only [String.append_assoc]

/-- What a handle finds has the handle for its id, or the handle without indices. -/
theorem id_of_find? {handle : String} (h : find? forest handle = some f) :
    f.id = handle ∨ f.id = Path.stripIndices handle := by
  have hid : ∀ {id : String} {f : Field}, findById? forest id = some f → f.id = id := fun h => by
    simpa using List.find?_some h
  simp only [find?] at h
  split at h
  · rename_i g hg
    obtain rfl := Option.some.inj h
    exact .inl (hid hg)
  · split at h
    · cases h
    · exact .inr (hid h)

/-- **The fields around a field that a handle finds are ancestors of the handle.** -/
theorem DotPaths.mem_ancestors (h : DotPaths forest) {handle : String}
    (hfind : find? forest handle = some f) (ha : a ∈ preorderForest forest)
    (hinside : Inside f a) (hne : a.id ≠ "") : a.id ∈ Path.ancestors handle := by
  obtain ⟨hf, rest, hrest⟩ := h.exists_id_eq ha hinside
  have hstrip : Path.stripIndices handle = f.id := by
    rcases id_of_find? hfind with hid | hid
    · rw [← hid]
      exact Path.stripIndices_eq_self (h.bracket_notMem f hf)
    · exact hid.symm
  exact Path.mem_ancestors_of_stripIndices (hstrip.trans hrest) hne

end Field
end MappingCanvas
