/-
# Fields by their handles

A handle finds the first field of a walk that has it for its id, and only if there is none the first
one whose id is the handle without its indices (`find?_eq_some_iff`).

Taking the indices out of a path leaves no opening bracket, so to do it again changes nothing, and
it changes nothing exactly where there was none (`stripIndices_eq_self_iff`).  What stands between
brackets is left out with them, wherever they are (`stripIndices_index`), so an index inside an
index goes with it; and an opening bracket that is never closed hides all that follows
(`stripIndices_unclosed`).
-/

import MappingCanvas.Proofs.Schema.Occurrence
import MappingCanvas.Proofs.Schema.Path

namespace MappingCanvas

namespace Path

variable {depth : Nat} {cs : List Char} {path : String}

/-! ### Without indices -/

/-- **No opening bracket is left**, at whatever depth the scan begins. -/
theorem opening_notMem_outside (depth : Nat) (cs : List Char) : '[' ∉ outside depth cs := by
  induction cs generalizing depth with
  | nil => simp [outside]
  | cons c cs ih =>
    by_cases hopening : c = '['
    · rw [hopening, outside_opening]
      exact ih _
    · cases depth with
      | zero =>
        rw [outside_zero hopening]
        exact List.not_mem_cons_of_ne_of_not_mem (Ne.symm hopening) (ih 0)
      | succ depth =>
        by_cases hclosing : c = ']'
        · rw [hclosing, outside_closing]
          exact ih depth
        · rw [outside_succ hopening hclosing]
          exact ih (depth + 1)

/-- A path without its indices has no opening bracket. -/
theorem opening_notMem_stripIndices (path : String) : '[' ∉ (stripIndices path).toList := by
  rw [stripIndices, String.toList_ofList]
  exact opening_notMem_outside 0 _

/-- **A path has no indices exactly when it has no opening bracket.** -/
theorem stripIndices_eq_self_iff : stripIndices path = path ↔ '[' ∉ path.toList := by
  refine ⟨fun heq => ?_, stripIndices_eq_self⟩
  rw [← heq]
  exact opening_notMem_stripIndices path

/-! ### Between brackets -/

/-- What is left behind some characters depends on the depth that they lead to. -/
theorem exists_depth_behind (depth : Nat) (front : List Char) :
    ∃ depth', ∀ cs, outside depth (front ++ cs) = outside depth front ++ outside depth' cs := by
  induction front generalizing depth with
  | nil => exact ⟨depth, fun cs => rfl⟩
  | cons c front ih =>
    by_cases hopening : c = '['
    · subst hopening
      obtain ⟨depth', h⟩ := ih (depth + 1)
      exact ⟨depth', fun cs => by
        rw [List.cons_append, outside_opening, outside_opening, h]⟩
    · cases depth with
      | zero =>
        obtain ⟨depth', h⟩ := ih 0
        exact ⟨depth', fun cs => by
          rw [List.cons_append, outside_zero hopening, outside_zero hopening, h, List.cons_append]⟩
      | succ depth =>
        by_cases hclosing : c = ']'
        · subst hclosing
          obtain ⟨depth', h⟩ := ih depth
          exact ⟨depth', fun cs => by
            rw [List.cons_append, outside_closing, outside_closing, h]⟩
        · obtain ⟨depth', h⟩ := ih (depth + 1)
          exact ⟨depth', fun cs => by
            rw [List.cons_append, outside_succ hopening hclosing,
              outside_succ hopening hclosing, h]⟩

/-- Inside brackets nothing is left up to the closing one. -/
theorem outside_append_closing (hopening : '[' ∉ cs) (hclosing : ']' ∉ cs) (rest : List Char) :
    outside (depth + 1) (cs ++ ']' :: rest) = outside depth rest := by
  induction cs with
  | nil => exact outside_closing depth rest
  | cons c cs ih =>
    obtain ⟨hc, hopening⟩ := List.ne_and_not_mem_of_not_mem_cons hopening
    obtain ⟨hc', hclosing⟩ := List.ne_and_not_mem_of_not_mem_cons hclosing
    rw [List.cons_append, outside_succ hc.symm hc'.symm, ih hopening hclosing]

/-- Brackets that are never closed have nothing outside. -/
theorem outside_succ_eq_nil (h : ']' ∉ cs) : outside (depth + 1) cs = [] := by
  induction cs generalizing depth with
  | nil => rfl
  | cons c cs ih =>
    obtain ⟨hc, hcs⟩ := List.ne_and_not_mem_of_not_mem_cons h
    by_cases hopening : c = '['
    · rw [hopening, outside_opening, ih hcs]
    · rw [outside_succ hopening hc.symm, ih hcs]

/-- **An index is left out with its brackets, wherever it stands.** -/
theorem stripIndices_index (front index back : String) (hopening : '[' ∉ index.toList)
    (hclosing : ']' ∉ index.toList) :
    stripIndices (front ++ "[" ++ index ++ "]" ++ back) = stripIndices (front ++ back) := by
  obtain ⟨depth, hfront⟩ := exists_depth_behind 0 front.toList
  have hchars : (front ++ "[" ++ index ++ "]" ++ back).toList =
      front.toList ++ '[' :: (index.toList ++ ']' :: back.toList) := by
    simp [String.toList_append]
  rw [stripIndices, stripIndices, hchars, String.toList_append, hfront, hfront, outside_opening,
    outside_append_closing hopening hclosing]

/-- **Behind an opening bracket that is never closed nothing is left.** -/
theorem stripIndices_unclosed (front back : String) (hclosing : ']' ∉ back.toList) :
    stripIndices (front ++ "[" ++ back) = stripIndices front := by
  obtain ⟨depth, hfront⟩ := exists_depth_behind 0 front.toList
  have hchars : (front ++ "[" ++ back).toList = front.toList ++ '[' :: back.toList := by
    simp [String.toList_append]
  rw [stripIndices, stripIndices, hchars, hfront, outside_opening, outside_succ_eq_nil hclosing,
    List.append_nil]

end Path

namespace Field

variable {forest : List Field} {f : Field} {id handle : String}

/-! ### The field of a handle -/

/-- The first of some fields that has the id. -/
def FirstWithId (fs : List Field) (id : String) (f : Field) : Prop :=
  ∃ before behind, fs = before ++ f :: behind ∧ f.id = id ∧ ∀ g ∈ before, g.id ≠ id

/-- A search by id finds the first field of a walk with this id. -/
theorem findById?_eq_some_iff :
    findById? forest id = some f ↔ FirstWithId (walk forest) id f := by
  simp only [findById?, List.find?_eq_some_iff_append, FirstWithId, beq_iff_eq, Bool.not_eq_true',
    beq_eq_false_iff_ne, exists_and_right]
  constructor
  · rintro ⟨hid, before, ⟨behind, hsplit⟩, hbefore⟩
    exact ⟨before, ⟨behind, hsplit⟩, hid, hbefore⟩
  · rintro ⟨before, ⟨behind, hsplit⟩, hid, hbefore⟩
    exact ⟨hid, before, ⟨behind, hsplit⟩, hbefore⟩

/-- A search by id fails when no field of the walk has it. -/
theorem findById?_eq_none_iff : findById? forest id = none ↔ ∀ f ∈ walk forest, f.id ≠ id := by
  simp [findById?]

/-- **A handle finds the first field with this id, and only if there is none the first one whose id
is the handle without indices.** -/
theorem find?_eq_some_iff : find? forest handle = some f ↔
    FirstWithId (walk forest) handle f ∨ (∀ g ∈ walk forest, g.id ≠ handle) ∧
      FirstWithId (walk forest) (Path.stripIndices handle) f := by
  rw [find?, ← findById?_eq_some_iff, ← findById?_eq_some_iff, ← findById?_eq_none_iff]
  cases hexact : findById? forest handle with
  | some g => simp
  | none =>
    by_cases hstripped : Path.stripIndices handle = handle
    · simp [hstripped, hexact]
    · simp [hstripped]

/-- **Walks and handles.**  A walk is the preorder of the forest: step by step its stack gives the
fields in this order and is then empty, and what it meets are the occurrences of fields, each once
and by ascending positions.  A handle finds the first field with this id, and only if there is none
the first one whose id is the handle without indices.  Without indices a path has no opening bracket
and is the same if it had none before; a pair of brackets is left out with what it holds, and a
bracket that is never closed with all that follows. -/
theorem walk_find?_exact :
    (∀ forest : List Field, walk forest = preorderForest forest ∧
      (∀ n, (unstack^[n] forest).head? = (preorderForest forest)[n]?) ∧
      (∀ n, unstack^[n] forest = [] ↔ weightForest forest ≤ n) ∧
      (occurrences 0 forest).map Prod.snd = walk forest ∧
      (∀ p f, (p, f) ∈ occurrences 0 forest ↔ at? forest p = some f) ∧
      (occurrences 0 forest).Pairwise fun o o' => o.1 < o'.1) ∧
    (∀ (forest : List Field) (handle : String) (f : Field), find? forest handle = some f ↔
      FirstWithId (preorderForest forest) handle f ∨
        (∀ g ∈ preorderForest forest, g.id ≠ handle) ∧
          FirstWithId (preorderForest forest) (Path.stripIndices handle) f) ∧
    (∀ path, Path.stripIndices (Path.stripIndices path) = Path.stripIndices path ∧
      '[' ∉ (Path.stripIndices path).toList ∧
      (Path.stripIndices path = path ↔ '[' ∉ path.toList)) ∧
    (∀ front index back : String, '[' ∉ index.toList → ']' ∉ index.toList →
      Path.stripIndices (front ++ "[" ++ index ++ "]" ++ back) =
        Path.stripIndices (front ++ back)) ∧
    ∀ front back : String, ']' ∉ back.toList →
      Path.stripIndices (front ++ "[" ++ back) = Path.stripIndices front := by
  refine ⟨fun forest => ?_, fun forest handle f => ?_, fun path => ?_, Path.stripIndices_index,
    Path.stripIndices_unclosed⟩
  · refine ⟨walk_eq_preorder forest, fun n => ?_, fun n => iterate_unstack_eq_nil_iff,
      map_snd_occurrences 0 forest, fun p f => mem_occurrences, pairwise_occurrences 0 forest⟩
    rw [← walk_eq_preorder]
    exact head?_iterate_unstack forest n
  · rw [← walk_eq_preorder]
    exact find?_eq_some_iff
  · have hopening := Path.opening_notMem_stripIndices path
    exact ⟨Path.stripIndices_eq_self hopening, hopening, Path.stripIndices_eq_self_iff⟩

/-- An index inside an index goes with it, and an open bracket behind them hides the rest. -/
theorem walk_find?_exact_nested :
    ('[' ∉ "k".toList ∧ ']' ∉ "k".toList ∧
      Path.stripIndices ("a[b" ++ "[" ++ "k" ++ "]" ++ "].c[0") = Path.stripIndices "a[b].c[0") ∧
      ']' ∉ "0".toList ∧ Path.stripIndices ("a[b].c" ++ "[" ++ "0") = "a.c" := by
  obtain ⟨-, -, -, hindex, hunclosed⟩ := walk_find?_exact
  have hopening : '[' ∉ "k".toList := by decide
  have hclosing : ']' ∉ "k".toList := by decide
  have hback : ']' ∉ "0".toList := by decide
  refine ⟨⟨hopening, hclosing, ?_⟩, hback, (hunclosed "a[b].c" "0" hback).trans (by decide +kernel)⟩
  exact hindex "a[b" "k" "].c[0" hopening hclosing

end Field
end MappingCanvas
