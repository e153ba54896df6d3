/-
# The first of each key

A list that is built by adding elements, where an element whose key is taken is left out, holds the
first element of each key (`firsts`).  A search by key finds in it what it finds among all elements
that were added (`find?_firsts`), so an element is held exactly when it is the first of its key
(`mem_firsts`).
-/

import MappingCanvas.Proofs.Lists

namespace MappingCanvas

variable {α β : Type} [BEq β]

/-- Adds an element behind a list, unless its key is taken. -/
def addFirst (key : α → β) (xs : List α) (x : α) : List α :=
  if xs.any fun y => key y == key x then xs else xs ++ [x]

/-- The first element of each key, in the order of the list. -/
def firsts (key : α → β) (xs : List α) : List α := xs.foldl (addFirst key) []

variable {key : α → β} {xs ys : List α} {x : α}

/-- One element more at the end is added unless its key has occurred. -/
theorem firsts_concat (key : α → β) (xs : List α) (x : α) :
    firsts key (xs ++ [x]) = addFirst key (firsts key xs) x := by
  rw [firsts, List.foldl_append]
  rfl

/-- What is kept stands in its old order. -/
theorem firsts_sublist (key : α → β) (xs : List α) : (firsts key xs).Sublist xs := by
  induction xs using List.reverseRecOn with
  | nil => exact .slnil
  | append_singleton xs x ih =>
    rw [firsts_concat, addFirst]
    split
    · exact ih.trans (List.sublist_append_left xs [x])
    · exact ih.append (.refl [x])

/-- Nothing is kept that was not there. -/
theorem mem_of_mem_firsts (h : x ∈ firsts key xs) : x ∈ xs := (firsts_sublist key xs).subset h

variable [LawfulBEq β]

/-- **A search by key finds the same among all elements**: an element whose key was taken is found
by no search, which ends before. -/
theorem find?_firsts (key : α → β) (xs : List α) (k : β) :
    (firsts key xs).find? (fun y => key y == k) = xs.find? fun y => key y == k := by
  induction xs using List.reverseRecOn with
  | nil => rfl
  | append_singleton xs x ih =>
    rw [firsts_concat, addFirst, List.find?_append]
    split
    · rename_i htaken
      rw [ih]
      cases hx : key x == k with
      | false => rw [List.find?_cons_of_neg (by simp [hx]), List.find?_nil, Option.or_none]
      | true =>
        obtain rfl := beq_iff_eq.1 hx
        obtain ⟨y, hy⟩ := Option.isSome_iff_exists.1
          (List.find?_isSome.2 (List.any_eq_true.1 htaken))
        rw [← ih, hy, Option.some_or]
    · rw [List.find?_append, ih]

/-- **Keys do not repeat.** -/
theorem nodup_firsts (key : α → β) (xs : List α) : ((firsts key xs).map key).Nodup := by
  induction xs using List.reverseRecOn with
  | nil => exact .nil
  | append_singleton xs x ih =>
    rw [firsts_concat, addFirst]
    split
    · exact ih
    · rename_i hfree
      rw [List.map_append]
      refine List.concat_eq_append ▸ ih.concat fun hx => hfree ?_
      obtain ⟨y, hy, hkey⟩ := List.mem_map.1 hx
      exact List.any_eq_true.2 ⟨y, hy, beq_iff_eq.2 hkey⟩

/-- **The elements that are the first of their key.** -/
theorem mem_firsts : x ∈ firsts key xs ↔ xs.find? (fun y => key y == key x) = some x := by
  rw [← find?_firsts]
  exact ⟨fun h => find?_key (nodup_firsts key xs) h, List.mem_of_find?_eq_some⟩

/-- Of each element there is one with its key. -/
theorem exists_mem_firsts (key : α → β) (h : x ∈ xs) :
    ∃ y ∈ firsts key xs, key y = key x ∧ xs.find? (fun z => key z == key x) = some y := by
  have hsome : (xs.find? fun z => key z == key x).isSome :=
    List.find?_isSome.2 ⟨x, h, beq_self_eq_true (key x)⟩
  obtain ⟨y, hy⟩ := Option.isSome_iff_exists.1 hsome
  have hkey : key y = key x := by simpa using List.find?_some hy
  exact ⟨y, mem_firsts.2 (by rwa [hkey]), hkey, hy⟩

/-- Where elements of one key are equal, every element is held. -/
theorem mem_firsts_of_forall (h : x ∈ xs) (hx : ∀ y ∈ xs, key y = key x → y = x) :
    x ∈ firsts key xs := by
  obtain ⟨y, hy, hkey, -⟩ := exists_mem_firsts key h
  exact hx y (mem_of_mem_firsts hy) hkey ▸ hy

/-- The keys are those of all elements. -/
theorem mem_map_firsts {k : β} : k ∈ (firsts key xs).map key ↔ k ∈ xs.map key := by
  refine ⟨fun h => ((firsts_sublist key xs).map key).subset h, fun h => ?_⟩
  obtain ⟨x, hx, rfl⟩ := List.mem_map.1 h
  obtain ⟨y, hy, hkey, -⟩ := exists_mem_firsts key hx
  exact hkey ▸ List.mem_map_of_mem hy

/-- **The order of the elements decides which of a key is held, but not which keys are.** -/
theorem perm_map_firsts (h : xs.Perm ys) :
    ((firsts key xs).map key).Perm ((firsts key ys).map key) := by
  refine (List.perm_ext_iff_of_nodup (nodup_firsts key xs) (nodup_firsts key ys)).2 fun k => ?_
  rw [mem_map_firsts, mem_map_firsts, (h.map key).mem_iff]

/-- Where keys do not repeat, everything is kept. -/
theorem firsts_of_nodup (h : (xs.map key).Nodup) : firsts key xs = xs := by
  induction xs using List.reverseRecOn with
  | nil => rfl
  | append_singleton xs x ih =>
    rw [List.map_append, List.nodup_append] at h
    obtain ⟨hxs, -, hx⟩ := h
    have hfree : ¬(xs.any fun y => key y == key x) = true := by
      simpa [List.any_eq_true] using hx
    rw [firsts_concat, ih hxs, addFirst, if_neg hfree]

/-- What is a matter of the key is kept of the first of each key or not at all. -/
theorem filter_firsts {p : α → Bool} (h : ∀ x ∈ xs, ∀ y ∈ xs, key x = key y → p x = p y) :
    (firsts key xs).filter p = firsts key (xs.filter p) := by
  induction xs using List.reverseRecOn with
  | nil => rfl
  | append_singleton xs x ih =>
    have hxs : ∀ y ∈ xs, ∀ z ∈ xs, key y = key z → p y = p z := fun y hy z hz =>
      h y (List.mem_append_left _ hy) z (List.mem_append_left _ hz)
    rw [firsts_concat, List.filter_append, addFirst, apply_ite (List.filter p), List.filter_append,
      ih hxs]
    cases hp : p x with
    | false => simp [hp]
    | true =>
      have htaken : ((firsts key xs).any fun y => key y == key x) =
          (firsts key (xs.filter p)).any fun y => key y == key x := by
        rw [← ih hxs, Bool.eq_iff_iff]
        simp only [List.any_eq_true, beq_iff_eq, List.mem_filter]
        refine ⟨fun ⟨y, hy, hkey⟩ => ⟨y, ⟨hy, ?_⟩, hkey⟩, fun ⟨y, hy, hkey⟩ => ⟨y, hy.1, hkey⟩⟩
        have hmem := List.mem_append_left [x] (mem_of_mem_firsts hy)
        exact (h y hmem x (by simp) hkey).trans hp
      rw [List.filter_cons_of_pos hp, List.filter_nil, firsts_concat, addFirst, htaken]

end MappingCanvas
