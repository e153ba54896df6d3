/-
# Lists of answers

What an export returns is a list of answers to the elements of another list, or to pairs of elements
of two.  This file compares such lists: fewer answers to the same elements, answers in another
order, one answer to each key, the first answer that counts, and answers that depend only on what
two lists have in common.
-/

import Mathlib.Data.List.Basic
import Mathlib.Data.List.Induction
import Mathlib.Data.Multiset.Bind

namespace MappingCanvas

/-! ### Fewer answers -/

section

variable {α β : Type} {f g : α → Option β} {xs : List α}

/-- Where fewer elements are answered, and those alike, there are fewer answers. -/
theorem filterMap_sublist_filterMap (h : ∀ x ∈ xs, f x = none ∨ f x = g x) :
    (xs.filterMap f).Sublist (xs.filterMap g) := by
  induction xs with
  | nil => exact List.Sublist.refl _
  | cons x xs ih =>
    obtain ⟨hx, hxs⟩ := List.forall_mem_cons.1 h
    rcases hx with hx | hx
    · rw [List.filterMap_cons_none hx]
      exact (ih hxs).trans (List.Sublist.filterMap g (List.sublist_cons_self x xs))
    · rw [List.filterMap_cons, List.filterMap_cons, hx]
      cases g x with
      | none => exact ih hxs
      | some y => exact (ih hxs).cons_cons y

end

/-! ### Answers in another order -/

section

variable {α β γ : Type}

/-- Pairs may be gone through by either side first, up to order. -/
theorem flatMap_swap_perm (xs : List α) (ys : List β) (f : α → β → List γ) :
    (xs.flatMap fun x => ys.flatMap (f x)).Perm (ys.flatMap fun y => xs.flatMap (f · y)) := by
  rw [← Multiset.coe_eq_coe, ← Multiset.coe_bind, ← Multiset.coe_bind]
  simp only [← Multiset.coe_bind]
  exact Multiset.bind_bind _ _

/-- To choose and then to change is to change or drop each element in its place. -/
theorem map_filter_eq_flatMap (xs : List α) (p : α → Bool) (f : α → β) :
    (xs.filter p).map f = xs.flatMap fun x => if p x then [f x] else [] := by
  induction xs with
  | nil => rfl
  | cons x xs ih => by_cases h : p x = true <;> simp [h, ih]

/-- Where keys are distinct, an element is the first of its key. -/
theorem find?_key [BEq β] [LawfulBEq β] {xs : List α} {key : α → β} (hxs : (xs.map key).Nodup)
    {x : α} (hx : x ∈ xs) : xs.find? (fun y => key y == key x) = some x := by
  cases h : xs.find? fun y => key y == key x with
  | none => exact absurd (beq_self_eq_true (key x)) (List.find?_eq_none.1 h x hx)
  | some y =>
    have hkey : key y = key x := by simpa using List.find?_some h
    rw [List.inj_on_of_nodup_map hxs (List.mem_of_find?_eq_some h) hx hkey]

/-- What only elements of one key satisfy, at most one element satisfies. -/
theorem filter_eq_toList_find? {xs : List α} {key : α → β} {p : α → Bool}
    (hxs : (xs.map key).Nodup) (hp : ∀ x y, p x = true → p y = true → key x = key y) :
    xs.filter p = (xs.find? p).toList := by
  induction xs with
  | nil => rfl
  | cons x xs ih =>
    obtain ⟨hx, hxs⟩ := List.nodup_cons.1 hxs
    cases hpx : p x with
    | false => rw [List.filter_cons_of_neg (by simp [hpx]), ih hxs, List.find?_cons, hpx]
    | true =>
      have hnone : xs.filter p = [] := List.filter_eq_nil_iff.2 fun y hy hpy =>
        hx (List.mem_map.2 ⟨y, hy, hp y x hpy hpx⟩)
      rw [List.filter_cons_of_pos hpx, hnone, List.find?_cons, hpx]
      rfl

/-- Where keys are distinct, at most one element satisfies `p` when those that do have one key. -/
theorem countP_le_one_iff {xs : List α} {key : α → β} {p : α → Bool} (hxs : (xs.map key).Nodup) :
    xs.countP p ≤ 1 ↔ ∀ x ∈ xs, ∀ y ∈ xs, p x = true → p y = true → key x = key y := by
  have hmem {x} : x ∈ xs.filter p ↔ x ∈ xs ∧ p x = true := List.mem_filter
  have hdistinct : ((xs.filter p).map key).Nodup := hxs.sublist (List.filter_sublist.map _)
  rw [List.countP_eq_length_filter]
  cases hfilter : xs.filter p with
  | nil =>
    rw [hfilter] at hmem
    exact ⟨fun _ x hx _ _ hpx => absurd (hmem.2 ⟨hx, hpx⟩) List.not_mem_nil, fun _ => Nat.zero_le 1⟩
  | cons a as =>
    rw [hfilter] at hmem hdistinct
    cases as with
    | nil =>
      simp only [List.mem_singleton] at hmem
      refine ⟨fun _ x hx y hy hpx hpy => ?_, fun _ => Nat.le_refl 1⟩
      rw [hmem.2 ⟨hx, hpx⟩, hmem.2 ⟨hy, hpy⟩]
    | cons b bs =>
      refine ⟨fun hlength => absurd hlength (by simp), fun h => ?_⟩
      obtain ⟨ha, hpa⟩ := hmem.1 List.mem_cons_self
      obtain ⟨hb, hpb⟩ := hmem.1 (List.mem_cons_of_mem a List.mem_cons_self)
      simp [h a ha b hb hpa hpb] at hdistinct

/-- Where answers are distinct, elements with one answer are equal. -/
theorem eq_of_nodup_filterMap {xs : List α} {f : α → Option β} (hxs : (xs.filterMap f).Nodup)
    {x y : α} (hx : x ∈ xs) (hy : y ∈ xs) {b : β} (hfx : f x = some b) (hfy : f y = some b) :
    x = y := by
  induction xs with
  | nil => cases hx
  | cons z zs ih =>
    have hrest : (zs.filterMap f).Nodup :=
      hxs.sublist (List.Sublist.filterMap f (List.sublist_cons_self z zs))
    have hfresh : ∀ w ∈ zs, f z = some b → f w ≠ some b := fun w hw hz hfw => by
      rw [List.filterMap_cons_some hz] at hxs
      exact (List.nodup_cons.1 hxs).1 (List.mem_filterMap.2 ⟨w, hw, hfw⟩)
    rcases List.mem_cons.1 hx with rfl | hxz <;> rcases List.mem_cons.1 hy with rfl | hyz
    · rfl
    · exact absurd hfy (hfresh y hyz hfx)
    · exact absurd hfx (hfresh x hxz hfy)
    · exact ih hrest hxz hyz

/-- A list of distinct elements of which only one is a member. -/
theorem eq_singleton_of_nodup {xs : List α} (hxs : xs.Nodup) {x : α} (h : ∀ y, y ∈ xs ↔ y = x) :
    xs = [x] :=
  List.perm_singleton.1 ((List.perm_ext_iff_of_nodup hxs (List.nodup_singleton x)).2 fun y =>
    (h y).trans List.mem_singleton.symm)

end

/-! ### One answer to each key -/

section

variable {α β : Type}

/-- The last element stays if it has not occurred before. -/
theorem eraseDups_concat [BEq α] [LawfulBEq α] (xs : List α) (x : α) :
    (xs ++ [x]).eraseDups = if x ∈ xs then xs.eraseDups else xs.eraseDups ++ [x] := by
  rw [List.eraseDups_append]
  by_cases hx : x ∈ xs <;> simp [List.removeAll, hx, List.eraseDups_cons]

/-- Without repetitions nothing occurs twice. -/
theorem nodup_eraseDups [BEq α] [LawfulBEq α] (xs : List α) :
    xs.eraseDups.Nodup := by
  induction xs using List.reverseRecOn with
  | nil => exact .nil
  | append_singleton xs x ih =>
    rw [eraseDups_concat]
    split
    · exact ih
    · rename_i hnew
      exact List.concat_eq_append ▸ ih.concat fun hx => hnew (List.mem_eraseDups.1 hx)

/-- Where each key has an answer with that key, the answers have the keys in their order. -/
theorem map_filterMap_key {ks : List β} {f : β → Option α} {key : α → β}
    (h : ∀ k ∈ ks, ∃ x, f k = some x ∧ key x = k) : (ks.filterMap f).map key = ks := by
  rw [List.map_filterMap]
  refine (List.filterMap_congr fun k hk => ?_).trans List.filterMap_some
  obtain ⟨x, hx, hkey⟩ := h k hk
  rw [hx, Option.map_some, hkey]

end

/-! ### The first answer that counts -/

section

variable {α β : Type}

/-- Where two searches differ in one place only, and agree whether what stands there counts, they
find the same or else what stands there. -/
theorem find?_filterMap_cases {f f' : α → Option β} {p : β → Bool} {a : α} {b b' : β}
    {xs : List α} (hb : f a = some b) (hb' : f' a = some b') (hp : p b = p b')
    (hother : ∀ x ∈ xs, x = a ∨ f x = f' x) :
    (xs.filterMap f).find? p = (xs.filterMap f').find? p ∨
      ((xs.filterMap f).find? p = some b ∧ (xs.filterMap f').find? p = some b') := by
  induction xs with
  | nil => exact .inl rfl
  | cons x xs ih =>
    obtain ⟨hx, hxs⟩ := List.forall_mem_cons.1 hother
    rcases hx with rfl | hx
    · rw [List.filterMap_cons_some hb, List.filterMap_cons_some hb', List.find?_cons,
        List.find?_cons, ← hp]
      cases p b with
      | true => exact .inr ⟨rfl, rfl⟩
      | false => exact ih hxs
    · rw [List.filterMap_cons, List.filterMap_cons, hx]
      cases f' x with
      | none => exact ih hxs
      | some c =>
        rw [List.find?_cons, List.find?_cons]
        cases p c with
        | true => exact .inl rfl
        | false => exact ih hxs

end

/-! ### Answers to what two lists have in common -/

section

variable {α β γ δ : Type}

/-- Where elements of two lists correspond, so do answers that depend only on what corresponds. -/
theorem map_eq_map_of_map_eq {xs : List α} {ys : List β} {f : α → γ} {g : β → γ} {f' : α → δ}
    {g' : β → δ} (h : xs.map f = ys.map g) (hfg : ∀ y ∈ ys, ∀ x, f x = g y → f' x = g' y) :
    xs.map f' = ys.map g' := by
  induction xs generalizing ys with
  | nil =>
    obtain rfl := List.map_eq_nil_iff.1 h.symm
    rfl
  | cons x xs ih =>
    obtain ⟨y, ys, rfl, hy, hys⟩ := List.map_eq_cons_iff.1 h.symm
    obtain ⟨hfirst, hrest⟩ := List.forall_mem_cons.1 hfg
    rw [List.map_cons, List.map_cons, hfirst x hy.symm, ih hys.symm hrest]

end

end MappingCanvas
