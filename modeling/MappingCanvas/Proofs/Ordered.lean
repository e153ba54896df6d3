/-
# Entries in order

Putting entries in order keeps the last entry of each key and no other (`Ordered.find?_ofEntries`,
`Ordered.mem_ofEntries_iff`), and it does not look at anything but the keys
(`Ordered.ofEntries_map`).

A set of texts is known by its members (`TextSet.ext`), and adding texts adds exactly these
(`TextSet.mem_addAll`).
-/

import Mathlib.Data.List.Nodup
import MappingCanvas.Ordered

namespace MappingCanvas

namespace Ordered

variable {α β : Type} {key : α → String} {x : α} {xs ys : List α}

/-! ### The last entry of each key -/

/-- What is added to entries in order is found where its key is not there yet: a key below all
others is none of theirs. -/
theorem find?_insertNew (h : Ascending key ys) (k : String) :
    (insertNew key x ys).find? (key · == k) =
      (ys.find? (key · == k)).or (if key x == k then some x else none) := by
  induction ys with
  | nil =>
    rw [insertNew, List.find?_cons]
    cases key x == k <;> rfl
  | cons y ys ih =>
    obtain ⟨hy, hys⟩ := List.pairwise_cons.1 h
    unfold insertNew
    split
    · rename_i hlt
      rw [List.find?_cons]
      split
      · rename_i hx
        have hnone : (y :: ys).find? (key · == k) = none := by
          refine List.find?_eq_none.2 fun z hz heq => ?_
          have hxz : key x < key z := by
            rcases List.mem_cons.1 hz with rfl | hz
            · exact hlt
            · exact String.lt_trans hlt (hy z hz)
          rw [beq_iff_eq.1 heq, beq_iff_eq.1 hx] at hxz
          exact String.lt_irrefl k hxz
        rw [hnone, hx]
        rfl
      · rename_i hx
        rw [hx, if_neg Bool.false_ne_true, Option.or_none]
    · split
      · rename_i heq
        rw [heq, List.find?_cons]
        cases hk : key y == k with
        | true => rfl
        | false => rw [if_neg Bool.false_ne_true, Option.or_none]
      · rw [List.find?_cons, List.find?_cons, ih hys]
        cases key y == k <;> rfl

/-- **The last entry of each key stays.** -/
theorem find?_ofEntries (xs : List α) (k : String) :
    (ofEntries key xs).find? (key · == k) = xs.reverse.find? (key · == k) := by
  induction xs with
  | nil => rfl
  | cons x xs ih =>
    rw [ofEntries, find?_insertNew (ascending_ofEntries key xs), ih, List.reverse_cons,
      List.find?_append, List.find?_singleton]

/-- Keys that ascend do not repeat. -/
theorem Ascending.nodup (h : Ascending key xs) : (xs.map key).Nodup := by
  rw [List.nodup_iff_pairwise_ne, List.pairwise_map]
  exact h.imp fun hlt heq => absurd (heq ▸ hlt) (String.lt_irrefl _)

/-- **Entries in order are known by which they are.** -/
theorem Ascending.eq_of_mem_iff (hxs : Ascending key xs) (hys : Ascending key ys)
    (h : ∀ x, x ∈ xs ↔ x ∈ ys) : xs = ys := by
  have hperm : xs.Perm ys :=
    (List.perm_ext_iff_of_nodup (hxs.nodup.of_map key) (hys.nodup.of_map key)).2 h
  exact hperm.eq_of_pairwise (fun _ _ _ _ hab hba => absurd hba (String.lt_asymm hab)) hxs hys

/-- Where keys are distinct, an entry is the only one of its key. -/
theorem find?_reverse_of_nodup (h : (xs.map key).Nodup) (k : String) :
    xs.reverse.find? (key · == k) = xs.find? (key · == k) := by
  induction xs with
  | nil => rfl
  | cons x xs ih =>
    obtain ⟨hx, hxs⟩ := List.nodup_cons.1 h
    rw [List.reverse_cons, List.find?_append, ih hxs, List.find?_singleton, List.find?_cons]
    cases hk : key x == k with
    | false => rw [if_neg Bool.false_ne_true, Option.or_none]
    | true =>
      have hnone : xs.find? (key · == k) = none := List.find?_eq_none.2 fun y hy heq =>
        hx (List.mem_map.2 ⟨y, hy, (beq_iff_eq.1 heq).trans (beq_iff_eq.1 hk).symm⟩)
      rw [hnone]
      rfl

/-- **The entries that stay are those that no later entry of their key follows.** -/
theorem mem_ofEntries_iff : x ∈ ofEntries key xs ↔
    ∃ before behind, xs = before ++ x :: behind ∧ ∀ y ∈ behind, key y ≠ key x := by
  have hmem : x ∈ ofEntries key xs ↔ xs.reverse.find? (key · == key x) = some x := by
    rw [← find?_ofEntries]
    refine ⟨fun h => ?_, List.mem_of_find?_eq_some⟩
    cases hfind : (ofEntries key xs).find? (key · == key x) with
    | none => exact absurd (beq_self_eq_true (key x)) (List.find?_eq_none.1 hfind x h)
    | some y =>
      have hkey : key y = key x := by simpa using List.find?_some hfind
      exact congrArg some (List.inj_on_of_nodup_map (ascending_ofEntries key xs).nodup
        (List.mem_of_find?_eq_some hfind) h hkey)
  rw [hmem, List.find?_eq_some_iff_append]
  constructor
  · rintro ⟨-, before, behind, hsplit, hbefore⟩
    refine ⟨behind.reverse, before.reverse, ?_, fun y hy => ?_⟩
    · rw [← List.reverse_reverse xs, hsplit]
      simp
    · simpa using hbefore y (List.mem_reverse.1 hy)
  · rintro ⟨before, behind, rfl, hbehind⟩
    refine ⟨beq_self_eq_true _, behind.reverse, before.reverse, by simp, fun y hy => ?_⟩
    simpa using hbehind y (List.mem_reverse.1 hy)

/-- Entries never vanish altogether. -/
theorem ofEntries_eq_nil_iff : ofEntries key xs = [] ↔ xs = [] := by
  cases xs with
  | nil => exact ⟨fun _ => rfl, fun _ => rfl⟩
  | cons x xs =>
    have hx : (ofEntries key (x :: xs)).find? (key · == key x) ≠ none := by
      rw [find?_ofEntries]
      simp
    refine ⟨fun h => ?_, nofun⟩
    rw [h] at hx
    exact absurd rfl hx

/-! ### Nothing but keys -/

variable {key' : β → String} {g : α → β}

/-- An insertion may be done before or after a change that keeps the keys. -/
theorem insertNew_map (hg : ∀ x, key' (g x) = key x) (x : α) (ys : List α) :
    insertNew key' (g x) (ys.map g) = (insertNew key x ys).map g := by
  induction ys with
  | nil => rfl
  | cons y ys ih =>
    rw [List.map_cons, insertNew, insertNew, hg, hg, ih]
    simp only [apply_ite (List.map g), List.map_cons]

/-- **Entries may be ordered before or after a change that keeps their keys.** -/
theorem ofEntries_map (hg : ∀ x, key' (g x) = key x) (xs : List α) :
    ofEntries key' (xs.map g) = (ofEntries key xs).map g := by
  induction xs with
  | nil => rfl
  | cons x xs ih => rw [List.map_cons, ofEntries, ofEntries, ih, insertNew_map hg]

end Ordered

/-! ### Sets of texts -/

/-- Texts that are their own keys are inserted without loss. -/
theorem Ordered.mem_insertNew_id {x y : String} {ys : List String} :
    y ∈ insertNew id x ys ↔ y = x ∨ y ∈ ys := by
  refine ⟨mem_insertNew id, fun h => ?_⟩
  induction ys with
  | nil => simpa [insertNew] using h
  | cons z zs ih =>
    simp only [insertNew, id_eq]
    split
    · simpa using h
    · split
      · rename_i hxz
        subst hxz
        simpa using h
      · rcases h with rfl | h
        · exact List.mem_cons_of_mem z (ih (.inl rfl))
        · rcases List.mem_cons.1 h with rfl | h
          · exact List.mem_cons_self ..
          · exact List.mem_cons_of_mem z (ih (.inr h))

/-- A set of texts holds exactly the texts that it was made of. -/
theorem Ordered.mem_ofEntries_id {y : String} {xs : List String} :
    y ∈ ofEntries id xs ↔ y ∈ xs := by
  induction xs with
  | nil => simp [ofEntries]
  | cons x xs ih => rw [ofEntries, mem_insertNew_id, ih, List.mem_cons]

namespace TextSet

/-- Texts that are added are there afterwards, and no others but those that were there. -/
theorem mem_addAll {s : TextSet} {texts : List String} {t : String} :
    t ∈ (s.addAll texts).toList ↔ t ∈ texts ∨ t ∈ s.toList := by
  simp only [addAll, ofList, Ordered.mem_ofEntries_id, List.mem_append]

/-- **Sets with the same members are equal.** -/
theorem ext {s s' : TextSet} (h : ∀ t, t ∈ s.toList ↔ t ∈ s'.toList) : s = s' := by
  have hlist : s.toList = s'.toList := s.ascending.eq_of_mem_iff s'.ascending h
  cases s
  cases s'
  simp_all

/-- To add texts again adds nothing. -/
theorem addAll_addAll (s : TextSet) (texts : List String) :
    (s.addAll texts).addAll texts = s.addAll texts := by
  refine ext fun t => ?_
  rw [mem_addAll, mem_addAll, ← or_assoc, or_self]

end TextSet
end MappingCanvas
