/-
# The limit on walks

Which walk the resolving of an edge makes depends on the canvas alone (`Canvas.walk?`): one from a
conditional, counted from 1, or one from the text or split transform that feeds a lookup, counted
from 2 because the lookup itself has been left behind.  `resolve_cases` says that the limit reaches
nothing else.  So a longer limit changes only refusals (`resolve_mono`), and since no walk that ends
is longer than there are nodes to go through, a limit of that many nodes refuses exactly the walks
without end (`depth_limit_exact`).

`Walks` is the same recursion with the depth counted up and no bound on it but the test of the
limit; each of its runs is finite and has one answer (`walks_iff`).
-/

import Mathlib.Data.List.Perm.Subperm
import MappingCanvas.Proofs.Compile.Arrivals
import MappingCanvas.Proofs.Compile.Walk
import MappingCanvas.Proofs.Lists

namespace MappingCanvas
namespace Canvas

variable {c : Canvas} {e : Edge} {limit : Nat}

/-! ### Counting up -/

/-- A walk from a node at a depth, with its answer.  The depth goes up by one from node to node, and
the walk is refused when it has passed the limit. -/
inductive Walks (c : Canvas) (limit : Nat) : Nat → String → Except Warning String → Prop
  | refused {depth : Nat} {id : String} (h : limit < depth) :
      Walks c limit depth id (.error (.depthExceeded id limit))
  | answer {depth : Nat} {id : String} {r : Except Warning String} (h : depth ≤ limit)
      (hb : c.lookBack id = .inl r) : Walks c limit depth id r
  | back {depth : Nat} {id next : String} {r : Except Warning String} (h : depth ≤ limit)
      (hb : c.lookBack id = .inr next) (hw : Walks c limit (depth + 1) next r) :
      Walks c limit depth id r

/-- **Counting the depth up is counting the steps left down.** -/
theorem walks_iff {depth : Nat} {id : String} {r : Except Warning String} :
    c.Walks limit depth id r ↔ r = c.inputField limit (limit + 1 - depth) id := by
  constructor
  · intro h
    induction h with
    | refused h => rw [show limit + 1 - _ = 0 by omega]; rfl
    | @answer depth id r h hb =>
      rw [show limit + 1 - depth = limit - depth + 1 by omega, inputField_succ, hb]
    | @back depth id next r h hb _ ih =>
      rw [show limit + 1 - depth = limit - depth + 1 by omega, inputField_succ, hb, ih,
        show limit + 1 - (depth + 1) = limit - depth by omega]
  · rintro rfl
    induction hs : limit + 1 - depth generalizing depth id with
    | zero => exact .refused (by omega)
    | succ steps ih =>
      rw [inputField_succ]
      cases hb : c.lookBack id with
      | inl r => exact .answer (by omega) hb
      | inr next => exact .back (by omega) hb (ih (by omega))

/-! ### The walk of an edge -/

/-- The node from which a lookup walks back: the text or split transform at the other end of its
input, if there is one. -/
def lookupWalk? (c : Canvas) (input : Edge) : Option String :=
  match c.node? input.source with
  | some n =>
    match n.body with
    | .transform _ (.text _) | .transform _ (.split _) => some n.id
    | _ => none
  | none => none

/-- The node from which the resolving of an edge walks back, and the depth at which it begins, if
it walks at all. -/
def walk? (c : Canvas) (e : Edge) : Option (String × Nat) :=
  match c.node? e.source with
  | some n =>
    match n.body with
    | .transform _ (.conditional _) => some (n.id, 1)
    | .lookup _ => (c.firstInput? n.id).bind fun input => (c.lookupWalk? input).map (·, 2)
    | _ => none
  | none => none

/-- The limit bounds the walk of a lookup, and nothing else about its input. -/
theorem lookupInput_cases (c : Canvas) (input : Edge) :
    (c.lookupWalk? input = none ∧ ∃ r, ¬TooDeep r ∧ ∀ limit, c.lookupInput limit input = r) ∨
      ∃ id step, c.lookupWalk? input = some id ∧ ∀ limit,
        c.lookupInput limit input = (c.inputField limit (limit - 1) id).map (·, step) := by
  simp only [lookupInput_eq, lookupWalk?]
  cases c.node? input.source with
  | none => exact .inl ⟨rfl, _, by simp [TooDeep], fun _ => rfl⟩
  | some n =>
    obtain ⟨id, position, body⟩ := n
    cases body with
    | source s =>
      exact .inl ⟨rfl, (fieldName input id s).map (·, none),
        by simpa using not_tooDeep_fieldName input id s, fun _ => rfl⟩
    | transform label operation =>
      cases operation with
      | text p => exact .inr ⟨id, TextStep.ofTextChange? p, rfl, fun _ => rfl⟩
      | split p => exact .inr ⟨id, some (TextStep.ofSplit p), rfl, fun _ => rfl⟩
      | _ => exact .inl ⟨rfl, _, by simp [TooDeep], fun _ => rfl⟩
    | _ => exact .inl ⟨rfl, _, by simp [TooDeep], fun _ => rfl⟩

/-- **The limit bounds the walk of an edge, and nothing else.** -/
theorem resolve_cases (c : Canvas) (e : Edge) (target : String) :
    (c.walk? e = none ∧ ∃ r, ¬TooDeep r ∧ ∀ limit, c.resolve limit e target = r) ∨
      ∃ id depth make, c.walk? e = some (id, depth) ∧ ∀ limit,
        c.resolve limit e target = (c.inputField limit (limit + 1 - depth) id).map make := by
  simp only [resolve_eq, walk?]
  cases c.node? e.source with
  | none => exact .inl ⟨rfl, _, by simp [TooDeep], fun _ => rfl⟩
  | some n =>
    obtain ⟨id, position, body⟩ := n
    cases body with
    | source s =>
      exact .inl ⟨rfl, (fieldName e id s).map fun field => ⟨some field, target, .copy⟩,
        by simpa using not_tooDeep_fieldName e id s, fun _ => rfl⟩
    | lookup l =>
      simp only [ruleAt, resolveLookup_eq]
      cases c.firstInput? id with
      | none =>
        refine .inl ⟨rfl, _, ?_, fun _ => rfl⟩
        cases l.sourceField <;> simp [TooDeep]
      | some input =>
        simp only [Option.bind_some]
        rcases lookupInput_cases c input with ⟨hw, r, hr, h⟩ | ⟨next, step, hw, h⟩
        · exact .inl ⟨by rw [hw]; rfl, r.map fun a => ⟨some a.1, target, .lookUp l.table a.2⟩,
            by simpa using hr, fun limit => by rw [h limit]⟩
        · refine .inr ⟨next, 2, fun field => ⟨some field, target, .lookUp l.table step⟩,
            by rw [hw]; rfl, fun limit => ?_⟩
          rw [h limit, show limit + 1 - 2 = limit - 1 by omega]
          cases c.inputField limit (limit - 1) next <;> rfl
    | transform label operation =>
      cases operation with
      | conditional p => exact .inr ⟨id, 1, _, rfl, fun _ => rfl⟩
      | constants values =>
        refine .inl ⟨rfl, _, ?_, fun _ => rfl⟩
        cases Constant.find? values e.sourceHandle? <;> simp [TooDeep]
      | _ => exact .inl ⟨rfl, _, by simp [TooDeep], fun _ => rfl⟩
    | _ => exact .inl ⟨rfl, _, by simp [TooDeep], fun _ => rfl⟩

/-- A walk that begins at depth 2 has a lookup in front of it, so it can be one node shorter. -/
theorem walk_length_le {id : String} {depth n : Nat} (h : c.walk? e = some (id, depth))
    (hn : c.WalkEnds id n) : n + depth ≤ c.innerIds.length + 1 := by
  unfold walk? at h
  cases hm : c.node? e.source with
  | none => simp [hm] at h
  | some m =>
    rw [hm] at h
    have hmem := mem_of_node? hm
    obtain ⟨mid, position, body⟩ := m
    cases body with
    | transform label operation =>
      cases operation with
      | conditional p =>
        obtain ⟨rfl, rfl⟩ : mid = id ∧ 1 = depth := by simpa using h
        have := hn.le_inner (mem_innerIds hmem rfl)
        omega
      | _ => simp at h
    | lookup l =>
      obtain ⟨input, hi, hw⟩ := Option.bind_eq_some_iff.1 h
      obtain ⟨next, hnext, heq⟩ := Option.map_eq_some_iff.1 hw
      obtain ⟨rfl, rfl⟩ : next = id ∧ 2 = depth := by simpa using heq
      have hends : c.WalkEnds mid (n + 1) := by
        unfold lookupWalk? at hnext
        cases hf : c.node? input.source with
        | none => simp [hf] at hnext
        | some f =>
          rw [hf] at hnext
          simp only at hnext
          split at hnext
          · rename_i hb
            obtain rfl := Option.some.inj hnext
            exact .on hi hf (by simp [hb, Node.Body.schema?]) hn
          · rename_i hb
            obtain rfl := Option.some.inj hnext
            exact .on hi hf (by simp [hb, Node.Body.schema?]) hn
          · cases hnext
      have := hends.le_inner (mem_innerIds hmem rfl)
      omega
    | _ => simp at h

/-! ### The limit -/

/-- **An edge that is not refused for its walk resolves alike under every longer limit.** -/
theorem resolve_mono {target : String} {limit' : Nat} (hl : limit ≤ limit')
    (h : ¬TooDeep (c.resolve limit e target)) :
    c.resolve limit' e target = c.resolve limit e target := by
  rcases resolve_cases c e target with ⟨-, r, -, hr⟩ | ⟨id, depth, make, -, hr⟩
  · rw [hr, hr]
  · rw [hr, tooDeep_map] at h
    rw [hr, hr, inputField_mono (by omega) h]

/-- **An edge is refused for its walk exactly when the end of the walk is out of reach.** -/
theorem tooDeep_resolve_iff {target : String} :
    TooDeep (c.resolve limit e target) ↔
      ∃ id depth, c.walk? e = some (id, depth) ∧ ∀ n, c.WalkEnds id n → limit + 1 < n + depth := by
  rcases resolve_cases c e target with ⟨hw, r, hr, h⟩ | ⟨id, depth, make, hw, h⟩
  · rw [h, hw]
    simpa using hr
  · rw [h, tooDeep_map, tooDeep_inputField_iff, hw]
    constructor
    · refine fun hn => ⟨id, depth, rfl, fun n hend => ?_⟩
      have := hn n hend
      omega
    · rintro ⟨_, _, heq, hn⟩ n hend
      obtain ⟨rfl, rfl⟩ : id = _ ∧ depth = _ := by simpa using heq
      have := hn n hend
      have := hend.pos
      omega

end Canvas

namespace Exporter

/-- The same exporter with another limit on walks. -/
def withLimit (x : Exporter) (limit : Nat) : Exporter :=
  { x with options := { x.options with maxResolveDepth := limit } }

/-- **A longer limit only adds rules.** -/
theorem rules_sublist_of_le (x : Exporter) (c : Canvas) {limit limit' : Nat} (hl : limit ≤ limit') :
    ((x.withLimit limit).exportRules c).1.rules.Sublist
      ((x.withLimit limit').exportRules c).1.rules := by
  simp only [exportRules_eq, withLimit]
  refine filterMap_sublist_filterMap fun a _ => ?_
  by_cases h : TooDeep (c.resolve limit a.1 a.2)
  · obtain ⟨id, n, hr⟩ := h
    exact .inl (by rw [hr]; rfl)
  · exact .inr (by rw [Canvas.resolve_mono hl h])

end Exporter

/-- **The limit on walks is exact and fails closed.**  An edge that is not refused for its walk
resolves alike under every longer limit, so a longer limit only adds rules; under a limit of as many
nodes as there are besides sources and targets, an edge is refused for its walk exactly when the
walk made for it has no end; and the walk, with its depth counted up to the limit, has exactly one
answer from every node at every depth, the one that the edge resolves with. -/
theorem Canvas.depth_limit_exact (c : Canvas) (e : Edge) (target : String) (limit : Nat) :
    (∀ limit', limit ≤ limit' → ¬TooDeep (c.resolve limit e target) →
      c.resolve limit' e target = c.resolve limit e target) ∧
    (∀ (x : Exporter) limit', limit ≤ limit' →
      ((x.withLimit limit).exportRules c).1.rules.Sublist
        ((x.withLimit limit').exportRules c).1.rules) ∧
    ((c.nodes.toList.filter fun n => n.body.schema?.isNone).length ≤ limit →
      (TooDeep (c.resolve limit e target) ↔
        ∃ id depth, c.walk? e = some (id, depth) ∧ ∀ n, ¬c.WalkEnds id n)) ∧
    (∀ depth id, ∃! r, c.Walks limit depth id r) ∧
    ∀ id depth, c.walk? e = some (id, depth) →
      ∃ r make, c.Walks limit depth id r ∧ c.resolve limit e target = r.map make := by
  refine ⟨fun limit' hl h => resolve_mono hl h, fun x limit' hl => x.rules_sublist_of_le c hl,
    fun hl => ?_, fun depth id => ?_, fun id depth hw => ?_⟩
  · rw [tooDeep_resolve_iff]
    constructor
    · rintro ⟨id, depth, hw, h⟩
      refine ⟨id, depth, hw, fun n hn => ?_⟩
      have hlt := h n hn
      have hle := walk_length_le hw hn
      rw [innerIds, List.length_map] at hle
      omega
    · rintro ⟨id, depth, hw, h⟩
      exact ⟨id, depth, hw, fun n hn => absurd hn (h n)⟩
  · exact ⟨_, walks_iff.2 rfl, fun r hr => walks_iff.1 hr⟩
  · rcases resolve_cases c e target with ⟨hnone, -⟩ | ⟨id', depth', make, hw', h⟩
    · rw [hnone] at hw
      cases hw
    · obtain ⟨rfl, rfl⟩ : id' = id ∧ depth' = depth := by simpa [hw'] using hw
      exact ⟨_, make, walks_iff.2 rfl, h limit⟩

namespace Canvas

/-- A canvas of one conditional that feeds itself. -/
def selfFed : Canvas :=
  .ofLists [⟨"if", .origin, .transform "if" (.conditional ⟨.equals, .null, .null, .null⟩)⟩]
    [⟨"loop", "if", none, "if", none⟩]

/-- The walk around one node is refused for its length, and an edge from nowhere never is. -/
theorem depth_limit_exact_selfFed :
    (selfFed.nodes.toList.filter fun n => n.body.schema?.isNone).length ≤ 1 ∧
      TooDeep (selfFed.resolve 1 ⟨"out", "if", none, "to", some "x"⟩ "x") ∧
      ¬TooDeep (selfFed.resolve 1 ⟨"lost", "gone", none, "to", some "x"⟩ "x") ∧
      selfFed.resolve 7 ⟨"lost", "gone", none, "to", some "x"⟩ "x" =
        selfFed.resolve 1 ⟨"lost", "gone", none, "to", some "x"⟩ "x" := by
  have hc : selfFed.Coherent := coherent_ofLists _ _
  have hnodes : selfFed.nodes.toList =
      [⟨"if", .origin, .transform "if" (.conditional ⟨.equals, .null, .null, .null⟩)⟩] :=
    nodes_ofLists (by decide) _
  have hnode := hc.node?_of_mem (hnodes ▸ List.mem_singleton_self _)
  have hinput : selfFed.firstInput? "if" = some ⟨"loop", "if", none, "if", none⟩ := by
    rw [firstInput?, hc.incoming_eq, selfFed, edges_ofLists]
    rfl
  have hback : selfFed.lookBack "if" = .inr "if" := by
    rw [lookBack_node hinput hnode]
    rfl
  have hendless : ∀ n, ¬selfFed.WalkEnds "if" n := by
    intro n
    induction n with
    | zero => exact fun h => absurd h.pos (Nat.lt_irrefl 0)
    | succ n ih =>
      intro h
      rw [walkEnds_iff, hback] at h
      obtain ⟨k, hk, h⟩ := h
      obtain rfl : n = k := by omega
      exact ih h
  have hwalk : selfFed.walk? ⟨"out", "if", none, "to", some "x"⟩ = some ("if", 1) := by
    simp only [walk?, hnode]
  have hgone : selfFed.node? "gone" = none := by
    rw [Option.eq_none_iff_forall_ne_some]
    intro n hn
    obtain ⟨hmem, hid⟩ := hc.node?_eq_some_iff.1 hn
    rw [hnodes] at hmem
    obtain rfl := List.mem_singleton.1 hmem
    exact absurd hid (by decide)
  have hlost : ¬TooDeep (selfFed.resolve 1 ⟨"lost", "gone", none, "to", some "x"⟩ "x") := by
    rw [resolve_eq, hgone]
    rintro ⟨_, _, h⟩
    cases h
  have hlength : (selfFed.nodes.toList.filter fun n => n.body.schema?.isNone).length ≤ 1 := by
    rw [hnodes]
    decide
  exact ⟨hlength,
    ((depth_limit_exact selfFed _ "x" 1).2.2.1 hlength).2 ⟨_, _, hwalk, hendless⟩, hlost,
    (depth_limit_exact selfFed _ "x" 1).1 7 (by decide) hlost⟩

end Canvas
end MappingCanvas
