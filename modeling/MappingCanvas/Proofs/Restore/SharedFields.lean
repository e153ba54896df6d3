/-
# Rules that share a target field

Several rules may write one target field, and an export makes such rules, one for each edge that
arrives there.  When they are drawn again, those of one kind share their steps, which are the steps
of the first of them.  So a constant, a choice or a lookup comes back as the rule that leads it
(`rules_fromRules`), and what it says itself is lost unless the two are equal:

| rules for one field, in order | what comes back |
| --- | --- |
| constant `1`, constant `2` | constant `1`, constant `1` |
| lookup through a split, plain lookup | the first lookup, twice |
| constant `1`, copy | constant `1`, copy |

Nothing is lost exactly when all rules of one kind for one target field are equal
(`exportRules_fromRules`).
-/

import MappingCanvas.Proofs.Restore.Recompile

namespace MappingCanvas
namespace Restore

variable {rs : List Rule} {r : Rule} {s : RuleSet}

/-! ### The rules that need steps -/

/-- Whether a rule is a constant, a choice or a lookup. -/
def needsStep (r : Rule) : Bool := stepActions.contains r.action.name

/-- A rule needs a step if its leader does. -/
theorem needsStep_leader (rs : List Rule) (r : Rule) : needsStep (leader rs r) = needsStep r := by
  rw [needsStep, needsStep, actionName_leader]

/-- A rule that needs no step leads itself. -/
theorem leader_eq_of_not_needsStep (h : needsStep r = false) : leader rs r = r := by
  rcases leader_cases rs r with hself | ⟨-, hshares⟩
  · exact hself
  · have hstep : needsStep r = true := List.contains_iff_mem.2 (sharesStep_iff.1 hshares).1
    rw [h] at hstep
    cases hstep

/-- A rule that needs a step is no skip. -/
theorem skips_of_needsStep (h : needsStep r = true) : skips r = false := by
  obtain ⟨source, target, action⟩ := r
  cases action with
  | skip => cases h
  | _ => rfl

/-! ### Grouping keeps the rules -/

/-- A rule stands in the group of its target field alone. -/
theorem flatMap_targets_eq {targets : List String} (hnodup : targets.Nodup)
    (hr : r.target ∈ targets) (p : Bool) :
    (targets.flatMap fun target => if r.target == target && p then [r] else []) =
      if p then [r] else [] := by
  cases p with
  | false => simp
  | true =>
    have hone : targets.filter (fun target => r.target == target) = [r.target] := by
      simp only [BEq.comm (a := r.target)]
      rw [List.filter_beq, hnodup.count, if_pos hr]
      rfl
    simp only [Bool.and_true, if_true]
    rw [← map_filter_eq_flatMap targets _ fun _ => r, hone]
    rfl

/-- **Grouping loses no rule but the skips.** -/
theorem grouped_perm (rs : List Rule) : (grouped rs).Perm (rs.filter fun r => !skips r) := by
  have hfilter : ∀ p : Rule → Bool, rs.filter p = rs.flatMap fun r => if p r then [r] else [] :=
    fun p => (List.map_id _).symm.trans (map_filter_eq_flatMap rs p id)
  have hgroup : ∀ r ∈ rs,
      ((rs.map Rule.target).eraseDups.flatMap fun target =>
        if r.target == target && !skips r then [r] else []) = if !skips r then [r] else [] :=
    fun r hr => flatMap_targets_eq (nodup_eraseDups _)
      (List.mem_eraseDups.2 (List.mem_map_of_mem hr)) _
  rw [hfilter, ← List.flatMap_congr hgroup, grouped]
  simp only [hfilter]
  exact flatMap_swap_perm _ _ fun target r => if r.target == target && !skips r then [r] else []

/-- Grouping loses no rule that needs a step. -/
theorem filter_needsStep_grouped_perm (rs : List Rule) :
    ((grouped rs).filter needsStep).Perm (rs.filter needsStep) := by
  have hfilter : (rs.filter fun r => !skips r).filter needsStep = rs.filter needsStep := by
    rw [List.filter_filter]
    refine List.filter_congr fun r _ => ?_
    cases h : needsStep r with
    | false => rfl
    | true => rw [skips_of_needsStep h]; rfl
  exact hfilter ▸ (grouped_perm rs).filter needsStep

/-! ### What comes back -/

/-- **Leaders hold all rules that need steps exactly when every rule leads itself**: a rule that
leads another one leads itself, so a rule among the leaders does. -/
theorem subperm_map_leader_iff (rs : List Rule) :
    (rs.filter needsStep).Subperm ((grouped rs).map (leader rs)) ↔ ∀ r ∈ rs, leader rs r = r := by
  constructor
  · intro h r hr
    cases hstep : needsStep r with
    | false => exact leader_eq_of_not_needsStep hstep
    | true =>
      have hkeeps : needsStep ∘ leader rs = needsStep := funext (needsStep_leader rs)
      have hfilter : (rs.filter needsStep).Subperm ((rs.filter needsStep).map (leader rs)) := by
        have hsub := h.filter needsStep
        rw [List.filter_filter, List.filter_map, hkeeps] at hsub
        simp only [Bool.and_self] at hsub
        exact hsub.trans ((filter_needsStep_grouped_perm rs).map (leader rs)).subperm
      obtain ⟨r', -, rfl⟩ := List.mem_map.1 (hfilter.subset (List.mem_filter.2 ⟨hr, hstep⟩))
      exact leader_leader rs r'
  · intro h
    have hself : (grouped rs).map (leader rs) = grouped rs :=
      (List.map_congr_left fun r hr => h r (mem_of_mem_grouped hr)).trans (List.map_id _)
    rw [hself]
    exact (filter_needsStep_grouped_perm rs).symm.subperm.trans List.filter_sublist.subperm

end Restore

namespace Exporter

open Restore

variable {s : RuleSet}

/-- **Every rule that is drawn and compiled again comes back as the rule that leads it.** -/
theorem rules_fromRules (h : Drawable s) (gs : List Grouping) (layout : Layout) (x : Exporter)
    (hlimit : 2 ≤ x.options.maxResolveDepth) :
    (x.exportRules (fromRules gs layout s)).1.rules = (grouped s.rules).map (leader s.rules) ∧
      (x.exportRules (fromRules gs layout s)).2 = [] := by
  have hresolved := (h.shows_fromRules gs layout).map_resolve_arrivals_leader h hlimit
  have hrules := congrArg (List.filterMap rule?) hresolved
  have hwarnings := congrArg (List.filterMap warning?) hresolved
  rw [List.filterMap_map, List.filterMap_map] at hrules hwarnings
  rw [exportRules_eq]
  exact ⟨hrules.trans (List.filterMap_some ..),
    hwarnings.trans (List.filterMap_eq_nil_iff.2 fun _ _ => rfl)⟩

/-- **What rules lose when they are drawn and compiled again.**  Group by group every rule comes
back, without a warning, as the first rule of its kind for its target field.  So all constants,
choices and lookups come back as they were, each as often as it was there, exactly when those of one
kind for one target field are equal. -/
theorem exportRules_fromRules (h : Drawable s) (gs : List Grouping) (layout : Layout)
    (x : Exporter) (hlimit : 2 ≤ x.options.maxResolveDepth) :
    (x.exportRules (fromRules gs layout s)).1.rules = (grouped s.rules).map (leader s.rules) ∧
      (x.exportRules (fromRules gs layout s)).2 = [] ∧
      ((s.rules.filter needsStep).Subperm (x.exportRules (fromRules gs layout s)).1.rules ↔
        ∀ r ∈ s.rules, ∀ r' ∈ s.rules, sharesStep r r' = true → r' = r) := by
  obtain ⟨hrules, hwarnings⟩ := rules_fromRules h gs layout x hlimit
  refine ⟨hrules, hwarnings, ?_⟩
  rw [hrules, subperm_map_leader_iff, forall_leader_eq_iff]

/-- A split lookup, a plain lookup and a copy for one target field, and a constant twice for another
one. -/
def crowdedRules : RuleSet :=
  ⟨none, none,
    [⟨some "a", "x", .lookUp .empty (some (.split "," 0))⟩, ⟨none, "y", .constant .null⟩,
      ⟨some "b", "x", .lookUp .empty none⟩, ⟨some "b", "x", .copy⟩,
      ⟨none, "y", .constant .null⟩], []⟩

/-- The crowded rules can be drawn. -/
theorem drawable_crowdedRules : Drawable crowdedRules where
  valid := rfl
  target_ne := by simp [crowdedRules]
  source_ne := by simp [crowdedRules]

/-- The plain lookup comes back as the split one, so not all rules come back. -/
theorem exportRules_fromRules_crowdedRules :
    Drawable crowdedRules ∧ 2 ≤ plainExporter.options.maxResolveDepth ∧
      (plainExporter.exportRules (fromRules [] default crowdedRules)).1.rules =
        [⟨some "a", "x", .lookUp .empty (some (.split "," 0))⟩,
          ⟨some "a", "x", .lookUp .empty (some (.split "," 0))⟩, ⟨some "b", "x", .copy⟩,
          ⟨none, "y", .constant .null⟩, ⟨none, "y", .constant .null⟩] ∧
      ¬(crowdedRules.rules.filter needsStep).Subperm
        (plainExporter.exportRules (fromRules [] default crowdedRules)).1.rules := by
  obtain ⟨hrules, -, hall⟩ := exportRules_fromRules drawable_crowdedRules [] default plainExporter
    (by decide)
  refine ⟨drawable_crowdedRules, by decide, hrules.trans rfl, fun hsub => ?_⟩
  have hsame := hall.1 hsub ⟨some "a", "x", .lookUp .empty (some (.split "," 0))⟩
    List.mem_cons_self ⟨some "b", "x", .lookUp .empty none⟩ (by simp [crowdedRules]) rfl
  simp at hsame

/-- Two different constants for one target field. -/
def rivalConstants : RuleSet :=
  ⟨none, none, [⟨none, "x", .constant (.string "1")⟩, ⟨none, "x", .constant (.string "2")⟩], []⟩

/-- The rival constants can be drawn, although only one of them will be. -/
theorem drawable_rivalConstants : Drawable rivalConstants where
  valid := rfl
  target_ne := by simp [rivalConstants]
  source_ne := by simp [rivalConstants]

/-- **The second of two constants for one target field is lost**, and no warning says so. -/
theorem exportRules_fromRules_loses_constant :
    rivalConstants.validate = .ok () ∧
      (∀ r ∈ rivalConstants.rules, r.target ≠ "" ∧ r.source ≠ some "") ∧
      2 ≤ plainExporter.options.maxResolveDepth ∧
      ⟨none, "x", .constant (.string "2")⟩ ∈ rivalConstants.rules ∧
      ⟨none, "x", .constant (.string "2")⟩ ∉
        (plainExporter.exportRules (fromRules [] default rivalConstants)).1.rules ∧
      (plainExporter.exportRules (fromRules [] default rivalConstants)).2 = [] := by
  obtain ⟨hrules, hwarnings⟩ :=
    rules_fromRules drawable_rivalConstants [] default plainExporter (by decide)
  have hback : (plainExporter.exportRules (fromRules [] default rivalConstants)).1.rules =
      [⟨none, "x", .constant (.string "1")⟩, ⟨none, "x", .constant (.string "1")⟩] :=
    hrules.trans rfl
  have hne : Value.string "2" ≠ Value.string "1" := by
    intro h
    have hjson := congrArg Value.json h
    simp [Value.string, Value.ofJson, Json.canonical] at hjson
  refine ⟨rfl, by simp [rivalConstants], by decide, by simp [rivalConstants], ?_, hwarnings⟩
  rw [hback]
  simpa using hne

end Exporter
end MappingCanvas
