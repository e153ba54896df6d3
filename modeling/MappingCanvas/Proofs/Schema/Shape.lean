/-
# The first field of the wrong shape

What the rules of shape ask of one field is `WellShaped`: a list of children on objects and arrays
and on no other field, and a grouping only on arrays, by one of the direct children.  `Breaks` says
which rule a field breaks; its grouping is looked at only where its children are as they should be.

Checking a forest is checking its fields one after the other in the order of a walk
(`validateForest_eq`), below leaves too, which may have children where they should have none.  So a
forest passes when all fields of a walk are well shaped, and otherwise the first one that is not is
reported (`validateForest_exact`).
-/

import MappingCanvas.Proofs.Result
import MappingCanvas.Proofs.Schema.Traversal
import MappingCanvas.Schema.Validation

namespace MappingCanvas
namespace Field

variable {f : Field} {e : SchemaError}

/-! ### The rules for one field -/

/-- Objects and arrays have a list of children, other fields have none. -/
def HasItsChildren (f : Field) : Prop :=
  f.children.isSome ↔ f.dataType = .object ∨ f.dataType = .array

/-- A grouping belongs to an array and names one of its direct children. -/
def HasItsGrouping (f : Field) : Prop :=
  ∀ g, f.groupBy = some g → f.dataType = .array ∧ ∃ c ∈ f.childList, c.name = g

/-- A field that breaks no rule of shape. -/
structure WellShaped (f : Field) : Prop where
  children : f.HasItsChildren
  grouping : f.HasItsGrouping

/-- The rule that a field breaks. -/
inductive Breaks (f : Field) : SchemaError → Prop
  | missing (htype : f.dataType = .object ∨ f.dataType = .array) (hchildren : f.children = none) :
      f.Breaks (.missingChildren f.id f.dataType)
  | unexpected (htype : ¬(f.dataType = .object ∨ f.dataType = .array))
      (hchildren : f.children.isSome) : f.Breaks (.unexpectedChildren f.id f.dataType)
  | misplaced {g : String} (hchildren : f.HasItsChildren) (hgroup : f.groupBy = some g)
      (htype : f.dataType ≠ .array) : f.Breaks (.groupByOnNonArray f.id)
  | unknown {g : String} (hchildren : f.HasItsChildren) (hgroup : f.groupBy = some g)
      (htype : f.dataType = .array) (hname : ∀ c ∈ f.childList, c.name ≠ g) :
      f.Breaks (.unknownGroupBy f.id g)

/-- Objects and arrays are the fields that hold others. -/
theorem isContainer_iff {t : DataType} : t.isContainer = true ↔ t = .object ∨ t = .array := by
  cases t <;> simp [DataType.isContainer]

/-- The check of the children passes when they are as they should be. -/
theorem checkChildren_eq_ok_iff : f.checkChildren = .ok () ↔ f.HasItsChildren := by
  rw [HasItsChildren, ← isContainer_iff, checkChildren]
  cases f.dataType.isContainer <;> cases f.children <;> simp

/-- The check of the children fails when they are missing or should not be there. -/
theorem checkChildren_eq_error_iff : f.checkChildren = .error e ↔
    (f.dataType.isContainer = true ∧ f.children = none ∧ e = .missingChildren f.id f.dataType) ∨
      (f.dataType.isContainer = false ∧ f.children.isSome ∧
        e = .unexpectedChildren f.id f.dataType) := by
  rw [checkChildren]
  cases f.dataType.isContainer <;> cases f.children <;> simp [eq_comm]

/-- The check of the grouping passes when it is as it should be. -/
theorem checkGroupBy_eq_ok_iff : f.checkGroupBy = .ok () ↔ f.HasItsGrouping := by
  rw [HasItsGrouping, checkGroupBy]
  cases hgroup : f.groupBy with
  | none => simp
  | some g =>
    by_cases htype : f.dataType = .array
    · by_cases hname : ∃ c ∈ f.childList, c.name = g <;> simp_all
    · simp [htype]

/-- The check of the grouping fails on a field that is no array, and for a name that no child
has. -/
theorem checkGroupBy_eq_error_iff : f.checkGroupBy = .error e ↔ ∃ g, f.groupBy = some g ∧
    ((f.dataType ≠ .array ∧ e = .groupByOnNonArray f.id) ∨
      (f.dataType = .array ∧ (∀ c ∈ f.childList, c.name ≠ g) ∧ e = .unknownGroupBy f.id g)) := by
  rw [checkGroupBy]
  cases hgroup : f.groupBy with
  | none => simp
  | some g =>
    by_cases htype : f.dataType = .array
    · by_cases hname : ∃ c ∈ f.childList, c.name = g
      · have hsome : ¬∀ c ∈ f.childList, c.name ≠ g := by simpa using hname
        simp [htype, hname, hsome]
      · have hnone : ∀ c ∈ f.childList, c.name ≠ g := fun c hc heq => hname ⟨c, hc, heq⟩
        simpa [htype, hname, eq_comm (a := e)] using fun _ => hnone
    · simp [htype, eq_comm (a := e)]

/-- **A field passes when it is well shaped.** -/
theorem checkShape_eq_ok_iff : f.checkShape = .ok () ↔ f.WellShaped := by
  rw [checkShape, bind_eq_ok]
  constructor
  · rintro ⟨⟨⟩, hchildren, hgrouping⟩
    exact ⟨checkChildren_eq_ok_iff.1 hchildren, checkGroupBy_eq_ok_iff.1 hgrouping⟩
  · rintro ⟨hchildren, hgrouping⟩
    exact ⟨(), checkChildren_eq_ok_iff.2 hchildren, checkGroupBy_eq_ok_iff.2 hgrouping⟩

/-- **A field is refused for the rule that it breaks.** -/
theorem checkShape_eq_error_iff : f.checkShape = .error e ↔ f.Breaks e := by
  rw [checkShape, bind_eq_error, checkChildren_eq_error_iff]
  constructor
  · rintro ((⟨htype, hchildren, rfl⟩ | ⟨htype, hchildren, rfl⟩) | ⟨⟨⟩, hok, hfail⟩)
    · exact .missing (isContainer_iff.1 htype) hchildren
    · exact .unexpected (fun h => by simp [isContainer_iff.2 h] at htype) hchildren
    · have hchildren := checkChildren_eq_ok_iff.1 hok
      obtain ⟨g, hgroup, ⟨htype, rfl⟩ | ⟨htype, hname, rfl⟩⟩ := checkGroupBy_eq_error_iff.1 hfail
      · exact .misplaced hchildren hgroup htype
      · exact .unknown hchildren hgroup htype hname
  · rintro (⟨htype, hchildren⟩ | ⟨htype, hchildren⟩ | ⟨hchildren, hgroup, htype⟩ |
      ⟨hchildren, hgroup, htype, hname⟩)
    · exact .inl (.inl ⟨isContainer_iff.2 htype, hchildren, rfl⟩)
    · exact .inl (.inr ⟨by simpa [← isContainer_iff] using htype, hchildren, rfl⟩)
    · exact .inr ⟨(), checkChildren_eq_ok_iff.2 hchildren,
        checkGroupBy_eq_error_iff.2 ⟨_, hgroup, .inl ⟨htype, rfl⟩⟩⟩
    · exact .inr ⟨(), checkChildren_eq_ok_iff.2 hchildren,
        checkGroupBy_eq_error_iff.2 ⟨_, hgroup, .inr ⟨htype, hname, rfl⟩⟩⟩

/-- A field that is not well shaped breaks a rule, and one that breaks a rule is not well shaped. -/
theorem not_wellShaped_iff : ¬f.WellShaped ↔ ∃ e, f.Breaks e := by
  simp only [← checkShape_eq_ok_iff, ← checkShape_eq_error_iff]
  cases f.checkShape <;> simp

/-! ### The fields of a forest -/

/-- A field is checked before the fields in it. -/
theorem validate_eq (f : Field) :
    f.validate = (do f.checkShape; validateForest f.childList) := by
  obtain ⟨id, name, dataType, children, groupBy⟩ := f
  cases children <;> rfl

/-- **A forest is checked field by field in the order of a walk.** -/
theorem validateForest_eq (forest : List Field) :
    validateForest forest = ((walk forest).mapM checkShape).map fun _ => () := by
  rw [walk_eq_preorder]
  induction forest using forest_induction with
  | nil => rfl
  | cons f fs ihchildren ih =>
    rw [validateForest, validate_eq, ihchildren, ih, preorderForest, preorder_eq, List.cons_append,
      List.mapM_cons, List.mapM_append]
    cases f.checkShape <;> cases (preorderForest f.childList).mapM checkShape <;>
      cases (preorderForest fs).mapM checkShape <;> rfl

/-- **A forest passes when all its fields are well shaped, and otherwise the first one is reported
that is not.**  The first one is meant in the order of a walk, and it is reported for its children
before it is for its grouping. -/
theorem validateForest_exact (forest : List Field) :
    (validateForest forest = .ok () ↔ ∀ f ∈ walk forest, f.WellShaped) ∧
    (∀ e, validateForest forest = .error e ↔ ∃ before f behind,
      walk forest = before ++ f :: behind ∧ (∀ g ∈ before, g.WellShaped) ∧ f.Breaks e) ∧
    ∀ f : Field, ¬f.WellShaped ↔ ∃ e, f.Breaks e := by
  have hpass : ∀ f : Field, (∃ u, f.checkShape = .ok u) ↔ f.WellShaped := fun f =>
    ⟨fun ⟨_, h⟩ => checkShape_eq_ok_iff.1 h, fun h => ⟨(), checkShape_eq_ok_iff.2 h⟩⟩
  rw [validateForest_eq]
  refine ⟨?_, fun e => ?_, fun f => not_wellShaped_iff⟩
  · simp only [map_eq_ok_iff, and_true, exists_mapM_eq_ok_iff, hpass]
  · simp only [map_eq_error_iff, mapM_eq_error_iff, hpass, checkShape_eq_error_iff]

/-- A leaf that has children is reported before the fields in it, and behind what is wrong in the
fields in front of it. -/
example : validateForest
    [⟨"a", "a", .object, some [⟨"a.b", "b", .string, none, some "c"⟩], none⟩,
      ⟨"d", "d", .string, some [⟨"d.e", "e", .array, none, none⟩], none⟩] =
    .error (.groupByOnNonArray "a.b") := rfl

end Field
end MappingCanvas
