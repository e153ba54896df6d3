/-
# Saved mappings

A saved mapping is one version of a mapping: its snapshot and its rules, with the name, version
and category under which its user finds it.  All versions of a mapping form a group, of which at
most one is active.
-/

import MappingCanvas.Archive.Version
import MappingCanvas.Rule.Document
import MappingCanvas.Snapshot.Document

namespace MappingCanvas

/-- One version of a mapping. -/
structure SavedMapping where
  id : String
  userId : String
  name : String
  version : String
  category : Option String
  description : Option String
  tags : List String
  transformType : Option String
  groupId : String
  snapshot : Snapshot
  rules : RuleSet
  isActive : Bool
  createdAt : Instant
  updatedAt : Instant

namespace SavedMapping

/-- The version, to be compared. -/
def versionOf (m : SavedMapping) : Version := ⟨m.version⟩

/-- Gives the mapping and both its documents a name. -/
def rename (m : SavedMapping) (name : String) : SavedMapping :=
  { m with
    name := name
    snapshot := { m.snapshot with name := name }
    rules := { m.rules with name := some name } }

/-- Gives the mapping and both its documents a version. -/
def withVersion (m : SavedMapping) (version : String) : SavedMapping :=
  { m with
    version := version
    snapshot := { m.snapshot with version := version }
    rules := { m.rules with version := some version } }

/-- Reads a saved mapping. -/
def decode : Decoder SavedMapping :=
  ((Form.required "id" .text).and ((Form.required "user_id" .text).and
    ((Form.required "name" .text).and ((Form.required "version" .text).and
      ((Form.optional "category" .text).and ((Form.optional "description" .text).and
        ((Form.defaulted "tags" [] (.list .text)).and ((Form.optional "transform_type" .text).and
          ((Form.required "mapping_group_id" .text).and
            ((Form.required "ui_config" Snapshot.decode).and
              ((Form.required "execution_config" RuleSet.decode).and
                ((Form.required "is_active" .bool).and ((Form.required "created_at" .instant).and
                  (Form.required "updated_at" .instant)))))))))))))
    |>.map fun (id, userId, name, version, category, description, tags, transformType, groupId,
        snapshot, rules, isActive, createdAt, updatedAt) =>
      (⟨id, userId, name, version, category, description, tags, transformType, groupId, snapshot,
        rules, isActive, createdAt, updatedAt⟩ : SavedMapping)).decode

/-- A saved mapping as a document; what it lacks is written as `null`. -/
def toJson (m : SavedMapping) : Json :=
  .object [("id", .string m.id), ("user_id", .string m.userId), ("name", .string m.name),
    ("version", .string m.version), ("category", m.category.elim .null .string),
    ("description", m.description.elim .null .string), ("tags", .strings m.tags),
    ("transform_type", m.transformType.elim .null .string),
    ("mapping_group_id", .string m.groupId), ("ui_config", m.snapshot.toJson),
    ("execution_config", m.rules.toJson), ("is_active", .bool m.isActive),
    ("created_at", .string m.createdAt.render), ("updated_at", .string m.updatedAt.render)]

end SavedMapping

/-! ### Filters -/

/-- Which saved mappings are meant; what is not given may be anything.  A category is given by
`some`, and `some none` means the mappings without one. -/
structure MappingFilter where
  id : Option String
  userId : Option String
  name : Option String
  category : Option (Option String)
  groupId : Option String
  isActive : Option Bool

namespace MappingFilter

/-- All mappings of a user. -/
def ofUser (userId : String) : MappingFilter := ⟨none, some userId, none, none, none, none⟩

/-- Whether a value is the wanted one, if one is wanted. -/
def allows {α : Type} [BEq α] (wanted : Option α) (actual : α) : Bool :=
  match wanted with
  | none => true
  | some w => w == actual

/-- Whether a saved mapping is meant. -/
def accepts (f : MappingFilter) (m : SavedMapping) : Bool :=
  allows f.id m.id && allows f.userId m.userId && allows f.name m.name &&
    allows f.groupId m.groupId && allows f.isActive m.isActive && allows f.category m.category

end MappingFilter

/-! ### Patches -/

/-- Which columns of a saved mapping change; what is not given stays. -/
structure MappingPatch where
  name : Option String
  category : Option (Option String)
  isActive : Option Bool
  snapshot : Option Snapshot
  rules : Option RuleSet

namespace MappingPatch

/-- Nothing but the activity. -/
def activity (isActive : Bool) : MappingPatch := ⟨none, none, some isActive, none, none⟩

/-- A saved mapping after a patch at a point in time. -/
def apply (p : MappingPatch) (now : Instant) (m : SavedMapping) : SavedMapping :=
  { m with
    name := p.name.getD m.name
    category := p.category.getD m.category
    isActive := p.isActive.getD m.isActive
    snapshot := p.snapshot.getD m.snapshot
    rules := p.rules.getD m.rules
    updatedAt := now }

end MappingPatch
end MappingCanvas
