/-
# The store of a user

The operations on the saved mappings of one user.  All versions saved under one name form a group;
saving a version makes it the active one of its group.  Where an operation deactivates and
activates, it does so in that order, so one that is cut short leaves a group without an active
version rather than with two.

An operation that adds a record is given a fresh id for it, and another one for its group.
-/

import MappingCanvas.Archive.Repository

namespace MappingCanvas

/-- What the store was doing when a call failed. -/
inductive Stage
  | lookUpActive | checkName | nextVersion | deactivatePrevious | save | deactivateOthers
  | activate | copy | loadVersions | update | loadAll | load | delete
  deriving DecidableEq

/-- The wording of a stage. -/
def Stage.message : Stage → String
  | lookUpActive => "Failed to look up active mapping"
  | checkName => "Failed to check mapping name"
  | nextVersion => "Failed to determine next version"
  | deactivatePrevious => "Failed to deactivate previous versions"
  | save => "Failed to save mapping"
  | deactivateOthers => "Failed to deactivate other versions"
  | activate => "Failed to activate version"
  | copy => "Failed to copy mapping"
  | loadVersions => "Failed to load mapping versions"
  | update => "Failed to update mapping"
  | loadAll => "Failed to load mappings"
  | load => "Failed to load mapping"
  | delete => "Failed to delete mapping"

/-- Why an operation of the store failed. -/
inductive StoreError
  | unauthenticated
  | nameConflict (name : String)
  | notFound (id : String)
  | emptyName
  | persistence (stage : Stage) (cause : PersistenceError)
  deriving DecidableEq

/-- The wording of a store error. -/
def StoreError.message : StoreError → String
  | unauthenticated => "No authenticated user"
  | nameConflict name => "A mapping named '" ++ name ++ "' already exists"
  | notFound id => "Mapping '" ++ id ++ "' not found"
  | emptyName => "Invalid mapping request: mapping name must not be empty"
  | persistence stage cause => stage.message ++ ": " ++ cause.message

/-- The settings of a store: the version that a copy starts with. -/
structure StoreConfig where
  bootstrapVersion : String
  deriving DecidableEq

namespace StoreConfig

/-- Copies start at `1.0`. -/
def default : StoreConfig := ⟨"1.0"⟩

/-- Settings as a document. -/
def toJson (c : StoreConfig) : Json := .object [("bootstrapVersion", .string c.bootstrapVersion)]

/-- Reads settings; what is missing is taken from the default. -/
def decode : Decoder StoreConfig :=
  ((Form.defaulted "bootstrapVersion" default.bootstrapVersion .text).map StoreConfig.mk).decode

end StoreConfig

/-- What is to be saved.  The parts that are optional are taken from the active version of the
same name when they are not given. -/
structure SaveRequest where
  name : String
  snapshot : Snapshot
  rules : RuleSet
  category : Option String
  version : Option String
  description : Option String
  tags : Option (List String)
  transformType : Option String

/-- The store of a user, or of nobody. -/
structure Store where
  userId : Option String
  config : StoreConfig

namespace Store

/-- An operation: it may fail and may change the repository. -/
abbrev Action (α : Type) := ExceptT StoreError (StateM Repository) α

/-- Makes a call, and turns its failure into one of the store. -/
def calling {α : Type} (fail : PersistenceError → StoreError) (call : Repository.Call α) :
    Action α := fun r =>
  match call r with
  | (.ok a, r) => (.ok a, r)
  | (.error e, r) => (.error (fail e), r)

/-- Makes a call during a stage. -/
def during {α : Type} (stage : Stage) (call : Repository.Call α) : Action α :=
  calling (.persistence stage) call

/-- Makes a call during a stage that is about one record, which may be gone. -/
def about {α : Type} (stage : Stage) (call : Repository.Call α) : Action α :=
  calling (fun
    | .notFound id => .notFound id
    | e => .persistence stage e) call

/-- The signed-in user. -/
def user (s : Store) : Action String :=
  match s.userId with
  | some u => return u
  | none => throw .unauthenticated

/-- Fails when the user has a mapping of this name in a group other than `own`. -/
def ensureNameFree (userId name : String) (own : Option String) : Action Unit := do
  let taken ← during .checkName
    (Repository.select { MappingFilter.ofUser userId with name := name })
  if taken.any fun m => own != some m.groupId then throw (.nameConflict name)

/-- The record of an id, if it is the user's. -/
def get (s : Store) (id : String) : Action SavedMapping := do
  let u ← s.user
  let found ← during .load (Repository.select { MappingFilter.ofUser u with id := id })
  match found with
  | m :: _ => return m
  | [] => throw (.notFound id)

/-- What a new version takes over from the active version of its name. -/
structure Inherited where
  groupId : String
  category : Option String
  description : Option String
  tags : List String
  transformType : Option String

/-- What a new version takes over; without an active version the name must be free, and a new
group begins. -/
def inherit (request : SaveRequest) (userId name freshGroup : String)
    (active : Option SavedMapping) : Action Inherited :=
  match active with
  | some m =>
    return ⟨m.groupId, request.category <|> m.category, request.description <|> m.description,
      request.tags.getD m.tags, request.transformType <|> m.transformType⟩
  | none => do
    ensureNameFree userId name none
    return ⟨freshGroup, request.category, request.description, request.tags.getD [],
      request.transformType⟩

/-- Saves a new version and makes it the active one of its group. -/
def save (s : Store) (request : SaveRequest) (freshId freshGroup : String) :
    Action SavedMapping := do
  let u ← s.user
  let name := Text.trim request.name
  if name.isEmpty then throw .emptyName
  let active ← during .lookUpActive (Repository.activeMapping u name none)
  let base ← inherit request u name freshGroup active
  let version ← match request.version with
    | some v => pure v
    | none => during .nextVersion (Repository.nextVersion u name base.category)
  let _ ← during .deactivatePrevious (Repository.updateWhere
    { MappingFilter.ofUser u with groupId := base.groupId, isActive := true } (.activity false))
  let now := (← MonadState.get).now
  let m : SavedMapping :=
    ⟨freshId, u, name, version, base.category, base.description, base.tags, base.transformType,
      base.groupId, request.snapshot, request.rules, true, now, now⟩
  during .save (Repository.insert ((m.rename name).withVersion version))

/-- Makes one version the active one among the user's mappings of a name and category. -/
def activate (s : Store) (id name : String) (category : Option String) : Action SavedMapping := do
  let u ← s.user
  let _ ← s.get id
  let _ ← during .deactivateOthers (Repository.updateWhere
    { MappingFilter.ofUser u with name := name, category := some category } (.activity false))
  about .activate (Repository.update id (.activity true))

/-- Copies a mapping into a new group under a new name. -/
def copy (s : Store) (id name : String) (freshId freshGroup : String) : Action SavedMapping := do
  let u ← s.user
  let m ← s.get id
  ensureNameFree u name none
  let now := (← MonadState.get).now
  let m := { m with
    id := freshId, groupId := freshGroup, isActive := true, createdAt := now, updatedAt := now }
  during .copy (Repository.insert ((m.rename name).withVersion s.config.bootstrapVersion))

/-- The patch that renames a version and sets its category. -/
def renamePatch (m : SavedMapping) (name : String) (category : Option String) : MappingPatch :=
  let renamed := m.rename name
  ⟨some name, some category, none, some renamed.snapshot, some renamed.rules⟩

/-- Renames all versions of a mapping and sets their category. -/
def update (s : Store) (id name : String) (category : Option String) :
    Action (List SavedMapping) := do
  let u ← s.user
  let m ← s.get id
  ensureNameFree u name (some m.groupId)
  let versions ← during .loadVersions
    (Repository.select { MappingFilter.ofUser u with groupId := m.groupId })
  versions.mapM fun v => during .update (Repository.update v.id (renamePatch v name category))

/-- Whether a record stands for its group rather than another one: an active one before the
others, then the higher version, then the later record. -/
def represents (m n : SavedMapping) : Bool :=
  if m.isActive = n.isActive then m.versionOf.ge n.versionOf else m.isActive

/-- The record that stands for a group. -/
def representative? : List SavedMapping → Option SavedMapping
  | [] => none
  | m :: ms => some (ms.foldl (fun best n => if represents n best then n else best) m)

/-- The order in which mappings are listed: the last updated one first.  Mappings updated at the
same time may come in any order; that they come by their ids is a choice made here, on which no
result depends. -/
def listedBefore (m n : SavedMapping) : Bool :=
  if m.updatedAt = n.updatedAt then m.id ≤ n.id else n.updatedAt.le m.updatedAt

/-- One record of each group among some records, the last updated one first. -/
def representatives (records : List SavedMapping) : List SavedMapping :=
  let groups := (records.map SavedMapping.groupId).eraseDups
  (groups.filterMap fun g => representative? (records.filter fun m => m.groupId == g)).mergeSort
    listedBefore

/-- One record of each of the user's groups: the active version, or else the highest. -/
def latest (s : Store) : Action (List SavedMapping) := do
  let u ← s.user
  return representatives (← during .loadAll (Repository.select (.ofUser u)))

/-- All versions of a mapping, the highest first. -/
def versions (s : Store) (id : String) : Action (List SavedMapping) := do
  let u ← s.user
  let m ← s.get id
  let found ← during .loadVersions
    (Repository.select { MappingFilter.ofUser u with groupId := m.groupId })
  return found.mergeSort fun m n => m.versionOf.ge n.versionOf

/-- Deletes one version. -/
def delete (s : Store) (id : String) : Action Unit := do
  let m ← s.get id
  about .delete (Repository.delete m.id)

end Store
end MappingCanvas
