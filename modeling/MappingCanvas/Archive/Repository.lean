/-
# The table of saved mappings

Saved mappings are kept in a table that is only reached through seven procedures.  Every call may
fail, and one that does has no effect.  A repository therefore holds, beside the records, the
calls made so far, a clock that is read at each of them, and a plan of failures; with the plan
that never fails it is a table in memory.
-/

import MappingCanvas.Archive.Record

namespace MappingCanvas

/-- Why a call failed. -/
inductive PersistenceError
  | notFound (id : String)
  | backend (reason : String)
  deriving DecidableEq

/-- The wording of a persistence error. -/
def PersistenceError.message : PersistenceError → String
  | notFound id => "record '" ++ id ++ "' not found"
  | backend reason => reason

/-- The procedures of a repository. -/
inductive Procedure
  | insert | update | updateWhere | delete | select | nextVersion | activeMapping
  deriving DecidableEq

/-- A table of saved mappings, as it stands after some calls. -/
structure Repository where
  records : List SavedMapping
  /-- The calls made so far, the last one first. -/
  calls : List Procedure
  /-- What the clock shows after a number of calls. -/
  clock : Nat → Instant
  /-- The failure of the `n`th call of a procedure, if it is to fail. -/
  failure : Procedure → Nat → Option PersistenceError

namespace Repository

/-- A procedure call: it may fail and may change the repository. -/
abbrev Call (α : Type) := ExceptT PersistenceError (StateM Repository) α

/-- The time that the clock shows. -/
def now (r : Repository) : Instant := r.clock r.calls.length

/-- Notes a call, and fails if that is planned. -/
def enter (p : Procedure) : Call Unit := do
  let r ← get
  set { r with calls := p :: r.calls }
  match r.failure p (r.calls.count p + 1) with
  | some e => throw e
  | none => return ()

/-- Replaces the records. -/
def setRecords (records : List SavedMapping) : Call Unit := modify fun r => { r with records }

/-- Adds a record; its id must be new. -/
def insert (m : SavedMapping) : Call SavedMapping := do
  enter .insert
  let r ← get
  if r.records.any fun n => n.id == m.id then
    throw (.backend ("duplicate key '" ++ m.id ++ "'"))
  setRecords (r.records ++ [m])
  return m

/-- Changes the first record that `p` holds of. -/
def changeFirst (p : SavedMapping → Bool) (change : SavedMapping → SavedMapping) :
    List SavedMapping → List SavedMapping
  | [] => []
  | m :: ms => if p m then change m :: ms else m :: changeFirst p change ms

/-- Patches the record of an id. -/
def update (id : String) (patch : MappingPatch) : Call SavedMapping := do
  enter .update
  let r ← get
  let some m := r.records.find? fun m => m.id == id | throw (.notFound id)
  setRecords (changeFirst (fun m => m.id == id) (patch.apply r.now) r.records)
  return patch.apply r.now m

/-- Patches all records that a filter accepts; returns their number. -/
def updateWhere (filter : MappingFilter) (patch : MappingPatch) : Call Nat := do
  enter .updateWhere
  let r ← get
  setRecords (r.records.map fun m => if filter.accepts m then patch.apply r.now m else m)
  return r.records.countP filter.accepts

/-- Removes the record of an id. -/
def delete (id : String) : Call Unit := do
  enter .delete
  let r ← get
  if r.records.any fun m => m.id == id then
    setRecords (r.records.filter fun m => m.id != id)
  else throw (.notFound id)

/-- The records that a filter accepts. -/
def select (filter : MappingFilter) : Call (List SavedMapping) := do
  enter .select
  return (← get).records.filter filter.accepts

/-- Whether a record is one of a user's mappings of a name and, if given, category. -/
def isNamed (userId name : String) (category : Option String) (m : SavedMapping) : Bool :=
  m.userId == userId && m.name == name && match category with
    | none => true
    | some c => m.category == some c

/-- The version that the next mapping of a name should have. -/
def nextVersion (userId name : String) (category : Option String) : Call String := do
  enter .nextVersion
  let named := (← get).records.filter (isNamed userId name category)
  match Version.max? (named.map SavedMapping.versionOf) with
  | some v => return v.nextMinor.text
  | none => return Version.first.text

/-- The first active mapping of a name. -/
def activeMapping (userId name : String) (category : Option String) :
    Call (Option SavedMapping) := do
  enter .activeMapping
  return (← get).records.find? fun m => isNamed userId name category m && m.isActive

end Repository
end MappingCanvas
