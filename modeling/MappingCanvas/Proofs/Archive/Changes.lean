/-
# What operations do to the records

An operation on a table in memory is refused, or it makes one change of the records (`Change`):

| operation | change |
| --- | --- |
| save | the group's active mappings become inactive, and a mapping is added |
| activate | the mappings of a name and category become inactive, and one becomes active |
| copy | a mapping is added |
| update | the mappings of a group get a name and a category |
| delete | a mapping goes |
| the others | none |

It is refused for one of these causes (`Refusal`), in this order, and then the records stay as they
are:

| operation | cause |
| --- | --- |
| all | nobody is signed in |
| save | the name is blank, or only inactive mappings have it |
| all but save and the list of the latest | the user has no mapping of the id |
| copy | the user has a mapping of the name |
| update | the user has a mapping of the name in another group |

That is all that an operation can do, as long as ids are unique and the ids that it is given are new
(`run_outcome`).
-/

import MappingCanvas.Proofs.Archive.Failures

namespace MappingCanvas

/-! ### Changed mappings -/

namespace SavedMapping

/-- A mapping that became active or inactive at a point in time. -/
def withActivity (m : SavedMapping) (isActive : Bool) (t : Instant) : SavedMapping :=
  { m with isActive := isActive, updatedAt := t }

/-- A mapping that got a name and a category at a point in time. -/
def retitled (m : SavedMapping) (name : String) (category : Option String) (t : Instant) :
    SavedMapping :=
  { m.rename name with category := category, updatedAt := t }

/-- A copy that was made at a point in time. -/
def copied (m : SavedMapping) (id groupId name version : String) (t : Instant) : SavedMapping :=
  (({ m with id := id, groupId := groupId, isActive := true, createdAt := t, updatedAt := t } :
    SavedMapping).rename name).withVersion version

/-- Activity is no part of an id. -/
theorem ids_withActivity (ms : List SavedMapping) (p : SavedMapping → Bool) (isActive : Bool)
    (t : Instant) : (changeWhere p (·.withActivity isActive t) ms).map id = ms.map id :=
  map_changeWhere fun _ => rfl

/-- Names and categories are no part of an id. -/
theorem ids_retitled (ms : List SavedMapping) (p : SavedMapping → Bool) (name : String)
    (category : Option String) (time : SavedMapping → Instant) :
    (changeWhere p (fun m => m.retitled name category (time m)) ms).map id = ms.map id :=
  map_changeWhere fun _ => rfl

end SavedMapping

/-- The mapping that a request saves at a point in time. -/
def SaveRequest.mapping (request : SaveRequest) (id userId version : String)
    (base : Store.Inherited) (t : Instant) : SavedMapping :=
  ((⟨id, userId, Text.trim request.name, version, base.category, base.description, base.tags,
    base.transformType, base.groupId, request.snapshot, request.rules, true, t, t⟩ :
      SavedMapping).rename (Text.trim request.name)).withVersion version

/-! ### Changes -/

variable {ms : List SavedMapping}

namespace Store

/-- What a version takes over from an active version. -/
def Inherited.ofActive (request : SaveRequest) (m : SavedMapping) : Inherited :=
  ⟨m.groupId, request.category <|> m.category, request.description <|> m.description,
    request.tags.getD m.tags, request.transformType <|> m.transformType⟩

/-- What the first version of a group has. -/
def Inherited.ofFresh (request : SaveRequest) (freshGroup : String) : Inherited :=
  ⟨freshGroup, request.category, request.description, request.tags.getD [], request.transformType⟩

/-- A version continues the group of the first active mapping of its name, or begins a group when
its name is free. -/
inductive Inherits (ms : List SavedMapping) (request : SaveRequest) (u freshGroup : String) :
    Inherited → Prop
  | active {m : SavedMapping} (hfirst : (ms.find? fun m =>
      Repository.isNamed u (Text.trim request.name) none m && m.isActive) = some m) :
      Inherits ms request u freshGroup (.ofActive request m)
  | fresh (hfree : ∀ m ∈ ms, m.userId = u → m.name ≠ Text.trim request.name) :
      Inherits ms request u freshGroup (.ofFresh request freshGroup)

/-- The mappings of a user's group. -/
def inGroup (u g : String) (m : SavedMapping) : Bool := m.userId == u && m.groupId == g

/-- The mappings of a user, a name and a category. -/
def isTitled (u name : String) (category : Option String) (m : SavedMapping) : Bool :=
  m.userId == u && m.name == name && m.category == category

/-- The filter of a user and a group accepts the mappings of this user's group. -/
theorem accepts_group {u g : String} {m : SavedMapping} :
    { MappingFilter.ofUser u with groupId := g : MappingFilter }.accepts m = inGroup u g m := by
  rw [Bool.eq_iff_iff, MappingFilter.accepts_iff]
  simp [inGroup, MappingFilter.ofUser]

/-- The filter that also asks for activity accepts those of them that are active. -/
theorem accepts_group_active {u g : String} {m : SavedMapping} :
    { MappingFilter.ofUser u with groupId := g, isActive := true : MappingFilter }.accepts m =
      (inGroup u g m && m.isActive) := by
  rw [Bool.eq_iff_iff, MappingFilter.accepts_iff]
  simp [inGroup, MappingFilter.ofUser, and_assoc]

/-- The filter of a user, a name and a category accepts the mappings so titled. -/
theorem accepts_title {u name : String} {category : Option String} {m : SavedMapping} :
    { MappingFilter.ofUser u with name := name, category := some category : MappingFilter }.accepts
      m = isTitled u name category m := by
  rw [Bool.eq_iff_iff, MappingFilter.accepts_iff]
  simp [isTitled, MappingFilter.ofUser, and_assoc]

/-- A save adds the version `m` to `ms`. -/
inductive Saved (s : Store) (request : SaveRequest) (freshId freshGroup : String)
    (ms : List SavedMapping) : SavedMapping → List SavedMapping → Prop
  | intro {u version : String} {base : Inherited} {t t' : Instant} (hu : s.userId = some u)
      (hname : Text.trim request.name ≠ "") (hbase : Inherits ms request u freshGroup base)
      (hversion : version = request.version.getD
        (Repository.nextOf ms u (Text.trim request.name) base.category).text) :
      Saved s request freshId freshGroup ms (request.mapping freshId u version base t')
        (changeWhere (fun m => inGroup u base.groupId m && m.isActive)
            (·.withActivity false t) ms ++ [request.mapping freshId u version base t'])

/-- A user has mappings of a name, but none of them is active. -/
def Dormant (ms : List SavedMapping) (u name : String) : Prop :=
  (∃ m ∈ ms, m.userId = u ∧ m.name = name) ∧
    ∀ m ∈ ms, m.userId = u → m.name = name → m.isActive = false

/-- No active mapping of a name is found exactly if all of them are inactive, whatever their
category. -/
theorem find?_named_eq_none {u name : String} :
    (ms.find? fun m => Repository.isNamed u name none m && m.isActive) = none ↔
      ∀ m ∈ ms, m.userId = u → m.name = name → m.isActive = false := by
  simp [Repository.isNamed]

/-- What a version takes over, it takes over from an active mapping or under a free name, so never
where a name is dormant. -/
theorem Inherits.not_dormant {request : SaveRequest} {u freshGroup : String} {base : Inherited}
    (h : Inherits ms request u freshGroup base) : ¬Dormant ms u (Text.trim request.name) := by
  rintro ⟨⟨n, hn, hu, hname⟩, hinactive⟩
  cases h with
  | active hfirst => cases hfirst.symm.trans (find?_named_eq_none.2 hinactive)
  | fresh hfree => exact hfree n hn hu hname

/-- What a version takes over is found without a change of the records. -/
theorem ends_inherit {r₀ : Repository} {request : SaveRequest} {u freshGroup : String}
    {Q : Except StoreError Inherited → List SavedMapping → Prop}
    {F : Procedure → PersistenceError → StoreError → List SavedMapping → Prop}
    (hfail : ∀ e, F .select e (.persistence .checkName e) ms)
    (hbase : ∀ base, Inherits ms request u freshGroup base → Q (.ok base) ms)
    (hdormant : Dormant ms u (Text.trim request.name) →
      Q (.error (.nameConflict (Text.trim request.name))) ms) :
    Ends r₀ (inherit request u (Text.trim request.name) freshGroup
      (ms.find? fun m => Repository.isNamed u (Text.trim request.name) none m && m.isActive)) ms
        Q F := by
  cases hfirst : ms.find? fun m =>
      Repository.isNamed u (Text.trim request.name) none m && m.isActive with
  | some m => exact ends_pure (hbase _ (.active hfirst))
  | none =>
    have hinactive := find?_named_eq_none.1 hfirst
    refine ends_bind (ends_nameFree hfail (fun hfree => ?_) fun ⟨n, hn, hu, hname, _⟩ => ?_)
    · refine ends_pure (hbase _ (.fresh fun m hm hu hname => ?_))
      cases hfree m hm hu hname
    · exact hdormant ⟨⟨n, hn, hu, hname⟩, hinactive⟩

/-- Records in which no mapping of a group is active, those that were since a point in time. -/
def retired (u g : String) (t : Instant) (ms : List SavedMapping) : List SavedMapping :=
  changeWhere (fun m => inGroup u g m && m.isActive) (·.withActivity false t) ms

/-- Records in which no mapping of a user, a name and a category is active, as they were found at a
point in time. -/
def withdrawn (u name : String) (category : Option String) (t : Instant) (ms : List SavedMapping) :
    List SavedMapping :=
  changeWhere (isTitled u name category) (·.withActivity false t) ms

/-! ### Operations -/

/-- An operation of a store, with the fresh ids that it draws. -/
inductive Operation
  | save (request : SaveRequest) (freshId freshGroup : String)
  | activate (id name : String) (category : Option String)
  | copy (id name freshId freshGroup : String)
  | update (id name : String) (category : Option String)
  | delete (id : String)
  | get (id : String)
  | versions (id : String)
  | latest

namespace Operation

/-- The fresh ids of an operation. -/
def drawn : Operation → List String
  | save _ freshId freshGroup => [freshId, freshGroup]
  | copy _ _ freshId freshGroup => [freshId, freshGroup]
  | _ => []

/-- The id of the mapping that an operation is about. -/
def subject? : Operation → Option String
  | activate id _ _ | copy id _ _ _ | update id _ _ | delete id | get id | versions id => some id
  | save _ _ _ | latest => none

/-- The repository after an operation, whatever its outcome. -/
def perform (s : Store) : Operation → Repository → Repository
  | save request freshId freshGroup, r => (s.save request freshId freshGroup r).2
  | activate id name category, r => (s.activate id name category r).2
  | copy id name freshId freshGroup, r => (s.copy id name freshId freshGroup r).2
  | update id name category, r => (s.update id name category r).2
  | delete id, r => (s.delete id r).2
  | get id, r => (s.get id r).2
  | versions id, r => (s.versions id r).2
  | latest, r => (s.latest r).2

end Operation

/-- What an operation answers. -/
inductive Reply
  | mapping (m : SavedMapping)
  | mappings (ms : List SavedMapping)
  | deleted

/-- An operation with its answer. -/
def Operation.run (s : Store) : Operation → Action Reply
  | save request freshId freshGroup => do
    return .mapping (← s.save request freshId freshGroup)
  | activate id name category => do return .mapping (← s.activate id name category)
  | copy id name freshId freshGroup => do return .mapping (← s.copy id name freshId freshGroup)
  | update id name category => do return .mappings (← s.update id name category)
  | delete id => do
    s.delete id
    return .deleted
  | get id => do return .mapping (← s.get id)
  | versions id => do return .mappings (← s.versions id)
  | latest => do return .mappings (← s.latest)

/-- What is made of an answer does not touch the repository. -/
theorem bind_pure_snd {β γ : Type} (act : Action β) (f : β → γ) (r : Repository) :
    ((act >>= fun a => pure (f a)) r).2 = (act r).2 := by
  rw [bind_apply]
  generalize act r = result
  obtain ⟨_ | _, r'⟩ := result <;> rfl

/-- To perform an operation is to run it and forget the answer. -/
theorem Operation.perform_eq (s : Store) (op : Operation) (r : Repository) :
    op.perform s r = (op.run s r).2 := by
  cases op <;> exact (bind_pure_snd _ _ _).symm

/-! ### Refusals and changes -/

/-- Why an operation is refused. -/
inductive Refusal (s : Store) (ms : List SavedMapping) : Operation → StoreError → Prop
  | anonymous {op : Operation} (hu : s.userId = none) : Refusal s ms op .unauthenticated
  | unnamed {request : SaveRequest} {freshId freshGroup u : String} (hu : s.userId = some u)
      (hname : Text.trim request.name = "") :
      Refusal s ms (.save request freshId freshGroup) .emptyName
  | dormant {request : SaveRequest} {freshId freshGroup u : String} (hu : s.userId = some u)
      (hname : Text.trim request.name ≠ "") (h : Dormant ms u (Text.trim request.name)) :
      Refusal s ms (.save request freshId freshGroup) (.nameConflict (Text.trim request.name))
  | missing {op : Operation} {id u : String} (hid : op.subject? = some id)
      (hu : s.userId = some u) (h : ∀ m, ¬s.Owned ms id m) : Refusal s ms op (.notFound id)
  | copyTaken {id name freshId freshGroup : String} {m : SavedMapping} (hm : s.Owned ms id m)
      (h : ∃ n ∈ ms, n.userId = m.userId ∧ n.name = name) :
      Refusal s ms (.copy id name freshId freshGroup) (.nameConflict name)
  | updateTaken {id name : String} {category : Option String} {m : SavedMapping}
      (hm : s.Owned ms id m)
      (h : ∃ n ∈ ms, n.userId = m.userId ∧ n.name = name ∧ n.groupId ≠ m.groupId) :
      Refusal s ms (.update id name category) (.nameConflict name)

/-- What an operation does to the records.  Every operation but an activation of one of the user's
mappings may leave them alone. -/
inductive Change (s : Store) (ms : List SavedMapping) : Operation → List SavedMapping → Prop
  | kept {op : Operation}
      (h : ∀ id name category, op = .activate id name category → ∀ m, ¬s.Owned ms id m) :
      Change s ms op ms
  | saved {request : SaveRequest} {freshId freshGroup : String} {m : SavedMapping}
      {ms' : List SavedMapping} (h : Saved s request freshId freshGroup ms m ms') :
      Change s ms (.save request freshId freshGroup) ms'
  | activated {id name : String} {category : Option String} {m : SavedMapping} {t t' : Instant}
      (hm : s.Owned ms id m) :
      Change s ms (.activate id name category)
        (changeWhere (fun n => n.id == id) (·.withActivity true t')
          (changeWhere (isTitled m.userId name category) (·.withActivity false t) ms))
  | copied {id name freshId freshGroup : String} {m : SavedMapping} {t : Instant}
      (hm : s.Owned ms id m) (hfree : ∀ n ∈ ms, n.userId = m.userId → n.name ≠ name) :
      Change s ms (.copy id name freshId freshGroup)
        (ms ++ [m.copied freshId freshGroup name s.config.bootstrapVersion t])
  | updated {id name : String} {category : Option String} {m : SavedMapping}
      {time : SavedMapping → Instant} (hm : s.Owned ms id m)
      (hfree : ∀ n ∈ ms, n.userId = m.userId → n.name = name → n.groupId = m.groupId) :
      Change s ms (.update id name category)
        (changeWhere (inGroup m.userId m.groupId)
          (fun n => n.retitled name category (time n)) ms)
  | deleted {id : String} {m : SavedMapping} (hm : s.Owned ms id m) :
      Change s ms (.delete id) (ms.filter fun n => n.id != id)

variable {s : Store} {id name freshId freshGroup : String} {category : Option String}
  {op : Operation} {m : SavedMapping} {e : StoreError}

/-- Every operation but an activation may leave the records as they are. -/
theorem Change.kept_of_ne (h : ∀ id name category, op ≠ .activate id name category) :
    Change s ms op ms :=
  .kept fun id name category hop => absurd hop (h id name category)

/-- A refusal is no change. -/
theorem Refusal.change (h : Refusal s ms op e) : Change s ms op ms := by
  cases h with
  | anonymous hu => exact .kept fun _ _ _ _ m hm => by cases hu.symm.trans hm.user_eq
  | missing hid hu h =>
    refine .kept fun id name category hop m hm => ?_
    subst hop
    cases hid
    exact h m hm
  | _ => exact .kept_of_ne nofun

/-- An operation about a mapping of the user is refused for a name that is taken, if at all. -/
theorem Owned.not_refusal (hm : s.Owned ms id m) (hid : op.subject? = some id)
    (htaken : ∀ name, ¬Refusal s ms op (.nameConflict name)) : ¬Refusal s ms op e := by
  intro h
  cases h with
  | anonymous hu => cases hu.symm.trans hm.user_eq
  | unnamed => cases hid
  | dormant => cases hid
  | missing hid' hu h =>
    cases hid.symm.trans hid'
    exact h m hm
  | copyTaken hn h => exact htaken _ (.copyTaken hn h)
  | updateTaken hn h => exact htaken _ (.updateTaken hn h)

/-- An operation on some records is refused and leaves them alone, or there is no cause to refuse it
and it makes a change. -/
def Outcome (s : Store) (ms : List SavedMapping) (op : Operation) {α : Type} :
    Except StoreError α → List SavedMapping → Prop
  | .error e, ms' => Refusal s ms op e ∧ ms' = ms
  | .ok _, ms' => (∀ e, ¬Refusal s ms op e) ∧ Change s ms op ms'

/-- A refusal leaves the records as they are. -/
theorem Refusal.outcome {α : Type} (h : Refusal s ms op e) :
    Outcome s ms op (.error e : Except StoreError α) ms := ⟨h, rfl⟩

/-- Whatever comes of an operation, it is one of its changes. -/
theorem Outcome.change {α : Type} {o : Except StoreError α} {ms' : List SavedMapping}
    (h : Outcome s ms op o ms') : Change s ms op ms' := by
  cases o with
  | ok a => exact h.2
  | error e => exact h.2 ▸ h.1.change

/-! ### Each operation -/

/-- The stage of a save at which it makes a call. -/
def savingStage : Procedure → Stage
  | .activeMapping => .lookUpActive
  | .select => .checkName
  | .nextVersion => .nextVersion
  | .updateWhere => .deactivatePrevious
  | _ => .save

/-- What a save leaves that is interrupted at a call. -/
inductive Unsaved (r₀ : Repository) (u : String) (request : SaveRequest) (freshGroup : String)
    (ms : List SavedMapping) : Procedure → List SavedMapping → Prop
  | early {p : Procedure} (hp : p ≠ .insert) : Unsaved r₀ u request freshGroup ms p ms
  | late {base : Inherited} {t : Instant} (hbase : Inherits ms request u freshGroup base)
      (ht : r₀.Shows t) :
      Unsaved r₀ u request freshGroup ms .insert (retired u base.groupId t ms)

/-- The error of an activation that is interrupted at a call; the call that activates is about one
record, which may be gone. -/
def activatingError : Procedure → PersistenceError → StoreError
  | .select, e => .persistence .load e
  | .updateWhere, e => .persistence .deactivateOthers e
  | _, .notFound id => .notFound id
  | _, e => .persistence .activate e

/-- What an activation leaves that is interrupted at a call. -/
inductive Unactivated (r₀ : Repository) (u name : String) (category : Option String)
    (ms : List SavedMapping) : Procedure → List SavedMapping → Prop
  | early {p : Procedure} (hp : p ≠ .update) : Unactivated r₀ u name category ms p ms
  | late {t : Instant} (ht : r₀.Shows t) :
      Unactivated r₀ u name category ms .update (withdrawn u name category t ms)

/-- A version in place of the active ones of a group. -/
theorem ends_succeed {r₀ : Repository} {u : String} {request : SaveRequest} {base : Inherited}
    {m : Instant → SavedMapping} {Q : Except StoreError SavedMapping → List SavedMapping → Prop}
    {F : Procedure → PersistenceError → StoreError → List SavedMapping → Prop}
    (hbase : Inherits ms request u freshGroup base)
    (hfail : ∀ p e ms', Unsaved r₀ u request freshGroup ms p ms' →
      F p e (.persistence (savingStage p) e) ms')
    (hfresh : ∀ t, ∀ n ∈ ms, n.id ≠ (m t).id)
    (h : ∀ t t', r₀.Shows t → r₀.Shows t' →
      Q (.ok (m t')) (retired u base.groupId t ms ++ [m t'])) :
    Ends r₀ (do
      let _ ← during .deactivatePrevious (Repository.updateWhere
        { MappingFilter.ofUser u with groupId := base.groupId, isActive := true } (.activity false))
      let now := (← MonadState.get).now
      during .save (Repository.insert (m now))) ms Q F := by
  refine ends_bind (ends_calling rfl (fun e => hfail _ e _ (.early nofun)) fun r hr hp hms =>
    ⟨_, _, Repository.updateWhere_eq hp _ _, ?_⟩)
  have hretired : changeWhere
      { MappingFilter.ofUser u with groupId := base.groupId, isActive := true }.accepts
      ((MappingPatch.activity false).apply r.nextTime) r.records =
        retired u base.groupId r.nextTime ms :=
    hms ▸ changeWhere_congr fun _ _ => accepts_group_active
  dsimp only
  rw [hretired]
  refine ends_bind (ends_clock fun r' hr' => ?_)
  refine ends_calling rfl (fun e => hfail _ e _ (.late hbase hr.shows_nextTime))
    fun r'' _ hp' hms' => ⟨_, _, Repository.insert_eq hp' ?_, ?_⟩
  · rw [hms']
    exact forall_mem_changeWhere (hfresh _) fun _ _ hid => hid
  · rw [hms']
    exact h _ _ hr.shows_nextTime hr'.shows_now

/-- **A save step by step.**  It is refused, or it makes the active mappings of a group inactive and
adds a version; or it is interrupted on the way. -/
theorem save_ends {r₀ : Repository} {request : SaveRequest} (hfresh : ∀ n ∈ ms, n.id ≠ freshId) :
    Ends r₀ (s.save request freshId freshGroup) ms
      (fun o ms' => match o with
        | .error e => Refusal s ms (.save request freshId freshGroup) e ∧ ms' = ms
        | .ok m => (∀ e, ¬Refusal s ms (.save request freshId freshGroup) e) ∧
            ∃ u version base t t', s.userId = some u ∧ Text.trim request.name ≠ "" ∧
              Inherits ms request u freshGroup base ∧ r₀.Shows t ∧ r₀.Shows t' ∧
              version = request.version.getD
                (Repository.nextOf ms u (Text.trim request.name) base.category).text ∧
              m = request.mapping freshId u version base t' ∧
              ms' = retired u base.groupId t ms ++ [m])
      fun p e ε ms' => ε = .persistence (savingStage p) e ∧
        ∃ u, s.userId = some u ∧ Unsaved r₀ u request freshGroup ms p ms' := by
  refine ends_bind (ends_user (fun u hu => ?_) fun hu => ⟨.anonymous hu, rfl⟩)
  dsimp only
  split
  · rename_i hname
    exact ends_throw ⟨.unnamed hu (by simpa using hname), rfl⟩
  rename_i hname
  have hname : Text.trim request.name ≠ "" := by simpa using hname
  have hearly : ∀ p e, p ≠ .insert →
      StoreError.persistence (savingStage p) e = .persistence (savingStage p) e ∧
        ∃ u, s.userId = some u ∧ Unsaved r₀ u request freshGroup ms p ms :=
    fun p e hp => ⟨rfl, u, hu, .early hp⟩
  refine ends_bind (ends_calling rfl (fun e => hearly .activeMapping e nofun) fun r _ hp hms =>
    ⟨_, _, Repository.activeMapping_eq hp _ _ _, ?_⟩)
  rw [hms]
  refine ends_bind (ends_inherit (fun e => hearly .select e nofun) (fun base hbase => ?_)
    fun h => ⟨.dormant hu hname h, rfl⟩)
  dsimp only
  have hnone : ∀ e, ¬Refusal s ms (.save request freshId freshGroup) e := by
    intro e h
    cases h with
    | anonymous hu' => cases hu.symm.trans hu'
    | unnamed hu' hname' => exact hname hname'
    | dormant hu' hname' h =>
      obtain rfl := Option.some.inj (hu.symm.trans hu')
      exact hbase.not_dormant h
    | missing hid => cases hid
  cases hversion : request.version with
  | some v =>
    refine ends_bind (ends_pure ?_)
    refine ends_succeed (m := request.mapping freshId u v base) hbase
      (fun p e ms' h => ⟨rfl, u, hu, h⟩) (fun _ => hfresh) fun t t' ht ht' => ?_
    exact ⟨hnone, u, v, base, t, t', hu, hname, hbase, ht, ht', rfl, rfl, rfl⟩
  | none =>
    refine ends_bind (ends_calling rfl (fun e => hearly .nextVersion e nofun) fun r _ hp hms =>
      ⟨_, _, Repository.nextVersion_eq hp _ _ _, ?_⟩)
    rw [hms]
    refine ends_succeed (m := request.mapping freshId u _ base) hbase
      (fun p e ms' h => ⟨rfl, u, hu, h⟩) (fun _ => hfresh) fun t t' ht ht' => ?_
    exact ⟨hnone, u, _, base, t, t', hu, hname, hbase, ht, ht', rfl, rfl, rfl⟩

/-- **A save that is not refused adds a version.** -/
theorem save_saved {s : Store} {request : SaveRequest} {freshId freshGroup : String}
    (hfresh : ∀ n ∈ ms, n.id ≠ freshId) :
    Ensures (s.save request freshId freshGroup) ms fun o ms' =>
      (∃ e, o = .error e) ∧ ms' = ms ∨
        ∃ m, o = .ok m ∧ Saved s request freshId freshGroup ms m ms' := by
  refine Ends.ensures (fun _ => save_ends hfresh) fun _ o ms' h => ?_
  cases o with
  | ok m =>
    obtain ⟨-, u, version, base, t, t', hu, hname, hbase, -, -, hversion, rfl, rfl⟩ := h
    exact .inr ⟨_, rfl, hu, hname, hbase, hversion⟩
  | error e => exact .inl ⟨⟨e, rfl⟩, h.2⟩

/-- A save is refused, or adds a version to the group. -/
theorem save_outcome {request : SaveRequest} (hfresh : ∀ n ∈ ms, n.id ≠ freshId) :
    Ensures (s.save request freshId freshGroup) ms
      (Outcome s ms (.save request freshId freshGroup)) := by
  refine Ends.ensures (fun _ => save_ends hfresh) fun _ o ms' h => ?_
  cases o with
  | ok m =>
    obtain ⟨hnone, u, version, base, t, t', hu, hname, hbase, -, -, hversion, rfl, rfl⟩ := h
    exact ⟨hnone, .saved ⟨hu, hname, hbase, hversion⟩⟩
  | error e => exact h

/-- **An activation step by step.**  It is refused, or it makes the mappings of a name and category
inactive and one mapping active; or it is interrupted on the way.  The record is still found by its
id after the deactivation, which keeps all ids. -/
theorem activate_ends {r₀ : Repository} (hids : (ms.map SavedMapping.id).Nodup) :
    Ends r₀ (s.activate id name category) ms
      (fun o ms' => match o with
        | .error e => Refusal s ms (.activate id name category) e ∧ ms' = ms
        | .ok n => ∃ m t t', s.Owned ms id m ∧ r₀.Shows t ∧ r₀.Shows t' ∧
            n = m.withActivity true t' ∧ ms' = changeWhere (fun n => n.id == id)
              (·.withActivity true t') (withdrawn m.userId name category t ms))
      fun p e ε ms' => ε = activatingError p e ∧
        ∃ u, s.userId = some u ∧ Unactivated r₀ u name category ms p ms' := by
  refine ends_bind (ends_user (fun u hu => ?_) fun hu => ⟨.anonymous hu, rfl⟩)
  refine ends_bind (ends_get (fun e => ⟨rfl, u, hu, .early nofun⟩) (fun hu => ⟨.anonymous hu, rfl⟩)
    (fun u hu h => ⟨.missing rfl hu h, rfl⟩) fun m hm => ?_)
  obtain rfl := hm.userId_eq hu
  refine ends_bind (ends_calling rfl (fun e => ⟨rfl, m.userId, hu, .early nofun⟩)
    fun r hr hp hms => ⟨_, _, Repository.updateWhere_eq hp _ _, ?_⟩)
  have hwithdrawn : changeWhere { MappingFilter.ofUser m.userId with
      name := name, category := some category }.accepts
        ((MappingPatch.activity false).apply r.nextTime) r.records =
      withdrawn m.userId name category r.nextTime ms :=
    hms ▸ changeWhere_congr fun _ _ => accepts_title
  dsimp only
  rw [hwithdrawn]
  have hsame := SavedMapping.ids_withActivity ms (isTitled m.userId name category) false r.nextTime
  have hfound : ∃ k ∈ withdrawn m.userId name category r.nextTime ms, k.id = m.id ∧
      ∀ t, (MappingPatch.activity true).apply t k = m.withActivity true t := by
    refine ⟨_, List.mem_map_of_mem hm.mem, ?_⟩
    split <;> exact ⟨rfl, fun _ => rfl⟩
  obtain ⟨k, hk, hid, hactive⟩ := hfound
  have hk := find?_key (hsame ▸ hids) hk
  rw [hid, hm.id_eq] at hk
  refine ends_calling rfl (fun e => ⟨?_, m.userId, hu, .late hr.shows_nextTime⟩)
    fun r' hr' hp' hms' => ⟨_, _, Repository.update_eq hp' (hms' ▸ hk) _, ?_⟩
  · cases e <;> rfl
  · rw [hms', changeFirst_eq (hsame ▸ hids), hactive]
    exact ⟨m, _, _, hm, hr.shows_nextTime, hr'.shows_nextTime, rfl, rfl⟩

/-- An activation is refused, or moves the activity to one mapping. -/
theorem activate_outcome (hids : (ms.map SavedMapping.id).Nodup) :
    Ensures (s.activate id name category) ms (Outcome s ms (.activate id name category)) := by
  refine Ends.ensures (fun _ => activate_ends hids) fun _ o ms' h => ?_
  cases o with
  | ok n =>
    obtain ⟨m, t, t', hm, -, -, -, rfl⟩ := h
    exact ⟨fun e => hm.not_refusal rfl nofun, .activated hm⟩
  | error e => exact h

/-- **A copy adds one mapping**, unless it is refused or its id is not new. -/
theorem copy_copies : Ensures (s.copy id name freshId freshGroup) ms fun o ms' => match o with
    | .error e => (Refusal s ms (.copy id name freshId freshGroup) e ∨ ∃ n ∈ ms, n.id = freshId) ∧
        ms' = ms
    | .ok n => ∃ m t, s.Owned ms id m ∧ (∀ n ∈ ms, n.userId = m.userId → n.name ≠ name) ∧
        n = m.copied freshId freshGroup name s.config.bootstrapVersion t ∧ ms' = ms ++ [n] := by
  refine ensures_bind (ensures_user (fun u hu => ?_) fun hu => ⟨.inl (.anonymous hu), rfl⟩)
  refine ensures_bind (ensures_get (fun hu => ⟨.inl (.anonymous hu), rfl⟩)
    (fun u hu h => ⟨.inl (.missing rfl hu h), rfl⟩) fun m hm => ?_)
  obtain rfl := hm.userId_eq hu
  refine ensures_bind (ensures_nameFree (fun hfree => ?_) fun ⟨n, hn, hown, hname, _⟩ =>
    ⟨.inl (.copyTaken hm ⟨n, hn, hown, hname⟩), rfl⟩)
  have hfree : ∀ n ∈ ms, n.userId = m.userId → n.name ≠ name := fun n hn hown hname => by
    cases hfree n hn hown hname
  exact ensures_bind (ensures_clock fun r => ensures_insertion
    (fun _ => ⟨m, _, hm, hfree, rfl, rfl⟩) fun htaken _ => ⟨.inr htaken, rfl⟩)

/-- A copy is refused, or adds a mapping in a group of its own. -/
theorem copy_outcome (hfresh : ∀ n ∈ ms, n.id ≠ freshId) :
    Ensures (s.copy id name freshId freshGroup) ms
      (Outcome s ms (.copy id name freshId freshGroup)) := by
  refine copy_copies.mono fun o ms' h => ?_
  cases o with
  | error e =>
    obtain ⟨hrefusal | ⟨n, hn, hid⟩, rfl⟩ := h
    · exact hrefusal.outcome
    · exact absurd hid (hfresh n hn)
  | ok n =>
    obtain ⟨m, t, hm, hfree, rfl, rfl⟩ := h
    refine ⟨fun e => hm.not_refusal rfl fun name' h => ?_, .copied hm hfree⟩
    cases h with
    | copyTaken hm' h =>
      obtain ⟨n, hn, hown, hname⟩ := h
      exact hfree n hn (hown.trans (hm'.userId_eq hm.user_eq)) hname

/-- A record of an id is renamed where it stands, and its documents with it. -/
theorem ensures_renamePatch {v : SavedMapping}
    {Q : Except StoreError SavedMapping → List SavedMapping → Prop}
    (hids : (ms.map SavedMapping.id).Nodup) (hv : v ∈ ms)
    (h : ∀ t, Q (.ok (v.retitled name category t))
      (changeWhere (fun n => n.id == v.id) (·.retitled name category t) ms)) :
    Ensures (during .update (Repository.update v.id (renamePatch v name category))) ms Q := by
  refine ensures_update (find?_key hids hv) fun t => ?_
  have hms : changeWhere (fun n => n.id == v.id) ((renamePatch v name category).apply t) ms =
      changeWhere (fun n => n.id == v.id) (·.retitled name category t) ms := by
    refine List.map_congr_left fun n hn => ?_
    split
    · rename_i hid
      rw [List.inj_on_of_nodup_map hids hn hv (beq_iff_eq.1 hid)]
      rfl
    · rfl
  rw [changeFirst_eq hids, hms]
  exact h t

/-- Records of some ids, renamed one by one at points in time of their own.  The patch of a record
is made from what was read at first, so the records still to come must be untouched: that is what
distinct ids are needed for. -/
theorem ensures_retitle {vs : List SavedMapping}
    {Q : Except StoreError (List SavedMapping) → List SavedMapping → Prop}
    (hids : (ms.map SavedMapping.id).Nodup) (hdistinct : (vs.map SavedMapping.id).Nodup)
    (hmem : ∀ v ∈ vs, v ∈ ms)
    (h : ∀ time : SavedMapping → Instant,
      Q (.ok (vs.map fun v => v.retitled name category (time v))) (changeWhere
        (fun n => vs.any fun v => n.id == v.id) (fun n => n.retitled name category (time n)) ms)) :
    Ensures (vs.mapM fun v => during .update (Repository.update v.id (renamePatch v name category)))
      ms Q := by
  induction vs generalizing ms Q with
  | nil =>
    refine ensures_pure ?_
    simpa [changeWhere] using h SavedMapping.updatedAt
  | cons v vs ih =>
    obtain ⟨hv, hdistinct⟩ := List.nodup_cons.1 hdistinct
    have hne : ∀ w ∈ vs, w.id ≠ v.id := fun w hw heq => hv (heq ▸ List.mem_map_of_mem hw)
    rw [List.mapM_cons]
    refine ensures_bind (ensures_renamePatch hids (hmem v List.mem_cons_self) fun t => ?_)
    refine ensures_bind (ih ?_ hdistinct (fun w hw => ?_) fun time => ensures_pure ?_)
    · rwa [SavedMapping.ids_retitled ms _ name category fun _ => t]
    · exact List.mem_map.2
        ⟨w, hmem w (List.mem_cons_of_mem _ hw), if_neg (by simpa using hne w hw)⟩
    · rw [changeWhere_changeWhere]
      · have htimes : (fun n : SavedMapping => if n.id == v.id then n.retitled name category t
              else n.retitled name category (time n)) =
            fun n => n.retitled name category (if n.id == v.id then t else time n) :=
          funext fun n => (apply_ite (n.retitled name category) _ _ _).symm
        have hvs : vs.map (fun w => w.retitled name category (time w)) = vs.map fun w =>
            w.retitled name category (if w.id == v.id then t else time w) :=
          List.map_congr_left fun w hw => by rw [if_neg (by simpa using hne w hw)]
        have hv : v.retitled name category t =
            v.retitled name category (if v.id == v.id then t else time v) := by
          rw [if_pos (beq_self_eq_true v.id)]
        rw [htimes, hvs, hv]
        exact h fun n => if n.id == v.id then t else time n
      · intro n hn
        exact List.any_eq_false.2 fun w hw hw' =>
          hne w hw ((beq_iff_eq.1 hw').symm.trans (beq_iff_eq.1 hn))

/-- **An update renames a group and answers with its versions**, unless it is refused. -/
theorem update_renames (hids : (ms.map SavedMapping.id).Nodup) :
    Ensures (s.update id name category) ms fun o ms' => match o with
      | .error e => Refusal s ms (.update id name category) e ∧ ms' = ms
      | .ok ns => ∃ (m : SavedMapping) (time : SavedMapping → Instant), s.Owned ms id m ∧
          (∀ n ∈ ms, n.userId = m.userId → n.name = name → n.groupId = m.groupId) ∧
          ns = (ms.filter (inGroup m.userId m.groupId)).map
            (fun n => n.retitled name category (time n)) ∧
          ms' = changeWhere (inGroup m.userId m.groupId)
            (fun n => n.retitled name category (time n)) ms := by
  refine ensures_bind (ensures_user (fun u hu => ?_) fun hu => ⟨.anonymous hu, rfl⟩)
  refine ensures_bind (ensures_get (fun hu => ⟨.anonymous hu, rfl⟩)
    (fun u hu h => ⟨.missing rfl hu h, rfl⟩) fun m hm => ?_)
  obtain rfl := hm.userId_eq hu
  refine ensures_bind (ensures_nameFree (fun hfree => ?_) fun ⟨n, hn, hown, hname, hgroup⟩ =>
    ⟨.updateTaken hm ⟨n, hn, hown, hname, fun heq => hgroup (congrArg _ heq.symm)⟩, rfl⟩)
  have hfree : ∀ n ∈ ms, n.userId = m.userId → n.name = name → n.groupId = m.groupId :=
    fun n hn hown hname => (Option.some.inj (hfree n hn hown hname)).symm
  have hgroup : ms.filter { MappingFilter.ofUser m.userId with
      groupId := m.groupId : MappingFilter }.accepts = ms.filter (inGroup m.userId m.groupId) :=
    List.filter_congr fun _ _ => accepts_group
  refine ensures_bind (ensures_select ?_)
  dsimp only
  rw [hgroup]
  refine ensures_retitle hids (hids.sublist (List.filter_sublist.map _))
    (fun v hv => (List.mem_filter.1 hv).1) fun time => ⟨m, time, hm, hfree, rfl, ?_⟩
  exact changeWhere_congr fun n hn => any_id_filter hids hn

/-- An update is refused, or renames all versions of the group. -/
theorem update_outcome (hids : (ms.map SavedMapping.id).Nodup) :
    Ensures (s.update id name category) ms (Outcome s ms (.update id name category)) := by
  refine (update_renames hids).mono fun o ms' h => ?_
  cases o with
  | error e => exact h
  | ok ns =>
    obtain ⟨m, time, hm, hfree, -, rfl⟩ := h
    refine ⟨fun e => hm.not_refusal rfl fun name' h => ?_, .updated hm hfree⟩
    cases h with
    | updateTaken hm' h =>
      obtain rfl := hm.unique hm' hids
      obtain ⟨n, hn, hown, hname, hgroup⟩ := h
      exact hgroup (hfree n hn hown hname)

/-- A deletion is refused, or takes the record of the id away. -/
theorem delete_outcome : Ensures (s.delete id) ms (Outcome s ms (.delete id)) := by
  refine ensures_bind (ensures_get (fun hu => (Refusal.anonymous hu).outcome)
    (fun u hu h => (Refusal.missing rfl hu h).outcome) fun m hm => ?_)
  obtain rfl := hm.id_eq
  exact ensures_delete (List.mem_map_of_mem hm.mem)
    ⟨fun e => hm.not_refusal rfl nofun, .deleted hm⟩

/-- A query for one mapping changes nothing. -/
theorem get_outcome : Ensures (s.get id) ms (Outcome s ms (.get id)) :=
  ensures_get (fun hu => (Refusal.anonymous hu).outcome)
    (fun _ hu h => (Refusal.missing rfl hu h).outcome)
    fun _ hm => ⟨fun _ => hm.not_refusal rfl nofun, .kept_of_ne nofun⟩

/-- A query for the versions of a mapping changes nothing. -/
theorem versions_outcome : Ensures (s.versions id) ms (Outcome s ms (.versions id)) := by
  refine ensures_bind (ensures_user (fun u hu => ?_) fun hu => (Refusal.anonymous hu).outcome)
  refine ensures_bind (ensures_get (fun hu => (Refusal.anonymous hu).outcome)
    (fun u hu h => (Refusal.missing rfl hu h).outcome) fun m hm => ?_)
  exact ensures_bind (ensures_select (ensures_pure
    ⟨fun e => hm.not_refusal rfl nofun, .kept_of_ne nofun⟩))

/-- A query for the mappings of a user changes nothing. -/
theorem latest_outcome : Ensures s.latest ms (Outcome s ms .latest) := by
  refine ensures_bind (ensures_user (fun u hu => ?_) fun hu => (Refusal.anonymous hu).outcome)
  refine ensures_bind (ensures_select (ensures_pure ⟨fun e h => ?_, .kept_of_ne nofun⟩))
  cases h with
  | anonymous hu' => cases hu.symm.trans hu'
  | missing hid => cases hid

/-! ### All operations -/

/-- The outcome does not depend on what is made of the answer. -/
theorem ensures_reply {α : Type} {act : Action α} {reply : α → Reply}
    (h : Ensures act ms (Outcome s ms op)) :
    Ensures (act >>= fun a => pure (reply a)) ms (Outcome s ms op) := by
  refine ensures_bind fun r hr hms => (h r hr hms).imp_right fun h => ?_
  generalize (act r).1 = o at h
  cases o with
  | ok a => exact ensures_pure h
  | error e => exact h

/-- **An operation on a table in memory is refused for a cause and leaves the records alone, or it
makes its change.** -/
theorem run_outcome (hids : (ms.map SavedMapping.id).Nodup)
    (hfresh : ∀ x ∈ op.drawn, ∀ m ∈ ms, m.id ≠ x) :
    Ensures (op.run s) ms (Outcome s ms op) := by
  cases op with
  | save request freshId freshGroup =>
    exact ensures_reply (save_outcome (hfresh freshId List.mem_cons_self))
  | activate id name category => exact ensures_reply (activate_outcome hids)
  | copy id name freshId freshGroup =>
    exact ensures_reply (copy_outcome (hfresh freshId List.mem_cons_self))
  | update id name category => exact ensures_reply (update_outcome hids)
  | delete id => exact ensures_reply delete_outcome
  | get id => exact ensures_reply get_outcome
  | versions id => exact ensures_reply versions_outcome
  | latest => exact ensures_reply latest_outcome

/-- An operation on a table in memory changes its records in no other way. -/
theorem perform_change {r : Repository} (hr : r.InMemory)
    (hids : (r.records.map SavedMapping.id).Nodup)
    (hfresh : ∀ x ∈ op.drawn, ∀ m ∈ r.records, m.id ≠ x) :
    (op.perform s r).InMemory ∧ Change s r.records op (op.perform s r).records := by
  rw [op.perform_eq]
  exact (run_outcome hids hfresh r hr rfl).imp_right Outcome.change

end Store
end MappingCanvas
