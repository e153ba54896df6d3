/-
# Operations on a table in memory

A table in memory is one whose calls are not made to fail (`InMemory`).  What an operation does to
its records is stated as a triple (`Ensures`): from given records it ends, whatever the clock shows,
in an outcome and in records that satisfy a postcondition.  There are rules for the procedures of
the table, to be used from the first call of an operation to its last.
-/

import MappingCanvas.Archive.Store
import MappingCanvas.Proofs.Lists

namespace MappingCanvas

section

variable {ε α β : Type}

/-- An operation followed by another one: an error ends both, an answer is passed on with the
repository. -/
theorem bind_apply (act : ExceptT ε (StateM Repository) α) (k : α → ExceptT ε (StateM Repository) β)
    (r : Repository) : (act >>= k) r = match act r with
      | (.ok a, r') => k a r'
      | (.error e, r') => (.error e, r') := by
  simp only [bind, ExceptT.bind, ExceptT.mk, StateT.bind]
  cases act r with
  | mk outcome r' => cases outcome <;> rfl

/-- An answer leaves the repository as it is. -/
theorem pure_apply (a : α) (r : Repository) :
    (pure a : ExceptT ε (StateM Repository) α) r = (.ok a, r) := rfl

theorem get_apply (r : Repository) :
    (get : ExceptT ε (StateM Repository) Repository) r = (.ok r, r) := rfl

theorem set_apply (r r' : Repository) :
    (set r' : ExceptT ε (StateM Repository) PUnit) r = (.ok (), r') := rfl

end

/-! ### Filters -/

namespace MappingFilter

/-- A value is allowed if it is the wanted one or none is wanted. -/
theorem allows_iff {α : Type} [BEq α] [LawfulBEq α] {wanted : Option α} {actual : α} :
    allows wanted actual = true ↔ ∀ w, wanted = some w → actual = w := by
  cases wanted with
  | none => simp [allows]
  | some w =>
    simp only [allows, beq_iff_eq, Option.some.injEq, forall_eq']
    exact eq_comm

/-- **A filter accepts what has the wanted value in every column that it gives.** -/
theorem accepts_iff {f : MappingFilter} {m : SavedMapping} : f.accepts m = true ↔
    (∀ id, f.id = some id → m.id = id) ∧ (∀ u, f.userId = some u → m.userId = u) ∧
      (∀ name, f.name = some name → m.name = name) ∧
      (∀ g, f.groupId = some g → m.groupId = g) ∧
      (∀ b, f.isActive = some b → m.isActive = b) ∧
      ∀ category, f.category = some category → m.category = category := by
  simp only [accepts, Bool.and_eq_true, allows_iff, and_assoc]

end MappingFilter

/-! ### Changed records -/

variable {ms : List SavedMapping} {p : SavedMapping → Bool} {f : SavedMapping → SavedMapping}

/-- Records with a change of those that `p` holds of. -/
def changeWhere (p : SavedMapping → Bool) (f : SavedMapping → SavedMapping)
    (ms : List SavedMapping) : List SavedMapping :=
  ms.map fun m => if p m then f m else m

/-- A record after a change is one from before, changed if the change is about it. -/
theorem exists_of_mem_changeWhere {n : SavedMapping} (h : n ∈ changeWhere p f ms) :
    ∃ m ∈ ms, p m = true ∧ n = f m ∨ p m = false ∧ n = m := by
  obtain ⟨m, hm, rfl⟩ := List.mem_map.1 h
  refine ⟨m, hm, ?_⟩
  cases hp : p m with
  | true => exact .inl ⟨rfl, rfl⟩
  | false => exact .inr ⟨rfl, rfl⟩

/-- What a change keeps and all records had, all records have. -/
theorem forall_mem_changeWhere {P : SavedMapping → Prop} (hms : ∀ m ∈ ms, P m)
    (hf : ∀ m ∈ ms, P m → P (f m)) : ∀ n ∈ changeWhere p f ms, P n := by
  intro n hn
  obtain ⟨m, hm, ⟨-, rfl⟩ | ⟨-, rfl⟩⟩ := exists_of_mem_changeWhere hn
  · exact hf m hm (hms m hm)
  · exact hms n hm

/-- Only the records that a change is about matter. -/
theorem changeWhere_congr {q : SavedMapping → Bool} (h : ∀ m ∈ ms, p m = q m) :
    changeWhere p f ms = changeWhere q f ms :=
  List.map_congr_left fun m hm => by rw [h m hm]

/-- What a change keeps is the same in all records. -/
theorem map_changeWhere {α : Type} {k : SavedMapping → α} (h : ∀ m, k (f m) = k m) :
    (changeWhere p f ms).map k = ms.map k := by
  rw [changeWhere, List.map_map]
  refine List.map_congr_left fun m _ => ?_
  show k (if p m then f m else m) = k m
  split
  · exact h m
  · rfl

/-- Two changes are one when the second leaves what the first has changed. -/
theorem changeWhere_changeWhere {q : SavedMapping → Bool} {g : SavedMapping → SavedMapping}
    (h : ∀ m, p m = true → q (f m) = false) : changeWhere q g (changeWhere p f ms) =
      changeWhere (fun m => p m || q m) (fun m => if p m then f m else g m) ms := by
  rw [changeWhere, changeWhere, changeWhere, List.map_map]
  refine List.map_congr_left fun m _ => ?_
  rw [Function.comp_apply]
  cases hp : p m with
  | true => simp [h m hp]
  | false => simp

/-- Where ids are unique, the first mapping of an id is the only one. -/
theorem changeFirst_eq (hids : (ms.map SavedMapping.id).Nodup) (id : String) :
    Repository.changeFirst (fun n => n.id == id) f ms = changeWhere (fun n => n.id == id) f ms := by
  induction ms with
  | nil => rfl
  | cons m ms ih =>
    obtain ⟨hm, hids⟩ := List.nodup_cons.1 hids
    rw [Repository.changeFirst, changeWhere, List.map_cons]
    split
    · rename_i hid
      have hrest : ms.map (fun n => if n.id == id then f n else n) = ms := by
        refine (List.map_congr_left fun n hn => if_neg ?_).trans (List.map_id ms)
        rw [← beq_iff_eq.1 hid, beq_iff_eq]
        exact fun heq => hm (heq ▸ List.mem_map_of_mem hn)
      rw [hrest]
    · rw [ih hids]
      rfl

/-- Among records selected from some with unique ids, those are found by id that were selected. -/
theorem any_id_filter (hids : (ms.map SavedMapping.id).Nodup) {m : SavedMapping} (hm : m ∈ ms) :
    ((ms.filter p).any fun n => m.id == n.id) = p m := by
  rw [Bool.eq_iff_iff, List.any_eq_true]
  constructor
  · rintro ⟨n, hn, hid⟩
    obtain ⟨hn, hp⟩ := List.mem_filter.1 hn
    rwa [List.inj_on_of_nodup_map hids hm hn (beq_iff_eq.1 hid)]
  · exact fun hp => ⟨m, List.mem_filter.2 ⟨hm, hp⟩, beq_self_eq_true _⟩

/-! ### Procedures -/

namespace Repository

/-- Whether no call is made to fail. -/
def InMemory (r : Repository) : Prop := ∀ p n, r.failure p n = none

/-- The failure of the next call of a procedure, if it is to fail. -/
def nextFailure (r : Repository) (p : Procedure) : Option PersistenceError :=
  r.failure p (r.calls.count p + 1)

/-- The repository after a call that has left it with some records. -/
def after (r : Repository) (p : Procedure) (ms : List SavedMapping) : Repository :=
  { r with calls := p :: r.calls, records := ms }

/-- The time that the clock shows during the next call. -/
def nextTime (r : Repository) : Instant := r.clock (r.calls.length + 1)

variable {r : Repository} {p : Procedure}

/-- A call leaves a table in memory. -/
theorem InMemory.after (h : r.InMemory) (p : Procedure) (ms : List SavedMapping) :
    (r.after p ms).InMemory := h

theorem InMemory.nextFailure (h : r.InMemory) (p : Procedure) : r.nextFailure p = none := h p _

theorem records_after (r : Repository) (p : Procedure) (ms : List SavedMapping) :
    (r.after p ms).records = ms := rfl

theorem setRecords_apply (ms : List SavedMapping) (r : Repository) :
    setRecords ms r = (.ok (), { r with records := ms }) := rfl

/-- A call is counted first, and then it fails if it is to. -/
theorem enter_apply (p : Procedure) (r : Repository) : enter p r =
    (match r.nextFailure p with
      | some e => .error e
      | none => .ok (), r.after p r.records) := by
  simp only [enter, bind_apply, get_apply, set_apply, nextFailure]
  cases r.failure p (r.calls.count p + 1) <;> rfl

/-- A call that does not fail is counted. -/
theorem enter_eq (h : r.nextFailure p = none) : enter p r = (.ok (), r.after p r.records) := by
  rw [enter_apply, h]

/-- A record of a new id is added at the end. -/
theorem insert_eq (h : r.nextFailure .insert = none) {m : SavedMapping}
    (hm : ∀ n ∈ r.records, n.id ≠ m.id) :
    insert m r = (.ok m, r.after .insert (r.records ++ [m])) := by
  have hany : ¬((r.after .insert r.records).records.any fun n => n.id == m.id) = true := by
    simpa [records_after] using hm
  simp only [insert, bind_apply, enter_eq h, get_apply]
  rw [if_neg hany]
  rfl

/-- A record of an id that is taken is not added. -/
theorem insert_taken (h : r.nextFailure .insert = none) {m : SavedMapping}
    (hm : ∃ n ∈ r.records, n.id = m.id) :
    insert m r = (.error (.backend ("duplicate key '" ++ m.id ++ "'")),
      r.after .insert r.records) := by
  have hany : ((r.after .insert r.records).records.any fun n => n.id == m.id) = true := by
    simpa [records_after] using hm
  simp only [insert, bind_apply, enter_eq h, get_apply]
  rw [if_pos hany]
  rfl

/-- The record of an id is patched. -/
theorem update_eq (h : r.nextFailure .update = none) {id : String} {m : SavedMapping}
    (hm : r.records.find? (fun n => n.id == id) = some m) (patch : MappingPatch) :
    update id patch r = (.ok (patch.apply r.nextTime m), r.after .update
      (changeFirst (fun n => n.id == id) (patch.apply r.nextTime) r.records)) := by
  simp only [update, bind_apply, enter_eq h, get_apply, records_after, hm, setRecords_apply]
  rfl

/-- All records that a filter accepts are patched, and counted. -/
theorem updateWhere_eq (h : r.nextFailure .updateWhere = none) (f : MappingFilter)
    (patch : MappingPatch) :
    updateWhere f patch r = (.ok (r.records.countP f.accepts), r.after .updateWhere
      (changeWhere f.accepts (patch.apply r.nextTime) r.records)) := by
  simp only [updateWhere, bind_apply, enter_eq h, get_apply, records_after, setRecords_apply]
  rfl

theorem delete_eq (h : r.nextFailure .delete = none) {id : String}
    (hid : id ∈ r.records.map SavedMapping.id) :
    delete id r = (.ok (), r.after .delete (r.records.filter fun m => m.id != id)) := by
  have hany : ((r.after .delete r.records).records.any fun m => m.id == id) = true := by
    obtain ⟨m, hm, rfl⟩ := List.mem_map.1 hid
    exact List.any_eq_true.2 ⟨m, hm, beq_self_eq_true _⟩
  simp only [delete, bind_apply, enter_eq h, get_apply]
  rw [if_pos hany]
  rfl

/-- The records that a filter accepts are found. -/
theorem select_eq (h : r.nextFailure .select = none) (f : MappingFilter) :
    select f r = (.ok (r.records.filter f.accepts), r.after .select r.records) := by
  simp only [select, bind_apply, enter_eq h, get_apply]
  rfl

/-- The version that the next of some records should have. -/
def nextOf (ms : List SavedMapping) (userId name : String) (category : Option String) : Version :=
  match Version.max? ((ms.filter (isNamed userId name category)).map SavedMapping.versionOf) with
  | some v => v.nextMinor
  | none => Version.first

/-- The number of the next version is computed from the records. -/
theorem nextVersion_eq (h : r.nextFailure .nextVersion = none) (userId name : String)
    (category : Option String) :
    nextVersion userId name category r =
      (.ok (nextOf r.records userId name category).text, r.after .nextVersion r.records) := by
  simp only [nextVersion, nextOf, bind_apply, enter_eq h, get_apply, records_after]
  cases Version.max? _ <;> rfl

/-- The first active mapping of a name is found. -/
theorem activeMapping_eq (h : r.nextFailure .activeMapping = none) (userId name : String)
    (category : Option String) :
    activeMapping userId name category r =
      (.ok (r.records.find? fun m => isNamed userId name category m && m.isActive),
        r.after .activeMapping r.records) := by
  simp only [activeMapping, bind_apply, enter_eq h, get_apply]
  rfl

end Repository

/-! ### Triples -/

namespace Store

variable {α β : Type} {ms : List SavedMapping} {s : Store}

/-- From given records of a table in memory an operation ends in an outcome and in records of which
`Q` holds. -/
def Ensures (act : Action α) (ms : List SavedMapping)
    (Q : Except StoreError α → List SavedMapping → Prop) : Prop :=
  ∀ r : Repository, r.InMemory → r.records = ms → (act r).2.InMemory ∧ Q (act r).1 (act r).2.records

variable {Q : Except StoreError α → List SavedMapping → Prop}

/-- What an operation ensures, it ensures of less. -/
theorem Ensures.mono {act : Action α} {Q' : Except StoreError α → List SavedMapping → Prop}
    (h : Ensures act ms Q') (hQ : ∀ o ms', Q' o ms' → Q o ms') : Ensures act ms Q :=
  fun r hr hms => (h r hr hms).imp_right (hQ _ _)

/-- An answer at once leaves the records as they are. -/
theorem ensures_pure {a : α} (h : Q (.ok a) ms) : Ensures (pure a) ms Q :=
  fun _ hr hms => ⟨hr, hms ▸ h⟩

/-- An error at once leaves the records as they are. -/
theorem ensures_throw {e : StoreError} (h : Q (.error e) ms) : Ensures (throw e) ms Q :=
  fun _ hr hms => ⟨hr, hms ▸ h⟩

/-- **Operations in sequence ensure what the second one does of the records that the first one
left.** -/
theorem ensures_bind {act : Action β} {k : β → Action α}
    (h : Ensures act ms fun o ms' => match o with
      | .ok b => Ensures (k b) ms' Q
      | .error e => Q (.error e) ms') : Ensures (act >>= k) ms Q := by
  intro r hr hms
  obtain ⟨hr', hQ⟩ := h r hr hms
  rw [bind_apply]
  generalize act r = result at hr' hQ
  obtain ⟨outcome, r'⟩ := result
  cases outcome with
  | ok b => exact hQ r' hr' rfl
  | error e => exact ⟨hr', hQ⟩

/-- Reading the clock leaves the records as they are. -/
theorem ensures_clock {Q : Except StoreError Repository → List SavedMapping → Prop}
    (h : ∀ r, Q (.ok r) ms) : Ensures MonadState.get ms Q :=
  fun r hr hms => ⟨hr, hms ▸ h r⟩

/-- A call that succeeds. -/
theorem ensures_calling {fail : PersistenceError → StoreError} {call : Repository.Call α}
    (h : ∀ r : Repository, r.InMemory → r.records = ms →
      ∃ a r', call r = (.ok a, r') ∧ r'.InMemory ∧ Q (.ok a) r'.records) :
    Ensures (calling fail call) ms Q := by
  intro r hr hms
  obtain ⟨a, r', heq, hr', hQ⟩ := h r hr hms
  simp only [calling, heq]
  exact ⟨hr', hQ⟩

variable {fail : PersistenceError → StoreError}

/-- A record is added if its id is new. -/
theorem ensures_insertion {Q : Except StoreError SavedMapping → List SavedMapping → Prop}
    {m : SavedMapping} (hnew : (∀ n ∈ ms, n.id ≠ m.id) → Q (.ok m) (ms ++ [m]))
    (htaken : (∃ n ∈ ms, n.id = m.id) → ∀ e, Q (.error e) ms) :
    Ensures (calling fail (Repository.insert m)) ms Q := by
  intro r hr hms
  by_cases htaken' : ∃ n ∈ r.records, n.id = m.id
  · simp only [calling, Repository.insert_taken (hr.nextFailure _) htaken']
    rw [Repository.records_after]
    exact ⟨hr.after _ _, hms ▸ htaken (hms ▸ htaken') _⟩
  · have hnew' : ∀ n ∈ r.records, n.id ≠ m.id := fun n hn hid => htaken' ⟨n, hn, hid⟩
    simp only [calling, Repository.insert_eq (hr.nextFailure _) hnew']
    rw [Repository.records_after]
    exact ⟨hr.after _ _, hms ▸ hnew (hms ▸ hnew')⟩

/-- A record that is there is patched, at some point in time. -/
theorem ensures_update {Q : Except StoreError SavedMapping → List SavedMapping → Prop} {id : String}
    {patch : MappingPatch} {m : SavedMapping} (hm : ms.find? (fun n => n.id == id) = some m)
    (h : ∀ t, Q (.ok (patch.apply t m))
      (Repository.changeFirst (fun n => n.id == id) (patch.apply t) ms)) :
    Ensures (calling fail (Repository.update id patch)) ms Q :=
  ensures_calling fun _ hr hms =>
    ⟨_, _, Repository.update_eq (hr.nextFailure _) (hms ▸ hm) patch, hr.after _ _, hms ▸ h _⟩

theorem ensures_delete {Q : Except StoreError Unit → List SavedMapping → Prop} {id : String}
    (hid : id ∈ ms.map SavedMapping.id) (h : Q (.ok ()) (ms.filter fun m => m.id != id)) :
    Ensures (calling fail (Repository.delete id)) ms Q :=
  ensures_calling fun _ hr hms =>
    ⟨_, _, Repository.delete_eq (hr.nextFailure _) (hms ▸ hid), hr.after _ _, hms ▸ h⟩

/-- A query answers with the records that its filter accepts. -/
theorem ensures_select {Q : Except StoreError (List SavedMapping) → List SavedMapping → Prop}
    {f : MappingFilter} (h : Q (.ok (ms.filter f.accepts)) ms) :
    Ensures (calling fail (Repository.select f)) ms Q :=
  ensures_calling fun _ hr hms =>
    ⟨_, _, Repository.select_eq (hr.nextFailure _) f, hr.after _ _, hms ▸ h⟩

/-! ### Parts of operations -/

/-- The user is known, or there is none. -/
theorem ensures_user {Q : Except StoreError String → List SavedMapping → Prop}
    (hsome : ∀ u, s.userId = some u → Q (.ok u) ms)
    (hnone : s.userId = none → Q (.error .unauthenticated) ms) : Ensures s.user ms Q := by
  unfold user
  cases hu : s.userId with
  | none => exact ensures_throw (hnone hu)
  | some u => exact ensures_pure (hsome u hu)

/-- `m` is a record of the store's user with this id. -/
structure Owned (s : Store) (ms : List SavedMapping) (id : String) (m : SavedMapping) : Prop where
  mem : m ∈ ms
  user_eq : s.userId = some m.userId
  id_eq : m.id = id

variable {u id : String} {m m' : SavedMapping}

/-- A mapping of the store's user has the user's id. -/
theorem Owned.userId_eq (hm : s.Owned ms id m) (hu : s.userId = some u) : m.userId = u :=
  Option.some.inj (hm.user_eq.symm.trans hu)

/-- Of one id the user has one record at most. -/
theorem Owned.unique (hm : s.Owned ms id m) (hm' : s.Owned ms id m')
    (hids : (ms.map SavedMapping.id).Nodup) : m = m' :=
  List.inj_on_of_nodup_map hids hm.mem hm'.mem (hm.id_eq.trans hm'.id_eq.symm)

/-- A user's record of an id is one with this id and this user. -/
theorem owned_iff (hu : s.userId = some u) :
    s.Owned ms id m ↔ m ∈ ms ∧ m.userId = u ∧ m.id = id := by
  constructor
  · intro hm
    exact ⟨hm.mem, hm.userId_eq hu, hm.id_eq⟩
  · rintro ⟨hm, rfl, hid⟩
    exact ⟨hm, hu, hid⟩

end Store
end MappingCanvas
