/-
# Users apart

The mappings of all users are in one table, and three of its procedures find a record by its id
alone.  Still no operation reads or writes a mapping of another user: an id that it writes to is
drawn, or it is that of a mapping that was read as the user's, and ids are unique.

An operation that is confined to a user (`Confined`) comes to the same on the table as on what the
user sees of it, and it leaves the rest of the table alone.  Two tables in which a user sees the
same are therefore the same to every operation of the user (`isolated`).
-/

import MappingCanvas.Proofs.Archive.Runs

namespace MappingCanvas

/-! ### Part of the records -/

section

variable {ms : List SavedMapping} {p q : SavedMapping → Bool} {f : SavedMapping → SavedMapping}

/-- A change that does not touch what is selected by can be made before or after the selection. -/
theorem filter_changeWhere (hf : ∀ m, q (f m) = q m) :
    (changeWhere p f ms).filter q = changeWhere p f (ms.filter q) := by
  rw [changeWhere, changeWhere, List.filter_map]
  refine congrArg _ (List.filter_congr fun m _ => ?_)
  show q (if p m then f m else m) = q m
  split
  · exact hf m
  · rfl

/-- A change of records of which there are none leaves all as they are. -/
theorem changeWhere_eq_self (hp : ∀ m ∈ ms, p m = false) : changeWhere p f ms = ms :=
  (List.map_congr_left fun m hm => if_neg (by simp [hp m hm])).trans (List.map_id ms)

/-- To change the first record of some kind is to change it in a selection that has all of the
kind. -/
theorem filter_changeFirst (hp : ∀ m ∈ ms, p m = true → q m = true) (hf : ∀ m, q (f m) = q m) :
    (Repository.changeFirst p f ms).filter q = Repository.changeFirst p f (ms.filter q) := by
  induction ms with
  | nil => rfl
  | cons m ms ih =>
    obtain ⟨hm, hms⟩ := List.forall_mem_cons.1 hp
    rw [Repository.changeFirst]
    split
    · rename_i hpm
      rw [List.filter_cons_of_pos (hf m ▸ hm hpm), List.filter_cons_of_pos (hm hpm),
        Repository.changeFirst, if_pos hpm]
    · rename_i hpm
      rw [List.filter_cons, List.filter_cons, ih hms]
      split
      · rw [Repository.changeFirst, if_neg hpm]
      · rfl

/-- To change the first record of some kind does not show in a selection that has none of the
kind. -/
theorem filter_changeFirst_eq (hp : ∀ m ∈ ms, p m = true → q m = false)
    (hf : ∀ m, q (f m) = q m) : (Repository.changeFirst p f ms).filter q = ms.filter q := by
  induction ms with
  | nil => rfl
  | cons m ms ih =>
    obtain ⟨hm, hms⟩ := List.forall_mem_cons.1 hp
    rw [Repository.changeFirst]
    split
    · rename_i hpm
      rw [List.filter_cons, List.filter_cons, hf]
      simp [hm hpm]
    · rw [List.filter_cons, List.filter_cons, ih hms]

/-- What a change does not touch stays, in all records. -/
theorem map_changeFirst {α : Type} {k : SavedMapping → α} (hf : ∀ m, k (f m) = k m) :
    (Repository.changeFirst p f ms).map k = ms.map k := by
  induction ms with
  | nil => rfl
  | cons m ms ih =>
    rw [Repository.changeFirst]
    split
    · rw [List.map_cons, List.map_cons, hf]
    · rw [List.map_cons, List.map_cons, ih]

/-- Among the records that `q` holds of are all that `p` holds of. -/
theorem filter_filter_of_imp (hp : ∀ m ∈ ms, p m = true → q m = true) :
    (ms.filter q).filter p = ms.filter p := by
  rw [List.filter_filter]
  refine List.filter_congr fun m hm => ?_
  cases hpm : p m with
  | true => simp [hp m hm hpm]
  | false => simp

/-- The first record of some kind is found in a selection that has all of the kind. -/
theorem find?_filter_of_imp (hp : ∀ m ∈ ms, p m = true → q m = true) :
    (ms.filter q).find? p = ms.find? p := by
  rw [← List.head?_filter, ← List.head?_filter, filter_filter_of_imp hp]

end

/-! ### What a user sees -/

namespace Repository

variable {r : Repository} {u id : String} {ids : List (String × String)}

/-- The table with no records but those of a user. -/
def seenBy (u : String) (r : Repository) : Repository :=
  { r with records := r.records.filter fun m => m.userId == u }

/-- What a user sees is part of the table. -/
theorem seenBy_sublist (r : Repository) (u : String) :
    (r.seenBy u).records.Sublist r.records := List.filter_sublist

/-- A user who sees only their own records sees all of those. -/
theorem seenBy_seenBy (r : Repository) (u : String) : (r.seenBy u).seenBy u = r.seenBy u :=
  congrArg (fun ms => { r with records := ms : Repository }) (filter_filter_of_imp fun _ _ h => h)

/-- The records of the other users. -/
def hiddenFrom (u : String) (r : Repository) : List SavedMapping :=
  r.records.filter fun m => m.userId != u

/-- The ids of the records, with their users. -/
def owners (r : Repository) : List (String × String) := r.records.map fun m => (m.id, m.userId)

/-- No other user has a record of this id. -/
def Reserved (u id : String) (ids : List (String × String)) : Prop := ∀ v, (id, v) ∈ ids → v = u

/-- An id of a user's record is reserved, if ids are unique. -/
theorem reserved_of_mem (hids : (ids.map Prod.fst).Nodup) (h : (id, u) ∈ ids) :
    Reserved u id ids := by
  intro v hv
  cases List.inj_on_of_nodup_map hids hv h rfl
  rfl

/-- A record of a reserved id is the user's. -/
theorem Reserved.userId_eq (h : Reserved u id r.owners) :
    ∀ m ∈ r.records, (m.id == id) = true → (m.userId == u) = true := by
  intro m hm hid
  rw [beq_iff_eq] at hid ⊢
  exact h _ (List.mem_map.2 ⟨m, hm, by rw [hid]⟩)

end Repository

/-! ### Confined operations -/

namespace Store

variable {ε α β : Type} {u : String} {ids : List (String × String)} {r : Repository}

/-- An operation comes to the same on a table of given ids as on what a user sees of it, and leaves
the rest alone; of its answer and the ids after it `Q` holds. -/
def Confined (u : String) (act : ExceptT ε (StateM Repository) α) (ids : List (String × String))
    (Q : α → List (String × String) → Prop) : Prop :=
  ∀ r : Repository, r.owners = ids → ∃ o r', act r = (o, r') ∧ act (r.seenBy u) = (o, r'.seenBy u) ∧
    r'.hiddenFrom u = r.hiddenFrom u ∧ ∀ a, o = .ok a → Q a r'.owners

variable {Q : α → List (String × String) → Prop}

/-- A confined operation is confined for less to hold of its answer. -/
theorem Confined.mono {act : ExceptT ε (StateM Repository) α}
    {Q' : α → List (String × String) → Prop} (h : Confined u act ids Q)
    (hQ : ∀ a ids', Q a ids' → Q' a ids') : Confined u act ids Q' := by
  intro r hids
  obtain ⟨o, r', hfull, hseen, hhidden, hanswer⟩ := h r hids
  exact ⟨o, r', hfull, hseen, hhidden, fun a ha => hQ a _ (hanswer a ha)⟩

theorem confined_pure {a : α} (h : Q a ids) :
    Confined u (pure a : ExceptT ε (StateM Repository) α) ids Q :=
  fun r hids => ⟨.ok a, r, rfl, rfl, rfl, fun _ ha => Except.ok.inj ha ▸ hids ▸ h⟩

theorem confined_throw {e : ε} : Confined u (throw e : ExceptT ε (StateM Repository) α) ids Q :=
  fun r _ => ⟨.error e, r, rfl, rfl, rfl, nofun⟩

/-- **Confined operations in sequence are confined.** -/
theorem confined_bind {act : ExceptT ε (StateM Repository) β}
    {k : β → ExceptT ε (StateM Repository) α}
    (h : Confined u act ids fun b ids' => Confined u (k b) ids' Q) :
    Confined u (act >>= k) ids Q := by
  intro r hids
  obtain ⟨o, r', hfull, hseen, hhidden, hanswer⟩ := h r hids
  simp only [bind_apply, hfull, hseen]
  cases o with
  | error e => exact ⟨.error e, r', rfl, rfl, hhidden, nofun⟩
  | ok b =>
    obtain ⟨o', r'', hfull', hseen', hhidden', hanswer'⟩ := hanswer b rfl r' rfl
    exact ⟨o', r'', hfull', hseen', hhidden'.trans hhidden, hanswer'⟩

/-- Nothing but the clock is read directly. -/
theorem confined_clock {k : Repository → Action α} (hk : ∀ r : Repository, k (r.seenBy u) = k r)
    (h : ∀ r, Confined u (k r) ids Q) : Confined u (MonadState.get >>= k) ids Q := by
  intro r hids
  obtain ⟨o, r', hfull, hseen, hrest⟩ := h r r hids
  exact ⟨o, r', hfull, (congrFun (hk r) _).trans hseen, hrest⟩

/-! ### Calls -/

variable {fail : PersistenceError → StoreError} {f : MappingFilter} {patch : MappingPatch}

/-- A call of a procedure fails regardless of the records. -/
theorem confined_calling {p : Procedure} {call : Repository.Call α}
    {k : Unit → Repository.Call α} (hcall : call = Repository.enter p >>= k)
    (h : Confined u (k ()) ids Q) : Confined u (calling fail call) ids Q := by
  have henter : Confined u (Repository.enter p) ids fun _ ids' => Confined u (k ()) ids' Q :=
    fun r hids => ⟨_, _, Repository.enter_apply p r, Repository.enter_apply p (r.seenBy u), rfl,
      fun _ _ => hids ▸ h⟩
  intro r hids
  obtain ⟨o, r', hfull, hseen, hhidden, hanswer⟩ := hcall ▸ confined_bind henter r hids
  simp only [calling, hfull, hseen]
  cases o with
  | error e => exact ⟨_, r', rfl, rfl, hhidden, fun _ hb => by cases hb⟩
  | ok a =>
    exact ⟨_, r', rfl, rfl, hhidden, fun b hb => hanswer b (congrArg _ (Except.ok.inj hb))⟩

/-- Among records of given ids, those that the filter of a user accepts. -/
theorem confined_select {Q : List SavedMapping → List (String × String) → Prop}
    (hf : f.userId = some u)
    (h : ∀ ms, (∀ m ∈ ms, f.accepts m = true ∧ (m.id, u) ∈ ids) → Q ms ids) :
    Confined u (calling fail (Repository.select f)) ids Q := by
  have hown : ∀ m, f.accepts m = true → m.userId = u := fun m hm =>
    (MappingFilter.accepts_iff.1 hm).2.1 u hf
  refine confined_calling rfl fun r hids => ⟨.ok (r.records.filter f.accepts), r, rfl, ?_, rfl, ?_⟩
  · have hsame := filter_filter_of_imp fun m (_ : m ∈ r.records) hm => beq_iff_eq.2 (hown m hm)
    exact congrArg (fun ms => (Except.ok ms, r.seenBy u)) hsame
  · intro ms hms
    cases hms
    refine hids ▸ h _ fun m hm => ?_
    obtain ⟨hm, haccepts⟩ := List.mem_filter.1 hm
    exact ⟨haccepts, hids ▸ hown m haccepts ▸ List.mem_map_of_mem hm⟩

/-- Patching all records of a user is confined: other users' records are none of those that the
filter accepts. -/
theorem confined_updateWhere {Q : Nat → List (String × String) → Prop} (hf : f.userId = some u)
    (h : ∀ n, Q n ids) : Confined u (calling fail (Repository.updateWhere f patch)) ids Q := by
  have hown : ∀ m, f.accepts m = true → m.userId = u := fun m hm =>
    (MappingFilter.accepts_iff.1 hm).2.1 u hf
  refine confined_calling rfl fun r hids => ?_
  have hcount : (r.seenBy u).records.countP f.accepts = r.records.countP f.accepts := by
    rw [List.countP_eq_length_filter, List.countP_eq_length_filter, Repository.seenBy,
      filter_filter_of_imp fun m _ hm => beq_iff_eq.2 (hown m hm)]
  refine ⟨_, _, rfl, Prod.ext (congrArg Except.ok hcount) ?_, ?_, fun n _ => ?_⟩
  · exact congrArg (fun ms => { r with records := ms : Repository })
      (filter_changeWhere (f := patch.apply r.now) fun _ => rfl).symm
  · refine (filter_changeWhere (f := patch.apply r.now) fun _ => rfl).trans
      (changeWhere_eq_self fun m hm => ?_)
    have hother : m.userId ≠ u := by simpa using (List.mem_filter.1 hm).2
    exact Bool.eq_false_iff.2 fun haccepts => hother (hown m haccepts)
  · have howners : (changeWhere f.accepts (patch.apply r.now) r.records).map
        (fun m => (m.id, m.userId)) = ids :=
      (map_changeWhere (f := patch.apply r.now) fun _ => rfl).trans hids
    exact (congrArg (Q n) howners).mpr (h n)

/-- A record of an id that no other user has. -/
theorem confined_update {Q : SavedMapping → List (String × String) → Prop} {id : String}
    (hid : Repository.Reserved u id ids) (h : ∀ m, Q m ids) :
    Confined u (calling fail (Repository.update id patch)) ids Q := by
  refine confined_calling rfl fun r hids => ?_
  have hown := Repository.Reserved.userId_eq (hids ▸ hid)
  have hfind : (r.seenBy u).records.find? (fun m => m.id == id) =
      r.records.find? (fun m => m.id == id) := find?_filter_of_imp hown
  cases hm : r.records.find? fun m => m.id == id with
  | none =>
    refine ⟨.error (.notFound id), r, ?_, ?_, rfl, fun _ ha => by cases ha⟩
    · simp only [bind_apply, get_apply, hm]
      rfl
    · simp only [bind_apply, get_apply, hfind, hm]
      rfl
  | some m =>
    obtain ⟨ms, hms⟩ : ∃ ms, ms = Repository.changeFirst (fun m => m.id == id)
        (patch.apply r.now) r.records := ⟨_, rfl⟩
    have hseen : Repository.changeFirst (fun m => m.id == id) (patch.apply r.now)
        (r.seenBy u).records = ms.filter fun m => m.userId == u :=
      hms ▸ (filter_changeFirst (f := patch.apply r.now) hown fun _ => rfl).symm
    refine ⟨.ok (patch.apply r.now m), { r with records := ms }, ?_, ?_, ?_, fun n _ => ?_⟩
    · simp only [bind_apply, get_apply, hm, Repository.setRecords_apply, hms]
      rfl
    · simp only [bind_apply, get_apply, hfind, hm, Repository.setRecords_apply]
      exact congrArg (fun ms => (Except.ok (patch.apply r.now m), { r with records := ms })) hseen
    · rw [hms]
      exact filter_changeFirst_eq (fun m hm hid => by simpa using hown m hm hid) fun _ => rfl
    · have howners : ms.map (fun m => (m.id, m.userId)) = ids :=
        hms ▸ (map_changeFirst (f := patch.apply r.now) fun _ => rfl).trans hids
      exact (congrArg (Q n) howners).mpr (h n)

/-- Whether a reserved id is taken can be seen by the user. -/
theorem any_id_seenBy {id : String} (hid : Repository.Reserved u id r.owners) :
    ((r.seenBy u).records.any fun m => m.id == id) = r.records.any fun m => m.id == id := by
  rw [← List.isSome_find?, ← List.isSome_find?, Repository.seenBy,
    find?_filter_of_imp (Repository.Reserved.userId_eq hid)]

/-- Adding a record of the user is confined, if its id is no other user's: otherwise it would fail
on the whole table only. -/
theorem confined_insert {Q : SavedMapping → List (String × String) → Prop} {m : SavedMapping}
    (hm : m.userId = u) (hid : Repository.Reserved u m.id ids) (h : ∀ ids', Q m ids') :
    Confined u (calling fail (Repository.insert m)) ids Q := by
  refine confined_calling rfl fun r hids => ?_
  have hany := any_id_seenBy (hids ▸ hid)
  cases hold : r.records.any fun n => n.id == m.id with
  | true =>
    refine ⟨.error (.backend ("duplicate key '" ++ m.id ++ "'")), r, ?_, ?_, rfl,
      fun _ ha => by cases ha⟩
    · simp only [bind_apply, get_apply, hold]
      rfl
    · simp only [bind_apply, get_apply, hany, hold]
      rfl
  | false =>
    have hrecords : (r.seenBy u).records ++ [m] =
        (r.records ++ [m]).filter fun m => m.userId == u := by simp [Repository.seenBy, hm]
    refine ⟨.ok m, { r with records := r.records ++ [m] }, ?_, ?_, ?_, fun n hn => ?_⟩
    · simp only [bind_apply, get_apply, hold]
      rfl
    · simp only [bind_apply, get_apply, hany, hold]
      exact congrArg (fun ms => (Except.ok m, { r with records := ms })) hrecords
    · simp [Repository.hiddenFrom, hm]
    · exact Except.ok.inj hn ▸ h _

/-- Removing a record of a reserved id is confined. -/
theorem confined_delete {Q : Unit → List (String × String) → Prop} {id : String}
    (hid : Repository.Reserved u id ids) (h : ∀ ids', Q () ids') :
    Confined u (calling fail (Repository.delete id)) ids Q := by
  refine confined_calling rfl fun r hids => ?_
  have hown := Repository.Reserved.userId_eq (hids ▸ hid)
  have hany := any_id_seenBy (hids ▸ hid)
  cases hold : r.records.any fun m => m.id == id with
  | false =>
    refine ⟨.error (.notFound id), r, ?_, ?_, rfl, fun _ ha => by cases ha⟩
    · simp only [bind_apply, get_apply, hold]
      rfl
    · simp only [bind_apply, get_apply, hany, hold]
      rfl
  | true =>
    refine ⟨.ok (), { r with records := r.records.filter fun m => m.id != id }, ?_, ?_, ?_,
      fun _ _ => h _⟩
    · simp only [bind_apply, get_apply, hold]
      rfl
    · simp only [bind_apply, get_apply, hany, hold]
      exact congrArg (fun ms => (Except.ok (), { r with records := ms }))
        (List.filter_comm _ _ r.records)
    · refine (List.filter_comm _ _ r.records).trans (List.filter_eq_self.2 fun m hm => ?_)
      obtain ⟨hm, hother⟩ := List.mem_filter.1 hm
      rw [bne_iff_ne] at hother ⊢
      exact fun hid => hother (beq_iff_eq.1 (hown m hm (beq_iff_eq.2 hid)))

/-- A mapping of a user's name is the user's. -/
theorem userId_eq_of_isNamed {name : String} {category : Option String} {m : SavedMapping}
    (h : Repository.isNamed u name category m = true) : (m.userId == u) = true := by
  simp only [Repository.isNamed, Bool.and_eq_true] at h
  exact h.1.1

/-- The search for an active mapping of the user is confined. -/
theorem confined_activeMapping {Q : Option SavedMapping → List (String × String) → Prop}
    {name : String} {category : Option String} (h : ∀ m, Q m ids) :
    Confined u (calling fail (Repository.activeMapping u name category)) ids Q := by
  refine confined_calling rfl fun r hids => ⟨_, r, rfl, ?_, rfl, fun _ _ => hids ▸ h _⟩
  refine congrArg (fun m => (Except.ok m, r.seenBy u)) (find?_filter_of_imp fun m _ hm => ?_)
  rw [Bool.and_eq_true] at hm
  exact userId_eq_of_isNamed hm.1

/-- The number of the next version is confined: it is drawn from the user's own versions. -/
theorem confined_nextVersion {Q : String → List (String × String) → Prop} {name : String}
    {category : Option String} (h : ∀ v, Q v ids) :
    Confined u (calling fail (Repository.nextVersion u name category)) ids Q := by
  refine confined_calling rfl fun r hids =>
    ⟨.ok (Repository.nextOf r.records u name category).text, r, ?_, ?_, rfl, fun _ _ => hids ▸ h _⟩
  · simp only [Repository.nextOf, bind_apply, get_apply]
    cases Version.max? _ <;> rfl
  · simp only [Repository.nextOf, bind_apply, get_apply, Repository.seenBy,
      filter_filter_of_imp fun m _ hm => userId_eq_of_isNamed hm]
    cases Version.max? _ <;> rfl

/-! ### Operations -/

variable {s : Store} {id name freshId freshGroup : String} {category : Option String}
  {request : SaveRequest}

theorem confined_user {Q : String → List (String × String) → Prop} (hu : s.userId = some u)
    (h : Q u ids) : Confined u s.user ids Q := by
  unfold user
  rw [hu]
  exact confined_pure h

/-- Whether a name is free is confined: only the user's own mappings can take it. -/
theorem confined_nameFree {Q : Unit → List (String × String) → Prop} {own : Option String}
    (h : Q () ids) : Confined u (ensureNameFree u name own) ids Q := by
  refine confined_bind (confined_select rfl fun taken _ => ?_)
  split
  · exact confined_throw
  · exact confined_pure h

/-- **The record of an id is found if it is the user's, and then the id is reserved.** -/
theorem confined_get {Q : SavedMapping → List (String × String) → Prop} (hu : s.userId = some u)
    (h : ∀ m, m.userId = u → m.id = id → (id, u) ∈ ids → Q m ids) :
    Confined u (s.get id) ids Q := by
  refine confined_bind (confined_user hu ?_)
  refine confined_bind (confined_select rfl fun found hfound => ?_)
  split
  · rename_i m rest
    obtain ⟨haccepts, hm⟩ := hfound m List.mem_cons_self
    obtain ⟨hid, huser, -⟩ := MappingFilter.accepts_iff.1 haccepts
    obtain rfl := hid id rfl
    exact confined_pure (h m (huser u rfl) rfl hm)
  · exact confined_throw

theorem confined_inherit {Q : Inherited → List (String × String) → Prop}
    {active : Option SavedMapping} (h : ∀ base, Q base ids) :
    Confined u (inherit request u name freshGroup active) ids Q := by
  cases active with
  | some m => exact confined_pure (h _)
  | none => exact confined_bind (confined_nameFree (confined_pure (h _)))

/-- A save is confined, if its fresh id is no other user's. -/
theorem confined_save (hu : s.userId = some u) (hfresh : Repository.Reserved u freshId ids) :
    Confined u (s.save request freshId freshGroup) ids fun _ _ => True := by
  have hrest (base : Inherited) (version : String) : Confined u (do
      let _ ← during .deactivatePrevious (Repository.updateWhere
        { MappingFilter.ofUser u with groupId := base.groupId, isActive := true } (.activity false))
      let now := (← MonadState.get).now
      during .save (Repository.insert (request.mapping freshId u version base now))) ids
        fun _ _ => True :=
    confined_bind (confined_updateWhere rfl fun _ => confined_clock (fun _ => rfl) fun _ =>
      confined_insert rfl hfresh fun _ => trivial)
  refine confined_bind (confined_user hu ?_)
  dsimp only
  split
  · exact confined_throw
  refine confined_bind (confined_activeMapping fun active => ?_)
  refine confined_bind (confined_inherit fun base => ?_)
  cases request.version with
  | some v => exact confined_bind (confined_pure (hrest base v))
  | none => exact confined_bind (confined_nextVersion fun v => hrest base v)

theorem confined_activate (hu : s.userId = some u) (hids : (ids.map Prod.fst).Nodup) :
    Confined u (s.activate id name category) ids fun _ _ => True :=
  confined_bind (confined_user hu (confined_bind (confined_get hu fun _ _ _ hm =>
    confined_bind (confined_updateWhere rfl fun _ =>
      confined_update (Repository.reserved_of_mem hids hm) fun _ => trivial))))

/-- A copy is confined, if its fresh id is no other user's. -/
theorem confined_copy (hu : s.userId = some u) (hfresh : Repository.Reserved u freshId ids) :
    Confined u (s.copy id name freshId freshGroup) ids fun _ _ => True :=
  confined_bind (confined_user hu (confined_bind (confined_get hu fun _ hm _ _ =>
    confined_bind (confined_nameFree (confined_clock (fun _ => rfl) fun _ =>
      confined_insert hm hfresh fun _ => trivial)))))

/-- Renaming some of the user's records one by one is confined. -/
theorem confined_retitle {vs : List SavedMapping}
    {Q : List SavedMapping → List (String × String) → Prop} (hids : (ids.map Prod.fst).Nodup)
    (hvs : ∀ v ∈ vs, (v.id, u) ∈ ids) (h : ∀ ms, Q ms ids) :
    Confined u (vs.mapM fun v => during .update (Repository.update v.id
      (renamePatch v name category))) ids Q := by
  induction vs generalizing Q with
  | nil => exact confined_pure (h [])
  | cons v vs ih =>
    obtain ⟨hv, hvs⟩ := List.forall_mem_cons.1 hvs
    rw [List.mapM_cons]
    exact confined_bind (confined_update (Repository.reserved_of_mem hids hv) fun m =>
      confined_bind (ih hvs fun ms => confined_pure (h (m :: ms))))

theorem confined_rename (hu : s.userId = some u) (hids : (ids.map Prod.fst).Nodup) :
    Confined u (s.update id name category) ids fun _ _ => True :=
  confined_bind (confined_user hu (confined_bind (confined_get hu fun _ _ _ _ =>
    confined_bind (confined_nameFree (confined_bind (confined_select rfl fun _ hvs =>
      confined_retitle hids (fun v hv => (hvs v hv).2) fun _ => trivial))))))

theorem confined_deletion (hu : s.userId = some u) (hids : (ids.map Prod.fst).Nodup) :
    Confined u (s.delete id) ids fun _ _ => True := by
  refine confined_bind (confined_get hu fun m _ hid hm => ?_)
  rw [hid]
  exact confined_delete (Repository.reserved_of_mem hids hm) fun _ => trivial

theorem confined_versions (hu : s.userId = some u) :
    Confined u (s.versions id) ids fun _ _ => True :=
  confined_bind (confined_user hu (confined_bind (confined_get hu fun _ _ _ _ =>
    confined_bind (confined_select rfl fun _ _ => confined_pure trivial))))

theorem confined_latest (hu : s.userId = some u) : Confined u s.latest ids fun _ _ => True :=
  confined_bind (confined_user hu (confined_bind (confined_select rfl fun _ _ =>
    confined_pure trivial)))

/-- **Every operation is confined to the user of its store.** -/
theorem confined_run (hu : s.userId = some u) (hids : (ids.map Prod.fst).Nodup) {op : Operation}
    (hfresh : ∀ x ∈ op.drawn, ∀ k ∈ ids, k.1 ≠ x) :
    Confined u (op.run s) ids fun _ _ => True := by
  have hreply {α : Type} {act : Action α} {reply : α → Reply}
      (h : Confined u act ids fun _ _ => True) :
      Confined u (act >>= fun a => pure (reply a)) ids fun _ _ => True :=
    confined_bind (h.mono fun _ _ _ => confined_pure trivial)
  have hreserved {x : String} (hx : x ∈ op.drawn) : Repository.Reserved u x ids := fun _ hmem =>
    absurd rfl (hfresh x hx _ hmem)
  cases op with
  | save request freshId freshGroup =>
    exact hreply (confined_save hu (hreserved List.mem_cons_self))
  | activate id name category => exact hreply (confined_activate hu hids)
  | copy id name freshId freshGroup =>
    exact hreply (confined_copy hu (hreserved List.mem_cons_self))
  | update id name category => exact hreply (confined_rename hu hids)
  | delete id => exact hreply (confined_deletion hu hids)
  | get id => exact hreply (confined_get hu fun _ _ _ _ => trivial)
  | versions id => exact hreply (confined_versions hu)
  | latest => exact hreply (confined_latest hu)

/-- **Users are apart.**  On two tables in which a user sees the same, an operation of the user gets
the same answer, the user sees the same afterwards, and the records of the others stay as they
are. -/
theorem isolated (hu : s.userId = some u) (op : Operation) {r₁ r₂ : Repository}
    (hids₁ : (r₁.records.map SavedMapping.id).Nodup)
    (hids₂ : (r₂.records.map SavedMapping.id).Nodup)
    (hfresh₁ : ∀ x ∈ op.drawn, ∀ m ∈ r₁.records, m.id ≠ x)
    (hfresh₂ : ∀ x ∈ op.drawn, ∀ m ∈ r₂.records, m.id ≠ x)
    (hseen : r₁.seenBy u = r₂.seenBy u) :
    (op.run s r₁).1 = (op.run s r₂).1 ∧
      (op.run s r₁).2.seenBy u = (op.run s r₂).2.seenBy u ∧
      (op.run s r₁).2.hiddenFrom u = r₁.hiddenFrom u ∧
      (op.run s r₂).2.hiddenFrom u = r₂.hiddenFrom u := by
  have hconfined {r : Repository} (hids : (r.records.map SavedMapping.id).Nodup)
      (hfresh : ∀ x ∈ op.drawn, ∀ m ∈ r.records, m.id ≠ x) :
      op.run s (r.seenBy u) = ((op.run s r).1, (op.run s r).2.seenBy u) ∧
        (op.run s r).2.hiddenFrom u = r.hiddenFrom u := by
    have hids' : (r.owners.map Prod.fst).Nodup := by rwa [Repository.owners, List.map_map]
    have hfresh' : ∀ x ∈ op.drawn, ∀ k ∈ r.owners, k.1 ≠ x := fun x hx =>
      List.forall_mem_map.2 (hfresh x hx)
    obtain ⟨o, r', hfull, hsame, hhidden, -⟩ := confined_run hu hids' hfresh' r rfl
    rw [hfull]
    exact ⟨hsame, hhidden⟩
  obtain ⟨hsame₁, hhidden₁⟩ := hconfined hids₁ hfresh₁
  obtain ⟨hsame₂, hhidden₂⟩ := hconfined hids₂ hfresh₂
  obtain ⟨hanswer, hafter⟩ := Prod.mk.inj (hsame₁.symm.trans ((congrArg _ hseen).trans hsame₂))
  exact ⟨hanswer, hafter, hhidden₁, hhidden₂⟩

/-- The table of two users. -/
def sharedTable : Repository :=
  Request.performAll [.saving "u" "n" none "i" "g", .saving "w" "m" none "j" "h"]
    (.blank fun _ => ⟨0, 0⟩)

/-- One of them makes a copy under a name that the other one has. -/
theorem isolated_sharedTable :
    ((Operation.copy "j" "n" "x" "y").run ⟨some "w", .default⟩ sharedTable).1 =
        ((Operation.copy "j" "n" "x" "y").run ⟨some "w", .default⟩ (sharedTable.seenBy "w")).1 ∧
      ((Operation.copy "j" "n" "x" "y").run ⟨some "w", .default⟩ sharedTable).2.hiddenFrom "w" =
        sharedTable.hiddenFrom "w" := by
  have hids : (sharedTable.records.map SavedMapping.id).Nodup := by decide
  have hfresh : ∀ x ∈ (Operation.copy "j" "n" "x" "y").drawn, ∀ m ∈ sharedTable.records,
      m.id ≠ x := by decide
  have hsub := sharedTable.seenBy_sublist "w"
  obtain ⟨hanswer, -, hhidden, -⟩ := isolated (s := ⟨some "w", .default⟩) rfl
    (.copy "j" "n" "x" "y") hids (hids.sublist (hsub.map _)) hfresh
    (fun x hx m hm => hfresh x hx m (hsub.subset hm)) (sharedTable.seenBy_seenBy "w").symm
  exact ⟨hanswer, hhidden⟩

end Store
end MappingCanvas
