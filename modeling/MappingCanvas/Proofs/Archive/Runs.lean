/-
# Runs of operations

A run is a list of requests, each an operation by the store of some user, on one table in memory
that is empty at first.  Fresh ids do not repeat in a run, whether they are drawn for records or for
groups.

The records are then coherent in every state: an id stands for one record, a group for one name of
one user, and both documents of a record agree with it (`coherent_performAll`).  No operation could
do without this: saving finds the group of a name by any active mapping of that name, and renaming
finds the versions by their group.
-/

import MappingCanvas.Proofs.Archive.Changes

namespace MappingCanvas

/-! ### Coherent records -/

/-- The documents of a mapping have its name and its version. -/
structure SavedMapping.Consistent (m : SavedMapping) : Prop where
  snapshot_name : m.snapshot.name = m.name
  snapshot_version : m.snapshot.version = m.version
  rules_name : m.rules.name = some m.name
  rules_version : m.rules.version = some m.version

namespace SavedMapping.Consistent

variable {m : SavedMapping}

/-- Documents agree with a record, whether it is active or not. -/
theorem withActivity (h : m.Consistent) (isActive : Bool) (t : Instant) :
    (m.withActivity isActive t).Consistent := ⟨h.1, h.2, h.3, h.4⟩

/-- A renamed record has documents of its new name. -/
theorem retitled (h : m.Consistent) (name : String) (category : Option String) (t : Instant) :
    (m.retitled name category t).Consistent := ⟨rfl, h.snapshot_version, rfl, h.rules_version⟩

/-- A record with a name and a version put in has documents that agree. -/
theorem rename_withVersion (m : SavedMapping) (name version : String) :
    ((m.rename name).withVersion version).Consistent := ⟨rfl, rfl, rfl, rfl⟩

end SavedMapping.Consistent

/-- Ids are unique, groups are the names of the users, and documents agree with their records. -/
structure Coherent (ms : List SavedMapping) : Prop where
  nodup_ids : (ms.map SavedMapping.id).Nodup
  groupId_eq : ∀ m ∈ ms, ∀ n ∈ ms, m.userId = n.userId → m.name = n.name → m.groupId = n.groupId
  title_eq : ∀ m ∈ ms, ∀ n ∈ ms, m.groupId = n.groupId → m.userId = n.userId ∧ m.name = n.name
  consistent : ∀ m ∈ ms, m.Consistent

namespace Coherent

variable {ms ms' : List SavedMapping} {m n : SavedMapping}

/-- An empty table is coherent. -/
theorem nil : Coherent [] := by constructor <;> simp

/-- Part of coherent records is coherent. -/
theorem sublist (h : Coherent ms) (hsub : ms'.Sublist ms) : Coherent ms' where
  nodup_ids := h.nodup_ids.sublist (hsub.map _)
  groupId_eq m hm n hn := h.groupId_eq m (hsub.subset hm) n (hsub.subset hn)
  title_eq m hm n hn := h.title_eq m (hsub.subset hm) n (hsub.subset hn)
  consistent m hm := h.consistent m (hsub.subset hm)

/-- In coherent records a group is a name of a user. -/
theorem group_iff (h : Coherent ms) (hm : m ∈ ms) (hn : n ∈ ms) :
    m.userId = n.userId ∧ m.name = n.name ↔ m.groupId = n.groupId :=
  ⟨fun heq => h.groupId_eq m hm n hn heq.1 heq.2, h.title_eq m hm n hn⟩

/-- Records are coherent if ids are unique, groups are names of users, and documents agree. -/
theorem of_group_iff (hids : (ms.map SavedMapping.id).Nodup)
    (hgroup : ∀ m ∈ ms, ∀ n ∈ ms, m.userId = n.userId ∧ m.name = n.name ↔ m.groupId = n.groupId)
    (hconsistent : ∀ m ∈ ms, m.Consistent) : Coherent ms where
  nodup_ids := hids
  groupId_eq m hm n hn huser hname := (hgroup m hm n hn).1 ⟨huser, hname⟩
  title_eq m hm n hn := (hgroup m hm n hn).2
  consistent := hconsistent

/-- Whether records are coherent does not depend on which are active. -/
theorem withActivity (h : Coherent ms) (p : SavedMapping → Bool) (isActive : Bool) (t : Instant) :
    Coherent (changeWhere p (·.withActivity isActive t) ms) := by
  have hsame : ∀ n ∈ changeWhere p (·.withActivity isActive t) ms, ∃ m ∈ ms,
      n.userId = m.userId ∧ n.name = m.name ∧ n.groupId = m.groupId := by
    intro n hn
    obtain ⟨m, hm, ⟨-, rfl⟩ | ⟨-, rfl⟩⟩ := exists_of_mem_changeWhere hn
    · exact ⟨m, hm, rfl, rfl, rfl⟩
    · exact ⟨n, hm, rfl, rfl, rfl⟩
  refine of_group_iff ?_ (fun a ha b hb => ?_) ?_
  · rw [SavedMapping.ids_withActivity]
    exact h.nodup_ids
  · obtain ⟨m, hm, hmuser, hmname, hmgroup⟩ := hsame a ha
    obtain ⟨n, hn, hnuser, hnname, hngroup⟩ := hsame b hb
    rw [hmuser, hnuser, hmname, hnname, hmgroup, hngroup]
    exact h.group_iff hm hn
  · exact forall_mem_changeWhere h.consistent fun _ _ hm => hm.withActivity isActive t

/-- A record with a new id may join the group of its name, or begin a group for a new name. -/
theorem append (h : Coherent ms) (hid : ∀ n ∈ ms, n.id ≠ m.id) (hm : m.Consistent)
    (hgroup : ∀ n ∈ ms, n.userId = m.userId ∧ n.name = m.name ↔ n.groupId = m.groupId) :
    Coherent (ms ++ [m]) := by
  refine of_group_iff ?_ (fun k hk n hn => ?_) ?_
  · rw [List.map_append, List.map_singleton, List.nodup_append]
    refine ⟨h.nodup_ids, List.nodup_singleton _, fun a ha b hb => ?_⟩
    obtain ⟨n, hn, rfl⟩ := List.mem_map.1 ha
    rw [List.mem_singleton.1 hb]
    exact hid n hn
  · rw [List.mem_append, List.mem_singleton] at hk hn
    obtain hk | rfl := hk <;> obtain hn | rfl := hn
    · exact h.group_iff hk hn
    · exact hgroup k hk
    · exact ⟨fun heq => ((hgroup n hn).1 ⟨heq.1.symm, heq.2.symm⟩).symm,
        fun heq => ((hgroup n hn).2 heq.symm).imp Eq.symm Eq.symm⟩
    · exact iff_of_true ⟨rfl, rfl⟩ rfl
  · rw [List.forall_mem_append, List.forall_mem_singleton]
    exact ⟨h.consistent, hm⟩

/-- A group may get a name that its user gives to no other group.  A group has one user, so all its
records are renamed, and what is not renamed is in another one. -/
theorem retitled (h : Coherent ms) (hm : m ∈ ms) {name : String}
    (hfree : ∀ n ∈ ms, n.userId = m.userId → n.name = name → n.groupId = m.groupId)
    (category : Option String) (time : SavedMapping → Instant) :
    Coherent (changeWhere (Store.inGroup m.userId m.groupId)
      (fun n => n.retitled name category (time n)) ms) := by
  have hsame : ∀ n' ∈ changeWhere (Store.inGroup m.userId m.groupId)
      (fun n => n.retitled name category (time n)) ms, ∃ n ∈ ms,
        n'.userId = n.userId ∧ n'.groupId = n.groupId ∧
          n'.name = if n.groupId = m.groupId then name else n.name := by
    intro n' hn'
    obtain ⟨n, hn, ⟨hin, rfl⟩ | ⟨hout, rfl⟩⟩ := exists_of_mem_changeWhere hn'
    · have hin : n.userId = m.userId ∧ n.groupId = m.groupId := by
        simpa [Store.inGroup] using hin
      exact ⟨n, hn, rfl, rfl, (if_pos hin.2).symm⟩
    · have hout : n'.userId = m.userId → n'.groupId ≠ m.groupId := by
        simpa [Store.inGroup] using hout
      have hne : n'.groupId ≠ m.groupId := fun heq => hout (h.title_eq n' hn m hm heq).1 heq
      exact ⟨n', hn, rfl, rfl, (if_neg hne).symm⟩
  refine of_group_iff ?_ (fun a ha b hb => ?_) ?_
  · rw [SavedMapping.ids_retitled]
    exact h.nodup_ids
  · obtain ⟨k, hk, hkuser, hkgroup, hkname⟩ := hsame a ha
    obtain ⟨n, hn, hnuser, hngroup, hnname⟩ := hsame b hb
    rw [hkuser, hnuser, hkname, hnname, hkgroup, hngroup]
    split <;> split <;> rename_i hk' hn'
    · exact iff_of_true ⟨(h.title_eq k hk n hn (hk'.trans hn'.symm)).1, rfl⟩ (hk'.trans hn'.symm)
    · refine iff_of_false (fun heq => hn' ?_) fun heq => hn' (heq ▸ hk')
      exact hfree n hn (heq.1 ▸ (h.title_eq k hk m hm hk').1) heq.2.symm
    · refine iff_of_false (fun heq => hk' ?_) fun heq => hk' (heq ▸ hn')
      exact hfree k hk (heq.1 ▸ (h.title_eq n hn m hm hn').1) heq.2
    · exact h.group_iff hk hn
  · exact forall_mem_changeWhere h.consistent fun _ _ hn => hn.retitled _ _ _

end Coherent

/-! ### Coherence is kept -/

variable {s : Store} {ms ms' : List SavedMapping} {op : Store.Operation}

/-- What an operation draws is new: no record has it as its id or as its group. -/
def Store.Operation.Fresh (op : Store.Operation) (ms : List SavedMapping) : Prop :=
  ∀ x ∈ op.drawn, ∀ m ∈ ms, m.id ≠ x ∧ m.groupId ≠ x

/-- Of fresh ids the first is no record's id and the second no record's group. -/
theorem Store.Operation.Fresh.ne_drawn {freshId freshGroup : String} (h : op.Fresh ms)
    (hop : op.drawn = [freshId, freshGroup]) :
    (∀ n ∈ ms, n.id ≠ freshId) ∧ ∀ n ∈ ms, n.groupId ≠ freshGroup :=
  ⟨fun n hn => (h _ (hop ▸ List.mem_cons_self) n hn).1,
    fun n hn => (h _ (hop ▸ List.mem_cons_of_mem _ List.mem_cons_self) n hn).2⟩

/-- A version joins the group of its name. -/
theorem Store.Inherits.mem_group_iff {request : SaveRequest} {u freshGroup : String}
    {base : Store.Inherited} (h : Store.Inherits ms request u freshGroup base) (hms : Coherent ms)
    (hfresh : ∀ n ∈ ms, n.groupId ≠ freshGroup) {n : SavedMapping} (hn : n ∈ ms) :
    n.userId = u ∧ n.name = Text.trim request.name ↔ n.groupId = base.groupId := by
  cases h with
  | @active m hfirst =>
    have hm := List.mem_of_find?_eq_some hfirst
    obtain ⟨⟨rfl, hname⟩, -⟩ : (m.userId = u ∧ m.name = Text.trim request.name) ∧ m.isActive := by
      simpa [Repository.isNamed] using List.find?_some hfirst
    rw [← hname]
    exact hms.group_iff hn hm
  | fresh hfree => exact iff_of_false (fun heq => hfree n hn heq.1 heq.2) (hfresh n hn)

/-- **A save keeps records coherent**: the version joins the group of its name, or begins one of its
own. -/
theorem Store.Saved.coherent {request : SaveRequest} {freshId freshGroup : String}
    {m : SavedMapping} (h : Store.Saved s request freshId freshGroup ms m ms') (hms : Coherent ms)
    (hfresh : (Store.Operation.save request freshId freshGroup).Fresh ms) : Coherent ms' := by
  obtain ⟨-, -, hbase, -⟩ := h
  obtain ⟨hid, hgroup⟩ := hfresh.ne_drawn rfl
  refine (hms.withActivity _ false _).append ?_ (.rename_withVersion _ _ _) ?_
  · exact forall_mem_changeWhere hid fun _ _ h => h
  · exact forall_mem_changeWhere (fun n hn => hbase.mem_group_iff hms hgroup hn) fun _ _ h => h

/-- **Every operation keeps the records coherent.** -/
theorem Store.Change.coherent (h : Store.Change s ms op ms') (hms : Coherent ms)
    (hfresh : op.Fresh ms) : Coherent ms' := by
  cases h with
  | kept => exact hms
  | saved h => exact h.coherent hms hfresh
  | activated => exact (hms.withActivity _ _ _).withActivity _ _ _
  | copied hm hfree =>
    obtain ⟨hid, hgroup⟩ := hfresh.ne_drawn rfl
    refine hms.append hid (.rename_withVersion _ _ _) fun n hn => ?_
    exact iff_of_false (fun heq => hfree n hn heq.1 heq.2) (hgroup n hn)
  | updated hm hfree => exact hms.retitled hm.mem hfree _ _
  | deleted => exact hms.sublist List.filter_sublist

/-- The ids and groups of the records are old ones or drawn by the operation. -/
theorem Store.Change.mem_ids (h : Store.Change s ms op ms') {ids : List String}
    (hids : ∀ m ∈ ms, m.id ∈ ids ∧ m.groupId ∈ ids) :
    ∀ m ∈ ms', m.id ∈ ids ++ op.drawn ∧ m.groupId ∈ ids ++ op.drawn := by
  have hold : ∀ m ∈ ms, m.id ∈ ids ++ op.drawn ∧ m.groupId ∈ ids ++ op.drawn := fun m hm =>
    (hids m hm).imp (List.mem_append_left _) (List.mem_append_left _)
  cases h with
  | kept => exact hold
  | saved h =>
    obtain ⟨-, -, hbase, -⟩ := h
    rw [List.forall_mem_append, List.forall_mem_singleton]
    refine ⟨forall_mem_changeWhere hold fun _ _ h => h,
      List.mem_append_right _ List.mem_cons_self, ?_⟩
    cases hbase with
    | active hfirst => exact (hold _ (List.mem_of_find?_eq_some hfirst)).2
    | fresh => exact List.mem_append_right _ (List.mem_cons_of_mem _ List.mem_cons_self)
  | activated =>
    exact forall_mem_changeWhere (forall_mem_changeWhere hold fun _ _ h => h) fun _ _ h => h
  | copied =>
    rw [List.forall_mem_append, List.forall_mem_singleton]
    exact ⟨hold, List.mem_append_right _ List.mem_cons_self,
      List.mem_append_right _ (List.mem_cons_of_mem _ List.mem_cons_self)⟩
  | updated => exact forall_mem_changeWhere hold fun _ _ h => h
  | deleted => exact fun m hm => hold m (List.mem_filter.1 hm).1

/-! ### Runs -/

/-- A request to save an empty mapping. -/
def SaveRequest.plain (name : String) (category : Option String) : SaveRequest :=
  ⟨name, ⟨"", "", "", ⟨0, 0⟩, .empty, [], [], .empty⟩, .empty, category, none, none, none, none⟩

/-- An empty table in memory. -/
def Repository.blank (clock : Nat → Instant) : Repository := ⟨[], [], clock, fun _ _ => none⟩

/-- An operation that a store is asked for. -/
structure Request where
  store : Store
  operation : Store.Operation

namespace Request

/-- The repository after a request. -/
def perform (q : Request) (r : Repository) : Repository := q.operation.perform q.store r

/-- The repository after a run. -/
def performAll (run : List Request) (r : Repository) : Repository :=
  run.foldl (fun r q => q.perform r) r

/-- The fresh ids of a run. -/
def drawn (run : List Request) : List String := run.flatMap fun q => q.operation.drawn

/-- Each request of a run finds records for which `P` holds of it. -/
def Along (P : Request → List SavedMapping → Prop) : List Request → Repository → Prop
  | [], _ => True
  | q :: run, r => P q r.records ∧ Along P run (q.perform r)

/-- A user saves an empty mapping. -/
def saving (u name : String) (category : Option String) (freshId freshGroup : String) : Request :=
  ⟨⟨some u, .default⟩, .save (.plain name category) freshId freshGroup⟩

end Request

/-- What a run that has drawn some ids makes of a table in memory. -/
structure Reached (ids : List String) (r : Repository) : Prop where
  inMemory : r.InMemory
  coherent : Coherent r.records
  mem_ids : ∀ m ∈ r.records, m.id ∈ ids ∧ m.groupId ∈ ids

namespace Reached

variable {ids : List String} {r : Repository} {q : Request} {run : List Request}

/-- An empty table is reached before anything is drawn. -/
theorem blank (clock : Nat → Instant) : Reached [] (.blank clock) :=
  ⟨fun _ _ => rfl, .nil, List.forall_mem_nil _⟩

/-- What an operation draws is new if it was not drawn before: all ids and groups of the records
were. -/
theorem fresh (h : Reached ids r) (hdrawn : (ids ++ op.drawn).Nodup) : op.Fresh r.records := by
  intro x hx m hm
  have hx : x ∉ ids := fun hmem => (List.nodup_append.1 hdrawn).2.2 x hmem x hx rfl
  obtain ⟨hid, hgroup⟩ := h.mem_ids m hm
  exact ⟨fun heq => hx (heq ▸ hid), fun heq => hx (heq ▸ hgroup)⟩

/-- **Each request of a run makes a change**, on a table that is still in memory. -/
theorem change (h : Reached ids r) (hdrawn : (ids ++ q.operation.drawn).Nodup) :
    (q.perform r).InMemory ∧ q.store.Change r.records q.operation (q.perform r).records :=
  Store.perform_change h.inMemory h.coherent.nodup_ids fun x hx m hm => (h.fresh hdrawn x hx m hm).1

/-- One request. -/
theorem perform (h : Reached ids r) (hdrawn : (ids ++ q.operation.drawn).Nodup) :
    Reached (ids ++ q.operation.drawn) (q.perform r) := by
  obtain ⟨hr, hchange⟩ := h.change hdrawn
  exact ⟨hr, hchange.coherent h.coherent (h.fresh hdrawn), hchange.mem_ids h.mem_ids⟩

/-- A run. -/
theorem performAll (h : Reached ids r) (hdrawn : (ids ++ Request.drawn run).Nodup) :
    Reached (ids ++ Request.drawn run) (Request.performAll run r) := by
  induction run generalizing ids r with
  | nil => simpa [Request.drawn, Request.performAll] using h
  | cons q run ih =>
    rw [Request.drawn, List.flatMap_cons, ← List.append_assoc] at hdrawn ⊢
    exact ih (h.perform (List.nodup_append.1 hdrawn).1) hdrawn

end Reached

/-- **The records are coherent after every run.**  Whatever users ask for, in whatever order, and
whether it succeeds or not: ids are unique, the mappings of a group are those of one name of one
user, and the documents of a mapping have its name and its version. -/
theorem coherent_performAll (clock : Nat → Instant) (run : List Request)
    (hdrawn : (Request.drawn run).Nodup) :
    Coherent (Request.performAll run (.blank clock)).records :=
  ((Reached.blank clock).performAll hdrawn).coherent

namespace Request

/-- Two users save mappings of one name; one of them saves a second version, copies it, renames the
versions, and is refused a copy under the name that the first copy has. -/
def session : List Request :=
  [saving "u" " m" (some "A") "i" "g", saving "w" "m" none "j" "h", saving "u" "m " none "k" "f",
    ⟨⟨some "u", .default⟩, .copy "k" "n" "l" "e"⟩, ⟨⟨some "u", .default⟩, .update "i" "o" none⟩,
    ⟨⟨some "u", .default⟩, .copy "k" "n" "p" "d"⟩]

end Request

/-- The versions are in one group under their last name, and the copy has a group of its own. -/
theorem coherent_session :
    (Request.drawn Request.session).Nodup ∧
      Coherent (Request.performAll Request.session (.blank fun _ => ⟨0, 0⟩)).records ∧
      (Request.performAll Request.session (.blank fun _ => ⟨0, 0⟩)).records.map
          (fun m => (m.id, m.userId, m.name, m.version, m.groupId)) =
        [("i", "u", "o", "1.0", "g"), ("j", "w", "m", "1.0", "h"), ("k", "u", "o", "1.1", "g"),
          ("l", "u", "n", "1.0", "e")] :=
  ⟨by decide +kernel, coherent_performAll _ _ (by decide +kernel), by decide +kernel⟩

end MappingCanvas
