/-
# Names

A save stores a name without the blanks at its ends, and refuses one of which nothing is left.  A
copy and an update store the name that they are given.  So the stored names are names (`IsName`) in
every state of a run exactly if every copy and every update of the run that succeeds is given a name
(`forall_isName_iff`); a copy may be called by a single blank, and a group by no character at all
(`not_isName_unnaming`).

That operations keep names as they should be is stated for any condition on names and for any
failures of their calls (`Keeps`), with one rule for each procedure.  Unique ids are kept along with
them, since an insertion refuses an id that is taken; so nothing is asked here of the ids that are
drawn.
-/

import MappingCanvas.Proofs.Archive.Runs

namespace MappingCanvas

/-! ### What a name is -/

/-- A name is not empty, and neither of its ends is blank. -/
structure IsName (name : String) : Prop where
  ne_empty : name ≠ ""
  head : ∀ c, name.toList.head? = some c → Text.isBlank c = false
  last : ∀ c, name.toList.getLast? = some c → Text.isBlank c = false

/-- What trimming leaves is a name, unless nothing is left. -/
theorem isName_trim {text : String} (h : Text.trim text ≠ "") : IsName (Text.trim text) where
  ne_empty := h
  head c hc := by
    rw [Text.trim, String.toList_ofList] at hc
    exact Text.not_of_head?_stripEnds hc
  last c hc := by
    rw [Text.trim, String.toList_ofList] at hc
    exact Text.not_of_getLast?_stripEnds hc

namespace Store

/-! ### Records with names -/

variable {N : String → Prop} {ms : List SavedMapping}

/-- Ids are unique, and `N` holds of all names. -/
structure Named (N : String → Prop) (ms : List SavedMapping) : Prop where
  nodup_ids : (ms.map SavedMapping.id).Nodup
  name_mem : ∀ m ∈ ms, N m.name

namespace Named

/-- One more record, of a new id and a good name, keeps all names good. -/
theorem append {m : SavedMapping} (h : Named N ms) (hid : ∀ n ∈ ms, n.id ≠ m.id)
    (hm : N m.name) : Named N (ms ++ [m]) where
  nodup_ids := by
    rw [List.map_append, List.map_singleton, ← List.concat_eq_append]
    refine h.nodup_ids.concat fun hmem => ?_
    obtain ⟨n, hn, heq⟩ := List.mem_map.1 hmem
    exact hid n hn heq
  name_mem := by
    rw [List.forall_mem_append, List.forall_mem_singleton]
    exact ⟨h.name_mem, hm⟩

/-- Part of the records has good names if all have. -/
theorem sublist {ms' : List SavedMapping} (h : Named N ms) (hsub : ms'.Sublist ms) :
    Named N ms' :=
  ⟨h.nodup_ids.sublist (hsub.map _), fun m hm => h.name_mem m (hsub.subset hm)⟩

/-- A patch may give names of which `N` holds. -/
theorem patch {patch : MappingPatch} (h : Named N ms)
    (hpatch : ∀ name, patch.name = some name → N name) (p : SavedMapping → Bool) (t : Instant) :
    Named N (changeWhere p (patch.apply t) ms) where
  nodup_ids := by
    have hsame : (changeWhere p (patch.apply t) ms).map SavedMapping.id = ms.map SavedMapping.id :=
      map_changeWhere fun _ => rfl
    rw [hsame]
    exact h.nodup_ids
  name_mem := forall_mem_changeWhere h.name_mem fun m _ hm => by
    show N (patch.name.getD m.name)
    cases hname : patch.name with
    | none => exact hm
    | some name => exact hpatch name hname

end Named

/-! ### Procedures -/

section

variable {ε α β : Type}

/-- An operation keeps ids unique and names as `N` asks, whichever of its calls fail; which calls
are to fail stays as it was planned. -/
def Keeps (N : String → Prop) (act : ExceptT ε (StateM Repository) α) : Prop :=
  ∀ r : Repository, Named N r.records →
    (act r).2.failure = r.failure ∧ Named N (act r).2.records

theorem keeps_pure {a : α} : Keeps N (pure a : ExceptT ε (StateM Repository) α) :=
  fun _ hr => ⟨rfl, hr⟩

theorem keeps_throw {e : ε} : Keeps N (throw e : ExceptT ε (StateM Repository) α) :=
  fun _ hr => ⟨rfl, hr⟩

/-- **Operations in sequence keep names if each does.** -/
theorem keeps_bind {act : ExceptT ε (StateM Repository) β}
    {k : β → ExceptT ε (StateM Repository) α} (h : Keeps N act) (hk : ∀ b, Keeps N (k b)) :
    Keeps N (act >>= k) := by
  intro r hr
  obtain ⟨hplan, hr'⟩ := h r hr
  rw [bind_apply]
  generalize act r = result at hplan hr' ⊢
  obtain ⟨_ | b, r'⟩ := result
  · exact ⟨hplan, hr'⟩
  · obtain ⟨hplan', hr''⟩ := hk b r' hr'
    exact ⟨hplan'.trans hplan, hr''⟩

/-- What is read are the records as they are. -/
theorem keeps_read {k : Repository → ExceptT ε (StateM Repository) α}
    (h : ∀ r, Named N r.records → Keeps N (k r)) : Keeps N (MonadState.get >>= k) :=
  fun r hr => h r hr r hr

/-- An operation that is repeated keeps names if it does each time. -/
theorem keeps_mapM {f : β → ExceptT ε (StateM Repository) α} (h : ∀ b, Keeps N (f b))
    (bs : List β) : Keeps N (bs.mapM f) := by
  induction bs with
  | nil => exact keeps_pure
  | cons b bs ih =>
    rw [List.mapM_cons]
    exact keeps_bind (h b) fun _ => keeps_bind ih fun _ => keeps_pure

/-- A call that is only counted keeps names, also if it fails. -/
theorem keeps_enter (p : Procedure) : Keeps N (Repository.enter p) := by
  intro r hr
  rw [Repository.enter_apply]
  exact ⟨rfl, hr⟩

/-- Records of good names may replace others. -/
theorem keeps_setRecords (h : Named N ms) : Keeps N (Repository.setRecords ms) :=
  fun _ _ => ⟨rfl, h⟩

variable {fail : PersistenceError → StoreError} {f : MappingFilter} {patch : MappingPatch}

/-- A call keeps names, however its failure is reported. -/
theorem keeps_calling {call : Repository.Call α} (h : Keeps N call) :
    Keeps N (calling fail call) := by
  intro r hr
  have hr' := h r hr
  simp only [calling]
  generalize call r = result at hr' ⊢
  obtain ⟨_ | a, r'⟩ := result <;> exact hr'

/-- Adding a record of a good name keeps names; of an id that is taken none is added. -/
theorem keeps_insert {m : SavedMapping} (hm : N m.name) : Keeps N (Repository.insert m) := by
  refine keeps_bind (keeps_enter _) fun _ => keeps_read fun r hr => ?_
  split
  · exact fun _ hr => ⟨rfl, hr⟩
  · rename_i hnew
    exact keeps_bind (keeps_setRecords (hr.append (by simpa using hnew) hm)) fun _ => keeps_pure

/-- A patch with a good name, or with none, keeps names. -/
theorem keeps_update {id : String} (hpatch : ∀ name, patch.name = some name → N name) :
    Keeps N (Repository.update id patch) := by
  refine keeps_bind (keeps_enter _) fun _ => keeps_read fun r hr => ?_
  split
  · refine keeps_bind (keeps_setRecords ?_) fun _ => keeps_pure
    rw [changeFirst_eq hr.nodup_ids]
    exact hr.patch hpatch _ _
  · exact keeps_throw

/-- So does a patch of all records that a filter accepts. -/
theorem keeps_updateWhere (hpatch : ∀ name, patch.name = some name → N name) :
    Keeps N (Repository.updateWhere f patch) :=
  keeps_bind (keeps_enter _) fun _ => keeps_read fun _ hr =>
    keeps_bind (keeps_setRecords (hr.patch hpatch _ _)) fun _ => keeps_pure

theorem keeps_delete {id : String} : Keeps N (Repository.delete id) := by
  refine keeps_bind (keeps_enter _) fun _ => keeps_read fun r hr => ?_
  split
  · exact keeps_setRecords (hr.sublist List.filter_sublist)
  · exact keeps_throw

theorem keeps_select : Keeps N (Repository.select f) :=
  keeps_bind (keeps_enter _) fun _ => keeps_read fun _ _ => keeps_pure

theorem keeps_activeMapping {u name : String} {category : Option String} :
    Keeps N (Repository.activeMapping u name category) :=
  keeps_bind (keeps_enter _) fun _ => keeps_read fun _ _ => keeps_pure

theorem keeps_nextVersion {u name : String} {category : Option String} :
    Keeps N (Repository.nextVersion u name category) := by
  refine keeps_bind (keeps_enter _) fun _ => keeps_read fun r _ => ?_
  dsimp only
  split <;> exact keeps_pure

end

/-! ### Operations -/

variable {s : Store} {op : Operation} {id name freshId freshGroup : String}
  {category : Option String} {request : SaveRequest}

theorem keeps_user : Keeps N s.user := by
  unfold user
  split
  · exact keeps_pure
  · exact keeps_throw

theorem keeps_nameFree {u : String} {own : Option String} :
    Keeps N (ensureNameFree u name own) := by
  refine keeps_bind (keeps_calling keeps_select) fun _ => ?_
  split
  · exact keeps_throw
  · exact keeps_pure

theorem keeps_get : Keeps N (s.get id) := by
  refine keeps_bind keeps_user fun _ => keeps_bind (keeps_calling keeps_select) fun _ => ?_
  split
  · exact keeps_pure
  · exact keeps_throw

theorem keeps_inherit {u : String} {active : Option SavedMapping} :
    Keeps N (inherit request u name freshGroup active) := by
  unfold inherit
  split
  · exact keeps_pure
  · exact keeps_bind keeps_nameFree fun _ => keeps_pure

/-- **A save keeps names if trimmed ones are good**, since it stores the trimmed one, with a version
that is given or drawn. -/
theorem keeps_save (h : ∀ text, Text.trim text ≠ "" → N (Text.trim text)) :
    Keeps N (s.save request freshId freshGroup) := by
  refine keeps_bind keeps_user fun u => ?_
  dsimp only
  split
  · exact keeps_throw
  rename_i hname
  refine keeps_bind (keeps_calling keeps_activeMapping) fun _ => ?_
  refine keeps_bind keeps_inherit fun base => ?_
  have hname : N (Text.trim request.name) := h _ (by simpa using hname)
  split <;> refine keeps_bind ?_ fun version =>
    keeps_bind (keeps_calling (keeps_updateWhere nofun)) fun _ =>
      keeps_read fun _ _ => keeps_calling (keeps_insert hname)
  · exact keeps_pure
  · exact keeps_calling keeps_nextVersion

/-- An activation keeps names, as it changes none. -/
theorem keeps_activate : Keeps N (s.activate id name category) :=
  keeps_bind keeps_user fun _ => keeps_bind keeps_get fun _ =>
    keeps_bind (keeps_calling (keeps_updateWhere nofun)) fun _ =>
      keeps_calling (keeps_update nofun)

/-- A copy keeps names if the one it is given is good: this one is stored as it is. -/
theorem keeps_copy (h : N name) : Keeps N (s.copy id name freshId freshGroup) :=
  keeps_bind keeps_user fun _ => keeps_bind keeps_get fun _ => keeps_bind keeps_nameFree fun _ =>
    keeps_read fun _ _ => keeps_calling (keeps_insert h)

/-- Renaming records one by one keeps names if the new one is good. -/
theorem keeps_retitle (h : N name) (vs : List SavedMapping) :
    Keeps N (vs.mapM fun v =>
      during .update (Repository.update v.id (renamePatch v name category))) := by
  refine keeps_mapM (fun v => keeps_calling (keeps_update fun name' h' => ?_)) vs
  cases h'
  exact h

/-- An update keeps names if the one it is given is good. -/
theorem keeps_rename (h : N name) : Keeps N (s.update id name category) :=
  keeps_bind keeps_user fun _ => keeps_bind keeps_get fun _ => keeps_bind keeps_nameFree fun _ =>
    keeps_bind (keeps_calling keeps_select) fun _ => keeps_retitle h _

theorem keeps_deletion : Keeps N (s.delete id) :=
  keeps_bind keeps_get fun _ => keeps_calling keeps_delete

theorem keeps_versions : Keeps N (s.versions id) :=
  keeps_bind keeps_user fun _ => keeps_bind keeps_get fun _ =>
    keeps_bind (keeps_calling keeps_select) fun _ => keeps_pure

theorem keeps_latest : Keeps N s.latest :=
  keeps_bind keeps_user fun _ => keeps_bind (keeps_calling keeps_select) fun _ => keeps_pure

/-- The name that an operation stores as it is given. -/
def Operation.given? : Operation → Option String
  | copy _ name _ _ | update _ name _ => some name
  | _ => none

/-- **Every operation keeps names good** if trimmed ones are, and the one that a copy or an update
is given. -/
theorem keeps_run (hsaved : ∀ text, Text.trim text ≠ "" → N (Text.trim text))
    (hgiven : ∀ name, op.given? = some name → N name) : Keeps N (op.run s) := by
  have hreply {α : Type} {act : Action α} {reply : α → Reply} (h : Keeps N act) :
      Keeps N (act >>= fun a => pure (reply a)) := keeps_bind h fun _ => keeps_pure
  cases op with
  | save request freshId freshGroup => exact hreply (keeps_save hsaved)
  | activate id name category => exact hreply keeps_activate
  | copy id name freshId freshGroup => exact hreply (keeps_copy (hgiven name rfl))
  | update id name category => exact hreply (keeps_rename (hgiven name rfl))
  | delete id => exact hreply keeps_deletion
  | get id => exact hreply keeps_get
  | versions id => exact hreply keeps_versions
  | latest => exact hreply keeps_latest

/-- On a table in memory, a name that is stored as it is given is that of some record afterwards, if
the operation succeeds. -/
theorem run_given (hids : (ms.map SavedMapping.id).Nodup) (hgiven : op.given? = some name) :
    Ensures (op.run s) ms fun o ms' => match o with
      | .error _ => ms' = ms
      | .ok _ => ∃ n ∈ ms', n.name = name := by
  cases op with
  | copy id name freshId freshGroup =>
    cases hgiven
    refine ensures_bind (copy_copies.mono fun o ms' h => ?_)
    cases o with
    | error e => exact h.2
    | ok n =>
      obtain ⟨m, t, -, -, rfl, rfl⟩ := h
      exact ensures_pure ⟨_, List.mem_append_right _ List.mem_cons_self, rfl⟩
  | update id name category =>
    cases hgiven
    refine ensures_bind ((update_renames hids).mono fun o ms' h => ?_)
    cases o with
    | error e => exact h.2
    | ok ns =>
      obtain ⟨m, time, hm, -, -, rfl⟩ := h
      have hin : inGroup m.userId m.groupId m = true := by simp [inGroup]
      exact ensures_pure ⟨_, List.mem_map.2 ⟨m, hm.mem, if_pos hin⟩, rfl⟩
  | _ => cases hgiven

/-- **An operation that gives no name, or does not succeed, leaves only names; otherwise it depends
on what it gives.** -/
theorem named_perform_iff {r : Repository} (hr : r.InMemory) (h : Named IsName r.records) :
    Named IsName (op.perform s r).records ↔
      ∀ name, op.given? = some name → (∃ reply, (op.run s r).1 = .ok reply) → IsName name := by
  rw [op.perform_eq]
  constructor
  · rintro hnamed name hgiven ⟨reply, hreply⟩
    have hstored := (run_given (s := s) h.nodup_ids hgiven r hr rfl).2
    rw [hreply] at hstored
    obtain ⟨n, hn, rfl⟩ := hstored
    exact hnamed.name_mem n hn
  · intro hnames
    cases hgiven : op.given? with
    | none => exact (keeps_run (fun _ => isName_trim) (by simp [hgiven]) r h).2
    | some name =>
      cases hreply : (op.run s r).1 with
      | error e =>
        have hsame := (run_given (s := s) h.nodup_ids hgiven r hr rfl).2
        rw [hreply] at hsame
        rw [hsame]
        exact h
      | ok reply =>
        refine (keeps_run (fun _ => isName_trim) (fun name' hgiven' => ?_) r h).2
        exact hnames name' hgiven' ⟨reply, hreply⟩

end Store

/-! ### Runs -/

namespace Request

variable {q : Request} {run : List Request} {r : Repository}

/-- An operation that is asked for succeeds. -/
def Succeeds (q : Request) (r : Repository) : Prop :=
  ∃ reply, (q.operation.run q.store r).1 = .ok reply

/-- A table in memory with unique ids stays one in every run, whatever ids are drawn. -/
theorem inMemory_performAll (run : List Request) (hr : r.InMemory)
    (hids : (r.records.map SavedMapping.id).Nodup) :
    (performAll run r).InMemory ∧ ((performAll run r).records.map SavedMapping.id).Nodup := by
  induction run generalizing r with
  | nil => exact ⟨hr, hids⟩
  | cons q run ih =>
    have hkeeps : Store.Keeps (fun _ => True) (q.operation.run q.store) :=
      Store.keeps_run (fun _ _ => trivial) fun _ _ => trivial
    obtain ⟨hplan, hnamed⟩ := hkeeps r ⟨hids, fun _ _ => trivial⟩
    rw [← q.operation.perform_eq] at hplan hnamed
    refine ih (r := q.perform r) ?_ hnamed.nodup_ids
    rw [Repository.InMemory, perform, hplan]
    exact hr

/-- One request more of a run is one request after it. -/
theorem performAll_take_succ (k : Nat) (hq : run[k]? = some q) :
    performAll (run.take (k + 1)) r = q.perform (performAll (run.take k) r) := by
  rw [List.take_add_one, hq, performAll, List.foldl_append]
  rfl

end Request

/-- **When all stored names are names.**  In a run on a table in memory that is empty at first, the
stored names are names in every state if and only if every copy and every update that succeeds is
given one. -/
theorem forall_isName_iff (clock : Nat → Instant) (run : List Request) :
    (∀ k, ∀ m ∈ (Request.performAll (run.take k) (.blank clock)).records, IsName m.name) ↔
      ∀ k (q : Request) name, run[k]? = some q → q.operation.given? = some name →
        q.Succeeds (Request.performAll (run.take k) (.blank clock)) → IsName name := by
  have hstate (k : Nat) := Request.inMemory_performAll (r := .blank clock) (run.take k)
    (fun _ _ => rfl) List.nodup_nil
  constructor
  · intro hall k q name hq hgiven hsucceeds
    have hnamed : Store.Named IsName (q.perform (Request.performAll (run.take k)
        (.blank clock))).records := by
      rw [← Request.performAll_take_succ k hq]
      exact ⟨(hstate (k + 1)).2, hall (k + 1)⟩
    exact (Store.named_perform_iff (hstate k).1 ⟨(hstate k).2, hall k⟩).1 hnamed name hgiven
      hsucceeds
  · intro hgiven k
    induction k with
    | zero => exact List.forall_mem_nil _
    | succ k ih =>
      cases hq : run[k]? with
      | none =>
        rw [List.take_add_one, hq, Option.toList_none, List.append_nil]
        exact ih
      | some q =>
        rw [Request.performAll_take_succ k hq]
        exact ((Store.named_perform_iff (hstate k).1 ⟨(hstate k).2, ih⟩).2 fun name =>
          hgiven k q name hq).name_mem

namespace Request

/-- A mapping is saved, copied under a blank, and renamed to nothing. -/
def unnaming : List Request :=
  [saving "u" " m " none "i" "g", ⟨⟨some "u", .default⟩, .copy "i" " " "j" "h"⟩,
    ⟨⟨some "u", .default⟩, .update "i" "" none⟩]

end Request

/-- **A copy and an update store what is no name.** -/
theorem not_isName_unnaming :
    (Request.performAll Request.unnaming (.blank fun _ => ⟨0, 0⟩)).records.map
        SavedMapping.name = ["", " "] ∧
      ∀ m ∈ (Request.performAll Request.unnaming (.blank fun _ => ⟨0, 0⟩)).records,
        ¬IsName m.name := by
  have hnames : (Request.performAll Request.unnaming (.blank fun _ => ⟨0, 0⟩)).records.map
      SavedMapping.name = ["", " "] := by decide
  refine ⟨hnames, fun m hm hname => ?_⟩
  have hmem : m.name ∈ ["", " "] := hnames ▸ List.mem_map_of_mem hm
  rw [List.mem_pair] at hmem
  obtain hempty | hblank := hmem
  · exact hname.ne_empty hempty
  · exact absurd (hname.head ' ' (by rw [hblank]; rfl)) (by decide)

end MappingCanvas
