/-
# Refused and interrupted operations

An operation may fail for two reasons.  It is refused by the store, because of what it asks for: on
a table in memory there is no other reason, the causes are those of `Refusal`, and all of them are
found before the first write, so the records stay as they are (`refused_leaves_records`).

Or a call of it fails.  A save makes up to five calls and writes in the last two of them, so what an
interruption leaves depends on the call:

| failing call | records afterwards |
| --- | --- |
| the active mapping of the name, the check of the name, the next version | as before |
| the deactivation of the group | as before |
| the insertion | the group has no active mapping, and nothing else is changed |

Never is a version added, and never are two versions active (`save_account`).

An activation writes twice, and the first time it only deactivates.  If it is interrupted before
that, the records are as before; if it is interrupted after that, the mappings of the name and the
category are inactive, and no mapping is active that was not active before (`activate_account`).
-/

import MappingCanvas.Proofs.Archive.Runs

namespace MappingCanvas

namespace Store

variable {s : Store} {ms : List SavedMapping} {u : String} {request : SaveRequest}
  {freshId freshGroup : String} {base : Inherited} {t : Instant} {e e' : StoreError}
  {op : Operation}

/-! ### Refusals -/

/-- There is at most one cause to refuse an operation. -/
theorem Refusal.unique (h : Refusal s ms op e) (h' : Refusal s ms op e') : e = e' := by
  cases h with
  | anonymous hu =>
    cases h' with
    | anonymous => rfl
    | unnamed hu' _ => cases hu.symm.trans hu'
    | dormant hu' _ _ => cases hu.symm.trans hu'
    | missing _ hu' _ => cases hu.symm.trans hu'
    | copyTaken hm _ => cases hu.symm.trans hm.user_eq
    | updateTaken hm _ => cases hu.symm.trans hm.user_eq
  | unnamed hu hname =>
    cases h' with
    | anonymous hu' => cases hu.symm.trans hu'
    | unnamed => rfl
    | dormant _ hname' _ => exact absurd hname hname'
    | missing hid _ _ => cases hid
  | dormant hu hname _ =>
    cases h' with
    | anonymous hu' => cases hu.symm.trans hu'
    | unnamed _ hname' => exact absurd hname' hname
    | dormant => rfl
    | missing hid _ _ => cases hid
  | missing hid hu h =>
    cases h' with
    | anonymous hu' => cases hu.symm.trans hu'
    | unnamed => cases hid
    | dormant => cases hid
    | missing hid' _ _ =>
      cases hid.symm.trans hid'
      rfl
    | copyTaken hm _ =>
      cases hid
      exact absurd hm (h _)
    | updateTaken hm _ =>
      cases hid
      exact absurd hm (h _)
  | copyTaken hm _ =>
    cases h' with
    | anonymous hu => cases hu.symm.trans hm.user_eq
    | missing hid _ h =>
      cases hid
      exact absurd hm (h _)
    | copyTaken => rfl
  | updateTaken hm _ =>
    cases h' with
    | anonymous hu => cases hu.symm.trans hm.user_eq
    | missing hid _ h =>
      cases hid
      exact absurd hm (h _)
    | updateTaken => rfl

/-- **A refused operation changes nothing.**  On a table in memory an operation ends in an error
exactly if there is that cause to refuse it, and then the records stay as they are. -/
theorem refused_leaves_records (s : Store) (op : Operation) {r : Repository} (hr : r.InMemory)
    (hids : (r.records.map SavedMapping.id).Nodup)
    (hfresh : ∀ x ∈ op.drawn, ∀ m ∈ r.records, m.id ≠ x) (e : StoreError) :
    ((op.run s r).1 = .error e ↔ Refusal s r.records op e) ∧
      ((op.run s r).1 = .error e → (op.run s r).2.records = r.records) := by
  have h := (run_outcome (s := s) hids hfresh r hr rfl).2
  generalize (op.run s r).1 = o at h
  cases o with
  | error e' =>
    obtain ⟨hrefusal, hrecords⟩ := h
    refine ⟨⟨fun heq => ?_, fun hrefusal' => ?_⟩, fun _ => hrecords⟩
    · cases heq
      exact hrefusal
    · rw [hrefusal.unique hrefusal']
  | ok a => exact ⟨⟨nofun, fun hrefusal => absurd hrefusal (h.1 e)⟩, nofun⟩

/-- A user has two mappings, of one of them two versions. -/
def threeSaves : List Request :=
  [.saving "u" "m" none "i" "g", .saving "u" "m" none "j" "f", .saving "u" "n" none "k" "h"]

/-- The table with them. -/
def threeSaved : Repository := Request.performAll threeSaves (.blank fun _ => ⟨0, 0⟩)

/-- The table with the three mappings is reached by a run. -/
theorem reached_threeSaved : Reached ([] ++ Request.drawn threeSaves) threeSaved :=
  (Reached.blank _).performAll (by decide)

/-- The two versions do not get the name of the other mapping. -/
theorem refused_leaves_records_rename :
    ((Operation.update "i" "n" none).run ⟨some "u", .default⟩ threeSaved).1 =
        .error (.nameConflict "n") ∧
      ((Operation.update "i" "n" none).run ⟨some "u", .default⟩ threeSaved).2.records =
        threeSaved.records := by
  obtain ⟨hiff, hkept⟩ := refused_leaves_records ⟨some "u", .default⟩ (.update "i" "n" none)
    reached_threeSaved.inMemory reached_threeSaved.coherent.nodup_ids nofun (.nameConflict "n")
  have htaken : ∃ m ∈ threeSaved.records, m.userId = "u" ∧ m.id = "i" ∧
      ∃ n ∈ threeSaved.records, n.userId = m.userId ∧ n.name = "n" ∧ n.groupId ≠ m.groupId := by
    decide
  obtain ⟨m, hm, hu, hid, htaken⟩ := htaken
  have hrefused := hiff.2 (.updateTaken ⟨hm, congrArg some hu.symm, hid⟩ htaken)
  exact ⟨hrefused, hkept hrefused⟩

/-! ### Saving -/

/-- **A save under a name is refused only if all mappings of the name are inactive.** -/
theorem refusal_save_iff (hu : s.userId = some u) (hname : Text.trim request.name ≠ "") :
    Refusal s ms (.save request freshId freshGroup) e ↔
      e = .nameConflict (Text.trim request.name) ∧ Dormant ms u (Text.trim request.name) := by
  constructor
  · intro h
    cases h with
    | anonymous hu' => cases hu.symm.trans hu'
    | unnamed _ hname' => exact absurd hname' hname
    | dormant hu' _ h =>
      obtain rfl := Option.some.inj (hu.symm.trans hu')
      exact ⟨rfl, h⟩
    | missing hid => cases hid
  · rintro ⟨rfl, h⟩
    exact .dormant hu hname h

/-- Records in which no mapping of a group is active, those that were since a point in time. -/
def vacated (g : String) (t : Instant) (ms : List SavedMapping) : List SavedMapping :=
  changeWhere (fun m => m.groupId == g && m.isActive) (·.withActivity false t) ms

/-- A vacated group has no active mapping. -/
theorem isActive_of_mem_vacated {g : String} {n : SavedMapping} (hn : n ∈ vacated g t ms)
    (hgroup : n.groupId = g) : n.isActive = false := by
  obtain ⟨m, -, ⟨-, rfl⟩ | ⟨hkept, rfl⟩⟩ := exists_of_mem_changeWhere hn
  · rfl
  · simpa [hgroup] using hkept

/-- Where a group belongs to one user, the group that a version joins is the user's. -/
theorem Inherits.retired_eq (h : Inherits ms request u freshGroup base)
    (hown : ∀ m ∈ ms, ∀ n ∈ ms, m.groupId = n.groupId → m.userId = n.userId)
    (hgroup : ∀ n ∈ ms, n.groupId ≠ freshGroup) (t : Instant) :
    retired u base.groupId t ms = vacated base.groupId t ms := by
  have huser : ∀ n ∈ ms, n.groupId = base.groupId → n.userId = u := by
    intro n hn heq
    cases h with
    | @active m hfirst =>
      have hm : (m.userId = u ∧ m.name = Text.trim request.name) ∧ m.isActive = true := by
        simpa [Repository.isNamed] using List.find?_some hfirst
      exact (hown n hn m (List.mem_of_find?_eq_some hfirst) heq).trans hm.1.1
    | fresh => exact absurd heq (hgroup n hn)
  refine changeWhere_congr fun n hn => ?_
  by_cases heq : n.groupId = base.groupId
  · simp [inGroup, huser n hn heq]
  · have hother : (n.groupId == base.groupId) = false := by simpa using heq
    simp [inGroup, hother]

/-- Where a group was vacated, the mapping that is added is its only active one. -/
theorem isActive_iff_of_mem_append {m : SavedMapping} (hactive : m.isActive = true) :
    ∀ n ∈ vacated m.groupId t ms ++ [m], n.groupId = m.groupId → (n.isActive = true ↔ n = m) := by
  intro n hn hgroup
  rw [List.mem_append, List.mem_singleton] at hn
  obtain hn | rfl := hn
  · have hinactive := isActive_of_mem_vacated hn hgroup
    refine iff_of_false (by simp [hinactive]) fun hnm => ?_
    cases (hnm ▸ hinactive).symm.trans hactive
  · exact iff_of_true hactive rfl

/-- **What a save comes to, whichever of its calls fail.**  Of a request with a name:

* If no call fails, the save is refused exactly if the user's mappings of the name are all inactive,
  and then the records stay as they are.  Otherwise it adds a version to the group of the first
  active mapping of the name, from which it takes what it was not given, or to a new group if the
  name is free.  The version becomes the only active one of the group.
* If a call fails, the save ends in that error and adds nothing.  The records stay as they are,
  unless it was the insertion that failed: then the group is left without an active version. -/
theorem save_account (hu : s.userId = some u) (hname : Text.trim request.name ≠ "")
    {r r' : Repository} {o : Except StoreError SavedMapping}
    (hsave : s.save request freshId freshGroup r = (o, r'))
    (hown : ∀ m ∈ r.records, ∀ n ∈ r.records, m.groupId = n.groupId → m.userId = n.userId)
    (hid : ∀ n ∈ r.records, n.id ≠ freshId) (hgroup : ∀ n ∈ r.records, n.groupId ≠ freshGroup) :
    ((∀ p e, ¬r.Failed r' p e) →
      (o = .error (.nameConflict (Text.trim request.name)) ∧ r'.records = r.records ↔
        Dormant r.records u (Text.trim request.name)) ∧
      (¬Dormant r.records u (Text.trim request.name) → ∃ m base version t t',
        Inherits r.records request u freshGroup base ∧ r.Shows t ∧ r.Shows t' ∧
        version = request.version.getD
          (Repository.nextOf r.records u (Text.trim request.name) base.category).text ∧
        o = .ok m ∧ m = request.mapping freshId u version base t' ∧
        r'.records = vacated base.groupId t r.records ++ [m] ∧
        ∀ n ∈ r'.records, n.groupId = m.groupId → (n.isActive = true ↔ n = m))) ∧
    ∀ p e, r.Failed r' p e → o = .error (.persistence (savingStage p) e) ∧
      (p ≠ .insert → r'.records = r.records) ∧
      (p = .insert → ∃ base t, Inherits r.records request u freshGroup base ∧ r.Shows t ∧
        r'.records = vacated base.groupId t r.records ∧
        ∀ n ∈ r'.records, n.groupId = base.groupId → n.isActive = false) := by
  have hends : Ends r (s.save request freshId freshGroup) r.records _ _ := save_ends hid
  have h := hends r (.refl r) rfl
  rw [hsave] at h
  dsimp only at h
  obtain ⟨hserved, h⟩ | ⟨p, e, ε, hinterrupted, rfl, rfl, u', hu', hleft⟩ := h
  · refine ⟨fun _ => ?_, fun p e hfailed => absurd hfailed (hserved.unfailing p e)⟩
    cases o with
    | error e =>
      obtain ⟨hrefusal, hrecords⟩ := h
      obtain ⟨rfl, hdormant⟩ := (refusal_save_iff hu hname).1 hrefusal
      exact ⟨iff_of_true ⟨rfl, hrecords⟩ hdormant, fun hnot => absurd hdormant hnot⟩
    | ok m =>
      obtain ⟨hnone, u', version, base, t, t', hu', -, hbase, ht, ht', hversion, rfl, hrecords⟩ := h
      obtain rfl := Option.some.inj (hu.symm.trans hu')
      have hdormant := fun h => hnone _ ((refusal_save_iff hu hname).2 ⟨rfl, h⟩)
      refine ⟨iff_of_false (fun h => nomatch h.1) hdormant, fun _ => ?_⟩
      rw [hbase.retired_eq hown hgroup] at hrecords
      refine ⟨_, base, version, t, t', hbase, ht, ht', hversion, rfl, rfl, hrecords, ?_⟩
      rw [hrecords]
      exact isActive_iff_of_mem_append (m := request.mapping freshId u version base t') rfl
  · obtain rfl := Option.some.inj (hu.symm.trans hu')
    refine ⟨fun hall => absurd ((hinterrupted p e).2 ⟨rfl, rfl⟩) (hall p e), fun q e' hfailed => ?_⟩
    obtain ⟨rfl, rfl⟩ := (hinterrupted q e').1 hfailed
    generalize r'.records = left at hleft ⊢
    refine ⟨rfl, fun hp => ?_, fun hp => ?_⟩
    · cases hleft with
      | early => rfl
      | late => exact absurd rfl hp
    · cases hleft with
      | early hp' => exact absurd hp hp'
      | @late base t hbase ht =>
        rw [hbase.retired_eq hown hgroup]
        exact ⟨base, t, hbase, ht, rfl, fun n hn heq => isActive_of_mem_vacated hn heq⟩

/-- The failure of a call. -/
def connectionReset : PersistenceError := .backend "connection reset"

/-- The table with the three mappings, in which no record can be inserted any more. -/
def sealedTable : Repository :=
  { threeSaved with failure := fun p _ => if p = .insert then some connectionReset else none }

/-- A third version is not inserted, and none is active any more. -/
theorem save_account_sealedTable :
    ((Store.mk (some "u") .default).save (.plain "m" none) "l" "e" sealedTable).1 =
        .error (.persistence .save connectionReset) ∧
      ∃ base t, Inherits sealedTable.records (.plain "m" none) "u" "e" base ∧
        sealedTable.Shows t ∧
        ((Store.mk (some "u") .default).save (.plain "m" none) "l" "e" sealedTable).2.records =
          vacated base.groupId t sealedTable.records ∧
        ∀ n ∈ ((Store.mk (some "u") .default).save (.plain "m" none) "l" "e" sealedTable).2.records,
          n.groupId = base.groupId → n.isActive = false := by
  have hname : Text.trim (SaveRequest.plain "m" none).name ≠ "" := by decide
  have hnew : ∀ n ∈ threeSaved.records, n.id ≠ "l" ∧ n.groupId ≠ "e" := by decide
  have hfailed : sealedTable.Failed
      ((Store.mk (some "u") .default).save (.plain "m" none) "l" "e" sealedTable).2 .insert
        connectionReset := ⟨_, Nat.lt_succ_self _, by decide, rfl⟩
  obtain ⟨-, hinterrupted⟩ := save_account (s := ⟨some "u", .default⟩) (r := sealedTable) rfl hname
    Prod.mk.eta.symm (fun m hm n hn heq => (reached_threeSaved.coherent.title_eq m hm n hn heq).1)
    (fun n hn => (hnew n hn).1) fun n hn => (hnew n hn).2
  obtain ⟨herror, -, hlast⟩ := hinterrupted .insert connectionReset hfailed
  exact ⟨herror, hlast rfl⟩

/-! ### Activating -/

variable {id name : String} {category : Option String} {t' : Instant}

/-- Records of which the one of an id is active since `t'`, and the other ones of a user, a name and
a category are inactive since `t`. -/
def handedOver (u id name : String) (category : Option String) (t t' : Instant)
    (ms : List SavedMapping) : List SavedMapping :=
  ms.map fun m =>
    if m.id = id then m.withActivity true t'
    else if isTitled u name category m then m.withActivity false t
    else m

/-- It does not show whether the activated mapping was deactivated before. -/
theorem changeWhere_withdrawn : changeWhere (fun n => n.id == id) (·.withActivity true t')
    (withdrawn u name category t ms) = handedOver u id name category t t' ms := by
  rw [withdrawn, changeWhere, changeWhere, List.map_map, handedOver]
  refine List.map_congr_left fun m _ => ?_
  rw [Function.comp_apply]
  by_cases hid : m.id = id
  · split <;> simp [SavedMapping.withActivity, hid]
  · split <;> simp [SavedMapping.withActivity, hid]

/-- In what was handed over the mapping of the id is active, and no other one of the name and
category is. -/
theorem isActive_of_mem_handedOver {n : SavedMapping}
    (hn : n ∈ handedOver u id name category t t' ms) :
    (n.id = id → n.isActive = true) ∧
      (isTitled u name category n = true → n.id ≠ id → n.isActive = false) := by
  obtain ⟨m, -, rfl⟩ := List.mem_map.1 hn
  split
  · rename_i hid
    exact ⟨fun _ => rfl, fun _ hne => absurd hid hne⟩
  · rename_i hid
    split
    · exact ⟨fun hid' => absurd hid' hid, fun _ _ => rfl⟩
    · rename_i htitle
      exact ⟨fun hid' => absurd hid' hid, fun htitle' => absurd htitle' htitle⟩

/-- What is still active after a withdrawal is as it was. -/
theorem isActive_of_mem_withdrawn {n : SavedMapping} (hn : n ∈ withdrawn u name category t ms) :
    (isTitled u name category n = true → n.isActive = false) ∧ (n.isActive = true → n ∈ ms) := by
  obtain ⟨m, hm, ⟨-, rfl⟩ | ⟨htitle, rfl⟩⟩ := exists_of_mem_changeWhere hn
  · exact ⟨fun _ => rfl, nofun⟩
  · exact ⟨fun htitle' => absurd htitle' (by simp [htitle]), fun _ => hm⟩

/-- **What an activation comes to, whichever of its calls fail.**

* If no call fails, it is refused if the user has no mapping of the id, and then the records stay as
  they are.  Otherwise the mapping of the id is active afterwards, every other mapping of the user
  with the name and the category is inactive, and all other records are as before.
* If a call fails, the activation ends in that error.  The records stay as they are, unless it was
  the last call, which activates: then the mappings of the user with the name and the category are
  inactive, all other records are as before, and so no mapping has become active. -/
theorem activate_account (hu : s.userId = some u) {r r' : Repository}
    {o : Except StoreError SavedMapping} (hactivate : s.activate id name category r = (o, r'))
    (hids : (r.records.map SavedMapping.id).Nodup) :
    ((∀ p e, ¬r.Failed r' p e) →
      ((∀ m ∈ r.records, m.userId = u → m.id ≠ id) →
        o = .error (.notFound id) ∧ r'.records = r.records) ∧
      ∀ m ∈ r.records, m.userId = u → m.id = id → ∃ t t', r.Shows t ∧ r.Shows t' ∧
        o = .ok (m.withActivity true t') ∧
        r'.records = handedOver u id name category t t' r.records ∧
        (∀ n ∈ r'.records, n.id = id → n.isActive = true) ∧
        ∀ n ∈ r'.records, isTitled u name category n = true → n.id ≠ id → n.isActive = false) ∧
    ∀ p e, r.Failed r' p e → o = .error (activatingError p e) ∧
      (p ≠ .update → r'.records = r.records) ∧
      (p = .update → ∃ t, r.Shows t ∧ r'.records = withdrawn u name category t r.records ∧
        (∀ n ∈ r'.records, isTitled u name category n = true → n.isActive = false) ∧
        ∀ n ∈ r'.records, n.isActive = true → n ∈ r.records) := by
  have hends : Ends r (s.activate id name category) r.records _ _ := activate_ends hids
  obtain ⟨hserved, hinterrupted⟩ := hends.of_run hactivate
  constructor
  · intro hall
    have h := hserved hall
    cases o with
    | error e =>
      obtain ⟨hrefusal, hrecords⟩ := h
      cases hrefusal with
      | anonymous hnone => cases hu.symm.trans hnone
      | missing hid _ hmissing =>
        cases hid
        refine ⟨fun _ => ⟨rfl, hrecords⟩, fun m hm hown hid => ?_⟩
        exact absurd ((owned_iff hu).2 ⟨hm, hown, hid⟩) (hmissing m)
    | ok n =>
      obtain ⟨m, t, t', hm, ht, ht', rfl, hrecords⟩ := h
      obtain rfl := hm.userId_eq hu
      rw [changeWhere_withdrawn] at hrecords
      refine ⟨fun hmissing => absurd hm.id_eq (hmissing m hm.mem rfl), fun k hk hown hid => ?_⟩
      obtain rfl := hm.unique ((owned_iff hu).2 ⟨hk, hown, hid⟩) hids
      refine ⟨t, t', ht, ht', rfl, hrecords, fun n hn => ?_, fun n hn => ?_⟩
      · exact (isActive_of_mem_handedOver (hrecords ▸ hn)).1
      · exact (isActive_of_mem_handedOver (hrecords ▸ hn)).2
  · intro p e hfailed
    obtain ⟨ε, rfl, rfl, u', hu', hleft⟩ := hinterrupted p e hfailed
    obtain rfl := Option.some.inj (hu.symm.trans hu')
    generalize r'.records = left at hleft ⊢
    refine ⟨rfl, fun hp => ?_, fun hp => ?_⟩
    · cases hleft with
      | early => rfl
      | late => exact absurd rfl hp
    · cases hleft with
      | early hp' => exact absurd hp hp'
      | @late t ht =>
        exact ⟨t, ht, rfl, fun n hn => (isActive_of_mem_withdrawn hn).1,
          fun n hn => (isActive_of_mem_withdrawn hn).2⟩

/-- The table with the three mappings, in which no record can be updated by its id any more. -/
def stuckTable : Repository :=
  { threeSaved with failure := fun p _ => if p = .update then some connectionReset else none }

/-- A first version becomes active under the name of the other mapping, which is active no more; the
second version still is.  Where the activation is stuck, the second version is inactive instead. -/
theorem activate_account_stuckTable :
    ((∃ t t', ((Store.mk (some "u") .default).activate "i" "n" none threeSaved).2.records =
        handedOver "u" "i" "n" none t t' threeSaved.records) ∧
      ((Store.mk (some "u") .default).activate "i" "n" none threeSaved).2.records.map
        (fun m => (m.id, m.isActive)) = [("i", true), ("j", true), ("k", false)]) ∧
    ((Store.mk (some "u") .default).activate "i" "m" none stuckTable).1 =
        .error (.persistence .activate connectionReset) ∧
      (∀ n ∈ ((Store.mk (some "u") .default).activate "i" "m" none stuckTable).2.records,
        n.isActive = true → n ∈ stuckTable.records) ∧
      ((Store.mk (some "u") .default).activate "i" "m" none stuckTable).2.records.map
        (fun m => (m.id, m.isActive)) = [("i", false), ("j", false), ("k", true)] := by
  have hids : (threeSaved.records.map SavedMapping.id).Nodup := by decide
  have hfound : ∃ m ∈ threeSaved.records, m.userId = "u" ∧ m.id = "i" := by decide
  obtain ⟨m, hm, hown, hid⟩ := hfound
  have hserved : (Store.mk (some "u") .default).activate "i" "n" none threeSaved = (_, _) :=
    Prod.mk.eta.symm
  have hstuck : (Store.mk (some "u") .default).activate "i" "m" none stuckTable = (_, _) :=
    Prod.mk.eta.symm
  have hfailed : stuckTable.Failed
      ((Store.mk (some "u") .default).activate "i" "m" none stuckTable).2 .update
        connectionReset := ⟨_, Nat.lt_succ_self _, by decide, rfl⟩
  obtain ⟨hcalls, -⟩ := activate_account rfl hserved hids
  obtain ⟨-, hactivated⟩ := hcalls fun p e => reached_threeSaved.inMemory.not_failed
  obtain ⟨t, t', -, -, -, hrecords, -⟩ := hactivated m hm hown hid
  obtain ⟨-, hcall⟩ := activate_account rfl hstuck hids
  obtain ⟨herror, -, hlast⟩ := hcall .update connectionReset hfailed
  obtain ⟨-, -, -, -, hkept⟩ := hlast rfl
  exact ⟨⟨⟨t, t', hrecords⟩, by decide⟩, herror, hkept, by decide⟩

end Store
end MappingCanvas
