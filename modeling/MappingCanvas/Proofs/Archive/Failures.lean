/-
# Calls that fail

A call fails when the plan of the table says so, and has no effect then.  An operation passes the
failure on and makes no more calls, so of the calls of an operation at most one fails, and it is the
last one.

What an operation comes to is stated in one triple (`Ends`) for both cases: there is a postcondition
for when all its calls are served (`Served`) and one for each call at which it may be interrupted
(`Interrupted`).  On a table in memory only the first one is left (`Ends.ensures`).
-/

import MappingCanvas.Proofs.Archive.Memory

namespace MappingCanvas

/-! ### Calls between two states -/

namespace Repository

variable {r₀ r r' : Repository} {p q : Procedure} {e : PersistenceError} {ms : List SavedMapping}

/-- Between `r` and `r'` a call of a procedure failed. -/
def Failed (r r' : Repository) (p : Procedure) (e : PersistenceError) : Prop :=
  ∃ n, r.calls.count p < n ∧ n ≤ r'.calls.count p ∧ r.failure p n = some e

/-- The clock shows this time at some point from now on. -/
def Shows (r : Repository) (t : Instant) : Prop := ∃ n, r.calls.length ≤ n ∧ r.clock n = t

/-- `r'` comes after `r`, by calls that did not fail. -/
structure Served (r r' : Repository) : Prop where
  failure_eq : r'.failure = r.failure
  clock_eq : r'.clock = r.clock
  suffix : r.calls <:+ r'.calls
  unfailing : ∀ p e, ¬r.Failed r' p e

/-- `r'` comes after `r`, by calls of which one to `p` failed, and no other one. -/
def Interrupted (r r' : Repository) (p : Procedure) (e : PersistenceError) : Prop :=
  ∀ q e', r.Failed r' q e' ↔ q = p ∧ e' = e

/-- Between a repository and the one after a single call only this call can have failed. -/
theorem failed_after : r.Failed (r.after p ms) q e ↔ q = p ∧ r.nextFailure p = some e := by
  simp only [Failed, after, List.count_cons, nextFailure]
  constructor
  · rintro ⟨n, hlow, hhigh, hfail⟩
    by_cases hpq : p = q
    · subst hpq
      obtain rfl : n = r.calls.count p + 1 := by
        rw [beq_self_eq_true, if_pos rfl] at hhigh
        omega
      exact ⟨rfl, hfail⟩
    · rw [if_neg (by simpa using hpq)] at hhigh
      omega
  · rintro ⟨rfl, hfail⟩
    exact ⟨_, Nat.lt_succ_self _, by simp, hfail⟩

namespace Served

theorem refl (r : Repository) : r.Served r :=
  ⟨rfl, rfl, List.suffix_refl _, fun _ _ ⟨_, hlow, hhigh, _⟩ => absurd hlow (Nat.not_lt.2 hhigh)⟩

/-- Calls that were served before do not count. -/
theorem failed_iff (h : r₀.Served r) : r₀.Failed r' q e ↔ r.Failed r' q e := by
  have hle := h.suffix.sublist.count_le q
  constructor
  · rintro ⟨n, hlow, hhigh, hfail⟩
    by_cases hn : n ≤ r.calls.count q
    · exact absurd ⟨n, hlow, hn, hfail⟩ (h.unfailing q e)
    · exact ⟨n, by omega, hhigh, h.failure_eq ▸ hfail⟩
  · rintro ⟨n, hlow, hhigh, hfail⟩
    exact ⟨n, by omega, hhigh, h.failure_eq ▸ hfail⟩

/-- One more call that does not fail is served. -/
theorem after (h : r₀.Served r) (hp : r.nextFailure p = none) : r₀.Served (r.after p ms) where
  failure_eq := h.failure_eq
  clock_eq := h.clock_eq
  suffix := h.suffix.trans (List.suffix_cons _ _)
  unfailing q e hq := by
    rw [h.failed_iff, failed_after] at hq
    cases hp.symm.trans hq.2

/-- After calls that were served, a failing one interrupts. -/
theorem interrupted (h : r₀.Served r) (hp : r.nextFailure p = some e) :
    r₀.Interrupted (r.after p ms) p e := by
  intro q e'
  rw [h.failed_iff, failed_after, hp, Option.some.injEq]
  exact and_congr_right' eq_comm

/-- The time now is one that the clock shows from the start on. -/
theorem shows_now (h : r₀.Served r) : r₀.Shows r.now :=
  ⟨_, h.suffix.length_le, by rw [now, h.clock_eq]⟩

/-- The time of the next call is one that the clock shows from the start on. -/
theorem shows_nextTime (h : r₀.Served r) : r₀.Shows r.nextTime :=
  ⟨_, Nat.le_succ_of_le h.suffix.length_le, by rw [nextTime, h.clock_eq]⟩

/-- A table in memory stays one, whatever calls were served. -/
theorem inMemory (h : r.Served r') (hr : r.InMemory) : r'.InMemory := by
  rw [InMemory, h.failure_eq]
  exact hr

end Served

/-- In memory no call fails. -/
theorem InMemory.not_failed (h : r.InMemory) : ¬r.Failed r' p e := by
  rintro ⟨n, -, -, hfail⟩
  cases (h p n).symm.trans hfail

end Repository

/-! ### Triples with failures -/

namespace Store

variable {α β : Type} {r₀ : Repository} {ms : List SavedMapping} {s : Store}

/-- After calls that were served since `r₀`, from given records, an operation ends in an outcome and
in records of which `Q` holds, or it is interrupted at some call and ends in an error and in records
of which `F` holds. -/
def Ends (r₀ : Repository) (act : Action α) (ms : List SavedMapping)
    (Q : Except StoreError α → List SavedMapping → Prop)
    (F : Procedure → PersistenceError → StoreError → List SavedMapping → Prop) : Prop :=
  ∀ r, r₀.Served r → r.records = ms →
    (r₀.Served (act r).2 ∧ Q (act r).1 (act r).2.records) ∨
      ∃ p e ε, r₀.Interrupted (act r).2 p e ∧ (act r).1 = .error ε ∧ F p e ε (act r).2.records

variable {Q : Except StoreError α → List SavedMapping → Prop}
  {F : Procedure → PersistenceError → StoreError → List SavedMapping → Prop}

/-- In memory, no call interrupts an operation. -/
theorem Ends.ensures {act : Action α}
    {Q' : Repository → Except StoreError α → List SavedMapping → Prop}
    {F' : Repository → Procedure → PersistenceError → StoreError → List SavedMapping → Prop}
    (h : ∀ r₀, Ends r₀ act ms (Q' r₀) (F' r₀)) (hQ : ∀ r₀ o ms', Q' r₀ o ms' → Q o ms') :
    Ensures act ms Q := by
  intro r hr hms
  obtain ⟨hserved, hQ'⟩ | ⟨p, e, ε, hinterrupted, -, -⟩ := h r r (.refl r) hms
  · exact ⟨hserved.inMemory hr, hQ r _ _ hQ'⟩
  · exact absurd ((hinterrupted p e).2 ⟨rfl, rfl⟩) hr.not_failed

/-- A run of an operation ends in its outcome if no call failed, and otherwise in an error of the
call that did. -/
theorem Ends.of_run {act : Action α} {r' : Repository} {o : Except StoreError α}
    (h : Ends r₀ act r₀.records Q F) (hrun : act r₀ = (o, r')) :
    ((∀ p e, ¬r₀.Failed r' p e) → Q o r'.records) ∧
      ∀ p e, r₀.Failed r' p e → ∃ ε, o = .error ε ∧ F p e ε r'.records := by
  have h := h r₀ (.refl r₀) rfl
  rw [hrun] at h
  obtain ⟨hserved, hQ⟩ | ⟨p, e, ε, hinterrupted, herror, hF⟩ := h
  · exact ⟨fun _ => hQ, fun p e hfailed => absurd hfailed (hserved.unfailing p e)⟩
  · refine ⟨fun hall => absurd ((hinterrupted p e).2 ⟨rfl, rfl⟩) (hall p e),
      fun q e' hfailed => ?_⟩
    obtain ⟨rfl, rfl⟩ := (hinterrupted q e').1 hfailed
    exact ⟨ε, herror, hF⟩

/-- An operation that answers at once ends with this answer. -/
theorem ends_pure {a : α} (h : Q (.ok a) ms) : Ends r₀ (pure a) ms Q F :=
  fun _ hr hms => .inl ⟨hr, hms ▸ h⟩

/-- An operation that fails at once ends in this error, which is no failure of a call. -/
theorem ends_throw {e : StoreError} (h : Q (.error e) ms) : Ends r₀ (throw e) ms Q F :=
  fun _ hr hms => .inl ⟨hr, hms ▸ h⟩

/-- **Operations in sequence end as the second one does from where the first one ended**; if a call
of the first one fails, the second one is not begun. -/
theorem ends_bind {act : Action β} {k : β → Action α}
    (h : Ends r₀ act ms (fun o ms' => match o with
      | .ok b => Ends r₀ (k b) ms' Q F
      | .error e => Q (.error e) ms') F) : Ends r₀ (act >>= k) ms Q F := by
  intro r hr hms
  have h := h r hr hms
  rw [bind_apply]
  generalize act r = result at h
  obtain ⟨outcome, r'⟩ := result
  obtain ⟨hr', hQ⟩ | ⟨p, e, ε, hinterrupted, rfl, hF⟩ := h
  · cases outcome with
    | ok b => exact hQ r' hr' rfl
    | error e => exact .inl ⟨hr', hQ⟩
  · exact .inr ⟨p, e, ε, hinterrupted, rfl, hF⟩

/-- To read the clock is no call, so it cannot be interrupted. -/
theorem ends_clock {Q : Except StoreError Repository → List SavedMapping → Prop}
    (h : ∀ r, r₀.Served r → Q (.ok r) ms) : Ends r₀ MonadState.get ms Q F :=
  fun r hr hms => .inl ⟨hr, hms ▸ h r hr⟩

/-- A call of a procedure: it fails at once, or it is served. -/
theorem ends_calling {fail : PersistenceError → StoreError} {p : Procedure}
    {call : Repository.Call α} {k : Unit → Repository.Call α}
    (hcall : call = Repository.enter p >>= k) (hfail : ∀ e, F p e (fail e) ms)
    (h : ∀ r, r₀.Served r → r.nextFailure p = none → r.records = ms →
      ∃ a ms', call r = (.ok a, r.after p ms') ∧ Q (.ok a) ms') :
    Ends r₀ (calling fail call) ms Q F := by
  intro r hr hms
  cases hp : r.nextFailure p with
  | none =>
    obtain ⟨a, ms', heq, hQ⟩ := h r hr hp hms
    simp only [calling, heq]
    exact .inl ⟨hr.after hp, hQ⟩
  | some e =>
    have heq : call r = (.error e, r.after p r.records) := by
      rw [hcall, bind_apply, Repository.enter_apply, hp]
    simp only [calling, heq]
    exact .inr ⟨p, e, fail e, hr.interrupted hp, rfl, hms ▸ hfail e⟩

/-- The user is known without a call. -/
theorem ends_user {Q : Except StoreError String → List SavedMapping → Prop}
    (hsome : ∀ u, s.userId = some u → Q (.ok u) ms)
    (hnone : s.userId = none → Q (.error .unauthenticated) ms) : Ends r₀ s.user ms Q F := by
  unfold user
  cases hu : s.userId with
  | none => exact ends_throw (hnone hu)
  | some u => exact ends_pure (hsome u hu)

/-- What is found by an id is the record of the user that has it. -/
theorem ends_get {Q : Except StoreError SavedMapping → List SavedMapping → Prop} {id : String}
    (hfail : ∀ e, F .select e (.persistence .load e) ms)
    (hanonymous : s.userId = none → Q (.error .unauthenticated) ms)
    (hmissing : ∀ u, s.userId = some u → (∀ m, ¬s.Owned ms id m) → Q (.error (.notFound id)) ms)
    (hfound : ∀ m, s.Owned ms id m → Q (.ok m) ms) : Ends r₀ (s.get id) ms Q F := by
  refine ends_bind (ends_user (fun u hu => ?_) hanonymous)
  refine ends_bind (ends_calling rfl hfail fun r _ hp hms =>
    ⟨_, _, Repository.select_eq hp _, ?_⟩)
  subst hms
  have howned {m} : m ∈ r.records.filter { MappingFilter.ofUser u with id := id }.accepts ↔
      s.Owned r.records id m := by
    rw [List.mem_filter, MappingFilter.accepts_iff]
    simp only [MappingFilter.ofUser, Option.some.injEq, forall_eq', reduceCtorEq, false_implies,
      implies_true, and_true]
    exact ⟨fun ⟨hm, hid, hown⟩ => ⟨hm, hown ▸ hu, hid⟩,
      fun ⟨hm, hown, hid⟩ => ⟨hm, hid, (Option.some.inj (hu.symm.trans hown)).symm⟩⟩
  dsimp only
  split
  · rename_i m rest hfilter
    exact ends_pure (hfound m (howned.1 (hfilter ▸ List.mem_cons_self)))
  · rename_i hfilter
    exact ends_throw (hmissing u hu fun m hm => List.not_mem_nil (hfilter ▸ howned.2 hm))

/-- In memory the record of an id is found if it is the user's. -/
theorem ensures_get {Q : Except StoreError SavedMapping → List SavedMapping → Prop} {id : String}
    (hanonymous : s.userId = none → Q (.error .unauthenticated) ms)
    (hmissing : ∀ u, s.userId = some u → (∀ m, ¬s.Owned ms id m) → Q (.error (.notFound id)) ms)
    (hfound : ∀ m, s.Owned ms id m → Q (.ok m) ms) : Ensures (s.get id) ms Q := by
  have hends (r₀ : Repository) : Ends r₀ (s.get id) ms Q fun _ _ _ _ => True :=
    ends_get (fun _ => trivial) hanonymous hmissing hfound
  exact Ends.ensures hends fun _ _ _ h => h

/-- The check of a name leaves the records alone; it passes when the user's records of the name are
all in the user's own group. -/
theorem ends_nameFree {Q : Except StoreError Unit → List SavedMapping → Prop}
    {userId name : String} {own : Option String}
    (hfail : ∀ e, F .select e (.persistence .checkName e) ms)
    (hfree : (∀ m ∈ ms, m.userId = userId → m.name = name → own = some m.groupId) → Q (.ok ()) ms)
    (htaken : (∃ m ∈ ms, m.userId = userId ∧ m.name = name ∧ own ≠ some m.groupId) →
      Q (.error (.nameConflict name)) ms) :
    Ends r₀ (ensureNameFree userId name own) ms Q F := by
  refine ends_bind (ends_calling rfl hfail fun r _ hp hms =>
    ⟨_, _, Repository.select_eq hp _, ?_⟩)
  subst hms
  dsimp only
  split
  · rename_i hany
    have hother : ∃ m ∈ r.records, m.userId = userId ∧ m.name = name ∧ own ≠ some m.groupId := by
      simpa [MappingFilter.accepts_iff, MappingFilter.ofUser, and_assoc] using hany
    exact ends_throw (htaken hother)
  · rename_i hany
    have hown : ∀ m ∈ r.records, m.userId = userId → m.name = name → own = some m.groupId := by
      simpa [MappingFilter.accepts_iff, MappingFilter.ofUser] using hany
    exact ends_pure (hfree hown)

/-- In memory a name is free if no other group of the user has it. -/
theorem ensures_nameFree {Q : Except StoreError Unit → List SavedMapping → Prop}
    {userId name : String} {own : Option String}
    (hfree : (∀ m ∈ ms, m.userId = userId → m.name = name → own = some m.groupId) → Q (.ok ()) ms)
    (htaken : (∃ m ∈ ms, m.userId = userId ∧ m.name = name ∧ own ≠ some m.groupId) →
      Q (.error (.nameConflict name)) ms) :
    Ensures (ensureNameFree userId name own) ms Q := by
  have hends (r₀ : Repository) : Ends r₀ (ensureNameFree userId name own) ms Q
      fun _ _ _ _ => True := ends_nameFree (fun _ => trivial) hfree htaken
  exact Ends.ensures hends fun _ _ _ h => h

end Store
end MappingCanvas
