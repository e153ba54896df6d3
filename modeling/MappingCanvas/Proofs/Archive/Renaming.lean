/-
# Renaming a group

An update looks up the group of a record, reads the versions of the group, and gives them the new
name and category one by one, by their ids.  No version is left out and no other record is changed,
because ids are unique; that each patch is made from what was read at first does no harm, because no
version is patched twice.

The name must not be that of another group of the user.  This is the only cause to refuse an update
of a record that the user has, and it is found before the first write (`update_exact`).
-/

import MappingCanvas.Proofs.Archive.Runs

namespace MappingCanvas
namespace Store

variable {s : Store} {ms : List SavedMapping} {u id name : String} {category : Option String}
  {e : StoreError}

/-- A user has the record of an id, and in another group one of a name. -/
def Contested (ms : List SavedMapping) (u id name : String) : Prop :=
  ∃ m ∈ ms, m.userId = u ∧ m.id = id ∧
    ∃ n ∈ ms, n.userId = u ∧ n.name = name ∧ n.groupId ≠ m.groupId

/-- **An update is refused only for a missing record or a name that another group has.** -/
theorem refusal_update_iff (hu : s.userId = some u) :
    Refusal s ms (.update id name category) e ↔
      (e = .notFound id ∧ ∀ m ∈ ms, m.userId = u → m.id ≠ id) ∨
        (e = .nameConflict name ∧ Contested ms u id name) := by
  constructor
  · intro h
    cases h with
    | anonymous hnone => cases hu.symm.trans hnone
    | missing hid _ hmissing =>
      cases hid
      exact .inl ⟨rfl, fun m hm hown hid => hmissing m ((owned_iff hu).2 ⟨hm, hown, hid⟩)⟩
    | updateTaken hm htaken =>
      obtain rfl := hm.userId_eq hu
      exact .inr ⟨rfl, _, hm.mem, rfl, hm.id_eq, htaken⟩
  · rintro (⟨rfl, hmissing⟩ | ⟨rfl, m, hm, rfl, hid, htaken⟩)
    · exact .missing rfl hu fun m hm => hmissing m hm.mem (hm.userId_eq hu) hm.id_eq
    · exact .updateTaken ⟨hm, hu, hid⟩ htaken

/-- **What an update comes to.**  On a table in memory it is refused for its name exactly if the
user has the record and, in another group, one of that name; and whenever it is refused, the records
stay as they are.  If it is not refused, the records of the user in the group get the name, in both
of their documents as well, and the category; nothing else of them is changed but the time of the
last update, and no other record is changed.  The answer is those records, in the order of the
table. -/
theorem update_exact (hu : s.userId = some u) {r r' : Repository}
    {o : Except StoreError (List SavedMapping)} (hupdate : s.update id name category r = (o, r'))
    (hr : r.InMemory) (hids : (r.records.map SavedMapping.id).Nodup) :
    (o = .error (.nameConflict name) ↔ Contested r.records u id name) ∧
    (o = .error (.notFound id) ↔ ∀ m ∈ r.records, m.userId = u → m.id ≠ id) ∧
    (∀ e, o = .error e → r'.records = r.records) ∧
    ∀ m ∈ r.records, m.userId = u → m.id = id → ¬Contested r.records u id name →
      ∃ retitle : SavedMapping → SavedMapping,
        (∀ n, ∃ t, retitle n = { n with
          name := name
          category := category
          snapshot := { n.snapshot with name := name }
          rules := { n.rules with name := some name }
          updatedAt := t }) ∧
        o = .ok ((r.records.filter (inGroup u m.groupId)).map retitle) ∧
        r'.records = changeWhere (inGroup u m.groupId) retitle r.records := by
  have hrenames : Ensures (s.update id name category) r.records _ := update_renames hids
  have h := (hrenames r hr rfl).2
  rw [hupdate] at h
  dsimp only at h
  cases o with
  | error e =>
    obtain ⟨hrefusal, hrecords⟩ := h
    obtain ⟨rfl, hmissing⟩ | ⟨rfl, hcontested⟩ := (refusal_update_iff hu).1 hrefusal
    · refine ⟨iff_of_false nofun ?_, iff_of_true rfl hmissing, fun _ _ => hrecords, ?_⟩
      · exact fun ⟨m, hm, hown, hid, _⟩ => hmissing m hm hown hid
      · exact fun m hm hown hid _ => absurd hid (hmissing m hm hown)
    · refine ⟨iff_of_true rfl hcontested, iff_of_false nofun fun hmissing => ?_,
        fun _ _ => hrecords, fun _ _ _ _ hfree => absurd hcontested hfree⟩
      obtain ⟨m, hm, hown, hid, -⟩ := hcontested
      exact hmissing m hm hown hid
  | ok ns =>
    obtain ⟨m, time, hm, hfree, rfl, hrecords⟩ := h
    obtain rfl := hm.userId_eq hu
    refine ⟨iff_of_false nofun ?_, iff_of_false nofun fun hmissing => ?_, nofun, ?_⟩
    · rintro ⟨k, hk, hown, hid, n, hn, hown', hname, hgroup⟩
      obtain rfl := hm.unique ((owned_iff hu).2 ⟨hk, hown, hid⟩) hids
      exact hgroup (hfree n hn hown' hname)
    · exact hmissing m hm.mem rfl hm.id_eq
    · intro k hk hown hid _
      obtain rfl := hm.unique ((owned_iff hu).2 ⟨hk, hown, hid⟩) hids
      exact ⟨fun n => n.retitled name category (time n), fun n => ⟨time n, rfl⟩, rfl, hrecords⟩

/-- A record of a user in a group. -/
def placed (id u name g : String) : SavedMapping :=
  (SaveRequest.plain name none).mapping id u "1.0" (.ofFresh (.plain name none) g) ⟨0, 0⟩

/-- A table in which two users have records of one group, and one of them has another group. -/
def crossedTable : Repository :=
  { Repository.blank fun n => ⟨n, 0⟩ with records :=
      [placed "i" "u" "m" "g", placed "j" "w" "m" "g", placed "k" "u" "m" "g",
        placed "l" "u" "n" "h"] }

/-- Both records of the user in the group are renamed, but not to the name of the other group. -/
theorem update_exact_crossedTable :
    (∃ retitle, ((Store.mk (some "u") .default).update "k" "o" (some "A") crossedTable).1 = .ok
        ((crossedTable.records.filter (inGroup "u" "g")).map retitle) ∧
      ((Store.mk (some "u") .default).update "k" "o" (some "A") crossedTable).2.records =
        changeWhere (inGroup "u" "g") retitle crossedTable.records) ∧
    ((Store.mk (some "u") .default).update "k" "o" (some "A") crossedTable).2.records.map
        (fun m => (m.id, m.name, m.category)) =
      [("i", "o", some "A"), ("j", "m", none), ("k", "o", some "A"), ("l", "n", none)] ∧
    ((Store.mk (some "u") .default).update "k" "n" none crossedTable).1 =
      .error (.nameConflict "n") := by
  have hids : (crossedTable.records.map SavedMapping.id).Nodup := by decide
  have hmem : placed "k" "u" "m" "g" ∈ crossedTable.records := by simp [crossedTable]
  have hrename : (Store.mk (some "u") .default).update "k" "o" (some "A") crossedTable = (_, _) :=
    Prod.mk.eta.symm
  have hrefused : (Store.mk (some "u") .default).update "k" "n" none crossedTable = (_, _) :=
    Prod.mk.eta.symm
  have hfree : ¬Contested crossedTable.records "u" "k" "o" := by
    have hname : ∀ n ∈ crossedTable.records, n.name ≠ "o" := by decide
    exact fun ⟨_, _, _, _, n, hn, _, h, _⟩ => hname n hn h
  have hcontested : Contested crossedTable.records "u" "k" "n" :=
    ⟨_, hmem, rfl, rfl, placed "l" "u" "n" "h", by simp [crossedTable], rfl, rfl, by decide⟩
  obtain ⟨-, -, -, hall⟩ := update_exact rfl hrename (fun _ _ => rfl) hids
  obtain ⟨hconflict, -⟩ := update_exact rfl hrefused (fun _ _ => rfl) hids
  obtain ⟨retitle, -, hanswer, hrecords⟩ := hall _ hmem rfl rfl hfree
  exact ⟨⟨retitle, hanswer, hrecords⟩, by decide, hconflict.2 hcontested⟩

end Store
end MappingCanvas
