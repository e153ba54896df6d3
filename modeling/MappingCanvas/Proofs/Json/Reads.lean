/-
# Documents in any order

The members of an object may stand in any order: a text holds them as they were written, a stored
value in ascending order of their names.  A document *says* a tree when it repeats no name, has no
flaw, and has the canonical form of the tree (`Json.Says`).  A decoder *reads* a tree as a value
when it reads the value off every document that says the tree (`Decoder.Reads`).

A form reads members when it reads them off every tidy object whose members of the form's names say
the same (`Form.Reads`).  What a record reads is put together from that: each member by itself
(`Form.reads_required`, `reads_defaulted`, `reads_option`, `reads_omitted`), members side by side
(`Form.Reads.and`), and the object around them (`Form.Reads.decode`).
-/

import MappingCanvas.Proofs.Json.Record
import MappingCanvas.Proofs.Lists

namespace MappingCanvas

/-! ### Tidy trees -/

namespace Json

mutual
/-- No object repeats a name, and nothing is flawed. -/
def IsTidy : Json → Prop
  | array items => TidyItems items
  | object members => (members.map Prod.fst).Nodup ∧ TidyMembers members
  | flawed _ => False
  | _ => True

/-- All items are tidy. -/
def TidyItems : List Json → Prop
  | [] => True
  | j :: js => j.IsTidy ∧ TidyItems js

/-- All members are tidy. -/
def TidyMembers : List (String × Json) → Prop
  | [] => True
  | (_, j) :: ms => j.IsTidy ∧ TidyMembers ms
end

variable {j doc : Json} {js : List Json} {ms : List (String × Json)} {name : String}

/-- An array is tidy when its items are. -/
@[simp] theorem isTidy_array : (array js).IsTidy ↔ ∀ j ∈ js, j.IsTidy := by
  rw [IsTidy]
  induction js with
  | nil => simp [TidyItems]
  | cons j js ih => simp [TidyItems, ih]

/-- Members are tidy when each of them is. -/
theorem tidyMembers_iff : TidyMembers ms ↔ ∀ m ∈ ms, m.2.IsTidy := by
  induction ms with
  | nil => simp [TidyMembers]
  | cons m ms ih => simp [TidyMembers, ih]

/-- **An object is tidy when no name is repeated and all its values are tidy.** -/
@[simp] theorem isTidy_object :
    (object ms).IsTidy ↔ (ms.map Prod.fst).Nodup ∧ ∀ m ∈ ms, m.2.IsTidy := by
  rw [IsTidy, tidyMembers_iff]

@[simp] theorem isTidy_string (s : String) : (string s).IsTidy := trivial

@[simp] theorem isTidy_number (n : Number) : (number n).IsTidy := trivial

@[simp] theorem isTidy_nat (n : Nat) : (nat n).IsTidy := trivial

@[simp] theorem isTidy_null : null.IsTidy := trivial

/-- A list of texts is tidy. -/
@[simp] theorem isTidy_strings (ss : List String) : (strings ss).IsTidy :=
  isTidy_array.2 (List.forall_mem_map.2 fun s _ => isTidy_string s)

mutual
/-- **A tidy tree has no flaw.** -/
theorem flaw?_of_isTidy : ∀ j : Json, j.IsTidy → j.flaw? = none
  | array items, h => flawItems_of_tidyItems items h
  | object members, h => flawMembers_of_tidyMembers members h.2
  | null, _ | bool _, _ | number _, _ | string _, _ => rfl

/-- Tidy items have no flaw. -/
theorem flawItems_of_tidyItems : ∀ js : List Json, TidyItems js → flawItems js = none
  | [], _ => rfl
  | j :: js, h => by
    simp [flawItems, flaw?_of_isTidy j h.1, flawItems_of_tidyItems js h.2]

/-- Tidy members have no flaw. -/
theorem flawMembers_of_tidyMembers : ∀ ms : List (String × Json),
    TidyMembers ms → flawMembers ms = none
  | [], _ => rfl
  | (_, j) :: ms, h => by
    simp [flawMembers, flaw?_of_isTidy j h.1, flawMembers_of_tidyMembers ms h.2]
end

mutual
/-- **Stored values are tidy**, for their names ascend. -/
theorem isTidy_of_isCanonical : ∀ j : Json, j.IsCanonical → j.IsTidy
  | array items, h => tidyItems_of_canonicalItems items h
  | object members, h =>
    ⟨(tidy_of_isCanonical h).nodup, tidyMembers_of_canonicalMembers members h.2⟩
  | null, _ | bool _, _ | number _, _ | string _, _ => trivial

/-- Canonical items are tidy. -/
theorem tidyItems_of_canonicalItems : ∀ js : List Json, CanonicalItems js → TidyItems js
  | [], _ => trivial
  | j :: js, h => ⟨isTidy_of_isCanonical j h.1, tidyItems_of_canonicalItems js h.2⟩

/-- Canonical members are tidy. -/
theorem tidyMembers_of_canonicalMembers : ∀ ms : List (String × Json),
    CanonicalMembers ms → TidyMembers ms
  | [], _ => trivial
  | (_, j) :: ms, h => ⟨isTidy_of_isCanonical j h.1, tidyMembers_of_canonicalMembers ms h.2⟩
end

/-- At its top a tidy object has no repeated names and no flaws. -/
theorem IsTidy.tidy (h : (object ms).IsTidy) : Tidy ms :=
  ⟨(isTidy_object.1 h).1, fun m hm => flaw?_of_isTidy m.2 ((isTidy_object.1 h).2 m hm)⟩

/-- An object stays tidy when members are taken out. -/
theorem Tidy.filter (h : Tidy ms) (p : String × Json → Bool) : Tidy (ms.filter p) where
  nodup := h.nodup.sublist (List.filter_sublist.map _)
  flawless m hm := h.flawless m (List.mem_filter.1 hm).1

/-- Members of other names are still there. -/
theorem get?_filter {p : String → Bool} (hp : p name = true) :
    (object (ms.filter fun m => p m.1)).get? name = (object ms).get? name := by
  rw [get?, get?, List.find?_filter]
  congr 2
  funext m
  cases hm : m.1 == name with
  | true => simp [beq_iff_eq.1 hm, hp]
  | false => simp

/-- In a tidy object every member is the one that is found by its name. -/
theorem Tidy.get?_of_mem (h : Tidy ms) {m : String × Json} (hm : m ∈ ms) :
    (object ms).get? m.1 = some m.2 := by
  rw [get?, find?_key h.nodup hm, Option.map_some]

/-- **A tidy object is told by its members.** -/
theorem Tidy.get?_eq_some_iff (h : Tidy ms) :
    (object ms).get? name = some j ↔ (name, j) ∈ ms := by
  refine ⟨fun hget => ?_, fun hm => h.get?_of_mem hm⟩
  obtain ⟨m, hm, rfl⟩ := Option.map_eq_some_iff.1 hget
  obtain rfl : m.1 = name := by simpa using List.find?_some hm
  exact List.mem_of_find?_eq_some hm

/-- What is found in a tidy object is tidy. -/
theorem IsTidy.of_get? (h : (object ms).IsTidy) (hget : (object ms).get? name = some j) :
    j.IsTidy := by
  obtain ⟨m, hm, rfl⟩ := Option.map_eq_some_iff.1 hget
  exact (isTidy_object.1 h).2 m (List.mem_of_find?_eq_some hm)

/-- **Canonical objects are known by their members.** -/
theorem IsCanonical.object_eq {ms' : List (String × Json)} (h : (object ms).IsCanonical)
    (h' : (object ms').IsCanonical)
    (hget : ∀ name, (object ms).get? name = (object ms').get? name) : ms = ms' := by
  refine h.1.eq_of_mem_iff h'.1 fun m => ?_
  rw [← (tidy_of_isCanonical h).get?_eq_some_iff, hget, (tidy_of_isCanonical h').get?_eq_some_iff]

/-! ### Members that may be left out -/

section

variable {slots : List (String × Option Json)}

/-- The members of an object of which those without a value are left out. -/
def present (slots : List (String × Option Json)) : List (String × Json) :=
  slots.filterMap fun s => s.2.map fun j => (s.1, j)

theorem present_nil : present [] = [] := rfl

/-- A member that is left out when it has no value stands in front of the others. -/
theorem present_cons (name : String) (value : Option Json) (slots : List (String × Option Json)) :
    present ((name, value) :: slots) = member? name value ++ present slots := by
  cases value <;> rfl

/-- Members that are left out leave the names of the others in their order. -/
theorem names_present (slots : List (String × Option Json)) :
    ((present slots).map Prod.fst).Sublist (slots.map Prod.fst) := by
  rw [present, List.map_filterMap, ← List.filterMap_eq_map]
  refine filterMap_sublist_filterMap fun s _ => ?_
  cases s.2 <;> simp

/-- **A member that has a value is found, and one that is left out is not**: its name does not occur
again, so nothing else can stand in for it. -/
theorem get?_present (h : (slots.map Prod.fst).Nodup) (name : String) :
    (object (present slots)).get? name = (slots.find? fun s => s.1 == name).bind Prod.snd := by
  induction slots with
  | nil => rfl
  | cons s slots ih =>
    obtain ⟨hs, hslots⟩ := List.nodup_cons.1 h
    obtain ⟨given, value⟩ := s
    have hrest := ih hslots
    by_cases hname : given = name
    · subst hname
      have hnone : slots.find? (fun s => s.1 == given) = none :=
        List.find?_eq_none.2 fun s hmem hgiven =>
          hs (List.mem_map.2 ⟨s, hmem, beq_iff_eq.1 hgiven⟩)
      rw [hnone] at hrest
      rw [List.find?_cons_of_pos (by simp)]
      cases value with
      | none => exact hrest
      | some j => exact (get?_cons ..).trans (if_pos (by simp))
    · rw [List.find?_cons_of_neg (by simpa using hname), ← hrest]
      cases value with
      | none => rfl
      | some j => exact (get?_cons ..).trans (if_neg (by simpa using hname))

/-- Members that are left out leave an object tidy. -/
theorem isTidy_present (h : (slots.map Prod.fst).Nodup)
    (hslots : ∀ s ∈ slots, ∀ j ∈ s.2, j.IsTidy) : (object (present slots)).IsTidy := by
  refine isTidy_object.2 ⟨h.sublist (names_present slots), fun m hm => ?_⟩
  obtain ⟨s, hs, heq⟩ := List.mem_filterMap.1 hm
  obtain ⟨j, hj, rfl⟩ := Option.map_eq_some_iff.1 heq
  exact hslots s hs j hj

end

/-! ### What a document says -/

/-- A document says a tree: it is the tree, up to the order of members. -/
structure Says (doc j : Json) : Prop where
  isTidy : doc.IsTidy
  canonical_eq : doc.canonical = j.canonical

/-- A tidy tree says itself. -/
theorem IsTidy.says_self (h : j.IsTidy) : j.Says j := ⟨h, rfl⟩

/-- The canonical form says the tree. -/
theorem says_canonical (j : Json) : j.canonical.Says j :=
  ⟨isTidy_of_isCanonical _ (isCanonical_canonical j), canonical_canonical j⟩

/-- Only a text says a text. -/
theorem Says.eq_string {s : String} (h : doc.Says (string s)) : doc = string s := by
  obtain ⟨htidy, heq⟩ := h
  cases doc with
  | string s' => exact heq
  | flawed _ => exact absurd htidy id
  | _ => cases heq

/-- Only `null` says `null`. -/
theorem Says.eq_null (h : doc.Says null) : doc = null := by
  obtain ⟨htidy, heq⟩ := h
  cases doc with
  | null => rfl
  | flawed _ => exact absurd htidy id
  | _ => cases heq

/-- Only a number says a number. -/
theorem Says.eq_number {n : Number} (h : doc.Says (number n)) : doc = number n := by
  obtain ⟨htidy, heq⟩ := h
  cases doc with
  | number n' => exact heq
  | flawed _ => exact absurd htidy id
  | _ => cases heq

/-- Documents say trees one by one when they have the canonical forms of these. -/
theorem forall₂_of_canonical {docs : List Json} (htidy : ∀ doc ∈ docs, doc.IsTidy)
    (heq : docs.map canonical = js.map canonical) : List.Forall₂ Says docs js := by
  induction docs generalizing js with
  | nil =>
    obtain rfl := List.map_eq_nil_iff.1 heq.symm
    exact .nil
  | cons doc docs ih =>
    obtain ⟨j, js, rfl, hhead, htail⟩ := List.map_eq_cons_iff.1 heq.symm
    obtain ⟨hdoc, hdocs⟩ := List.forall_mem_cons.1 htidy
    exact .cons ⟨hdoc, hhead.symm⟩ (ih hdocs htail.symm)

/-- **What says an array is an array whose items say the same**, in their order. -/
theorem Says.exists_array (h : doc.Says (array js)) :
    ∃ docs, doc = array docs ∧ List.Forall₂ Says docs js := by
  obtain ⟨htidy, heq⟩ := h
  cases doc with
  | array docs =>
    refine ⟨docs, rfl, forall₂_of_canonical (isTidy_array.1 htidy) ?_⟩
    simpa [canonical, canonicalItems_eq_map] using heq
  | flawed _ => exact absurd htidy id
  | _ => cases heq

/-- What members say under a name: nothing if there is nothing to say, and otherwise the same. -/
structure SaysMember (docs ms : List (String × Json)) (name : String) : Prop where
  some : ∀ j, (object ms).get? name = some j →
    ∃ doc, (object docs).get? name = some doc ∧ doc.Says j
  none : (object ms).get? name = none → (object docs).get? name = none

/-- What is said under a name depends only on what stands there. -/
theorem SaysMember.congr {docs ms' : List (String × Json)} (h : SaysMember docs ms name)
    (hget : (object ms).get? name = (object ms').get? name) : SaysMember docs ms' name :=
  ⟨fun j hj => h.some j (hget.trans hj), fun hnone => h.none (hget.trans hnone)⟩

/-- What is said under a name is still said when other members are taken out. -/
theorem SaysMember.filter {docs : List (String × Json)} (h : SaysMember docs ms name)
    {p : String → Bool} (hp : p name = true) :
    SaysMember (docs.filter fun m => p m.1) ms name :=
  ⟨fun j hj => by rw [get?_filter hp]; exact h.some j hj,
    fun hnone => (get?_filter hp).trans (h.none hnone)⟩

/-- **What says an object is an object whose members say the same**, in whatever order. -/
theorem Says.exists_object (hms : (ms.map Prod.fst).Nodup) (h : doc.Says (object ms)) :
    ∃ docs, doc = object docs ∧ Tidy docs ∧ ∀ name, SaysMember docs ms name := by
  obtain ⟨htidy, heq⟩ := h
  cases doc with
  | object docs =>
    have hsame : ∀ name,
        ((object docs).get? name).map canonical = ((object ms).get? name).map canonical := by
      intro name
      rw [← get?_canonical htidy.tidy.nodup, ← get?_canonical hms, heq]
    refine ⟨docs, rfl, htidy.tidy, fun name => ⟨fun j hj => ?_, fun hnone => ?_⟩⟩
    · obtain ⟨doc, hdoc, heq⟩ := Option.map_eq_some_iff.1
        ((hsame name).trans (congrArg (Option.map canonical) hj))
      exact ⟨doc, hdoc, htidy.of_get? hdoc, heq⟩
    · exact Option.map_eq_none_iff.1 ((hsame name).trans (congrArg (Option.map canonical) hnone))
  | flawed _ => exact absurd htidy id
  | _ => cases heq

/-- A member whose value is a text. -/
def textMember (e : String × String) : String × Json := (e.1, .string e.2)

/-- Different entries are different members. -/
theorem textMember_injective : Function.Injective textMember := fun e e' h => by
  simpa [textMember, Prod.ext_iff] using h

/-- Texts become canonical members in the order of their names, the last of each name. -/
theorem canonicalMembers_map_textMember (es : List (String × String)) :
    canonicalMembers (es.map textMember) =
      (Ordered.ofEntries Prod.fst es).map textMember := by
  rw [canonicalMembers_eq_ofEntries, List.map_map]
  exact Ordered.ofEntries_map (fun _ => rfl) es

/-- Texts in ascending order of their names are a canonical object. -/
theorem isCanonical_texts {es : List (String × String)} (hes : Ordered.Ascending Prod.fst es) :
    (object (es.map textMember)).IsCanonical :=
  ⟨List.pairwise_map.2 hes, canonicalMembers_iff.2 fun m hm => by
    obtain ⟨e, -, rfl⟩ := List.mem_map.1 hm
    trivial⟩

/-- What says texts is texts, in whatever order they stand. -/
theorem Says.exists_texts {es : List (String × String)} (hes : Ordered.Ascending Prod.fst es)
    (h : doc.Says (object (es.map textMember))) :
    ∃ es', doc = object (es'.map textMember) ∧ Ordered.ofEntries Prod.fst es' = es := by
  have hcanonical := isCanonical_texts hes
  obtain ⟨docs, rfl, htidy, hsaid⟩ := h.exists_object (tidy_of_isCanonical hcanonical).nodup
  have htexts : ∀ m ∈ docs, ∃ s, m.2 = string s := fun m hm => by
    cases hget : (object (es.map textMember)).get? m.1 with
    | none => exact absurd rfl (get?_eq_none.1 ((hsaid m.1).none hget) m hm)
    | some j =>
      obtain ⟨doc, hdoc, hj⟩ := (hsaid m.1).some j hget
      obtain ⟨e, he, rfl⟩ := Option.map_eq_some_iff.1 hget
      obtain ⟨e', -, rfl⟩ := List.mem_map.1 (List.mem_of_find?_eq_some he)
      rw [htidy.get?_of_mem hm] at hdoc
      exact ⟨e'.2, (Option.some.inj hdoc).trans hj.eq_string⟩
  obtain ⟨es', rfl⟩ : ∃ es', docs = es'.map textMember :=
    ⟨docs.map fun m => (m.1, (m.2.string?).getD ""), by
      rw [List.map_map]
      refine (List.map_id' docs).symm.trans (List.map_congr_left fun m hm => ?_)
      obtain ⟨s, hs⟩ := htexts m hm
      rw [Function.comp_apply, hs, string?, Option.getD_some, textMember, ← hs]⟩
  refine ⟨es', rfl, ?_⟩
  have hsame := h.canonical_eq.trans (canonical_of_isCanonical _ hcanonical)
  rw [canonical, canonicalMembers_map_textMember, object.injEq] at hsame
  exact List.map_injective_iff.2 textMember_injective hsame

end Json

/-! ### What decoders read -/

open Json

namespace Decoder

variable {α : Type} {read : Decoder α} {j : Json} {a : α}

/-- The decoder reads the value off every document that says the tree. -/
def Reads (read : Decoder α) (j : Json) (a : α) : Prop :=
  ∀ mode doc, doc.Says j → read mode doc = .ok a

/-- What is read of a tree is read off the tree, if it is tidy. -/
theorem Reads.eq_ok (h : read.Reads j a) (hj : j.IsTidy) (mode : Reading) : read mode j = .ok a :=
  h mode j hj.says_self

/-- What is read of a tree is read off the stored value of the tree. -/
theorem Reads.ofValue (h : read.Reads j a) : read.ofValue (.ofJson j) = .ok a :=
  h .held _ j.says_canonical

/-- A text is read from every document that says it. -/
theorem reads_text (s : String) : text.Reads (.string s) s := fun mode doc hdoc => by
  rw [hdoc.eq_string]
  rfl

/-- A natural number is read from every document that says it. -/
theorem reads_nat (n : Nat) : nat.Reads (.nat n) n := fun mode doc hdoc => by
  rw [hdoc.eq_number]
  exact nat_nat n mode

/-- A float is read from every document that says it. -/
theorem reads_float (x : Float) : float.Reads (.number (.float x)) x := fun mode doc hdoc => by
  rw [hdoc.eq_number]
  rfl

/-- A point in time is read from every document that says its text. -/
theorem reads_instant {s : String} {t : Instant} (h : Instant.read s = .ok t) :
    instant.Reads (.string s) t := fun mode doc hdoc => by
  rw [hdoc.eq_string, instant, h]
  rfl

/-- A choice is read from every document that says its name. -/
theorem reads_choice {find? : String → Option α} {s : String} (h : find? s = some a) :
    (choice find?).Reads (.string s) a := fun mode doc hdoc => by
  rw [hdoc.eq_string]
  exact choice_string h mode

/-- A text that is written as `null` when there is none is read again. -/
theorem reads_nullable (o : Option String) :
    (option text).Reads ((o.map .string).getD .null) o := fun mode doc hdoc => by
  cases o with
  | none =>
    rw [hdoc.eq_null]
    rfl
  | some s =>
    rw [hdoc.eq_string]
    rfl

/-- **A stored value is read from every document that says it**, in whatever order its members
stand. -/
theorem reads_value (v : Value) : value.Reads v.json v := fun mode doc hdoc => by
  have hvalue : Value.ofJson doc = v := by
    rw [← v.ofJson_json, Value.ofJson, Value.ofJson]
    simp only [hdoc.canonical_eq]
  simp only [value, sound, flaw?_of_isTidy doc hdoc.isTidy, hvalue]
  rfl

/-- A value that may be missing is not told from one that is `null`. -/
theorem reads_option_value (v : Value) :
    (option value).Reads v.json ((some v).filter fun v => !v.isNull) := fun mode doc hdoc => by
  unfold option
  split
  · have hnull : v.isNull = true := by
      rw [Value.isNull, ← v.canonical_json, ← hdoc.canonical_eq]
      rfl
    rw [Option.filter_some_neg (by simp [hnull])]
  · rename_i hne
    have hnull : v.isNull = false := Bool.eq_false_iff.2 fun hnull => by
      rw [Value.eq_null_of_isNull hnull] at hdoc
      exact hne hdoc.eq_null
    rw [Option.filter_some_pos (by simp [hnull]), reads_value v mode doc hdoc]
    rfl

/-- Items are read one by one. -/
theorem reads_items {js : List Json} {l : List α} (h : List.Forall₂ read.Reads js l) :
    (list read).Reads (.array js) l := fun mode doc hdoc => by
  obtain ⟨docs, rfl, hdocs⟩ := hdoc.exists_array
  refine mapM_eq_ok_iff.2 ?_
  clear hdoc
  induction hdocs generalizing l with
  | nil =>
    cases h
    exact .nil
  | cons hhead _ ih =>
    cases h with
    | cons ha hl => exact .cons (ha mode _ hhead) (ih hl)

/-- **A list of written values is read as the list of values.** -/
theorem reads_list {write : α → Json} {l : List α} (h : ∀ a ∈ l, read.Reads (write a) a) :
    (list read).Reads (.array (l.map write)) l := by
  refine reads_items ?_
  rw [List.forall₂_map_left_iff, List.forall₂_same]
  exact h

/-- A set is read from the list of its texts. -/
theorem reads_textSet (s : TextSet) : textSet.Reads (.strings s.toList) s := fun mode doc hdoc => by
  rw [textSet, reads_list (fun t _ => reads_text t) mode doc hdoc]
  exact congrArg Except.ok s.ofList_toList

/-- The entries of a table are read as they stand. -/
theorem entries_map (es : List (String × String)) :
    entries (es.map textMember) = .ok es := by
  induction es with
  | nil => rfl
  | cons e es ih =>
    rw [List.map_cons, entries, ih]
    · rfl
    · nofun

/-- The entries of a table are read in whatever order they stand. -/
theorem reads_table (t : Table) :
    table.Reads (.object (t.entries.map textMember)) t := fun mode doc hdoc => by
  obtain ⟨es, rfl, hes⟩ := hdoc.exists_texts t.ascending
  have hsame : Table.ofList es = t := by
    rw [← t.ofList_entries, ← hes]
    exact (Table.ofList_entries (Table.ofList es)).symm
  rw [table, entries_map, ← hsame]
  rfl

end Decoder

/-! ### What forms read -/

namespace Form

variable {α β : Type} {f : Form α} {g : Form β} {ms : List (String × Json)} {a : α} {b : β}
  {name : String} {read : Decoder α} {j : Json}

/-- The form reads the record off every tidy object whose members of its names say the same. -/
def Reads (f : Form α) (ms : List (String × Json)) (a : α) : Prop :=
  ∀ mode docs, Tidy docs → (∀ name, f.Has name → SaysMember docs ms name) →
    f.decode mode (.object docs) = .ok a

/-- What is made of a record leaves the names of its members. -/
@[simp] theorem has_map {make : α → β} : (f.map make).Has name ↔ f.Has name := Iff.rfl

/-- **What a form reads off members is read off the object of the members.** -/
theorem Reads.decode (h : f.Reads ms a) (hms : (ms.map Prod.fst).Nodup) :
    f.decode.Reads (.object ms) a := fun mode doc hdoc => by
  obtain ⟨docs, rfl, htidy, hsaid⟩ := hdoc.exists_object hms
  exact h mode docs htidy fun name _ => hsaid name

/-- **Forms without a common name are read side by side.** -/
theorem Reads.and (hf : f.Reads ms a) (hg : g.Reads ms b)
    (hfg : ∀ name, ¬(f.Has name ∧ g.Has name)) : (f.and g).Reads ms (a, b) :=
  fun mode docs htidy hsaid =>
    decode_and htidy hfg (hf mode docs htidy fun name h => hsaid name (has_and.2 (.inl h)))
      (hg mode docs htidy fun name h => hsaid name (has_and.2 (.inr h)))

/-- A record is read by what its members make. -/
theorem Reads.map {make : α → β} (h : f.Reads ms a) (hb : make a = b) : (f.map make).Reads ms b :=
  fun mode docs htidy hsaid => decode_map_of_eq (h mode docs htidy hsaid) hb

/-- **A member is read under its first name**, if it stands under no other one. -/
theorem reads_member {aliases : List String} {absent : Option α}
    (ha : ∀ other ∈ aliases, (object ms).get? other = none)
    (h : ∀ j, (object ms).get? name = some j → read.Reads j a)
    (habsent : (object ms).get? name = none → absent = some a) :
    (member name aliases absent read).Reads ms a := fun mode docs htidy hsaid => by
  have halias : ∀ other ∈ aliases, (object docs).get? other = none := fun other ho =>
    (hsaid other (has_member.2 (.inr ho))).none (ha other ho)
  have hname := hsaid name (has_member.2 (.inl rfl))
  rw [decode_member htidy _ _ _ halias]
  cases hj : (object ms).get? name with
  | none => simp only [hname.none hj, habsent hj]
  | some j =>
    obtain ⟨doc, hdoc, hj'⟩ := hname.some j hj
    simp only [hdoc, h j hj mode doc hj']

/-- A member that must be there is read where it stands. -/
theorem reads_required (hget : (object ms).get? name = some j) (h : read.Reads j a) :
    (required name read).Reads ms a :=
  reads_member (by simp) (fun _ hj => Option.some.inj (hget.symm.trans hj) ▸ h) fun hnone => by
    rw [hget] at hnone
    cases hnone

/-- A member with a default is read where it stands. -/
theorem reads_defaulted {absent : α} (hget : (object ms).get? name = some j) (h : read.Reads j a) :
    (defaulted name absent read).Reads ms a :=
  reads_member (by simp) (fun _ hj => Option.some.inj (hget.symm.trans hj) ▸ h) fun hnone => by
    rw [hget] at hnone
    cases hnone

/-- A value that is left out when there is none is read again. -/
theorem reads_option {aliases : List String} (ha : ∀ other ∈ aliases, (object ms).get? other = none)
    {write : α → Json} {o : Option α} (hget : (object ms).get? name = o.map write)
    (hnull : ∀ a, (write a).canonical.isNull = false) (h : ∀ a ∈ o, read.Reads (write a) a) :
    (member name aliases (some none) read.option).Reads ms o := by
  refine reads_member ha (fun j hj => ?_) fun hnone => ?_
  · obtain ⟨a, rfl, rfl⟩ := Option.map_eq_some_iff.1 (hget.symm.trans hj)
    intro mode doc hdoc
    unfold Decoder.option
    split
    · have hcanonical := hnull a
      rw [← hdoc.canonical_eq] at hcanonical
      cases hcanonical
    · rw [h a rfl mode _ hdoc]
      rfl
  · rw [hget, Option.map_eq_none_iff] at hnone
    rw [hnone]

/-- A value that is left out when there is none is read again, under its one name. -/
theorem reads_optional {write : α → Json} {o : Option α}
    (hget : (object ms).get? name = o.map write) (hnull : ∀ a, (write a).canonical.isNull = false)
    (h : ∀ a ∈ o, read.Reads (write a) a) : (Form.optional name read).Reads ms o :=
  reads_option (by simp) hget hnull h

/-- A value that is left out when it is the default is read again. -/
theorem reads_omitted {aliases : List String}
    (ha : ∀ other ∈ aliases, (object ms).get? other = none) {absent : α} {omitted : Bool}
    (hget : (object ms).get? name = if omitted then none else some j)
    (homitted : omitted = true → absent = a) (h : read.Reads j a) :
    (member name aliases (some absent) read).Reads ms a := by
  cases omitted with
  | true =>
    refine reads_member ha (fun j hj => ?_) fun _ => congrArg some (homitted rfl)
    cases hget.symm.trans hj
  | false =>
    refine reads_member ha (fun j' hj => ?_) fun hnone => ?_
    · exact Option.some.inj (hget.symm.trans hj) ▸ h
    · cases hget.symm.trans hnone

end Form

end MappingCanvas
