/-
# Records in tidy objects

An object is tidy when its names do not repeat and nothing in it is flawed.  Every object that
this library writes is tidy, and so is every object of a stored value (`Value.tidy_ofJson`).

In a tidy object the order of the members does not matter: a form reads each of its members as if
it were the only one (`Form.decode_member`), two forms that share no name read side by side
(`Form.decode_and`), and members of other names are passed over.
-/

import Mathlib.Data.List.Forall2
import Mathlib.Data.List.Nodup
import MappingCanvas.Json.Decode
import MappingCanvas.Proofs.Ordered
import MappingCanvas.Proofs.Result

namespace MappingCanvas

namespace Json

variable {ms : List (String × Json)} {name : String}

/-! ### Canonical trees -/

/-- Members are flawless when each of them is. -/
theorem flawMembers_eq_none : flawMembers ms = none ↔ ∀ m ∈ ms, m.2.flaw? = none := by
  induction ms with
  | nil => simp [flawMembers]
  | cons m ms ih => simp [flawMembers, ih]

/-- Items are flawless when each of them is. -/
theorem flawItems_eq_none {js : List Json} : flawItems js = none ↔ ∀ j ∈ js, j.flaw? = none := by
  induction js with
  | nil => simp [flawItems]
  | cons j js ih => simp [flawItems, ih]

mutual
/-- What has no flaw can be skipped. -/
theorem stop?_of_flaw? : ∀ j : Json, j.flaw? = none → j.stop? = none
  | array items, h => stopItems_of_flawItems items h
  | object members, h => stopMembers_of_flawMembers members h
  | null, _ | bool _, _ | number _, _ | string _, _ => rfl
  | flawed _, h => by simp [flaw?] at h

/-- Where no item is flawed, none stops a reader that passes over them. -/
theorem stopItems_of_flawItems : ∀ js : List Json, flawItems js = none → stopItems js = none
  | [], _ => rfl
  | j :: js, h => by
    rw [flawItems_eq_none, List.forall_mem_cons, ← flawItems_eq_none] at h
    simp [stopItems, stop?_of_flaw? j h.1, stopItems_of_flawItems js h.2]

/-- Where no member is flawed, none stops a reader that passes over them. -/
theorem stopMembers_of_flawMembers : ∀ ms : List (String × Json),
    flawMembers ms = none → stopMembers ms = none
  | [], _ => rfl
  | (_, j) :: ms, h => by
    rw [flawMembers_eq_none, List.forall_mem_cons, ← flawMembers_eq_none] at h
    simp [stopMembers, stop?_of_flaw? j h.1, stopMembers_of_flawMembers ms h.2]
end

mutual
/-- **A canonical tree has no flaw**, so stored values are never refused as malformed. -/
theorem flaw?_of_isCanonical : ∀ j : Json, j.IsCanonical → j.flaw? = none
  | array items, h => flawItems_of_canonicalItems items h
  | object members, h => flawMembers_of_canonicalMembers members h.2
  | null, _ | bool _, _ | number _, _ | string _, _ => rfl

/-- Canonical items have no flaw. -/
theorem flawItems_of_canonicalItems : ∀ js : List Json, CanonicalItems js → flawItems js = none
  | [], _ => rfl
  | j :: js, h => by
    simp [flawItems, flaw?_of_isCanonical j h.1, flawItems_of_canonicalItems js h.2]

/-- Canonical members have no flaw. -/
theorem flawMembers_of_canonicalMembers : ∀ ms : List (String × Json),
    CanonicalMembers ms → flawMembers ms = none
  | [], _ => rfl
  | (_, j) :: ms, h => by
    simp [flawMembers, flaw?_of_isCanonical j h.1, flawMembers_of_canonicalMembers ms h.2]
end

/-- To bring a canonical form into canonical form changes nothing. -/
theorem canonical_canonical (j : Json) : j.canonical.canonical = j.canonical :=
  canonical_of_isCanonical _ (isCanonical_canonical j)

/-- Items become canonical one by one and stay in their order. -/
theorem canonicalItems_eq_map (js : List Json) : canonicalItems js = js.map canonical := by
  induction js with
  | nil => rfl
  | cons j js ih => rw [canonicalItems, ih, List.map_cons]

/-! ### Tidy objects -/

/-- An object whose names do not repeat and in which nothing is flawed. -/
structure Tidy (ms : List (String × Json)) : Prop where
  nodup : (ms.map Prod.fst).Nodup
  flawless : ∀ m ∈ ms, m.2.flaw? = none

/-- In a tidy object no name comes again behind the first member. -/
theorem Tidy.of_cons {m : String × Json} (h : Tidy (m :: ms)) :
    Tidy ms ∧ m.2.flaw? = none ∧ ∀ m' ∈ ms, m'.1 ≠ m.1 := by
  have hnodup := h.nodup
  rw [List.map_cons, List.nodup_cons] at hnodup
  exact ⟨⟨hnodup.2, fun m' hm' => h.flawless m' (List.mem_cons_of_mem m hm')⟩,
    h.flawless m (List.mem_cons_self ..),
    fun m' hm' heq => hnodup.1 (heq ▸ List.mem_map_of_mem hm')⟩

/-- A member is looked for in front first. -/
theorem get?_cons (m : String × Json) (ms : List (String × Json)) (name : String) :
    (object (m :: ms)).get? name = if m.1 == name then some m.2 else (object ms).get? name := by
  simp only [get?, List.find?_cons]
  by_cases h : m.1 == name <;> simp [h]

/-- A name is missing exactly when no member has it. -/
theorem get?_eq_none : (object ms).get? name = none ↔ ∀ m ∈ ms, m.1 ≠ name := by
  simp [get?]

/-- Members become canonical as entries that are ordered by their names, the last of each name. -/
theorem canonicalMembers_eq_ofEntries (ms : List (String × Json)) :
    canonicalMembers ms = Ordered.ofEntries Prod.fst (ms.map fun m => (m.1, m.2.canonical)) := by
  induction ms with
  | nil => rfl
  | cons m ms ih => rw [canonicalMembers, ih, List.map_cons, Ordered.ofEntries]

/-- **The canonical form of an object has the last member of each name.** -/
theorem get?_canonical_reverse (ms : List (String × Json)) (name : String) :
    (object ms).canonical.get? name = ((object ms.reverse).get? name).map canonical := by
  rw [canonical, get?, canonicalMembers_eq_ofEntries, Ordered.find?_ofEntries, ← List.map_reverse,
    List.find?_map, get?, Option.map_map, Option.map_map]
  rfl

/-- **Where names do not repeat, the canonical form of an object has the same members.** -/
theorem get?_canonical (h : (ms.map Prod.fst).Nodup) (name : String) :
    (object ms).canonical.get? name = ((object ms).get? name).map canonical := by
  rw [get?_canonical_reverse, get?, Ordered.find?_reverse_of_nodup h, get?]

/-- A canonical object is tidy: its names ascend, so none is repeated. -/
theorem tidy_of_isCanonical (h : (object ms).IsCanonical) : Tidy ms where
  nodup := h.1.nodup
  flawless := flawMembers_eq_none.1 (flaw?_of_isCanonical _ h)

end Json

/-- Values are the same when their trees are. -/
theorem Value.ext {v v' : Value} (h : v.json = v'.json) : v = v' := by
  cases v
  cases v'
  cases h
  rfl

/-- There is only one value that is `null`. -/
theorem Value.eq_null_of_isNull {v : Value} (h : v.isNull = true) : v = .null := by
  cases v with
  | mk j _ => cases j <;> first | rfl | cases h

/-- The tree of a value is canonical already. -/
theorem Value.canonical_json (v : Value) : v.json.canonical = v.json :=
  Json.canonical_of_isCanonical _ v.canonical

/-- Whatever was stored, what is held of it is tidy. -/
theorem Value.tidy_ofJson (ms : List (String × Json)) : Json.Tidy (Json.canonicalMembers ms) :=
  Json.tidy_of_isCanonical (Json.isCanonical_canonical (.object ms))

/-- A stored value is read as itself. -/
theorem Decoder.value_json (v : Value) (mode : Reading) : Decoder.value mode v.json = .ok v := by
  simp only [value, sound, Json.flaw?_of_isCanonical _ v.canonical, Value.ofJson_json]
  rfl

/-- A choice is read from its name, however the document arrives. -/
theorem Decoder.choice_string {α : Type} {find? : String → Option α} {s : String} {a : α}
    (h : find? s = some a) (mode : Reading) : Decoder.choice find? mode (.string s) = .ok a := by
  cases mode <;> simp [Decoder.choice, Decoder.choice.named, h]

/-- A natural number is read as itself. -/
theorem Decoder.nat_nat (n : Nat) (mode : Reading) : Decoder.nat mode (.nat n) = .ok n := by
  simp [Decoder.nat, Json.nat]

/-! ### Reading members -/

namespace Form

open Json

variable {α β : Type} {f : Form α} {g : Form β} {ms : List (String × Json)} {mode : Reading}

/-- Whether a form has a member of this name. -/
def Has (f : Form α) (name : String) : Prop := (f.accept name).isSome

/-- A form of one member has the name of the member and its other names. -/
@[simp] theorem has_member {name given : String} {aliases : List String} {absent : Option α}
    {read : Decoder α} :
    (member name aliases absent read).Has given ↔ given = name ∨ given ∈ aliases := by
  unfold Has member
  split <;> simp [*]

/-- A form of two parts has the names of both. -/
@[simp] theorem has_and {name : String} : (f.and g).Has name ↔ f.Has name ∨ g.Has name := by
  unfold Has Form.and
  cases hf : f.accept name <;> cases hg : g.accept name <;> simp [hf, hg]

/-- **Without flaws a member is either taken by the form or passed over.** -/
theorem step_eq {m : String × Json} (hm : m.2.flaw? = none) (s : f.State) :
    f.step mode s m =
      match f.accept m.1 with
      | some take => take s mode m.2
      | none => .ok s := by
  unfold step
  split
  · simp [flaw?] at hm
  · cases f.accept _ with
    | some take => rfl
    | none => simp only [Decoder.skip, stop?_of_flaw? _ hm]; rfl

/-- Members of other names are passed over. -/
theorem foldlM_step_of_not_has (hms : ∀ m ∈ ms, m.2.flaw? = none)
    (h : ∀ m ∈ ms, ¬f.Has m.1) (s : f.State) : ms.foldlM (f.step mode) s = .ok s := by
  induction ms with
  | nil => rfl
  | cons m ms ih =>
    have hm : f.accept m.1 = none := by
      simpa [Has] using h m (List.mem_cons_self ..)
    rw [List.foldlM_cons, step_eq (hms m (List.mem_cons_self ..)), hm]
    exact ih (fun m' hm' => hms m' (List.mem_cons_of_mem m hm'))
      fun m' hm' => h m' (List.mem_cons_of_mem m hm')

/-- The state of a form of one member. -/
def held {name : String} {aliases : List String} {absent : Option α} {read : Decoder α}
    (a : Option α) : (member name aliases absent read).State := a

/-- **A member is read wherever it stands**, since nothing behind it concerns the form. -/
theorem decode_member (h : Tidy ms) (name : String) {aliases : List String}
    (absent : Option α) (read : Decoder α)
    (ha : ∀ other ∈ aliases, (object ms).get? other = none) :
    (member name aliases absent read).decode mode (.object ms) =
      match (object ms).get? name with
      | some j => read mode j
      | none => match absent with
        | some a => .ok a
        | none => .error (.missingField name) := by
  induction ms with
  | nil => cases absent <;> rfl
  | cons m ms ih =>
    obtain ⟨htidy, hm, hfresh⟩ := h.of_cons
    have halias : ∀ other ∈ aliases, ∀ m' ∈ m :: ms, m'.1 ≠ other := fun other ho =>
      get?_eq_none.1 (ha other ho)
    rw [decode, List.foldlM_cons, get?_cons]
    by_cases hname : m.1 = name
    · have hrest : ∀ m' ∈ ms, ¬(member name aliases absent read).Has m'.1 := by
        intro m' hm' hhas
        rcases has_member.1 hhas with heq | hmem
        · exact hfresh m' hm' (heq.trans hname.symm)
        · exact halias _ hmem m' (List.mem_cons_of_mem m hm') rfl
      have hstep : (member name aliases absent read).step mode (held none) m =
          (read mode m.2).map fun a => held (some a) := by
        rw [step_eq hm]
        simp only [member, held, hname, true_or, if_true]
      rw [if_pos (beq_iff_eq.2 hname)]
      change ((member name aliases absent read).step mode (held none) m >>= _) >>= _ = _
      rw [hstep]
      cases hread : read mode m.2 with
      | error e => simp only [hread]; rfl
      | ok a =>
        change ms.foldlM ((member name aliases absent read).step mode) (held (some a)) >>= _ = _
        rw [foldlM_step_of_not_has htidy.flawless hrest]
        simp only [hread]
        rfl
    · have hnot : (member name aliases absent read).accept m.1 = none :=
        if_neg fun hor => hor.elim hname fun hmem => halias _ hmem m (List.mem_cons_self ..) rfl
      rw [step_eq hm, hnot, if_neg fun hk => hname (beq_iff_eq.1 hk)]
      exact ih htidy fun other ho => get?_eq_none.2 fun m' hm' =>
        halias other ho m' (List.mem_cons_of_mem m hm')

/-- The states of two forms side by side. -/
def pair (s : f.State) (t : g.State) : (f.and g).State := (s, t)

/-- A member moves two forms side by side as it moves each of them, as only one has its name. -/
theorem step_pair {m : String × Json} (hm : m.2.flaw? = none) (hfg : ¬(f.Has m.1 ∧ g.Has m.1))
    {s s' : f.State} {t t' : g.State} (hf : f.step mode s m = .ok s')
    (hg : g.step mode t m = .ok t') : (f.and g).step mode (pair s t) m = .ok (pair s' t') := by
  rw [step_eq hm] at hf hg ⊢
  cases hfm : f.accept m.1 with
  | some take =>
    have hgm : g.accept m.1 = none := by
      simpa [Has, hfm] using hfg
    rw [hfm] at hf
    rw [hgm] at hg
    obtain rfl := Except.ok.inj hg
    simp only [Form.and, pair, hfm, hf, Except.map]
  | none =>
    rw [hfm] at hf
    obtain rfl := Except.ok.inj hf
    cases hgm : g.accept m.1 with
    | some take =>
      rw [hgm] at hg
      simp only [Form.and, pair, hfm, hgm, hg, Except.map]
    | none =>
      rw [hgm] at hg
      obtain rfl := Except.ok.inj hg
      simp only [Form.and, pair, hfm, hgm]

/-- Members move two forms side by side as they move each of them. -/
theorem foldlM_step_pair (hms : ∀ m ∈ ms, m.2.flaw? = none)
    (hfg : ∀ name, ¬(f.Has name ∧ g.Has name)) {s s' : f.State} {t t' : g.State}
    (hf : ms.foldlM (f.step mode) s = .ok s') (hg : ms.foldlM (g.step mode) t = .ok t') :
    ms.foldlM ((f.and g).step mode) (pair s t) = .ok (pair s' t') := by
  induction ms generalizing s t with
  | nil =>
    obtain rfl := Except.ok.inj hf
    obtain rfl := Except.ok.inj hg
    rfl
  | cons m ms ih =>
    obtain ⟨hm, hms⟩ := List.forall_mem_cons.1 hms
    obtain ⟨s₁, hs₁, hf⟩ := bind_eq_ok.1 hf
    obtain ⟨t₁, ht₁, hg⟩ := bind_eq_ok.1 hg
    exact bind_eq_ok.2 ⟨_, step_pair hm (hfg m.1) hs₁ ht₁, ih hms hf hg⟩

/-- **Forms that share no name read side by side.** -/
theorem decode_and (h : Tidy ms) (hfg : ∀ name, ¬(f.Has name ∧ g.Has name)) {a : α} {b : β}
    (hf : f.decode mode (.object ms) = .ok a) (hg : g.decode mode (.object ms) = .ok b) :
    (f.and g).decode mode (.object ms) = .ok (a, b) := by
  obtain ⟨s, hs, ha⟩ := bind_eq_ok.1 hf
  obtain ⟨t, ht, hb⟩ := bind_eq_ok.1 hg
  refine bind_eq_ok.2 ⟨pair s t, foldlM_step_pair h.flawless hfg hs ht, ?_⟩
  simp only [Form.and, pair, ha, hb]
  rfl

/-- What is made of the members does not concern the reading of them. -/
theorem step_map (f : Form α) (make : α → β) (mode : Reading) :
    (f.map make).step mode = f.step mode := by
  funext s m
  unfold step
  split
  · rfl
  · have haccept : (f.map make).accept = f.accept := rfl
    cases hf : f.accept _ with
    | some take => simp only [haccept, hf]; rfl
    | none => simp only [haccept, hf]; rfl

/-- A record is made of what its members are read as. -/
theorem decode_map (f : Form α) (make : α → β) (mode : Reading) (ms : List (String × Json)) :
    (f.map make).decode mode (.object ms) = (f.decode mode (.object ms)).map make := by
  have hfold : ms.foldlM ((f.map make).step mode) (f.map make).blank =
      ms.foldlM (f.step mode) f.blank :=
    congrArg (fun step => ms.foldlM step f.blank) (step_map f make mode)
  change ms.foldlM ((f.map make).step mode) (f.map make).blank >>= (f.map make).finish =
    (ms.foldlM (f.step mode) f.blank >>= f.finish).map make
  rw [hfold]
  cases ms.foldlM (f.step mode) f.blank <;> rfl

/-- What is read of the members makes the record. -/
theorem decode_map_of_eq {make : α → β} {a : α} {b : β}
    (h : f.decode mode (.object ms) = .ok a) (hb : make a = b) :
    (f.map make).decode mode (.object ms) = .ok b := by
  rw [decode_map, h, ← hb]
  rfl

/-- A member with a default has its one name. -/
@[simp] theorem has_defaulted {name given : String} {absent : α} {read : Decoder α} :
    (defaulted name absent read).Has given ↔ given = name := by
  simp [defaulted]

/-- A member that may be missing has its one name. -/
@[simp] theorem has_optional {name given : String} {read : Decoder α} :
    (Form.optional name read).Has given ↔ given = name := by
  simp [Form.optional]

/-- A member that must be there has its one name. -/
@[simp] theorem has_required {name given : String} {read : Decoder α} :
    (required name read).Has given ↔ given = name := by
  simp [required]

/-- A member with a default is read where it stands, and is the default where it does not. -/
theorem decode_defaulted (h : Tidy ms) (name : String) (absent : α) (read : Decoder α) :
    (defaulted name absent read).decode mode (.object ms) =
      match (object ms).get? name with
      | some j => read mode j
      | none => .ok absent :=
  decode_member h name (some absent) read (by simp)

/-- A member with a default that is present is read. -/
theorem decode_defaulted_of_get? (h : Tidy ms) {name : String} {absent a : α} {read : Decoder α}
    {j : Json} (hget : (object ms).get? name = some j) (hread : read mode j = .ok a) :
    (defaulted name absent read).decode mode (.object ms) = .ok a := by
  rw [decode_defaulted h, hget]
  exact hread

/-- A value that is left out when it is `null` is read again. -/
theorem decode_defaulted_null (h : Tidy ms) {name : String} {v : Value}
    (hget : (object ms).get? name = (some v.json).filter fun j => !j.isNull) :
    (defaulted name Value.null .value).decode mode (.object ms) = .ok v := by
  rw [decode_defaulted h, hget]
  cases hv : v.json.isNull with
  | false =>
    rw [Option.filter_some_pos (by simp [hv])]
    exact Decoder.value_json v mode
  | true =>
    rw [Option.filter_some_neg (by simp [hv])]
    exact congrArg Except.ok (Value.eq_null_of_isNull hv).symm

/-- A value that is left out when there is none is read again, under whatever other names it might
stand. -/
theorem decode_member_option (h : Tidy ms) {name : String} {aliases : List String}
    (ha : ∀ other ∈ aliases, (object ms).get? other = none) {read : Decoder α} {write : α → Json}
    {o : Option α} (hget : (object ms).get? name = o.map write) (hnull : ∀ a, write a ≠ .null)
    (hread : ∀ a ∈ o, read mode (write a) = .ok a) :
    (member name aliases (some none) read.option).decode mode (.object ms) = .ok o := by
  rw [decode_member h _ _ _ ha, hget]
  cases o with
  | none => rfl
  | some a =>
    have hoption : read.option mode (write a) = (read mode (write a)).map some := by
      unfold Decoder.option
      split
      · exact absurd ‹_› (hnull a)
      · rfl
    simp only [Option.map_some, hoption, hread a rfl]
    rfl

/-- A value that is left out when there is none is read again. -/
theorem decode_optional (h : Tidy ms) {name : String} {read : Decoder α} {write : α → Json}
    {o : Option α} (hget : (object ms).get? name = o.map write) (hnull : ∀ a, write a ≠ .null)
    (hread : ∀ a, read mode (write a) = .ok a) :
    (Form.optional name read).decode mode (.object ms) = .ok o :=
  decode_member_option h (by simp) hget hnull fun a _ => hread a

end Form

namespace Decoder

variable {α : Type} {mode : Reading}

/-- **A list of written values is read as the list of values.** -/
theorem list_map {read : Decoder α} {write : α → Json} {l : List α}
    (h : ∀ a ∈ l, read mode (write a) = .ok a) :
    list read mode (.array (l.map write)) = .ok l := by
  refine mapM_eq_ok_iff.2 ?_
  rw [List.forall₂_map_left_iff, List.forall₂_same]
  exact h

/-- A set that is written is read again. -/
theorem textSet_strings (s : TextSet) (mode : Reading) :
    textSet mode (.strings s.toList) = .ok s := by
  rw [textSet, Json.strings, list_map fun _ _ => rfl]
  exact congrArg Except.ok s.ofList_toList

end Decoder

/-- A list that is left out when it is empty is read again. -/
theorem Form.decode_member_list {α : Type} {mode : Reading} {ms : List (String × Json)}
    (h : Json.Tidy ms) {name : String} {aliases : List String}
    (ha : ∀ other ∈ aliases, (Json.object ms).get? other = none) {read : Decoder α}
    {write : α → Json} {l : List α}
    (hget : (Json.object ms).get? name =
      if l.isEmpty then none else some (.array (l.map write)))
    (hread : ∀ a ∈ l, read mode (write a) = .ok a) :
    (member name aliases (some []) (.list read)).decode mode (.object ms) = .ok l := by
  rw [decode_member h _ _ _ ha, hget]
  cases l with
  | nil => rfl
  | cons a l => exact Decoder.list_map hread

end MappingCanvas
