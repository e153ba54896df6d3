/-
# Parameters that are written are found again

A transform writes its parameters under their current names, each once (`names_members`), and no
older name of a parameter is the current name of another (`aliases_not_mem_keys`).  So a reader who
looks for a parameter under its own name and then under its older ones finds what was written, or
nothing when it was a `null` or an empty collection that stands for the default.  `Key.written?` is
that answer, and `get?_found` says that the reader gets it from any data in which the parameters are
found where they were written.
-/

import MappingCanvas.Canvas.Payload
import MappingCanvas.Proofs.Json.Record

namespace MappingCanvas

/-- The type of the nodes that carry an operation. -/
def Operation.nodeType : Operation → NodeType
  | passThrough => .passThrough
  | constants _ => .constants
  | conditional _ => .conditional
  | text _ => .text
  | split _ => .split
  | concat _ => .concat
  | date _ => .date
  | coalesce _ => .coalesce

namespace Payload

/-! ### One parameter -/

/-- What is looked for under several names in data that has only the first is found there. -/
theorem Key.inPlace?_eq {k : Key} {base : Json} (h : ∀ other ∈ k.aliases, base.get? other = none) :
    k.inPlace? base = (base.get? k.name).filter k.counts := by
  have haliases : k.aliases.filterMap base.get? = [] := List.filterMap_eq_nil_iff.2 h
  unfold inPlace?
  cases hget : base.get? k.name with
  | none => simp [hget, haliases]
  | some j => by_cases hj : k.counts j <;> simp [hget, haliases, hj, Option.filter]

/-- What is looked for in data that has none of the names is not found. -/
theorem Key.inPlace?_eq_none {k : Key} {base : Json}
    (h : ∀ name ∈ k.name :: k.aliases, base.get? name = none) : k.inPlace? base = none := by
  rw [inPlace?_eq fun other ho => h other (List.mem_cons_of_mem _ ho),
    h k.name (List.mem_cons_self ..)]
  rfl

/-- A value that counts under the own name of a parameter is found before one under another name. -/
theorem Key.inPlace?_of_counts {k : Key} {base j : Json} (hget : base.get? k.name = some j)
    (hj : k.counts j) : k.inPlace? base = some j := by
  rw [inPlace?, List.filterMap_cons_some hget, List.find?_cons_of_pos hj]

/-- **A parameter that counts under its own name at the top is found there**, whatever else the data
holds. -/
theorem Key.find?_of_top {k : Key} {data j : Json} (hget : data.get? k.name = some j)
    (hj : k.counts j) : k.find? data = some j := by
  simp [find?, places, follow?, inPlace?_of_counts hget hj]

/-- Parameters that are found keep the order of the keys. -/
theorem names_current (keys : List Key) (data : Json) :
    ((current keys data).map Prod.fst).Sublist (keys.map Key.name) := by
  induction keys with
  | nil => exact List.Sublist.refl _
  | cons k keys ih =>
    unfold current at ih ⊢
    cases h : k.find? data with
    | none => simpa [h] using ih.cons k.name
    | some j => simpa [h] using ih.cons_cons k.name

/-- **A parameter is found under its current name.** -/
theorem get?_current {keys : List Key} (hnodup : (keys.map Key.name).Nodup) (data : Json) {k : Key}
    (hk : k ∈ keys) :
    (Json.object (current keys data)).get? k.name = (k.find? data).map (coerce k.name) := by
  induction keys with
  | nil => simp at hk
  | cons k' keys ih =>
    rw [List.map_cons, List.nodup_cons] at hnodup
    have hcons : current (k' :: keys) data =
        ((k'.find? data).map fun j => (k'.name, coerce k'.name j)).toList ++ current keys data := by
      unfold current
      cases h : k'.find? data <;> simp [h]
    have hother : k'.name ∉ (current keys data).map Prod.fst := fun hmem =>
      hnodup.1 ((names_current keys data).subset hmem)
    rw [hcons]
    rcases List.mem_cons.1 hk with rfl | hk
    · cases k.find? data with
      | none =>
        refine Json.get?_eq_none.2 fun m hm heq => hother ?_
        rw [← heq]
        exact List.mem_map_of_mem hm
      | some j => simp [Json.get?]
    · have hne : k'.name ≠ k.name := fun heq => hnodup.1 (heq ▸ List.mem_map_of_mem hk)
      cases k'.find? data with
      | none => exact ih hnodup.2 hk
      | some j => simpa [Json.get?_cons, hne] using ih hnodup.2 hk

/-- To set a parameter to the value it has is to leave all of them as they are. -/
theorem get?_withValue {found : List (String × Json)} {name : String} {j : Json}
    (h : (Json.object found).get? name = some j) (other : String) :
    (Json.object (withValue found name j)).get? other = (Json.object found).get? other := by
  simp only [Json.get?, withValue, List.find?_append, List.find?_filter, List.find?_singleton]
  by_cases heq : other = name
  · subst heq
    have hnone : found.find? (fun m => decide ((m.1 != other) = true ∧ (m.1 == other) = true)) =
        none := List.find?_eq_none.2 fun m _ => by simp
    rw [hnone]
    simpa [Json.get?] using h.symm
  · have hsame : (fun m : String × Json => decide ((m.1 != name) = true ∧ (m.1 == other) = true)) =
        fun m => m.1 == other := by
      funext m
      by_cases hm : m.1 = other <;> simp [hm, heq]
    rw [hsame]
    simp [Ne.symm heq]

/-! ### The parameters of an operation -/

/-- Each type has each of its parameters once. -/
theorem nodup_keys (t : NodeType) : ((keys t).map Key.name).Nodup := by
  cases t <;> decide

/-- No older name of a parameter is the current name of a parameter of the same type. -/
theorem aliases_not_mem_keys (t : NodeType) :
    ∀ k ∈ keys t, ∀ other ∈ k.aliases, other ∉ (keys t).map Key.name := by
  cases t <;> decide

/-- An optional member has no other name than its own. -/
theorem names_member? (name : String) (value : Option Json) :
    ((Json.member? name value).map Prod.fst).Sublist [name] := by
  cases value with
  | none => exact List.nil_sublist _
  | some j => exact List.Sublist.refl _

/-- An operation writes parameters of its type only, in the order of the keys and each at most
once. -/
theorem names_members (o : Operation) :
    (o.members.map Prod.fst).Sublist ((keys o.nodeType).map Key.name) := by
  cases o with
  | text p =>
    have hbounds := (names_member? "start" (p.start.map .nat)).append
      (names_member? "end" (p.stop.map .nat))
    rw [← List.map_append] at hbounds
    exact hbounds.cons_cons "stringOperation"
  | date p =>
    have hformats := (names_member? "inputFormat" (p.inputFormat.map .string)).append
      (List.Sublist.refl ["outputFormat"])
    simp only [Operation.members, List.map_append]
    exact hformats
  | _ => exact List.Sublist.refl _

/-- Only texts and splits have parameters that may be stored as texts. -/
theorem not_mem_numericNames {t : NodeType} (htext : t ≠ .text) (hsplit : t ≠ .split)
    {name : String} (h : name ∈ (keys t).map Key.name) : name ∉ numericNames := by
  have hall : ∀ name ∈ (keys t).map Key.name, name ∉ numericNames := by
    cases t <;> first | contradiction | decide
  exact hall name h

/-- Parameters that may be stored as texts are written as numbers. -/
theorem exists_nat_of_mem_members {o : Operation} {m : String × Json} (h : m ∈ o.members)
    (hm : m.1 ∈ numericNames) : ∃ n, m.2 = .nat n := by
  cases o with
  | text p =>
    simp only [Operation.members, Json.member?, List.mem_cons, List.mem_append] at h
    rcases h with rfl | h | h
    · simp [numericNames] at hm
    · cases hp : p.start <;> simp [hp] at h
      exact ⟨_, congrArg Prod.snd h⟩
    · cases hp : p.stop <;> simp [hp] at h
      exact ⟨_, congrArg Prod.snd h⟩
  | split p =>
    simp only [Operation.members, List.mem_cons, List.not_mem_nil, or_false] at h
    rcases h with rfl | rfl
    · simp [numericNames] at hm
    · exact ⟨_, rfl⟩
  | _ =>
    have hname := (names_members _).subset (List.mem_map_of_mem h)
    exact absurd hm (not_mem_numericNames (by nofun) (by nofun) hname)

/-- A parameter is read from what was written in canonical form. -/
theorem get?_parameters (o : Operation) (name : String) :
    o.parameters.json.get? name = ((Json.object o.members).get? name).map Json.canonical :=
  Json.get?_canonical ((names_members o).nodup (nodup_keys o.nodeType)) name

/-- What a reader finds of a parameter that an operation has written. -/
def Key.written? (k : Key) (o : Operation) : Option Json :=
  (((Json.object o.members).get? k.name).map Json.canonical).filter k.counts

/-- **In the parameters of an operation each one is found under its own name**, since no older name
is written. -/
theorem Key.inPlace?_parameters {k : Key} {o : Operation} (hk : k ∈ keys o.nodeType) :
    k.inPlace? o.parameters.json = k.written? o := by
  have haliases : ∀ other ∈ k.aliases, o.parameters.json.get? other = none := by
    intro other ho
    rw [get?_parameters, Option.map_eq_none_iff, Json.get?_eq_none]
    intro m hm heq
    refine aliases_not_mem_keys _ k hk other ho ?_
    rw [← heq]
    exact (names_members o).subset (List.mem_map_of_mem hm)
  rw [inPlace?_eq haliases, get?_parameters, written?]

/-- What is found of an operation is one of its members. -/
theorem Key.exists_of_written? {k : Key} {o : Operation} {j : Json} (h : k.written? o = some j) :
    ∃ m ∈ o.members, m.1 = k.name ∧ j = m.2.canonical := by
  rw [written?, Option.filter_eq_some_iff, Option.map_eq_some_iff] at h
  obtain ⟨⟨j', hget, rfl⟩, -⟩ := h
  obtain ⟨m, hm, rfl⟩ := Option.map_eq_some_iff.1 hget
  exact ⟨m, List.mem_of_find?_eq_some hm, by simpa using List.find?_some hm, rfl⟩

/-- Written parameters need no coercion: numeric ones are numbers already. -/
theorem Key.coerce_written? (k : Key) (o : Operation) :
    (k.written? o).map (coerce k.name) = k.written? o := by
  cases h : k.written? o with
  | none => rfl
  | some j =>
    obtain ⟨m, hm, hname, rfl⟩ := exists_of_written? h
    by_cases hnum : m.1 ∈ numericNames
    · obtain ⟨n, hn⟩ := exists_nat_of_mem_members hm hnum
      rw [hn]
      rfl
    · rw [hname] at hnum
      cases hj : m.2.canonical <;> simp [coerce, hnum]

/-- Written parameters are canonical. -/
theorem Key.canonical_written? (k : Key) (o : Operation) :
    (k.written? o).map Json.canonical = k.written? o := by
  cases h : k.written? o with
  | none => rfl
  | some j =>
    obtain ⟨m, -, -, rfl⟩ := exists_of_written? h
    simp [Json.canonical_canonical]

/-- **Every parameter is found as it was written.** -/
theorem get?_found {o : Operation} {data : Json}
    (hfind : ∀ k ∈ keys o.nodeType, k.find? data = k.inPlace? o.parameters.json) {k : Key}
    (hk : k ∈ keys o.nodeType) :
    (Json.object (current (keys o.nodeType) data)).get? k.name = k.written? o := by
  rw [get?_current (nodup_keys _) _ hk, hfind k hk, Key.inPlace?_parameters hk, Key.coerce_written?]

end Payload
end MappingCanvas
