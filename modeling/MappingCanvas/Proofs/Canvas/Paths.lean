/-
# Values put at paths

A parameter may stand at several paths of the data of a node: in each place under each of its names
(`Key.paths`), and the first value that counts is taken (`Key.find?_eq_paths`).  The paths of
different parameters, of labels and of nested schemas lead apart, so another value at a path of a
parameter leaves everything else that is looked for as it is.

Two values at a path are found both or neither, if both count or neither does
(`find?_setAt_cases`).  So they come to the same node when they come to the same parameters in data
that is otherwise alike (`nodeBody_setAt`).
-/

import MappingCanvas.Proofs.Canvas.Layouts

namespace MappingCanvas
namespace Payload

variable {t : NodeType} {k k' : Key} {path : List String} {v j j' : Value}
  {ms : List (String × Json)}

/-! ### Values at paths -/

/-- The paths at which a parameter may stand, in the order in which they are looked at. -/
def Key.paths (k : Key) : List (List String) :=
  places.flatMap fun place => (k.name :: k.aliases).map fun name => place ++ [name]

/-- The paths of a parameter of a type. -/
def pathsOf (t : NodeType) (name : String) : List (List String) :=
  ((keys t).filter fun k => k.name == name).flatMap Key.paths

/-- The paths of a name are those of the parameters that have it. -/
theorem mem_pathsOf {name : String} :
    path ∈ pathsOf t name ↔ ∃ k ∈ keys t, k.name = name ∧ path ∈ k.paths := by
  simp [pathsOf, and_assoc]

/-- An object; an empty one in the place of anything else. -/
def record (v : Value) : Value :=
  match v.json with
  | .object _ => v
  | _ => .ofJson (.object [])

/-- Data with another value at a path; what is no object on the way is replaced by one. -/
def setAt : List String → Value → Value → Value
  | [], j, _ => j
  | name :: path, j, data => put (record data) name (setAt path j ((data.get? name).getD .null))

/-- A record is an object, whatever it was made of. -/
theorem exists_record (v : Value) : ∃ ms, (record v).json = .object ms := by
  unfold record
  split
  · rename_i ms hms
    exact ⟨ms, hms⟩
  · exact ⟨[], rfl⟩

/-- A record has the members of the value it was made of. -/
theorem get?_record (v : Value) (name : String) : (record v).json.get? name = v.json.get? name := by
  unfold record
  split
  · rfl
  · rename_i hno
    have hnone : v.json.get? name = none := by
      cases hv : v.json with
      | object ms => exact absurd hv (hno ms)
      | _ => rfl
    rw [hnone]
    rfl

/-- Only the first name of a path is changed at the top. -/
theorem get?_setAt_cons (name : String) (path : List String) (j v : Value) (other : String) :
    (setAt (name :: path) j v).json.get? other =
      if other = name then some (setAt path j ((v.get? name).getD .null)).json
      else v.json.get? other := by
  obtain ⟨ms, hms⟩ := exists_record v
  rw [setAt, get?_put hms, get?_record]

/-- Data with a value at a path is an object. -/
theorem isRecord_setAt (hpath : path ≠ []) (j v : Value) : isRecord (setAt path j v).json := by
  cases path with
  | nil => exact absurd rfl hpath
  | cons name path =>
    obtain ⟨ms, hms⟩ := exists_record v
    obtain ⟨ms', hms'⟩ := exists_put hms name (setAt path j ((v.get? name).getD .null))
    rw [setAt, hms']
    rfl

/-- To follow a path is to follow its first name and then the rest. -/
theorem follow?_cons (data : Json) (name : String) (path : List String) :
    follow? data (name :: path) = (data.get? name).bind (follow? · path) := by
  rw [follow?, List.foldlM_cons]
  rfl

/-- To follow a path is to come to its last name and then to look there. -/
theorem follow?_concat (data : Json) (path : List String) (name : String) :
    follow? data (path ++ [name]) = (follow? data path).bind (·.get? name) := by
  simp [follow?, List.foldlM_append]

/-- A value is found at the path where it was put. -/
theorem follow?_setAt (path : List String) (j v : Value) :
    follow? (setAt path j v).json path = some j.json := by
  induction path generalizing v with
  | nil => rfl
  | cons name path ih => rw [follow?_cons, get?_setAt_cons, if_pos rfl, Option.bind_some, ih]

/-- Neither of two paths leads through the end of the other. -/
def Apart (p q : List String) : Prop := ¬p <+: q ∧ ¬q <+: p

/-- **What stands apart from a path does not depend on the value there.** -/
theorem follow?_setAt_of_apart {p q : List String} (h : Apart p q) (j j' v : Value) :
    follow? (setAt p j v).json q = follow? (setAt p j' v).json q := by
  induction p generalizing q v with
  | nil => exact absurd (List.nil_prefix ..) h.1
  | cons name p ih =>
    cases q with
    | nil => exact absurd (List.nil_prefix ..) h.2
    | cons other q =>
      rw [follow?_cons, follow?_cons, get?_setAt_cons, get?_setAt_cons]
      by_cases hname : other = name
      · subst hname
        have happart : Apart p q := by simpa [Apart, List.cons_prefix_cons] using h
        rw [if_pos rfl, if_pos rfl, Option.bind_some, Option.bind_some, ih happart]
      · rw [if_neg hname, if_neg hname]

/-- To put a member into written members is to write others. -/
theorem setAt_ofJson {ms' : List (String × Json)} {name : String}
    (hms : (ms.map Prod.fst).Nodup) (hms' : (ms'.map Prod.fst).Nodup)
    (h : ∀ other, ((Json.object ms').get? other).map Json.canonical =
      if other = name then some j.json else ((Json.object ms).get? other).map Json.canonical) :
    setAt [name] j (.ofJson (.object ms)) = .ofJson (.object ms') := by
  obtain ⟨ms₀, hms₀⟩ := exists_record (.ofJson (.object ms))
  obtain ⟨ms₁, hms₁⟩ := exists_put hms₀ name j
  have hput : (setAt [name] j (.ofJson (.object ms))).json = .object ms₁ := hms₁
  have hsame : ms₁ = Json.canonicalMembers ms' := by
    refine Json.IsCanonical.object_eq (hput ▸ (setAt [name] j _).canonical)
      (Json.isCanonical_canonical (.object ms')) fun other => ?_
    have hold : (Value.ofJson (.object ms)).json.get? other =
        ((Json.object ms).get? other).map Json.canonical := Json.get?_canonical hms other
    have hnew : (Json.object (Json.canonicalMembers ms')).get? other =
        ((Json.object ms').get? other).map Json.canonical := Json.get?_canonical hms' other
    rw [← hput, get?_setAt_cons, hnew, h, hold, setAt]
  refine Value.ext (hput.trans ?_)
  rw [hsame]
  rfl

/-! ### Parameters at paths -/

/-- **A parameter is the first value on its paths that counts.** -/
theorem Key.find?_eq_paths (k : Key) (data : Json) :
    k.find? data = (k.paths.filterMap (follow? data)).find? k.counts := by
  rw [find?, paths, List.filterMap_flatMap, List.find?_flatMap]
  congr 1
  funext place
  simp only [List.filterMap_map, Function.comp_def, follow?_concat]
  cases follow? data place with
  | none => simp
  | some base => rfl

/-- A path of a parameter leads through a place to one of its names. -/
theorem mem_paths : path ∈ k.paths ↔
    ∃ place ∈ places, ∃ name ∈ k.name :: k.aliases, path = place ++ [name] := by
  simp only [Key.paths, List.mem_flatMap, List.mem_map, eq_comm]

/-- Paths through places to names that are no places are the same or apart. -/
theorem eq_or_apart {place place' : List String} (hplace : place ∈ places)
    (hplace' : place' ∈ places) {name name' : String}
    (hname : name ≠ "config" ∧ name ≠ "parameters")
    (hname' : name' ≠ "config" ∧ name' ≠ "parameters") :
    place ++ [name] = place' ++ [name'] ∨ Apart (place ++ [name]) (place' ++ [name']) := by
  simp only [places, List.mem_cons, List.not_mem_nil, or_false] at hplace hplace'
  by_cases heq : name = name'
  · subst heq
    rcases hplace with rfl | rfl | rfl <;> rcases hplace' with rfl | rfl | rfl <;>
      simp [Apart, List.cons_prefix_cons, hname, hname.1.symm, hname.2.symm]
  · rcases hplace with rfl | rfl | rfl <;> rcases hplace' with rfl | rfl | rfl <;>
      simp [Apart, List.cons_prefix_cons, heq, Ne.symm heq, hname, hname', hname.1.symm,
        hname.2.symm, hname'.1.symm, hname'.2.symm]

/-- Different parameters of a type have no name in common. -/
theorem names_disjoint (t : NodeType) : ∀ k ∈ keys t, ∀ k' ∈ keys t,
    (∃ name ∈ k.name :: k.aliases, name ∈ k'.name :: k'.aliases) → k.name = k'.name := by
  cases t <;> decide

/-- No name of a parameter is one of the label or that of a nested schema. -/
theorem names_not_label (t : NodeType) : ∀ k ∈ keys t, ∀ name ∈ k.name :: k.aliases,
    name ∉ ["schema", "label", "name", "title"] := by
  cases t <;> decide

/-- Paths of parameters are the same only for one parameter, and otherwise apart. -/
theorem paths_apart (hk : k ∈ keys t) (hk' : k' ∈ keys t) {p q : List String} (hp : p ∈ k.paths)
    (hq : q ∈ k'.paths) : (k.name = k'.name ∧ p = q) ∨ Apart p q := by
  obtain ⟨place, hplace, name, hname, rfl⟩ := mem_paths.1 hp
  obtain ⟨place', hplace', name', hname', rfl⟩ := mem_paths.1 hq
  rcases eq_or_apart hplace hplace' (names_not_reserved t k hk name hname).2
    (names_not_reserved t k' hk' name' hname').2 with heq | happart
  · obtain rfl : name = name' := by simpa using congrArg List.getLast? heq
    exact .inl ⟨names_disjoint t k hk k' hk' ⟨name, hname, hname'⟩, heq⟩
  · exact .inr happart

/-- Labels and nested schemas stand apart from parameters. -/
theorem paths_apart_label (hk : k ∈ keys t) {p place : List String} {name : String}
    (hp : p ∈ k.paths) (hplace : place ∈ places)
    (hname : name ∈ ["schema", "label", "name", "title"]) : Apart p (place ++ [name]) := by
  obtain ⟨place', hplace', name', hname', rfl⟩ := mem_paths.1 hp
  have hplaces : name ≠ "config" ∧ name ≠ "parameters" := by
    simp only [List.mem_cons, List.not_mem_nil, or_false] at hname
    rcases hname with rfl | rfl | rfl | rfl <;> decide
  rcases eq_or_apart hplace' hplace (names_not_reserved t k hk name' hname').2 hplaces with
    heq | happart
  · obtain rfl : name' = name := by simpa using congrArg List.getLast? heq
    exact absurd hname (names_not_label t k hk name' hname')
  · exact happart

section

variable (hk : k ∈ keys t) (hpath : path ∈ k.paths) (v : Value)

include hk hpath

/-- A value put on a path of a parameter is found for the parameter, or what is found for it does
not depend on the value. -/
theorem find?_setAt_cases (hcounts : k.counts j.json = k.counts j'.json) :
    k.find? (setAt path j v).json = k.find? (setAt path j' v).json ∨
      (k.find? (setAt path j v).json = some j.json ∧
        k.find? (setAt path j' v).json = some j'.json) := by
  rw [Key.find?_eq_paths, Key.find?_eq_paths]
  refine find?_filterMap_cases (follow?_setAt path j v) (follow?_setAt path j' v) hcounts
    fun q hq => ?_
  rcases paths_apart hk hk hpath hq with ⟨-, rfl⟩ | happart
  · exact .inl rfl
  · exact .inr (follow?_setAt_of_apart happart j j' v)

/-- What is found for other parameters does not depend on the value. -/
theorem find?_setAt_of_ne (hk' : k' ∈ keys t) (hne : k'.name ≠ k.name) :
    k'.find? (setAt path j v).json = k'.find? (setAt path j' v).json := by
  rw [Key.find?_eq_paths, Key.find?_eq_paths]
  refine congrArg _ (List.filterMap_congr fun q hq => ?_)
  rcases paths_apart hk hk' hpath hq with ⟨heq, -⟩ | happart
  · exact absurd heq.symm hne
  · exact follow?_setAt_of_apart happart j j' v

/-- The label does not depend on a value put on a path of a parameter. -/
theorem labelKey_find?_setAt :
    labelKey.find? (setAt path j v).json = labelKey.find? (setAt path j' v).json := by
  rw [Key.find?_eq_paths, Key.find?_eq_paths]
  refine congrArg _ (List.filterMap_congr fun q hq => ?_)
  obtain ⟨place, hplace, name, hname, rfl⟩ := mem_paths.1 hq
  exact follow?_setAt_of_apart
    (paths_apart_label hk hpath hplace (List.mem_cons_of_mem _ hname)) j j' v

/-- A nested schema does not depend on a value put on a path of a parameter. -/
theorem get?_schema_setAt :
    (setAt path j v).json.get? "schema" = (setAt path j' v).json.get? "schema" := by
  have hplace : [] ∈ places := List.mem_cons_self ..
  have happart : Apart path ["schema"] := paths_apart_label hk hpath hplace (List.mem_cons_self ..)
  simpa [follow?_cons, follow?] using follow?_setAt_of_apart happart j j' v

end

/-- A path of a parameter has at least its last name. -/
theorem ne_nil_of_mem_paths (hpath : path ∈ k.paths) : path ≠ [] := by
  obtain ⟨place, -, name, -, rfl⟩ := mem_paths.1 hpath
  simp

/-- What two nodes are found to hold, the same but for the value of one parameter. -/
structure Alike (t : NodeType) (k : Key) (j j' : Json) (data data' : Json) : Prop where
  here : k.find? data = some j
  here' : k.find? data' = some j'
  elsewhere : ∀ k' ∈ keys t, k'.name ≠ k.name → k'.find? data = k'.find? data'

/-- **Values that come to the same parameters come to the same node**, at whatever path of whatever
data they stand. -/
theorem nodeBody_setAt {typeName : String} (ht : NodeType.ofName? typeName = some t) (id : String)
    (hk : k ∈ keys t) (hpath : path ∈ k.paths) (v : Value)
    (hcounts : k.counts j.json = k.counts j'.json)
    (hparameters : ∀ data data', Alike t k j.json j'.json data data' →
      parameters id typeName t data = parameters id typeName t data') :
    nodeBody id typeName (setAt path j v) = nodeBody id typeName (setAt path j' v) := by
  have hne := ne_nil_of_mem_paths hpath
  have hlabel : labelKey.find? (setAt path j v).json = labelKey.find? (setAt path j' v).json :=
    labelKey_find?_setAt hk hpath v
  have helsewhere : ∀ k' ∈ keys t, k'.name ≠ k.name →
      k'.find? (setAt path j v).json = k'.find? (setAt path j' v).json := fun k' hk' hname =>
    find?_setAt_of_ne hk hpath v hk' hname
  rcases find?_setAt_cases hk hpath v hcounts with hsame | ⟨hj, hj'⟩
  · refine nodeBody_congr ht id (isRecord_setAt hne j v) (isRecord_setAt hne j' v) hlabel
      (fun k' hk' => ?_) (get?_schema_setAt hk hpath v)
    by_cases hname : k'.name = k.name
    · rwa [List.inj_on_of_nodup_map (nodup_keys t) hk' hk hname]
    · exact helsewhere k' hk' hname
  · have hname : Payload.label t (setAt path j v).json =
        Payload.label t (setAt path j' v).json := by
      simp only [Payload.label, hlabel]
    simp only [nodeBody, ht, isRecord_setAt hne, hname, hparameters _ _ ⟨hj, hj', helsewhere⟩]

end Payload
end MappingCanvas
