/-
# The layouts of node data are alike

Parameters may stand at the top of the data, in `config`, or in the `parameters` there.  What is
read depends on the label and on what is found of each parameter (`nodeBody_congr`), and the same
parameters are found in each of the three places as long as none of them is called like a place.
So the three layouts are read as the same node, or refused with the same error
(`nodeBody_layouts`).

What counts at the top is found there before anything else is looked at (`Key.find?_of_top`).  So
where all parameters of a type stand at the top, a copy left behind in `config` is never seen,
whatever it is.
-/

import MappingCanvas.Proofs.Canvas.Payloads

namespace MappingCanvas
namespace Payload

variable {t : NodeType} {k : Key} {label : String} {data data' : Json} {p v : Value}
  {ms : List (String × Json)}

/-! ### What reading depends on -/

/-- **Data in which the same is found is read alike.** -/
theorem nodeBody_congr {typeName : String} (ht : NodeType.ofName? typeName = some t) (id : String)
    {v' : Value} (hv : isRecord v.json) (hv' : isRecord v'.json)
    (hlabel : labelKey.find? v.json = labelKey.find? v'.json)
    (hfind : ∀ k ∈ keys t, k.find? v.json = k.find? v'.json)
    (hschema : v.json.get? "schema" = v'.json.get? "schema") :
    nodeBody id typeName v = nodeBody id typeName v' := by
  have hcurrent : current (keys t) v.json = current (keys t) v'.json :=
    List.filterMap_congr fun k hk => by rw [hfind k hk]
  have hfields : follow? v.json ["schema", "fields"] = follow? v'.json ["schema", "fields"] := by
    rw [follow?, follow?, List.foldlM_cons, List.foldlM_cons, hschema]
  have hparameters : parameters id typeName t v.json = parameters id typeName t v'.json := by
    simp only [parameters, hcurrent, hfields]
  have hname : Payload.label t v.json = Payload.label t v'.json := by
    simp only [Payload.label, hlabel]
  simp only [nodeBody, ht, hv, hv', hparameters, hname]

/-- What is found in one place depends on the names of the parameter alone. -/
theorem Key.inPlace?_congr (h : ∀ name ∈ k.name :: k.aliases, data.get? name = data'.get? name) :
    k.inPlace? data = k.inPlace? data' := by
  rw [inPlace?, inPlace?, List.filterMap_congr h]

/-! ### Members put into objects -/

/-- An object with a member put in. -/
def put (v : Value) (name : String) (j : Value) : Value :=
  match v.json with
  | .object ms => .ofJson (.object (ms ++ [(name, j.json)]))
  | _ => v

/-- An object with a member put in is an object. -/
theorem exists_put (hv : v.json = .object ms) (name : String) (j : Value) :
    ∃ ms', (put v name j).json = .object ms' := by
  simp only [put, hv]
  exact ⟨_, rfl⟩

/-- **A member put in is found, and the others are found as before.** -/
theorem get?_put (hv : v.json = .object ms) (name : String) (j : Value) (other : String) :
    (put v name j).json.get? other = if other = name then some j.json else v.json.get? other := by
  have hold : (Json.object ms.reverse).get? other = (Json.object ms).get? other := by
    rw [Json.get?, Ordered.find?_reverse_of_nodup
      (Json.tidy_of_isCanonical (hv ▸ v.canonical)).nodup, Json.get?]
  have hcanonical :
      ((Json.object ms).get? other).map Json.canonical = (Json.object ms).get? other := by
    rw [← Json.get?_canonical (Json.tidy_of_isCanonical (hv ▸ v.canonical)).nodup, ← hv,
      v.canonical_json]
  simp only [put, hv]
  rw [Value.ofJson, Json.get?_canonical_reverse, List.reverse_append, List.reverse_singleton,
    List.singleton_append, Json.get?_cons, hold]
  by_cases hother : other = name
  · simp [hother, j.canonical_json]
  · simp [hother, Ne.symm hother, hcanonical]

/-! ### The three layouts -/

/-- Data with the label and the parameters at the top. -/
def atTop (label : String) (p : Value) : Value := put p "label" (.string label)

/-- An object of parameters in which no name is one that a layout uses itself. -/
structure Unplaced (p : Value) : Prop where
  object : ∃ ms, p.json = .object ms
  free : ∀ name ∈ ["label", "config", "parameters", "schema"], p.json.get? name = none

/-- The parameters whose empty collections do not count. -/
def collectionNames : List String := ["fields", "sampleData", "table", "rules"]

/-- Each parameter of a type stands under its own name, with a value that counts. -/
def Complete (t : NodeType) (p : Value) : Prop :=
  ∀ k ∈ keys t, ∃ j, p.json.get? k.name = some j ∧ j.isNull = false ∧
    (k.name ∈ collectionNames → isEmpty j = false)

/-- The parameters whose empty collections do not count are the same ones by name, for every
type. -/
theorem skipsEmpty_iff (t : NodeType) :
    ∀ k ∈ keys t, k.skipsEmpty = true ↔ k.name ∈ collectionNames := by
  cases t <;> decide

/-- In complete parameters a value that counts stands under the own name of each. -/
theorem Complete.exists_counts (h : Complete t p) (hk : k ∈ keys t) :
    ∃ j, p.json.get? k.name = some j ∧ k.counts j := by
  obtain ⟨j, hget, hnull, hempty⟩ := h k hk
  refine ⟨j, hget, ?_⟩
  by_cases hskips : k.skipsEmpty = true
  · simp [Key.counts, hnull, hempty ((skipsEmpty_iff t k hk).1 hskips)]
  · simp [Key.counts, hnull, hskips]

namespace Unplaced

variable (hp : Unplaced p)

include hp

/-- At the top stand the label and, beside it, the parameters. -/
theorem get?_atTop (label name : String) :
    (atTop label p).json.get? name =
      if name = "label" then some (.string label) else p.json.get? name := by
  obtain ⟨ms, hms⟩ := hp.object
  exact get?_put hms "label" _ name

/-- Parameters at the top bring no `config` along. -/
theorem get?_config_atTop (label : String) : (atTop label p).json.get? "config" = none :=
  (hp.get?_atTop label "config").trans (hp.free "config" (by decide))

/-- Parameters at the top bring no nested schema along. -/
theorem get?_schema_atTop (label : String) : (atTop label p).json.get? "schema" = none :=
  (hp.get?_atTop label "schema").trans (hp.free "schema" (by decide))

/-- The label at the top is found, under its own name. -/
theorem labelKey_find?_atTop (label : String) :
    labelKey.find? (atTop label p).json = some (.string label) :=
  Key.find?_of_top (hp.get?_atTop label "label") rfl

/-- At the top the parameters are found where they are. -/
theorem find?_atTop (label : String) (hk : k ∈ keys t) :
    k.find? (atTop label p).json = k.inPlace? p.json := by
  rw [Key.find?_eq_inPlace? (hp.get?_config_atTop label)]
  refine Key.inPlace?_congr fun name hname => ?_
  rw [hp.get?_atTop, if_neg (names_not_reserved t k hk name hname).1]

/-- In `config` the parameters are found where they are. -/
theorem find?_inConfig (label : String) (hk : k ∈ keys t) :
    k.find? (inConfig label p).json = k.inPlace? p.json := by
  rw [Payload.find?_inConfig label p hk, hp.free "parameters" (by decide), Option.bind_none,
    Option.or_none]

/-- Parameters at the top make an object. -/
theorem exists_atTop (label : String) : ∃ ms, (atTop label p).json = .object ms := by
  obtain ⟨ms, hms⟩ := hp.object
  exact exists_put hms "label" (.string label)

/-- What stands beside the parameters in `config` leaves the other members as they are. -/
theorem get?_putConfig (label : String) (config : Value) {name : String} (hname : name ≠ "config") :
    (put (atTop label p) "config" config).json.get? name = (atTop label p).json.get? name := by
  obtain ⟨ms, hms⟩ := hp.exists_atTop label
  rw [get?_put hms, if_neg hname]

/-- **A parameter that counts at the top is found there, whatever `config` holds.** -/
theorem find?_putConfig (label : String) (config : Value) (hk : k ∈ keys t) {j : Json}
    (hget : p.json.get? k.name = some j) (hj : k.counts j) :
    k.find? (put (atTop label p) "config" config).json = some j := by
  obtain ⟨hlabel, hconfig, -⟩ := names_not_reserved t k hk k.name (List.mem_cons_self ..)
  refine Key.find?_of_top ?_ hj
  rw [hp.get?_putConfig label config hconfig, hp.get?_atTop, if_neg hlabel, hget]

end Unplaced

/-- Data in the oldest layout is read like data in the one of stored configurations. -/
theorem nodeBody_atTop {typeName : String} (ht : NodeType.ofName? typeName = some t)
    (id label : String) (hp : Unplaced p) :
    nodeBody id typeName (atTop label p) = nodeBody id typeName (configured label p) := by
  obtain ⟨ms, hms⟩ := hp.exists_atTop label
  refine nodeBody_congr ht id (by rw [hms]; rfl) rfl ?_ (fun k hk => ?_) ?_
  · rw [hp.labelKey_find?_atTop, labelKey_find?_configured]
  · rw [hp.find?_atTop label hk, find?_configured label p hk]
  · rw [hp.get?_schema_atTop, configured_eq, get?_inConfig]
    rfl

/-- Data with its parameters in `config` is read like data in the layout of stored
configurations. -/
theorem nodeBody_inConfig {typeName : String} (ht : NodeType.ofName? typeName = some t)
    (id label : String) (hp : Unplaced p) :
    nodeBody id typeName (inConfig label p) = nodeBody id typeName (configured label p) := by
  refine nodeBody_congr ht id rfl rfl ?_ (fun k hk => ?_) ?_
  · rw [labelKey_find?_inConfig, labelKey_find?_configured]
  · rw [hp.find?_inConfig label hk, find?_configured label p hk]
  · rw [configured_eq, get?_inConfig, get?_inConfig]
    rfl

/-- Where all parameters stand at the top, `config` is not looked at. -/
theorem nodeBody_putConfig {typeName : String} (ht : NodeType.ofName? typeName = some t)
    (id label : String) (hp : Unplaced p) (hcomplete : Complete t p) (config : Value) :
    nodeBody id typeName (put (atTop label p) "config" config) =
      nodeBody id typeName (atTop label p) := by
  obtain ⟨ms, hms⟩ := hp.exists_atTop label
  obtain ⟨ms', hms'⟩ := exists_put hms "config" config
  refine nodeBody_congr ht id (by rw [hms']; rfl) (by rw [hms]; rfl) ?_ (fun k hk => ?_) ?_
  · rw [hp.labelKey_find?_atTop]
    refine Key.find?_of_top ?_ rfl
    exact (hp.get?_putConfig label config (by decide)).trans (hp.get?_atTop label "label")
  · obtain ⟨j, hget, hj⟩ := hcomplete.exists_counts hk
    rw [hp.find?_putConfig label config hk hget hj, hp.find?_atTop label hk]
    exact (Key.inPlace?_of_counts hget hj).symm
  · exact hp.get?_putConfig label config (by decide)

/-- **The three layouts are read alike, and a stale copy is never seen.**  The same parameters at
the top, in `config`, or in the `parameters` there come to the same node or the same error.  Where
each parameter stands at the top with a value that counts, a `config` beside them, whatever it is,
changes nothing. -/
theorem nodeBody_layouts {typeName : String} (ht : NodeType.ofName? typeName = some t)
    (id label : String) (hp : Unplaced p) :
    nodeBody id typeName (atTop label p) = nodeBody id typeName (inConfig label p) ∧
    nodeBody id typeName (inConfig label p) = nodeBody id typeName (configured label p) ∧
    (Complete t p → ∀ config : Value,
      nodeBody id typeName (put (atTop label p) "config" config) =
        nodeBody id typeName (atTop label p)) := by
  have htop := nodeBody_atTop ht id label hp
  have hconfig := nodeBody_inConfig ht id label hp
  exact ⟨htop.trans hconfig.symm, hconfig, nodeBody_putConfig ht id label hp⟩

/-- The parameters of a split, the index as a text. -/
def splitParameters : Value :=
  .ofJson (.object [("delimiter", .string "-"), ("index", .string "2")])

/-- Other parameters of a split, as an older layout left them behind. -/
def staleParameters : Value :=
  .ofJson (.object [("parameters", .object [("separator", .string ";"), ("part", .nat 7)])])

/-- The sample parameters have no name that a layout uses. -/
theorem unplaced_splitParameters : Unplaced splitParameters where
  object := ⟨_, rfl⟩
  free := by decide +kernel

/-- Both parameters of a split are there, with values that count. -/
theorem complete_splitParameters : Complete .split splitParameters := by
  refine List.forall_mem_cons.2 ⟨⟨.string "-", rfl, rfl, ?_⟩,
    List.forall_mem_singleton.2 ⟨.string "2", rfl, rfl, ?_⟩⟩
  · decide
  · decide

/-- A split comes out the same from all three layouts, and with a stale copy beside it. -/
theorem nodeBody_layouts_split :
    NodeType.ofName? "split" = some .split ∧ Unplaced splitParameters ∧
      Complete .split splitParameters ∧
      ∀ data ∈ [atTop "Part" splitParameters, inConfig "Part" splitParameters,
          configured "Part" splitParameters,
          put (atTop "Part" splitParameters) "config" staleParameters],
        nodeBody "n" "split" data = .ok (.transform "Part" (.split ⟨"-", 2⟩)) := by
  have hname : NodeType.ofName? "split" = some .split := rfl
  obtain ⟨htop, hconfig, hstale⟩ := nodeBody_layouts hname "n" "Part" unplaced_splitParameters
  have hread : nodeBody "n" "split" (configured "Part" splitParameters) =
      .ok (.transform "Part" (.split ⟨"-", 2⟩)) := rfl
  have hread' := hconfig.trans hread
  have hread'' := htop.trans hread'
  refine ⟨hname, unplaced_splitParameters, complete_splitParameters, ?_⟩
  simp only [List.forall_mem_cons]
  exact ⟨hread'', hread', hread,
    (hstale complete_splitParameters staleParameters).trans hread'', by simp⟩

end Payload
end MappingCanvas
