/-
# Operations are read again

An object shows an operation (`Payload.Shows`) when a reader finds each of its parameters as it was
written.  Such an object is read as the operation, whichever it is (`Shows.decodeBody`): what was
left out is what the default of its parameter stands for.

Data in which the parameters of a transform are found comes to show them, so it is read as the
transform (`nodeBody_of_found`); the data of stored configurations is of this kind
(`nodeBody_configured`).
-/

import MappingCanvas.Proofs.Canvas.Parameters
import MappingCanvas.Proofs.Schema.Document

namespace MappingCanvas

/-! ### Names and lists -/

/-- A node type is recovered from its name. -/
theorem NodeType.ofName?_name (t : NodeType) : NodeType.ofName? t.name = some t := by
  cases t <;> rfl

/-- A comparison is recovered from its name. -/
theorem Comparison.ofName?_name (c : Comparison) : Comparison.ofName? c.name = some c := by
  cases c <;> rfl

/-- A text operation is recovered from its name. -/
theorem TextOperation.ofName?_name (o : TextOperation) : TextOperation.ofName? o.name = some o := by
  cases o <;> rfl

/-- The type name of a transform is that of its operation. -/
theorem Node.Body.typeName_transform (label : String) (o : Operation) :
    (transform label o).typeName = o.nodeType.name := by
  cases o <;> rfl

/-- A constant is read back from the canonical form of what is written for it. -/
theorem Constant.decode_canonical (c : Constant) (mode : Reading) :
    Constant.decode mode c.toJson.canonical = .ok c := by
  have h := Value.tidy_ofJson [("id", .string c.id), ("value", c.value.json)]
  have hget : ∀ name, c.toJson.canonical.get? name = (c.toJson.get? name).map Json.canonical :=
    Json.get?_canonical (by simp)
  have hid : (Form.defaulted "id" "" .text).decode mode c.toJson.canonical = .ok c.id :=
    Form.decode_defaulted_of_get? h (hget "id") rfl
  have hvalue : (Form.defaulted "value" Value.null .value).decode mode c.toJson.canonical =
      .ok c.value := by
    refine Form.decode_defaulted_of_get? h (hget "value") ?_
    rw [c.value.canonical_json]
    exact Decoder.value_json c.value mode
  exact (Form.decode_map ..).trans (congrArg _ (Form.decode_and h (by simp) hid hvalue))

/-- A candidate is read back from the canonical form of what is written for it; its older field name
is never written. -/
theorem Candidate.decode_canonical (c : Candidate) (mode : Reading) :
    Candidate.decode mode c.toJson.canonical = .ok c := by
  have h := Value.tidy_ofJson
    (("sourceField", .string c.sourceField) :: Json.member? "condition" (c.condition.map .string))
  have hget : ∀ name, c.toJson.canonical.get? name = (c.toJson.get? name).map Json.canonical :=
    Json.get?_canonical (by cases c.condition <;> simp [Json.member?])
  have hnames : c.toJson.get? "sourceField" = some (.string c.sourceField) ∧
      c.toJson.get? "field" = none ∧
      c.toJson.get? "condition" = c.condition.map .string := by
    obtain ⟨field, condition⟩ := c
    cases condition <;> exact ⟨rfl, rfl, rfl⟩
  obtain ⟨hsource, hother, hcondition⟩ := hnames
  have hfield : (Form.member "sourceField" ["field"] (some "") .text).decode mode
      c.toJson.canonical = .ok c.sourceField := by
    have hsource := (hget "sourceField").trans (congrArg _ hsource)
    have hother := (hget "field").trans (congrArg _ hother)
    refine (Form.decode_member h _ _ _ (List.forall_mem_singleton.2 hother)).trans ?_
    exact hsource ▸ rfl
  have hcondition : (Form.optional "condition" .text).decode mode c.toJson.canonical =
      .ok c.condition := by
    have hget := (hget "condition").trans (congrArg _ hcondition)
    have hsame : (c.condition.map Json.string).map Json.canonical = c.condition.map .string := by
      rw [Option.map_map]
      rfl
    exact Form.decode_optional h (hget.trans hsame) (by simp) fun _ => rfl
  exact (Form.decode_map ..).trans (congrArg _ (Form.decode_and h (by simp) hfield hcondition))

namespace Payload

/-! ### Operations read again -/

/-- An object shows the parameters of an operation: a reader finds each of them as it was
written. -/
structure Shows (ms : List (String × Json)) (o : Operation) : Prop where
  tidy : Json.Tidy ms
  found : ∀ k ∈ keys o.nodeType, (Json.object ms).get? k.name = k.written? o

variable {ms : List (String × Json)} {mode : Reading} {k : Key} {o : Operation}

/-- A parameter whose written value always counts is found exactly when it was written. -/
theorem get?_of_written? {α : Type} {write : α → Json} {a : Option α}
    (h : (Json.object ms).get? k.name = k.written? o)
    (hm : (Json.object o.members).get? k.name = a.map write)
    (hw : ∀ a, (write a).canonical = write a ∧ k.counts (write a)) :
    (Json.object ms).get? k.name = a.map write := by
  rw [h, Key.written?, hm]
  cases a with
  | none => rfl
  | some a =>
    obtain ⟨hcanonical, hcounts⟩ := hw a
    simp only [Option.map_some, hcanonical]
    rw [Option.filter_some_pos hcounts]

/-- A parameter that is any value is found as it was written, unless it is null. -/
theorem get?_of_written?_value {v : Value} (h : (Json.object ms).get? k.name = k.written? o)
    (hm : (Json.object o.members).get? k.name = some v.json) (hk : k.skipsEmpty = false) :
    (Json.object ms).get? k.name = (some v.json).filter fun j => !j.isNull := by
  have hcounts : k.counts = fun j => !j.isNull := by
    funext j
    simp [Key.counts, hk]
  rw [h, Key.written?, hm, hcounts, Option.map_some, v.canonical_json]

/-- A number that was written is found, and none where there was none. -/
theorem get?_of_written?_nat {n : Option Nat} (h : (Json.object ms).get? k.name = k.written? o)
    (hm : (Json.object o.members).get? k.name = n.map .nat) :
    (Json.object ms).get? k.name = n.map .nat :=
  get?_of_written? h hm fun _ => ⟨rfl, by simp [Key.counts, isEmpty, Json.isNull, Json.nat]⟩

/-- A list that was written is found, unless it is empty and empty ones do not count. -/
theorem get?_of_written?_list {α : Type} {write : α → Json} {l : List α}
    (h : (Json.object ms).get? k.name = k.written? o)
    (hm : (Json.object o.members).get? k.name = some (.array (l.map write)))
    (hk : k.skipsEmpty = false ∨ l ≠ []) :
    (Json.object ms).get? k.name = some (.array (l.map fun a => (write a).canonical)) := by
  have hcounts : k.counts (.array ((l.map write).map Json.canonical)) := by
    rcases hk with hk | hk <;> simp [Key.counts, hk, isEmpty, Json.isNull]
  rw [h, Key.written?, hm, Option.map_some, Json.canonical, Json.canonicalItems_eq_map,
    Option.filter_some_pos hcounts, List.map_map]
  rfl

/-- A text that was written is found. -/
theorem get?_of_written?_string {text : String} (h : (Json.object ms).get? k.name = k.written? o)
    (hm : (Json.object o.members).get? k.name = some (.string text)) :
    (Json.object ms).get? k.name = some (.string text) :=
  get?_of_written? (a := some text) h hm fun _ => ⟨rfl, by simp [Key.counts, isEmpty, Json.isNull]⟩

/-- A conditional is read back from data that shows it: a null value is the default of its three
values. -/
theorem Shows.decode_conditional {p : Conditional} (h : Shows ms (.conditional p)) :
    Conditional.decode mode (.object ms) = .ok p := by
  obtain ⟨h, hfound⟩ := h
  simp only [Operation.nodeType, keys, List.forall_mem_cons] at hfound
  obtain ⟨hoperator, hcompare, hthen, helse, -⟩ := hfound
  have hoperator : (Form.defaulted "operator" Comparison.equals Comparison.decode).decode mode
      (.object ms) = .ok p.operator :=
    Form.decode_defaulted_of_get? h (get?_of_written?_string hoperator rfl)
      (Decoder.choice_string p.operator.ofName?_name mode)
  have hcompare : (Form.defaulted "compareValue" Value.null .value).decode mode (.object ms) =
      .ok p.compareValue :=
    Form.decode_defaulted_null h (get?_of_written?_value hcompare rfl rfl)
  have hthen : (Form.defaulted "thenValue" Value.null .value).decode mode (.object ms) =
      .ok p.thenValue :=
    Form.decode_defaulted_null h (get?_of_written?_value hthen rfl rfl)
  have helse : (Form.defaulted "elseValue" Value.null .value).decode mode (.object ms) =
      .ok p.elseValue :=
    Form.decode_defaulted_null h (get?_of_written?_value helse rfl rfl)
  rw [Conditional.decode, Form.decode_map, Form.decode_and h (by simp) hoperator
    (Form.decode_and h (by simp) hcompare (Form.decode_and h (by simp) hthen helse))]
  rfl

/-- A text change is read back from data that shows it, with its bounds or without. -/
theorem Shows.decode_text {p : TextChange} (h : Shows ms (.text p)) :
    TextChange.decode mode (.object ms) = .ok p := by
  obtain ⟨h, hfound⟩ := h
  simp only [Operation.nodeType, keys, List.forall_mem_cons] at hfound
  obtain ⟨hoperation, hstart, hend, -⟩ := hfound
  have hoperation : (Form.defaulted "stringOperation" TextOperation.none
      (.choice TextOperation.ofName?)).decode mode (.object ms) = .ok p.operation :=
    Form.decode_defaulted_of_get? h (get?_of_written?_string hoperation rfl)
      (Decoder.choice_string p.operation.ofName?_name mode)
  have hstart : (Form.optional "start" .nat).decode mode (.object ms) = .ok p.start := by
    refine Form.decode_optional h (get?_of_written?_nat hstart ?_) (by simp [Json.nat]) fun n =>
      Decoder.nat_nat n mode
    obtain ⟨_, start, stop⟩ := p
    cases start <;> cases stop <;> rfl
  have hend : (Form.optional "end" .nat).decode mode (.object ms) = .ok p.stop := by
    refine Form.decode_optional h (get?_of_written?_nat hend ?_) (by simp [Json.nat]) fun n =>
      Decoder.nat_nat n mode
    obtain ⟨_, start, stop⟩ := p
    cases start <;> cases stop <;> rfl
  rw [TextChange.decode, Form.decode_map,
    Form.decode_and h (by simp) hoperation (Form.decode_and h (by simp) hstart hend)]
  rfl

/-- A split is read back from data that shows it. -/
theorem Shows.decode_split {p : Split} (h : Shows ms (.split p)) :
    Split.decode mode (.object ms) = .ok p := by
  obtain ⟨h, hfound⟩ := h
  simp only [Operation.nodeType, keys, List.forall_mem_cons] at hfound
  obtain ⟨hdelimiter, hindex, -⟩ := hfound
  have hdelimiter : (Form.defaulted "delimiter" "," .text).decode mode (.object ms) =
      .ok p.delimiter :=
    Form.decode_defaulted_of_get? h (get?_of_written?_string hdelimiter rfl) rfl
  have hindex : (Form.defaulted "index" 0 .nat).decode mode (.object ms) = .ok p.index :=
    Form.decode_defaulted_of_get? h (get?_of_written?_nat (n := some p.index) hindex rfl)
      (Decoder.nat_nat p.index mode)
  rw [Split.decode, Form.decode_map, Form.decode_and h (by simp) hdelimiter hindex]
  rfl

/-- A concatenation is read back from data that shows it, also with no source field. -/
theorem Shows.decode_concat {p : Concat} (h : Shows ms (.concat p)) :
    Concat.decode mode (.object ms) = .ok p := by
  obtain ⟨h, hfound⟩ := h
  simp only [Operation.nodeType, keys, List.forall_mem_cons] at hfound
  obtain ⟨hfields, hseparator, -⟩ := hfound
  have hfields : (Form.defaulted "sourceFields" [] (.list .text)).decode mode (.object ms) =
      .ok p.sourceFields :=
    Form.decode_defaulted_of_get? h (get?_of_written?_list hfields rfl (.inl rfl))
      (Decoder.list_map fun _ _ => rfl)
  have hseparator : (Form.defaulted "separator" " " .text).decode mode (.object ms) =
      .ok p.separator :=
    Form.decode_defaulted_of_get? h (get?_of_written?_string hseparator rfl) rfl
  rw [Concat.decode, Form.decode_map, Form.decode_and h (by simp) hfields hseparator]
  rfl

/-- A date change is read back from data that shows it, with an input format or without. -/
theorem Shows.decode_date {p : DateChange} (h : Shows ms (.date p)) :
    DateChange.decode mode (.object ms) = .ok p := by
  obtain ⟨h, hfound⟩ := h
  simp only [Operation.nodeType, keys, List.forall_mem_cons] at hfound
  obtain ⟨hinput, houtput, -⟩ := hfound
  have hget : (Json.object ms).get? "inputFormat" = p.inputFormat.map .string := by
    refine get?_of_written? hinput ?_ fun _ => ⟨rfl, rfl⟩
    obtain ⟨input, _⟩ := p
    cases input <;> rfl
  have hinput : (Form.optional "inputFormat" .text).decode mode (.object ms) =
      .ok p.inputFormat :=
    Form.decode_optional h hget (by simp) fun _ => rfl
  have houtput : (Form.defaulted "outputFormat" "" .text).decode mode (.object ms) =
      .ok p.outputFormat := by
    refine Form.decode_defaulted_of_get? h (get?_of_written?_string houtput ?_) rfl
    obtain ⟨input, _⟩ := p
    cases input <;> rfl
  rw [DateChange.decode, Form.decode_map, Form.decode_and h (by simp) hinput houtput]
  rfl

/-- Constants are read back from data that shows them. -/
theorem Shows.decode_constants {values : List Constant} (h : Shows ms (.constants values)) :
    Constant.decodeAll mode (.object ms) = .ok values := by
  obtain ⟨h, hfound⟩ := h
  simp only [Operation.nodeType, keys, List.forall_mem_cons] at hfound
  exact Form.decode_defaulted_of_get? h (get?_of_written?_list hfound.1 rfl (.inl rfl))
    (Decoder.list_map fun c _ => c.decode_canonical mode)

/-- A coalesce is read back from data that shows it: where empty candidates do not count, none are
found, and none is the default. -/
theorem Shows.decode_coalesce {p : Coalesce} (h : Shows ms (.coalesce p)) :
    Coalesce.decode mode (.object ms) = .ok p := by
  obtain ⟨h, hfound⟩ := h
  simp only [Operation.nodeType, keys, List.forall_mem_cons] at hfound
  obtain ⟨hrules, hdefault, htype, -⟩ := hfound
  have hrules : (Form.defaulted "rules" [] (.list Candidate.decode)).decode mode (.object ms) =
      .ok p.candidates := by
    cases hnil : p.candidates with
    | nil =>
      have hnone : (Json.object ms).get? "rules" = none := by
        refine hrules.trans ?_
        simp only [Key.written?, Operation.members, hnil]
        rfl
      rw [Form.decode_defaulted h, hnone]
    | cons c cs =>
      exact hnil ▸ Form.decode_defaulted_of_get? h
        (get?_of_written?_list hrules rfl (.inr (by simp [hnil])))
        (Decoder.list_map fun c _ => c.decode_canonical mode)
  have hdefault : (Form.defaulted "defaultValue" Value.null .value).decode mode (.object ms) =
      .ok p.defaultValue :=
    Form.decode_defaulted_null h (get?_of_written?_value hdefault rfl rfl)
  have htype : (Form.defaulted "outputType" DataType.string DataType.decode).decode mode
      (.object ms) = .ok p.outputType :=
    Form.decode_defaulted_of_get? h (get?_of_written?_string htype rfl)
      (Decoder.choice_string p.outputType.ofName?_name mode)
  rw [Coalesce.decode, Form.decode_map,
    Form.decode_and h (by simp) hrules (Form.decode_and h (by simp) hdefault htype)]
  rfl

/-- **What shows the parameters of an operation is read as the operation.** -/
theorem Shows.decodeBody (h : Shows ms o) (label : String) {v : Value} (hv : v.json = .object ms) :
    decodeBody label v o.nodeType = .ok (.transform label o) := by
  cases o with
  | passThrough => rfl
  | constants values =>
    simp only [Payload.decodeBody, Operation.nodeType, Decoder.ofValue, hv, h.decode_constants]
    rfl
  | conditional p =>
    simp only [Payload.decodeBody, Operation.nodeType, Decoder.ofValue, hv, h.decode_conditional]
    rfl
  | text p =>
    simp only [Payload.decodeBody, Operation.nodeType, Decoder.ofValue, hv, h.decode_text]
    rfl
  | split p =>
    simp only [Payload.decodeBody, Operation.nodeType, Decoder.ofValue, hv, h.decode_split]
    rfl
  | concat p =>
    simp only [Payload.decodeBody, Operation.nodeType, Decoder.ofValue, hv, h.decode_concat]
    rfl
  | date p =>
    simp only [Payload.decodeBody, Operation.nodeType, Decoder.ofValue, hv, h.decode_date]
    rfl
  | coalesce p =>
    simp only [Payload.decodeBody, Operation.nodeType, Decoder.ofValue, hv, h.decode_coalesce]
    rfl

/-! ### The data of a node -/

/-- The canonical form of what was found shows what was written. -/
theorem shows_of_found {found : List (String × Json)} (hnodup : (found.map Prod.fst).Nodup)
    (hfound : ∀ k ∈ keys o.nodeType, (Json.object found).get? k.name = k.written? o) :
    Shows (Json.canonicalMembers found) o where
  tidy := Value.tidy_ofJson found
  found k hk := by
    have hget := Json.get?_canonical hnodup k.name
    rw [hfound k hk, Key.canonical_written?] at hget
    exact hget

/-- To set a parameter repeats no name. -/
theorem nodup_withValue {found : List (String × Json)} (h : (found.map Prod.fst).Nodup)
    (name : String) (j : Json) : ((withValue found name j).map Prod.fst).Nodup := by
  rw [withValue, List.map_append, List.nodup_append]
  refine ⟨(List.filter_sublist.map Prod.fst).nodup h, List.nodup_singleton name, ?_⟩
  rintro _ hm _ hname rfl
  obtain ⟨m, hm, rfl⟩ := List.mem_map.1 hm
  simp_all

/-- It still does when a parameter is set to the value that was found for it. -/
theorem shows_withValue {found : List (String × Json)} (hnodup : (found.map Prod.fst).Nodup)
    (hfound : ∀ k ∈ keys o.nodeType, (Json.object found).get? k.name = k.written? o)
    {name : String} {j : Json} (hj : (Json.object found).get? name = some j) :
    Shows (Json.canonicalMembers (withValue found name j)) o :=
  shows_of_found (nodup_withValue hnodup name j) fun k hk =>
    (get?_withValue hj k.name).trans (hfound k hk)

/-- **The parameters read from data in which they are found are those that were written.** -/
theorem exists_parameters {data : Json} (nodeId typeName : String)
    (hfind : ∀ k ∈ keys o.nodeType, k.find? data = k.inPlace? o.parameters.json) :
    ∃ v ms, parameters nodeId typeName o.nodeType data = .ok v ∧ v.json = .object ms ∧
      Shows ms o := by
  have hnodup : ((current (keys o.nodeType) data).map Prod.fst).Nodup :=
    (names_current _ data).nodup (nodup_keys _)
  have hfound := fun k hk => get?_found (k := k) hfind hk
  cases o with
  | constants values =>
    have hvalues : value? (current (keys .constants) data) "values" =
        some (.array (Json.canonicalItems (values.map Constant.toJson))) :=
      hfound (key "values" ["staticValues", "value"]) (List.mem_singleton_self _)
    refine ⟨.ofJson (.object _), _, ?_, rfl, shows_withValue hnodup hfound hvalues⟩
    simp only [parameters, Operation.nodeType, hvalues, constantList]
    rfl
  | coalesce p =>
    have hrules : value? (current (keys .coalesce) data) "rules" =
        (some (Json.array (Json.canonicalItems (p.candidates.map Candidate.toJson)))).filter
          fun j => !isEmpty j :=
      hfound (collection "rules" ["fields", "sources"]) (List.mem_cons_self ..)
    cases hnil : p.candidates with
    | nil =>
      rw [hnil] at hrules
      refine ⟨.ofJson (.object _), _, ?_, rfl, shows_of_found hnodup hfound⟩
      simp only [parameters, Operation.nodeType]
      rw [hrules]
      rfl
    | cons c cs =>
      rw [Option.filter_some_pos (by simp [hnil, Json.canonicalItems, isEmpty]),
        Json.canonicalItems_eq_map, List.map_map] at hrules
      refine ⟨.ofJson (.object _), _, ?_, rfl, shows_withValue hnodup hfound hrules⟩
      have hsame : (p.candidates.map (Json.canonical ∘ Candidate.toJson)).map candidate =
          p.candidates.map (Json.canonical ∘ Candidate.toJson) := by
        rw [List.map_map]
        rfl
      simp only [parameters, Operation.nodeType]
      rw [hrules]
      simp only [hsame]
      rfl
  | _ => exact ⟨_, _, rfl, rfl, shows_of_found hnodup hfound⟩

/-- **Data with the label and the parameters of a transform is read as the transform.** -/
theorem nodeBody_of_found (id label : String) {data : Value} (hrecord : isRecord data.json)
    (hlabel : labelKey.find? data.json = some (.string label))
    (hfind : ∀ k ∈ keys o.nodeType, k.find? data.json = k.inPlace? o.parameters.json) :
    nodeBody id (Node.Body.transform label o).typeName data = .ok (.transform label o) := by
  obtain ⟨v, ms, hparameters, hv, hshows⟩ := exists_parameters id o.nodeType.name hfind
  have hname : Payload.label o.nodeType data.json = label := by
    simp only [Payload.label, hlabel]
    rfl
  rw [Node.Body.typeName_transform, nodeBody, o.nodeType.ofName?_name]
  simp only [hrecord, hparameters, hname, Bool.not_true, Bool.false_eq_true, if_false]
  exact congrArg (Except.mapError _) (hshows.decodeBody label hv)

/-! ### Stored configurations -/

/-- Data with the label at the top and all else in `config`. -/
def inConfig (label : String) (config : Value) : Value :=
  .ofJson (.object [("label", .string label), ("config", config.json)])

/-- A stored configuration is a `config` with the parameters inside. -/
theorem configured_eq (label : String) (p : Value) :
    configured label p = inConfig label (.ofJson (.object [("parameters", p.json)])) := by
  simp [configured, inConfig, Value.ofJson, Json.canonical, Json.canonicalMembers,
    Ordered.insertNew, Json.canonical_canonical]

/-- In such data nothing but the label and `config` is found at the top. -/
theorem get?_inConfig (label : String) (config : Value) (name : String) :
    (inConfig label config).json.get? name =
      (Json.object [("label", .string label), ("config", config.json)]).get? name := by
  refine (Json.get?_canonical (by simp) name).trans ?_
  simp only [Json.get?_cons]
  split
  · rfl
  · split
    · exact congrArg some config.canonical_json
    · rfl

/-- No name of a parameter is one that a stored configuration uses itself. -/
theorem names_not_reserved (t : NodeType) :
    ∀ k ∈ keys t, ∀ name ∈ k.name :: k.aliases,
      name ≠ "label" ∧ name ≠ "config" ∧ name ≠ "parameters" := by
  cases t <;> decide

/-- With the label alone at the top, parameters are found in `config` or else in the `parameters`
there. -/
theorem find?_inConfig {t : NodeType} (label : String) (config : Value) (hk : k ∈ keys t) :
    k.find? (inConfig label config).json =
      (k.inPlace? config.json).or ((config.json.get? "parameters").bind k.inPlace?) := by
  have htop : k.inPlace? (inConfig label config).json = none := by
    refine Key.inPlace?_eq_none fun name hname => ?_
    obtain ⟨hlabel, hconfig, -⟩ := names_not_reserved t k hk name hname
    rw [get?_inConfig]
    simp [Json.get?, Ne.symm hlabel, Ne.symm hconfig]
  have hconfig : (inConfig label config).json.get? "config" = some config.json := by
    rw [get?_inConfig]
    rfl
  simp only [Key.find?, places, follow?, List.findSome?_cons, List.findSome?_nil, List.foldlM_nil,
    List.foldlM_cons, Option.pure_def, Option.bind_eq_bind, Option.bind_some, htop, hconfig]
  cases k.inPlace? config.json with
  | some j => rfl
  | none => cases config.json.get? "parameters" with
    | none => rfl
    | some p => cases hp : k.inPlace? p <;> simp [hp]

/-- In a stored configuration the parameters are found where they are kept. -/
theorem find?_configured {t : NodeType} (label : String) (p : Value) (hk : k ∈ keys t) :
    k.find? (configured label p).json = k.inPlace? p.json := by
  have hget (name : String) : (Value.ofJson (.object [("parameters", p.json)])).json.get? name =
      (Json.object [("parameters", p.json)]).get? name := by
    refine (Json.get?_canonical (by simp) name).trans ?_
    rw [Json.get?_cons]
    split
    · exact congrArg some p.canonical_json
    · rfl
  have hmiddle : k.inPlace? (Value.ofJson (.object [("parameters", p.json)])).json = none := by
    refine Key.inPlace?_eq_none fun name hname => ?_
    rw [hget]
    simp [Json.get?, Ne.symm (names_not_reserved t k hk name hname).2.2]
  rw [configured_eq, find?_inConfig label _ hk, hmiddle, hget]
  rfl

/-- The label beside a `config` is found at the top. -/
theorem labelKey_find?_inConfig (label : String) (config : Value) :
    labelKey.find? (inConfig label config).json = some (.string label) := by
  refine Key.find?_of_top ?_ rfl
  rw [get?_inConfig]
  rfl

theorem labelKey_find?_configured (label : String) (p : Value) :
    labelKey.find? (configured label p).json = some (.string label) := by
  rw [configured_eq, labelKey_find?_inConfig]

/-- **A transform is read back from its stored configuration.** -/
theorem nodeBody_configured (id label : String) (o : Operation) :
    nodeBody id (Node.Body.transform label o).typeName (configured label o.parameters) =
      .ok (.transform label o) :=
  nodeBody_of_found id label rfl (labelKey_find?_configured label _) fun _ hk =>
    find?_configured label _ hk

end Payload
end MappingCanvas
