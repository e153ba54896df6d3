/-
# Node data is read again

The data of a node is written flat (`Payload.Flat`): its label and its parameters stand at the top,
each once and under its current name.  A reader who looks for a parameter in all places and under
all names finds what was written, unless it counts as missing (`Flat.find?_eq`), and then it is what
stands for a missing one.  So flat data is read as the node that wrote it, whatever its kind
(`nodeBody_nodeData`), and nothing that was understood once is ever read differently.
-/

import MappingCanvas.Proofs.Canvas.Decoded
import MappingCanvas.Proofs.Canvas.Operations
import MappingCanvas.Proofs.Json.Reads

namespace MappingCanvas
namespace Payload

/-- Node data in the current layout: the label and parameters of the type, each at most once. -/
structure Flat (t : NodeType) (label : String) (ms : List (String × Json)) : Prop where
  nodup : (ms.map Prod.fst).Nodup
  names : ∀ m ∈ ms, m.1 = "label" ∨ m.1 ∈ (keys t).map Key.name
  label : (Json.object ms).get? "label" = some (.string label)

variable {t : NodeType} {label : String} {ms : List (String × Json)} {k : Key} {mode : Reading}

/-! ### Finding what was written -/

/-- No parameter is called like an older name of the label or a place of parameters. -/
theorem reserved_not_mem_keys (t : NodeType) :
    ∀ name ∈ ["name", "title", "config", "schema"], name ∉ (keys t).map Key.name := by
  cases t <;> decide

/-- Flat data has nothing but the label and the parameters of its type. -/
theorem Flat.get?_eq_none (h : Flat t label ms) {name : String} (hlabel : name ≠ "label")
    (hname : name ∉ (keys t).map Key.name) : (Json.object ms).canonical.get? name = none := by
  rw [Json.get?_canonical h.nodup, Option.map_eq_none_iff, Json.get?_eq_none]
  rintro m hm rfl
  exact (h.names m hm).elim hlabel hname

/-- Flat data has no `config`. -/
theorem Flat.config_eq_none (h : Flat t label ms) :
    (Json.object ms).canonical.get? "config" = none :=
  h.get?_eq_none (by decide) (reserved_not_mem_keys t _ (by decide))

/-- Where there is no `config`, only the top is looked at. -/
theorem Key.find?_eq_inPlace? {data : Json} (h : data.get? "config" = none) :
    k.find? data = k.inPlace? data := by
  simp only [find?, places, follow?, List.findSome?_cons, List.findSome?_nil, List.foldlM_nil,
    List.foldlM_cons, Option.pure_def, Option.bind_eq_bind, Option.bind_some, h, Option.bind_none]
  cases k.inPlace? data <;> rfl

/-- **Every parameter is found as it was written, if it counts.** -/
theorem Flat.find?_eq (h : Flat t label ms) (hk : k ∈ keys t) :
    k.find? (Json.object ms).canonical =
      (((Json.object ms).get? k.name).map Json.canonical).filter k.counts := by
  have haliases : ∀ other ∈ k.aliases, (Json.object ms).canonical.get? other = none :=
    fun other ho => h.get?_eq_none
      (names_not_reserved t k hk other (List.mem_cons_of_mem _ ho)).1
      (aliases_not_mem_keys t k hk other ho)
  rw [Key.find?_eq_inPlace? h.config_eq_none, Key.inPlace?_eq haliases,
    Json.get?_canonical h.nodup]

/-- The label of flat data is found, since no older name of it is there. -/
theorem Flat.labelKey_find? (h : Flat t label ms) :
    labelKey.find? (Json.object ms).canonical = some (.string label) := by
  have haliases : ∀ other ∈ labelKey.aliases, (Json.object ms).canonical.get? other = none := by
    refine List.forall_mem_cons.2 ⟨?_, List.forall_mem_singleton.2 ?_⟩
    · exact h.get?_eq_none (by decide) (reserved_not_mem_keys t _ (by decide))
    · exact h.get?_eq_none (by decide) (reserved_not_mem_keys t _ (by decide))
  rw [Key.find?_eq_inPlace? h.config_eq_none, Key.inPlace?_eq haliases,
    Json.get?_canonical h.nodup, labelKey, key, h.label]
  rfl

/-- The label of flat data is the label of the node. -/
theorem Flat.label_eq (h : Flat t label ms) :
    Payload.label t (Json.object ms).canonical = label := by
  simp only [Payload.label, h.labelKey_find?]
  rfl

/-- What is found of flat data. -/
theorem Flat.get?_current (h : Flat t label ms) (hk : k ∈ keys t) (hnum : k.name ∉ numericNames) :
    (Json.object (current (keys t) (Json.object ms).canonical)).get? k.name =
      (((Json.object ms).get? k.name).map Json.canonical).filter k.counts := by
  have hcoerce (j : Json) : coerce k.name j = j := by
    cases j <;> simp [coerce, hnum]
  rw [Payload.get?_current (nodup_keys t) _ hk, h.find?_eq hk]
  cases (((Json.object ms).get? k.name).map Json.canonical).filter k.counts with
  | none => rfl
  | some j => rw [Option.map_some, hcoerce]

/-- What is found has no label of its own. -/
theorem get?_current_label (t : NodeType) (data : Json) :
    (Json.object (current (keys t) data)).get? "label" = none := by
  refine Json.get?_eq_none.2 fun m hm heq => ?_
  obtain ⟨k, hk, hname⟩ := List.mem_map.1 ((names_current _ data).subset (List.mem_map_of_mem hm))
  exact (names_not_reserved t k hk k.name (List.mem_cons_self ..)).1 (hname.trans heq)

/-- Flat data is read as what its parameters are decoded to. -/
theorem Flat.nodeBody_eq (h : Flat t label ms) {id : String} {v : Value} {b : Node.Body}
    (hparameters : parameters id t.name t (Json.object ms).canonical = .ok v)
    (hbody : decodeBody label v t = .ok b) : nodeBody id t.name (.ofJson (.object ms)) = .ok b := by
  have hrecord : isRecord (Json.object ms).canonical = true := rfl
  rw [nodeBody, t.ofName?_name]
  simp only [Value.ofJson, hrecord, hparameters, h.label_eq, Bool.not_true, Bool.false_eq_true,
    if_false]
  exact congrArg (Except.mapError _) hbody

/-! ### Transforms -/

/-- The data of a transform is flat. -/
theorem flat_transform (label : String) (o : Operation) :
    Flat o.nodeType label (o.members ++ [("label", .string label)]) := by
  have hfresh : ∀ m ∈ o.members, m.1 ≠ "label" := fun m hm heq => by
    obtain ⟨k, hk, hname⟩ := List.mem_map.1 ((names_members o).subset (List.mem_map_of_mem hm))
    exact (names_not_reserved _ k hk k.name (List.mem_cons_self ..)).1 (hname.trans heq)
  refine ⟨?_, fun m hm => ?_, ?_⟩
  · rw [List.map_append, List.nodup_append]
    refine ⟨(names_members o).nodup (nodup_keys _), List.nodup_singleton _, ?_⟩
    intro name hname other hother heq
    obtain ⟨m, hm, rfl⟩ := List.mem_map.1 hname
    exact hfresh m hm (heq.trans (List.mem_singleton.1 hother))
  · rcases List.mem_append.1 hm with hm | hm
    · exact .inr ((names_members o).subset (List.mem_map_of_mem hm))
    · obtain rfl := List.mem_singleton.1 hm
      exact .inl rfl
  · have hnone : o.members.find? (fun m => m.1 == "label") = none :=
      List.find?_eq_none.2 fun m hm => by simpa using hfresh m hm
    rw [Json.get?, List.find?_append, hnone]
    rfl

/-- **The data of a transform is read as the transform.** -/
theorem nodeBody_transform (id label : String) (o : Operation) :
    nodeBody id (Node.Body.transform label o).typeName (nodeData (.transform label o)) =
      .ok (.transform label o) := by
  have hflat := flat_transform label o
  refine nodeBody_of_found id label rfl hflat.labelKey_find? fun k hk => ?_
  have hname := (names_not_reserved _ k hk k.name (List.mem_cons_self ..)).1
  have hget : (Json.object (o.members ++ [("label", .string label)])).get? k.name =
      (Json.object o.members).get? k.name := by
    rw [Json.get?, Json.get?, List.find?_append, List.find?_singleton,
      if_neg (by simpa using hname.symm), Option.or_none]
  rw [Key.inPlace?_parameters hk, Key.written?, ← hget]
  exact hflat.find?_eq hk

/-! ### Lookups -/

/-- The data of a lookup is flat, with or without its source field. -/
theorem flat_lookup (l : Lookup) : Flat .lookup l.label (lookupMembers l) := by
  refine ⟨?_, ?_, rfl⟩
  · unfold lookupMembers
    cases l.sourceField <;> simp [Json.member?]
  · unfold lookupMembers
    cases l.sourceField <;> simp [Json.member?, keys, collection, key]

/-- A table is written in canonical form, its keys being in order. -/
theorem isCanonical_tableToJson (table : Table) : (tableToJson table).IsCanonical :=
  Json.isCanonical_texts table.ascending

/-- A table is written as it is kept. -/
theorem canonical_tableToJson (table : Table) :
    (tableToJson table).canonical = tableToJson table :=
  Json.canonical_of_isCanonical _ (isCanonical_tableToJson table)

/-- A table is recognised in what is written for it. -/
theorem table?_tableToJson (table : Table) : table? (tableToJson table) = some table := by
  simp [table?, tableToJson, List.map_map, Function.comp_def, cellText]

/-- A table is decoded from what is written for it. -/
theorem table_tableToJson (table : Table) (mode : Reading) :
    Decoder.table mode (tableToJson table) = .ok table :=
  (Decoder.reads_table table).eq_ok (Json.isTidy_of_isCanonical _ (isCanonical_tableToJson table))
    mode

/-- What is found of the table of a lookup. -/
theorem value?_table (l : Lookup) :
    value? (current (keys .lookup) (nodeData (.lookup l)).json) "table" =
      if l.table.entries.isEmpty then none else some (tableToJson l.table) := by
  have hfound := (flat_lookup l).get?_current
    (k := collection "table" ["mappings", "mapping", "lookup"]) (List.mem_cons_self ..) (by decide)
  have hget : (Json.object (lookupMembers l)).get? "table" = some (tableToJson l.table) := rfl
  refine hfound.trans ?_
  rw [collection, hget, Option.map_some, canonical_tableToJson]
  simp [Option.filter, Key.counts, isEmpty, tableToJson, Json.isNull]

/-- What is found of the source field of a lookup. -/
theorem value?_sourceField (l : Lookup) :
    value? (current (keys .lookup) (nodeData (.lookup l)).json) "sourceField" =
      l.sourceField.map .string := by
  have hfound := (flat_lookup l).get?_current (k := key "sourceField" ["source_field", "field"])
    (List.mem_cons_of_mem _ (List.mem_cons_self ..)) (by decide)
  have hget : (Json.object (lookupMembers l)).get? "sourceField" = l.sourceField.map .string := by
    unfold lookupMembers
    cases l.sourceField <;> rfl
  refine hfound.trans ?_
  rw [key, hget]
  cases l.sourceField <;> rfl

/-- The parameters read from the data of a lookup are those that are found in it. -/
theorem exists_parameters_lookup (nodeId typeName : String) (l : Lookup) :
    ∃ v ms, parameters nodeId typeName .lookup (nodeData (.lookup l)).json = .ok v ∧
      v.json = .object ms ∧ Json.Tidy ms ∧ ∀ name, (Json.object ms).get? name =
        (value? (current (keys .lookup) (nodeData (.lookup l)).json) name).map Json.canonical := by
  have hvalue := value?_table l
  have hnodup : ((current (keys .lookup) (nodeData (.lookup l)).json).map Prod.fst).Nodup :=
    (names_current _ _).nodup (nodup_keys _)
  cases hempty : l.table.entries.isEmpty with
  | true =>
    rw [hempty, if_pos rfl] at hvalue
    refine ⟨.ofJson (.object _), _, ?_, rfl, Value.tidy_ofJson _, Json.get?_canonical hnodup⟩
    simp only [parameters, hvalue]
    rfl
  | false =>
    rw [hempty, if_neg (by simp)] at hvalue
    refine ⟨.ofJson (.object _), _, ?_, rfl, Value.tidy_ofJson _, fun name =>
      (Json.get?_canonical (nodup_withValue hnodup "table" (tableToJson l.table)) name).trans
        (congrArg (Option.map _) (get?_withValue hvalue name))⟩
    simp only [parameters, hvalue, table?_tableToJson]
    rfl

/-- **The data of a lookup is read as the lookup.** -/
theorem nodeBody_lookup (id : String) (l : Lookup) :
    nodeBody id NodeType.lookup.name (nodeData (.lookup l)) = .ok (.lookup l) := by
  obtain ⟨v, ms, hparameters, hv, h, hget⟩ := exists_parameters_lookup id NodeType.lookup.name l
  have hlabel : (Form.defaulted "label" "" .text).decode .held (.object ms) = .ok "" := by
    rw [Form.decode_defaulted h, hget, value?, get?_current_label]
    rfl
  have htable : (Form.defaulted "table" Table.empty .table).decode .held (.object ms) =
      .ok l.table := by
    rw [Form.decode_defaulted h, hget, value?_table]
    obtain ⟨label, ⟨entries, ascending⟩, sourceField⟩ := l
    cases entries with
    | nil => rfl
    | cons e es =>
      simp only [List.isEmpty_cons, Bool.false_eq_true, if_false, Option.map_some,
        canonical_tableToJson]
      exact table_tableToJson _ _
  have hsource : (Form.optional "sourceField" .text).decode .held (.object ms) =
      .ok l.sourceField := by
    have hwritten : (Json.object ms).get? "sourceField" = l.sourceField.map .string := by
      rw [hget, value?_sourceField, Option.map_map]
      rfl
    exact Form.decode_optional h hwritten (by simp) fun _ => rfl
  have hform : lookupForm.decode .held (.object ms) = .ok { l with label := "" } :=
    Form.decode_map_of_eq
      (Form.decode_and h (by simp) hlabel (Form.decode_and h (by simp) htable hsource)) rfl
  refine (flat_lookup l).nodeBody_eq hparameters ?_
  rw [decodeBody, Decoder.ofValue, hv, hform]
  rfl

/-! ### Schemas -/

/-- The data of a schema is flat; samples and expanded handles are left out when there are none. -/
theorem flat_schema {t : NodeType} (ht : t = .source ∨ t = .target) (s : Schema) :
    Flat t s.label (schemaMembers s) := by
  have hkeys : (keys t).map Key.name = ["fields", "sampleData", "expandedFields"] := by
    rcases ht with rfl | rfl <;> rfl
  refine ⟨?_, ?_, rfl⟩
  · unfold schemaMembers
    cases s.samples.isEmpty <;> cases s.expanded.toList.isEmpty <;> simp [Json.member?]
  · rw [hkeys]
    unfold schemaMembers
    cases s.samples.isEmpty <;> cases s.expanded.toList.isEmpty <;> simp [Json.member?]

section

variable (ht : t = .source ∨ t = .target) (s : Schema)

include ht

/-- What is found of the fields of a schema. -/
theorem value?_fields :
    value? (current (keys t) (Json.object (schemaMembers s)).canonical) "fields" =
      if s.fields.isEmpty then none
      else some (.array (s.fields.map fun f => f.toJson.canonical)) := by
  have hfound := (flat_schema ht s).get?_current (k := collection "fields" [])
    (by rcases ht with rfl | rfl <;> exact List.mem_cons_self ..) (by decide)
  have hget : (Json.object (schemaMembers s)).get? "fields" =
      some (.array (s.fields.map Field.toJson)) := by
    rw [← Field.forestToJson_eq_map]
    rfl
  refine hfound.trans ?_
  rw [collection, hget, Option.map_some, Json.canonical, Json.canonicalItems_eq_map, List.map_map]
  simp [Option.filter, Key.counts, isEmpty, Json.isNull, Function.comp_def]

/-- What is found of the samples of a schema. -/
theorem value?_samples :
    value? (current (keys t) (Json.object (schemaMembers s)).canonical) "sampleData" =
      if s.samples.isEmpty then none else some (.array (s.samples.map Value.json)) := by
  have hfound := (flat_schema ht s).get?_current
    (k := collection "sampleData" ["outputData", "sample_data"])
    (by rcases ht with rfl | rfl <;> simp [keys]) (by decide)
  have hget : (Json.object (schemaMembers s)).get? "sampleData" =
      if s.samples.isEmpty then none else some (.array (s.samples.map Value.json)) := by
    unfold schemaMembers
    cases s.samples.isEmpty <;> cases s.expanded.toList.isEmpty <;> rfl
  refine hfound.trans ?_
  rw [collection, hget]
  cases hempty : s.samples.isEmpty with
  | true => rfl
  | false =>
    simp only [Bool.false_eq_true, if_false, Option.map_some, Json.canonical,
      Json.canonicalItems_eq_map, List.map_map, Function.comp_def, Value.canonical_json]
    exact Option.filter_some_pos (by simpa [Key.counts, isEmpty, Json.isNull] using hempty)

/-- What is found of the expanded paths of a schema. -/
theorem value?_expanded :
    value? (current (keys t) (Json.object (schemaMembers s)).canonical) "expandedFields" =
      if s.expanded.toList.isEmpty then none else some (.strings s.expanded.toList) := by
  have hfound := (flat_schema ht s).get?_current (k := key "expandedFields" ["expanded"])
    (by rcases ht with rfl | rfl <;> simp [keys]) (by decide)
  have hget : (Json.object (schemaMembers s)).get? "expandedFields" =
      if s.expanded.toList.isEmpty then none else some (.strings s.expanded.toList) := by
    unfold schemaMembers
    cases s.samples.isEmpty <;> cases s.expanded.toList.isEmpty <;> rfl
  refine hfound.trans ?_
  rw [key, hget]
  cases s.expanded.toList.isEmpty with
  | true => rfl
  | false =>
    simp only [Bool.false_eq_true, if_false, Option.map_some, Json.strings, Json.canonical,
      Json.canonicalItems_eq_map, List.map_map]
    exact Option.filter_some_pos rfl

/-- The parameters read from the data of a schema are those that are found in it: it has no nested
schema, so there is nothing beside them. -/
theorem exists_parameters_schema (nodeId typeName : String) :
    ∃ v ms, parameters nodeId typeName t (Json.object (schemaMembers s)).canonical = .ok v ∧
      v.json = .object ms ∧ Json.Tidy ms ∧ ∀ name, (Json.object ms).get? name =
        (value? (current (keys t) (Json.object (schemaMembers s)).canonical) name).map
          Json.canonical := by
  have hnodup : ((current (keys t) (Json.object (schemaMembers s)).canonical).map Prod.fst).Nodup :=
    (names_current _ _).nodup (nodup_keys _)
  have hschema : follow? (Json.object (schemaMembers s)).canonical ["schema", "fields"] = none := by
    have hnone := (flat_schema ht s).get?_eq_none (by decide)
      (reserved_not_mem_keys t "schema" (by decide))
    rw [follow?, List.foldlM_cons, hnone]
    rfl
  refine ⟨.ofJson (.object _), _, ?_, rfl, Value.tidy_ofJson _, Json.get?_canonical hnodup⟩
  rcases ht with rfl | rfl
  · simp only [parameters, hschema]
    cases value? (current (keys .source) (Json.object (schemaMembers s)).canonical) "fields" <;> rfl
  · simp only [parameters, hschema]
    cases value? (current (keys .target) (Json.object (schemaMembers s)).canonical) "fields" <;> rfl

/-- The parameters of a schema are decoded to it, but for the label. -/
theorem decode_schemaForm {ms : List (String × Json)} (h : Json.Tidy ms)
    (hget : ∀ name, (Json.object ms).get? name =
      (value? (current (keys t) (Json.object (schemaMembers s)).canonical) name).map
        Json.canonical) : schemaForm.decode mode (.object ms) = .ok { s with label := "" } := by
  have hnone : ∀ name, name ∉ (keys t).map Key.name → (Json.object ms).get? name = none := by
    intro name hname
    rw [hget, Option.map_eq_none_iff, value?, Json.get?_eq_none]
    rintro m hm rfl
    exact hname ((names_current _ _).subset (List.mem_map_of_mem hm))
  have hlabel : (Form.defaulted "label" "" .text).decode mode (.object ms) = .ok "" := by
    rw [Form.decode_defaulted h, hnone "label" (by rcases ht with rfl | rfl <;> decide)]
  have hfields : (Form.defaulted "fields" [] (.list Field.decode)).decode mode (.object ms) =
      .ok s.fields := by
    have hwritten : (Json.object ms).get? "fields" = if s.fields.isEmpty then none
        else some (.array (s.fields.map fun f => f.toJson.canonical)) := by
      rw [hget, value?_fields ht]
      cases s.fields.isEmpty with
      | true => rfl
      | false =>
        simp only [Bool.false_eq_true, if_false, Option.map_some, Json.canonical,
          Json.canonicalItems_eq_map, List.map_map, Function.comp_def, Json.canonical_canonical]
    exact Form.decode_member_list h (by simp) hwritten fun f _ => f.decode_canonical mode
  have hsamples : (Form.member "sampleData" ["outputData"] (some []) (.list .value)).decode mode
      (.object ms) = .ok s.samples := by
    have hwritten : (Json.object ms).get? "sampleData" = if s.samples.isEmpty then none
        else some (.array (s.samples.map Value.json)) := by
      rw [hget, value?_samples ht]
      cases s.samples.isEmpty with
      | true => rfl
      | false =>
        simp only [Bool.false_eq_true, if_false, Option.map_some, Json.canonical,
          Json.canonicalItems_eq_map, List.map_map, Function.comp_def, Value.canonical_json]
    refine Form.decode_member_list h ?_ hwritten fun v _ => Decoder.value_json v mode
    exact List.forall_mem_singleton.2
      (hnone "outputData" (by rcases ht with rfl | rfl <;> decide))
  have hexpanded : (Form.defaulted "expandedFields" TextSet.empty .textSet).decode mode
      (.object ms) = .ok s.expanded := by
    rw [Form.decode_defaulted h, hget, value?_expanded ht]
    cases hempty : s.expanded.toList with
    | nil =>
      rw [← s.expanded.ofList_toList, hempty]
      rfl
    | cons text texts =>
      have hcanonical : (Json.strings (text :: texts)).canonical = .strings (text :: texts) := by
        rw [Json.strings, Json.canonical, Json.canonicalItems_eq_map, List.map_map]
        rfl
      simp only [List.isEmpty_cons, Bool.false_eq_true, if_false, Option.map_some, hcanonical]
      rw [← hempty]
      exact Decoder.textSet_strings s.expanded mode
  exact Form.decode_map_of_eq (Form.decode_and h (by simp) hlabel
    (Form.decode_and h (by simp) hfields (Form.decode_and h (by simp) hsamples hexpanded))) rfl

end

/-- **The data of a source is read as the source.** -/
theorem nodeBody_source (id : String) (s : Schema) :
    nodeBody id NodeType.source.name (nodeData (.source s)) = .ok (.source s) := by
  obtain ⟨v, ms, hparameters, hv, h, hget⟩ :=
    exists_parameters_schema (.inl rfl) s id NodeType.source.name
  refine (flat_schema (.inl rfl) s).nodeBody_eq hparameters ?_
  rw [decodeBody, Decoder.ofValue, hv, decode_schemaForm (.inl rfl) s h hget]
  rfl

/-- **The data of a target is read as the target.** -/
theorem nodeBody_target (id : String) (s : Schema) :
    nodeBody id NodeType.target.name (nodeData (.target s)) = .ok (.target s) := by
  obtain ⟨v, ms, hparameters, hv, h, hget⟩ :=
    exists_parameters_schema (.inr rfl) s id NodeType.target.name
  refine (flat_schema (.inr rfl) s).nodeBody_eq hparameters ?_
  rw [decodeBody, Decoder.ofValue, hv, decode_schemaForm (.inr rfl) s h hget]
  rfl

/-! ### Nodes -/

/-- **The data of a node is read as the node.** -/
theorem nodeBody_nodeData (id : String) {n : Node} (h : n.Genuine) :
    nodeBody id n.body.typeName (nodeData n.body) = .ok n.body := by
  obtain ⟨nodeId, position, body⟩ := n
  cases body with
  | source s => exact nodeBody_source id s
  | target s => exact nodeBody_target id s
  | lookup l => exact nodeBody_lookup id l
  | transform label o => exact nodeBody_transform id label o
  | unknown typeName data =>
    rw [Node.Body.typeName, nodeBody, h typeName data rfl]
    rfl

end Payload
end MappingCanvas
