/-
# Collections in their older shapes

The table of a lookup may be an object or a list of pairs, whose sides have one of two sets of names
(`sideNames`); the constants of a node may be an object or a list of entries; and a candidate may be
a bare name.  Wherever such a collection stands in the data of a node, it is read like the one in
the current shape, as both come to the same parameters (`nodeBody_collections`).

Keys may be repeated among pairs, and then the last one counts in either shape (`LastPair`): an
object keeps the last of several members with one name, and so does a table.  A cell that is no text
stands for its JSON text, `null` among them.
-/

import MappingCanvas.Proofs.Canvas.Paths

namespace MappingCanvas
namespace Payload

variable {t : NodeType} {k : Key} {path : List String} {j j' m : Value} {data data' : Json}
  {ms : List (String × Json)} {typeName : String}

/-! ### What is read of data that is alike -/

namespace Alike

/-- Of data that is alike the value in question is read as it stands; only numeric parameters are
read otherwise. -/
theorem value?_eq (h : Alike t k j.json j'.json data data') (hk : k ∈ keys t)
    (hnum : k.name ∉ numericNames) :
    value? (current (keys t) data) k.name = some j.json ∧
      value? (current (keys t) data') k.name = some j'.json := by
  have hcoerce (j : Json) : coerce k.name j = j := by
    cases j <;> simp [coerce, hnum]
  rw [value?, value?, get?_current (nodup_keys t) _ hk, get?_current (nodup_keys t) _ hk, h.here,
    h.here', Option.map_some, Option.map_some, hcoerce, hcoerce]
  exact ⟨rfl, rfl⟩

/-- Beside the value nothing differs. -/
theorem withValue_eq (h : Alike t k j.json j'.json data data') (x : Json) :
    withValue (current (keys t) data) k.name x = withValue (current (keys t) data') k.name x := by
  have hrest : (current (keys t) data).filter (fun m => m.1 != k.name) =
      (current (keys t) data').filter fun m => m.1 != k.name := by
    rw [current, current, List.filter_filterMap, List.filter_filterMap]
    refine List.filterMap_congr fun k' hk' => ?_
    by_cases hname : k'.name = k.name
    · have hnone (o : Option Json) : (o.map fun j => (k'.name, coerce k'.name j)).filter
          (fun m => m.1 != k.name) = none := by
        cases o with
        | none => rfl
        | some j => exact Option.filter_some_neg (by simp [hname])
      rw [hnone, hnone]
    · rw [h.elsewhere k' hk' hname]
  rw [withValue, withValue, hrest]

end Alike

/-- Lookups whose tables have the same texts have the same parameters. -/
theorem parameters_lookup_eq (h : Alike .lookup k j.json j'.json data data') (hk : k ∈ keys .lookup)
    (hname : k.name = "table") (htable : table? j.json = table? j'.json) (id typeName : String) :
    parameters id typeName .lookup data = parameters id typeName .lookup data' := by
  obtain ⟨hj, hj'⟩ := h.value?_eq hk (by rw [hname]; decide)
  have hwith := h.withValue_eq
  rw [hname] at hj hj' hwith
  simp only [parameters, hj, hj', htable]
  cases table? j'.json with
  | none => rfl
  | some table => simp only [hwith]

/-- Constants whose lists are the same have the same parameters. -/
theorem parameters_constants_eq (h : Alike .constants k j.json j'.json data data')
    (hk : k ∈ keys .constants) (hname : k.name = "values")
    (hlist : constantList (some j.json) = constantList (some j'.json)) (id typeName : String) :
    parameters id typeName .constants data = parameters id typeName .constants data' := by
  obtain ⟨hj, hj'⟩ := h.value?_eq hk (by rw [hname]; decide)
  have hwith := h.withValue_eq
  rw [hname] at hj hj' hwith
  simp only [parameters, hj, hj', hlist, hwith]

/-- Candidates that are read alike make the same parameters. -/
theorem parameters_coalesce_eq {rules rules' : List Json}
    (h : Alike .coalesce k j.json j'.json data data') (hk : k ∈ keys .coalesce)
    (hname : k.name = "rules") (hrules : j.json = .array rules) (hrules' : j'.json = .array rules')
    (hlist : rules.map candidate = rules'.map candidate) (id typeName : String) :
    parameters id typeName .coalesce data = parameters id typeName .coalesce data' := by
  obtain ⟨hj, hj'⟩ := h.value?_eq hk (by rw [hname]; decide)
  have hwith := h.withValue_eq
  rw [hname] at hj hj' hwith
  rw [hrules] at hj
  rw [hrules'] at hj'
  simp only [parameters, hj, hj', hlist, hwith]

/-! ### Tables -/

/-- Pairs as objects with a name for each side. -/
def pairList (fromName toName : String) (pairs : List (Value × Value)) : Value :=
  .ofJson (.array (pairs.map fun p => .object [(fromName, p.1.json), (toName, p.2.json)]))

/-- Pairs as the members of an object. -/
def pairObject (pairs : List (Value × Value)) : Value :=
  .object (pairs.map fun p => (cellText p.1.json, p.2))

/-- The texts of a pair. -/
def pairTexts (p : Value × Value) : String × String := (cellText p.1.json, cellText p.2.json)

/-- The names under which the sides of a pair may stand. -/
def sideNames : List (String × String) := [("from", "to"), ("source", "target")]

variable {pairs : List (Value × Value)} {names : String × String}

/-- An object that names both sides is a pair of their texts. -/
theorem pair?_object (hnames : names ∈ sideNames) (p : Value × Value) :
    pair? (Json.object [(names.1, p.1.json), (names.2, p.2.json)]).canonical =
      some (pairTexts p) := by
  have hget (name : String) :
      (Json.object [(names.1, p.1.json), (names.2, p.2.json)]).canonical.get? name =
        if names.1 == name then some p.1.json
        else if names.2 == name then some p.2.json else none := by
    rw [Json.get?_canonical, Json.get?_cons, Json.get?_cons]
    · split
      · rw [Option.map_some, p.1.canonical_json]
      · split
        · rw [Option.map_some, p.2.canonical_json]
        · rfl
    · rcases List.mem_pair.1 hnames with rfl | rfl <;> simp
  rw [pair?, hget, hget, hget, hget]
  rcases List.mem_pair.1 hnames with rfl | rfl <;> rfl

/-- A list of pairs is written as an array of objects. -/
theorem json_pairList (fromName toName : String) (pairs : List (Value × Value)) :
    (pairList fromName toName pairs).json = .array (pairs.map fun p =>
      (Json.object [(fromName, p.1.json), (toName, p.2.json)]).canonical) := by
  change (Json.array _).canonical = _
  rw [Json.canonical, Json.canonicalItems_eq_map, List.map_map]
  rfl

/-- Pairs as an object are the members by their texts, the last of each text, in order. -/
theorem json_pairObject (pairs : List (Value × Value)) :
    (pairObject pairs).json =
      .object (Ordered.ofEntries Prod.fst (pairs.map fun p => (cellText p.1.json, p.2.json))) := by
  change (Json.object _).canonical = _
  rw [Json.canonical, Json.canonicalMembers_eq_ofEntries, List.map_map, List.map_map]
  simp only [Function.comp_def, Value.canonical_json]

/-- **A list of pairs is the table of their texts**, under either names. -/
theorem table?_pairList (hnames : names ∈ sideNames) (pairs : List (Value × Value)) :
    table? (pairList names.1 names.2 pairs).json = some (.ofList (pairs.map pairTexts)) := by
  have hpairs : (pairs.map fun p =>
      (Json.object [(names.1, p.1.json), (names.2, p.2.json)]).canonical).mapM pair? =
        some (pairs.map pairTexts) := by
    rw [mapM_eq_some_iff, List.forall₂_map_left_iff, List.forall₂_map_right_iff, List.forall₂_same]
    exact fun p _ => pair?_object hnames p
  rw [json_pairList, table?, hpairs]
  rfl

/-- **The members of an object are the same table.** -/
theorem table?_pairObject (pairs : List (Value × Value)) :
    table? (pairObject pairs).json = some (.ofList (pairs.map pairTexts)) := by
  let cell (m : String × Json) : String × String := (m.1, cellText m.2)
  let members := pairs.map fun p => (cellText p.1.json, p.2.json)
  have hmap : Ordered.ofEntries Prod.fst (members.map cell) =
      (Ordered.ofEntries Prod.fst members).map cell := Ordered.ofEntries_map (fun _ => rfl) members
  have hentries : (Ordered.ofEntries Prod.fst members).map cell =
      (Table.ofList (pairs.map pairTexts)).entries := by
    rw [← hmap, List.map_map]
    rfl
  rw [json_pairObject, table?, hentries, Table.ofList_entries]

/-- A list of pairs is empty only if there are none. -/
theorem isEmpty_pairList (fromName toName : String) (pairs : List (Value × Value)) :
    isEmpty (pairList fromName toName pairs).json = pairs.isEmpty := by
  rw [json_pairList]
  exact List.isEmpty_map

/-- An object of pairs is empty only if there are none: repeated keys leave at least one member. -/
theorem isEmpty_pairObject (pairs : List (Value × Value)) :
    isEmpty (pairObject pairs).json = pairs.isEmpty := by
  rw [json_pairObject, isEmpty, Bool.eq_iff_iff, List.isEmpty_iff, List.isEmpty_iff,
    Ordered.ofEntries_eq_nil_iff, List.map_eq_nil_iff]

/-! ### Constants -/

/-- The members of an object as objects with a handle and a value. -/
def entryList (ms : List (String × Json)) : Value :=
  .ofJson (.array (ms.map fun m => .object [("id", .string m.1), ("value", m.2)]))

/-- The entries of an object are written with handle and value, in the order of the object. -/
theorem json_entryList (hm : m.json = .object ms) :
    (entryList ms).json =
      .array (ms.map fun m => .object [("id", .string m.1), ("value", m.2)]) := by
  have hms : Json.CanonicalMembers ms := (hm ▸ m.canonical : (Json.object ms).IsCanonical).2
  change (Json.array _).canonical = _
  rw [Json.canonical, Json.canonicalItems_eq_map, List.map_map]
  refine congrArg _ (List.map_congr_left fun e he => ?_)
  have hvalue : e.2.IsCanonical := Json.canonicalMembers_iff.1 hms e he
  refine Json.canonical_of_isCanonical _ ⟨?_, trivial, hvalue, trivial⟩
  have hlt : "id" < "value" := by decide
  exact List.pairwise_pair.2 hlt

/-- **An object from handles to values is the list of its entries.** -/
theorem constantList_entryList (hm : m.json = .object ms) :
    constantList (some m.json) = constantList (some (entryList ms).json) := by
  rw [json_entryList hm, hm]
  rfl

/-! ### Candidates -/

/-- A list of values as one value. -/
def valueList (vs : List Value) : Value := .ofJson (.array (vs.map Value.json))

/-- A list of values is written as the array of what they are. -/
theorem json_valueList (vs : List Value) : (valueList vs).json = .array (vs.map Value.json) := by
  change (Json.array _).canonical = _
  rw [Json.canonical, Json.canonicalItems_eq_map, List.map_map]
  exact congrArg _ (List.map_congr_left fun v _ => v.canonical_json)

/-- A candidate with its field named in an object, if it is a bare name. -/
def named (v : Value) : Value :=
  match v.json with
  | .string field => .ofJson (.object [("sourceField", .string field)])
  | _ => v

/-- To name a field in an object is what reading a candidate does. -/
theorem json_named (v : Value) : (named v).json = candidate v.json := by
  obtain ⟨j, hj⟩ := v
  cases j <;> rfl

/-! ### One node for all shapes -/

/-- Whether a value counts depends on no more than whether it is null or empty. -/
theorem counts_eq {j j' : Json} (hnull : j.isNull = j'.isNull) (hempty : isEmpty j = isEmpty j')
    (k : Key) : k.counts j = k.counts j' := by
  rw [Key.counts, Key.counts, hnull, hempty]

/-- What is a table is not null. -/
theorem isNull_of_table? {table : Table} {j : Json} (h : table? j = some table) :
    j.isNull = false := by
  cases j with
  | null => cases h
  | _ => rfl

/-- Lookups with the same table in two shapes are one node. -/
theorem nodeBody_table (ht : NodeType.ofName? typeName = some .lookup) (id : String)
    (hpath : path ∈ pathsOf .lookup "table") (v : Value) {table : Table}
    (hj : table? j.json = some table) (hj' : table? j'.json = some table)
    (hempty : isEmpty j.json = isEmpty j'.json) :
    nodeBody id typeName (setAt path j v) = nodeBody id typeName (setAt path j' v) := by
  obtain ⟨k, hk, hname, hpath⟩ := mem_pathsOf.1 hpath
  refine nodeBody_setAt ht id hk hpath v ?_ fun data data' h =>
    parameters_lookup_eq h hk hname (hj.trans hj'.symm) id typeName
  exact counts_eq ((isNull_of_table? hj).trans (isNull_of_table? hj').symm) hempty k

/-- Constants in an object and in the list of its entries are one node. -/
theorem nodeBody_entryList (ht : NodeType.ofName? typeName = some .constants) (id : String)
    (hpath : path ∈ pathsOf .constants "values") (v : Value) (hm : m.json = .object ms) :
    nodeBody id typeName (setAt path m v) = nodeBody id typeName (setAt path (entryList ms) v) := by
  obtain ⟨k, hk, hname, hpath⟩ := mem_pathsOf.1 hpath
  refine nodeBody_setAt ht id hk hpath v ?_ fun data data' h =>
    parameters_constants_eq h hk hname (constantList_entryList hm) id typeName
  refine counts_eq ?_ ?_ k
  · rw [json_entryList hm, hm]
    rfl
  · rw [json_entryList hm, hm]
    exact List.isEmpty_map.symm

/-- Candidates that are the same once their fields are named in objects are one node. -/
theorem nodeBody_candidates (ht : NodeType.ofName? typeName = some .coalesce) (id : String)
    (hpath : path ∈ pathsOf .coalesce "rules") (v : Value) {vs vs' : List Value}
    (hsame : vs.map named = vs'.map named) :
    nodeBody id typeName (setAt path (valueList vs) v) =
      nodeBody id typeName (setAt path (valueList vs') v) := by
  obtain ⟨k, hk, hname, hpath⟩ := mem_pathsOf.1 hpath
  have hlist : (vs.map Value.json).map candidate = (vs'.map Value.json).map candidate := by
    have hjson := congrArg (List.map Value.json) hsame
    simpa only [List.map_map, Function.comp_def, json_named] using hjson
  have hempty : vs.isEmpty = vs'.isEmpty := by
    rw [← List.isEmpty_map (f := named), hsame, List.isEmpty_map]
  refine nodeBody_setAt ht id hk hpath v ?_ fun data data' h =>
    parameters_coalesce_eq h hk hname (json_valueList vs) (json_valueList vs') hlist id typeName
  refine counts_eq ?_ ?_ k
  · rw [json_valueList, json_valueList]
    rfl
  · simpa [json_valueList, isEmpty] using hempty

/-- A candidate with its field named stays as it is. -/
theorem named_named (v : Value) : named (named v) = named v := by
  obtain ⟨j, hj⟩ := v
  cases j <;> rfl

/-! ### Which node it is -/

/-- A table as a value. -/
def tableValue (table : Table) : Value := ⟨tableToJson table, isCanonical_tableToJson table⟩

/-- To put a table into the data of a lookup is to write the lookup of this table. -/
theorem setAt_lookup (l : Lookup) (table : Table) :
    setAt ["table"] (tableValue table) (nodeData (.lookup l)) =
      nodeData (.lookup { l with table }) := by
  refine setAt_ofJson (flat_lookup l).nodup (flat_lookup { l with table }).nodup fun other => ?_
  by_cases hother : other = "table"
  · subst hother
    exact congrArg some (canonical_tableToJson table)
  · rw [if_neg hother]
    simp [lookupMembers, Json.get?_cons, Ne.symm hother]

/-- **The table of a lookup has the last text of each key**, whatever the shape of its pairs. -/
theorem nodeBody_pairs (id : String) (l : Lookup) (pairs : List (Value × Value)) {j : Value}
    (hj : table? j.json = some (.ofList (pairs.map pairTexts)))
    (hempty : isEmpty j.json = pairs.isEmpty) :
    nodeBody id NodeType.lookup.name (setAt ["table"] j (nodeData (.lookup l))) =
      .ok (.lookup { l with table := .ofList (pairs.map pairTexts) }) := by
  have hpath : ["table"] ∈ pathsOf .lookup "table" := by decide
  have htable : table? (tableValue (.ofList (pairs.map pairTexts))).json =
      some (.ofList (pairs.map pairTexts)) := table?_tableToJson _
  have hempty' : isEmpty (tableToJson (.ofList (pairs.map pairTexts))) = pairs.isEmpty := by
    rw [tableToJson, isEmpty, Table.ofList, Bool.eq_iff_iff, List.isEmpty_iff, List.isEmpty_iff,
      List.map_eq_nil_iff, Ordered.ofEntries_eq_nil_iff, List.map_eq_nil_iff]
  rw [nodeBody_table (NodeType.ofName?_name _) id hpath _ hj htable (hempty.trans hempty'.symm),
    setAt_lookup, nodeBody_lookup]

/-- To put the entries of an object into the data of constants is to write the constants they
are. -/
theorem setAt_constants (label : String) (cs : List Constant) (hm : m.json = .object ms) :
    setAt ["values"] (entryList ms) (nodeData (.transform label (.constants cs))) =
      nodeData (.transform label (.constants (ms.map fun e => ⟨e.1, .ofJson e.2⟩))) := by
  have hms : Json.CanonicalMembers ms := (hm ▸ m.canonical : (Json.object ms).IsCanonical).2
  have hwritten : (ms.map fun e => (⟨e.1, .ofJson e.2⟩ : Constant)).map Constant.toJson =
      ms.map fun e => .object [("id", .string e.1), ("value", e.2)] := by
    rw [List.map_map]
    refine List.map_congr_left fun e he => ?_
    have hcanonical := Json.canonical_of_isCanonical _ (Json.canonicalMembers_iff.1 hms e he)
    simp [Constant.toJson, Value.ofJson, hcanonical]
  refine setAt_ofJson (flat_transform label (.constants cs)).nodup
    (flat_transform label (.constants _)).nodup fun other => ?_
  by_cases hother : other = "values"
  · subst hother
    rw [if_pos rfl, ← (entryList ms).canonical_json, json_entryList hm, ← hwritten]
    rfl
  · rw [if_neg hother]
    simp [Operation.members, Json.get?_cons, Ne.symm hother]

/-- **The constants of an object are its entries in the order of their names.** -/
theorem nodeBody_constants (id label : String) (cs : List Constant) (hm : m.json = .object ms) :
    nodeBody id NodeType.constants.name
        (setAt ["values"] m (nodeData (.transform label (.constants cs)))) =
      .ok (.transform label (.constants (ms.map fun e => ⟨e.1, .ofJson e.2⟩))) := by
  have hpath : ["values"] ∈ pathsOf .constants "values" := by decide
  rw [nodeBody_entryList (NodeType.ofName?_name _) id hpath _ hm, setAt_constants label cs hm]
  exact nodeBody_transform id label (.constants _)

/-- A candidate as it may be listed: by the name of its field or as a whole. -/
inductive Listed
  | bare (field : String)
  | whole (c : Candidate)

/-- What is listed as a value. -/
def Listed.value : Listed → Value
  | bare field => .string field
  | whole c => .ofJson c.toJson

/-- The candidate that is meant; a bare name has no condition. -/
def Listed.candidate : Listed → Candidate
  | bare field => ⟨field, none⟩
  | whole c => c

/-- A candidate that is listed by a bare name is named like the one that is meant. -/
theorem named_value (r : Listed) : named r.value = named (.ofJson r.candidate.toJson) := by
  cases r <;> rfl

/-- To put candidates into the data of a coalesce is to write the coalesce of these candidates. -/
theorem setAt_coalesce (label : String) (p : Coalesce) (cs : List Candidate) :
    setAt ["rules"] (valueList (cs.map fun c => .ofJson c.toJson))
        (nodeData (.transform label (.coalesce p))) =
      nodeData (.transform label (.coalesce { p with candidates := cs })) := by
  refine setAt_ofJson (flat_transform label (.coalesce p)).nodup
    (flat_transform label (.coalesce { p with candidates := cs })).nodup fun other => ?_
  by_cases hother : other = "rules"
  · subst hother
    rw [if_pos rfl, json_valueList, List.map_map]
    change some (Json.array (cs.map Candidate.toJson)).canonical = _
    rw [Json.canonical, Json.canonicalItems_eq_map, List.map_map]
    rfl
  · rw [if_neg hother]
    simp [Operation.members, Json.get?_cons, Ne.symm hother]

/-- **A bare name is read as the candidate of this field without a condition.** -/
theorem nodeBody_listed (id label : String) (p : Coalesce) (rs : List Listed) :
    nodeBody id NodeType.coalesce.name
        (setAt ["rules"] (valueList (rs.map Listed.value))
          (nodeData (.transform label (.coalesce p)))) =
      .ok (.transform label (.coalesce { p with candidates := rs.map Listed.candidate })) := by
  have hpath : ["rules"] ∈ pathsOf .coalesce "rules" := by decide
  have hsame : (rs.map Listed.value).map named =
      ((rs.map Listed.candidate).map fun c => Value.ofJson c.toJson).map named := by
    simp only [List.map_map, Function.comp_def, named_value]
  rw [nodeBody_candidates (NodeType.ofName?_name _) id hpath _ hsame, setAt_coalesce]
  exact nodeBody_transform id label (.coalesce _)

/-- What a key stands for among some pairs: the text of the last pair of this key. -/
def LastPair (pairs : List (Value × Value)) (key text : String) : Prop :=
  ∃ before p behind, pairs = before ++ p :: behind ∧ pairTexts p = (key, text) ∧
    ∀ q ∈ behind, cellText q.1.json ≠ key

/-- The table of some pairs holds for each key the text of its last pair, and no others. -/
theorem mem_ofList_pairs {key text : String} :
    (key, text) ∈ (Table.ofList (pairs.map pairTexts)).entries ↔ LastPair pairs key text := by
  rw [Table.ofList, Ordered.mem_ofEntries_iff]
  constructor
  · rintro ⟨before, behind, hsplit, hbehind⟩
    obtain ⟨before, rest, rfl, rfl, hrest⟩ := List.map_eq_append_iff.1 hsplit
    obtain ⟨p, behind, rfl, hp, rfl⟩ := List.map_eq_cons_iff.1 hrest
    exact ⟨before, p, behind, rfl, hp, fun q hq => hbehind _ (List.mem_map_of_mem hq)⟩
  · rintro ⟨before, p, behind, rfl, hp, hbehind⟩
    refine ⟨before.map pairTexts, behind.map pairTexts, ?_, List.forall_mem_map.2 hbehind⟩
    rw [List.map_append, List.map_cons, hp]

/-- **Collections in their older shapes are read like those of today.**

A table may be a list of pairs, under either names, or an object: at whatever path of whatever data
it stands, the lookup is the same.  Constants may be an object or the list of its entries, and
candidates may be bare names: the same holds for them.  And these are the nodes that the shapes
stand for: a table has the last text of each key, constants have the handles and values of the
object in the order of its names, and a bare name is the candidate of this field. -/
theorem nodeBody_collections :
    (∀ typeName, NodeType.ofName? typeName = some .lookup →
      ∀ path ∈ pathsOf .lookup "table", ∀ (id : String) (data : Value)
        (pairs : List (Value × Value)), ∀ names ∈ sideNames,
          nodeBody id typeName (setAt path (pairList names.1 names.2 pairs) data) =
            nodeBody id typeName (setAt path (pairObject pairs) data)) ∧
    (∀ (id : String) (l : Lookup) (pairs : List (Value × Value)), ∃ table : Table,
      (∀ key text, (key, text) ∈ table.entries ↔ LastPair pairs key text) ∧
        nodeBody id NodeType.lookup.name
          (setAt ["table"] (pairObject pairs) (nodeData (.lookup l))) =
            .ok (.lookup { l with table })) ∧
    (∀ (m : Value) (ms : List (String × Json)), m.json = .object ms →
      (∀ typeName, NodeType.ofName? typeName = some .constants →
        ∀ path ∈ pathsOf .constants "values", ∀ (id : String) (data : Value),
          nodeBody id typeName (setAt path m data) =
            nodeBody id typeName (setAt path (entryList ms) data)) ∧
      ∀ (id label : String) (cs : List Constant),
        nodeBody id NodeType.constants.name
          (setAt ["values"] m (nodeData (.transform label (.constants cs)))) =
            .ok (.transform label (.constants (ms.map fun e => ⟨e.1, .ofJson e.2⟩)))) ∧
    (∀ typeName, NodeType.ofName? typeName = some .coalesce →
      ∀ path ∈ pathsOf .coalesce "rules", ∀ (id : String) (data : Value) (vs : List Value),
        nodeBody id typeName (setAt path (valueList vs) data) =
          nodeBody id typeName (setAt path (valueList (vs.map named)) data)) ∧
    ∀ (id label : String) (p : Coalesce) (rs : List Listed),
      nodeBody id NodeType.coalesce.name
        (setAt ["rules"] (valueList (rs.map Listed.value))
          (nodeData (.transform label (.coalesce p)))) =
          .ok (.transform label (.coalesce { p with candidates := rs.map Listed.candidate })) := by
  refine ⟨fun typeName ht path hpath id data pairs names hnames => ?_, fun id l pairs => ?_,
    fun m ms hm => ⟨fun typeName ht path hpath id data => ?_, fun id label cs => ?_⟩,
    fun typeName ht path hpath id data vs => ?_, nodeBody_listed⟩
  · exact nodeBody_table ht id hpath data (table?_pairList hnames pairs) (table?_pairObject pairs)
      ((isEmpty_pairList _ _ pairs).trans (isEmpty_pairObject pairs).symm)
  · exact ⟨_, fun key text => mem_ofList_pairs,
      nodeBody_pairs id l pairs (table?_pairObject pairs) (isEmpty_pairObject pairs)⟩
  · exact nodeBody_entryList ht id hpath data hm
  · exact nodeBody_constants id label cs hm
  · refine nodeBody_candidates ht id hpath data ?_
    rw [List.map_map]
    exact List.map_congr_left fun v _ => (named_named v).symm

/-- Pairs in which a key is repeated, and of which one has no texts. -/
def samplePairs : List (Value × Value) :=
  [(.string "a", .string "x"), (.ofJson (.bool true), .null), (.string "a", .ofJson (.nat 20))]

/-- Handles out of order, one of them without a value. -/
def sampleHandles : Value := .object [("b", .null), ("a", .ofJson (.nat 1))]

/-- A bare name and a candidate whose field has its older name. -/
def sampleCandidates : List Value :=
  [.string "x", .ofJson (.object [("field", .string "y")])]

/-- Collections in older shapes at older paths. -/
theorem nodeBody_collections_repeatedKey :
    (NodeType.ofName? "mapping" = some .lookup ∧
      ["config", "lookup"] ∈ pathsOf .lookup "table" ∧ ("source", "target") ∈ sideNames ∧
      nodeBody "n" "mapping"
          (setAt ["config", "lookup"] (pairList "source" "target" samplePairs) .null) =
        .ok (.lookup ⟨"conversionMapping", .ofList [("a", "20"), ("true", "null")], none⟩)) ∧
    (NodeType.ofName? "static" = some .constants ∧ ["value"] ∈ pathsOf .constants "values" ∧
      sampleHandles.json = .object [("a", .nat 1), ("b", .null)] ∧
      nodeBody "n" "static" (setAt ["value"] (entryList [("a", .nat 1), ("b", .null)]) .null) =
        .ok (.transform "staticValue" (.constants [⟨"a", .ofJson (.nat 1)⟩, ⟨"b", .null⟩]))) ∧
    NodeType.ofName? "coalesce" = some .coalesce ∧
      ["config", "parameters", "sources"] ∈ pathsOf .coalesce "rules" ∧
      nodeBody "n" "coalesce" (setAt ["config", "parameters", "sources"]
          (valueList (sampleCandidates.map named)) .null) =
        .ok (.transform "coalesceTransform"
          (.coalesce ⟨[⟨"x", none⟩, ⟨"y", none⟩], .null, .string⟩)) := by
  obtain ⟨hpairs, -, hentries, hnames, -⟩ := nodeBody_collections
  have hlookup : NodeType.ofName? "mapping" = some .lookup := rfl
  have hconstants : NodeType.ofName? "static" = some .constants := rfl
  have hcoalesce : NodeType.ofName? "coalesce" = some .coalesce := rfl
  have htable : ["config", "lookup"] ∈ pathsOf .lookup "table" := by decide
  have hvalues : ["value"] ∈ pathsOf .constants "values" := by decide
  have hrules : ["config", "parameters", "sources"] ∈ pathsOf .coalesce "rules" := by decide
  have hsides : ("source", "target") ∈ sideNames := by decide
  have hhandles : sampleHandles.json = .object [("a", .nat 1), ("b", .null)] := rfl
  refine ⟨⟨hlookup, htable, hsides, ?_⟩, ⟨hconstants, hvalues, hhandles, ?_⟩, hcoalesce, hrules, ?_⟩
  · exact (hpairs "mapping" hlookup _ htable "n" .null samplePairs _ hsides).trans rfl
  · exact ((hentries _ _ hhandles).1 "static" hconstants _ hvalues "n" .null).symm.trans rfl
  · exact (hnames "coalesce" hcoalesce _ hrules "n" .null sampleCandidates).symm.trans rfl

end Payload
end MappingCanvas
