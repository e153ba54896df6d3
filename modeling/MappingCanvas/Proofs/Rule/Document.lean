/-
# Rule sets are read again

A rule set is read from the document that is written for it, whatever its rules are: rules of all
kinds, whether they are valid or not, with any constants and steps, and any groupings.  It does not
matter in which order the members of the document stand (`RuleSet.ruleSet_roundTrip`).

The members of a rule and of its action are mixed, so the reading of a rule goes in two rounds.  The
first takes the source, the target and the tag out of the members, wherever they stand, and leaves
the others in their order (`Decoder.tagged_of_get?`, `foldlM_take`).  The second reads those as the
parameters of the action.
-/

import MappingCanvas.Proofs.Canvas.Operations
import MappingCanvas.Proofs.Json.Reads
import MappingCanvas.Rule.Document

namespace MappingCanvas

/-! ### Tags -/

namespace Decoder

open Json

variable {α : Type} {kinds : List (String × α)} {ms : List (String × Json)} {a : α} {s : String}

/-- Behind a tag no other is looked for. -/
theorem tagged_some (h : ∀ m ∈ ms, m.1 ≠ "type") : tagged kinds (some a) ms = .ok (a, ms) := by
  induction ms with
  | nil => rfl
  | cons m ms ih =>
    obtain ⟨hm, hms⟩ := List.forall_mem_cons.1 h
    rw [tagged, if_neg hm, ih hms]
    rfl

/-- **The tag is found wherever it stands**, and the other members are left. -/
theorem tagged_of_get? (h : Tidy ms) (hget : (object ms).get? "type" = some (.string s))
    (hkind : (kinds.find? fun k => k.1 == s).map Prod.snd = some a) :
    tagged kinds none ms = .ok (a, ms.filter fun m => m.1 != "type") := by
  induction ms with
  | nil => cases hget
  | cons m ms ih =>
    obtain ⟨htidy, -, hfresh⟩ := h.of_cons
    rw [get?_cons] at hget
    by_cases hm : m.1 = "type"
    · have hothers : ms.filter (fun m => m.1 != "type") = ms :=
        List.filter_eq_self.2 fun m' hm' => by simpa [hm] using hfresh m' hm'
      obtain ⟨k, hk, rfl⟩ := Option.map_eq_some_iff.1 hkind
      rw [if_pos (by simpa using hm)] at hget
      rw [tagged, if_pos hm, List.filter_cons_of_neg (by simpa using hm), hothers,
        Option.some.inj hget]
      simp only [tag, hk]
      exact tagged_some fun m' hm' => hm ▸ hfresh m' hm'
    · rw [if_neg (by simpa using hm)] at hget
      rw [tagged, if_neg hm, ih htidy hget, List.filter_cons_of_pos (by simpa using hm)]
      rfl

end Decoder

/-! ### Conditions -/

namespace Condition

/-- The members of a condition. -/
def members (c : Condition) : List (String × Json) :=
  [("operator", .string c.operator.name), ("value", c.value.json)]

/-- A condition is written without a repeated name. -/
theorem isTidy_toJson (c : Condition) : c.toJson.IsTidy := by
  simp [toJson, Json.isTidy_of_isCanonical _ c.value.canonical]

/-- **A condition is read again.** -/
theorem reads_toJson (c : Condition) : decode.Reads c.toJson c := by
  have hoperator : (Form.required "operator" Comparison.decode).Reads c.members c.operator :=
    Form.reads_required rfl (Decoder.reads_choice c.operator.ofName?_name)
  have hvalue : (Form.required "value" .value).Reads c.members c.value :=
    Form.reads_required rfl (Decoder.reads_value c.value)
  exact ((hoperator.and hvalue (by simp)).map rfl).decode (by simp [members])

end Condition

/-! ### Steps -/

namespace TextStep

/-- The kind of a step. -/
def kind : TextStep → Kind
  | substring _ _ => .substring
  | split _ _ => .split
  | uppercase => .uppercase
  | lowercase => .lowercase
  | trim => .trim

/-- The name of a step. -/
def name : TextStep → String
  | substring _ _ => "substring"
  | split _ _ => "split"
  | uppercase => "uppercase"
  | lowercase => "lowercase"
  | trim => "trim"

/-- The kind of a step is found under its name. -/
theorem find?_kinds (t : TextStep) :
    (kinds.find? fun k => k.1 == t.name).map Prod.snd = some t.kind := by
  cases t <;> rfl

/-- The parameters of a step. -/
def parameters : TextStep → List (String × Json)
  | substring start stop => ("start", .nat start) :: Json.member? "end" (stop.map .nat)
  | split delimiter index => [("delimiter", .string delimiter), ("index", .nat index)]
  | uppercase | lowercase | trim => []

/-- The members of a step. -/
def members (t : TextStep) : List (String × Json) := ("type", .string t.name) :: t.parameters

/-- A step is written as its tag and its parameters. -/
theorem toJson_eq (t : TextStep) : t.toJson = .object t.members := by
  cases t <;> rfl

/-- A step is written without a repeated name. -/
theorem isTidy_toJson (t : TextStep) : t.toJson.IsTidy := by
  cases t with
  | substring start stop => cases stop <;> simp [toJson, Json.member?]
  | _ => simp [toJson]

/-- The parameters of a step are read among any members. -/
theorem decodeParameters_eq {ps : List (String × Json)} (h : Json.Tidy ps) (t : TextStep)
    (hsaid : ∀ name, name ≠ "type" → Json.SaysMember ps t.members name) :
    decodeParameters (.object ps) t.kind = .ok t := by
  cases t with
  | substring start stop =>
    have hstart : (Form.required "start" .nat).Reads (substring start stop).members start :=
      Form.reads_required rfl (Decoder.reads_nat start)
    have hstop : (Form.optional "end" .nat).Reads (substring start stop).members stop :=
      Form.reads_optional (by cases stop <;> rfl) (fun _ => rfl)
        fun n _ => Decoder.reads_nat n
    exact (hstart.and hstop (by simp)).map rfl .kept ps h fun name hname =>
      hsaid name (by rintro rfl; simp at hname)
  | split delimiter index =>
    have hdelimiter : (Form.required "delimiter" .text).Reads (split delimiter index).members
        delimiter := Form.reads_required rfl (Decoder.reads_text delimiter)
    have hindex : (Form.required "index" .nat).Reads (split delimiter index).members index :=
      Form.reads_required rfl (Decoder.reads_nat index)
    exact (hdelimiter.and hindex (by simp)).map rfl .kept ps h fun name hname =>
      hsaid name (by rintro rfl; simp at hname)
  | _ => rfl

/-- **A step is read again.** -/
theorem reads_toJson (t : TextStep) : decode.Reads t.toJson t := by
  intro mode doc hdoc
  have hnodup := (Json.isTidy_object.1 (t.toJson_eq ▸ t.isTidy_toJson)).1
  rw [toJson_eq] at hdoc
  obtain ⟨docs, rfl, htidy, hsaid⟩ := hdoc.exists_object hnodup
  obtain ⟨tag, htag, hname⟩ := (hsaid "type").some _ rfl
  rw [hname.eq_string] at htag
  refine bind_eq_ok.2 ⟨_, Decoder.tagged_of_get? htidy htag t.find?_kinds, ?_⟩
  exact decodeParameters_eq (htidy.filter _) t fun name hname =>
    (hsaid name).filter (p := fun name => name != "type") (by simpa using hname)

end TextStep

/-! ### Rules -/

namespace Rule

namespace Action

/-- The kind of an action. -/
def kind : Action → Kind
  | copy => .copy
  | constant _ => .constant
  | choose _ _ _ => .choose
  | lookUp _ _ => .lookUp
  | skip => .skip

/-- The kind of an action is found under its name. -/
theorem find?_kinds (a : Action) :
    (kinds.find? fun k => k.1 == a.name).map Prod.snd = some a.kind := by
  cases a <;> rfl

/-- An action is written without a repeated name. -/
theorem isTidy_members (a : Action) : (Json.object a.members).IsTidy := by
  cases a with
  | constant value => simp [members, Json.isTidy_of_isCanonical _ value.canonical]
  | choose condition whenTrue whenFalse =>
    simp [members, condition.isTidy_toJson, Json.isTidy_of_isCanonical _ whenTrue.canonical,
      Json.isTidy_of_isCanonical _ whenFalse.canonical]
  | lookUp table step =>
    have htable : (Json.object (table.entries.map Json.textMember)).IsTidy :=
      Json.isTidy_of_isCanonical _ (Json.isCanonical_texts table.ascending)
    have hstep : ∀ m ∈ Json.member? "transform" (step.map TextStep.toJson), m.2.IsTidy := by
      cases step with
      | none => nofun
      | some step => simpa [Json.member?] using step.isTidy_toJson
    refine Json.isTidy_object.2 ⟨?_, List.forall_mem_append.2 ⟨?_, hstep⟩⟩
    · cases step <;> simp [members, Json.member?]
    · exact List.forall_mem_cons.2 ⟨trivial, List.forall_mem_singleton.2 htable⟩
  | _ => simp [members]

/-- The parameters of an action are read among any members. -/
theorem decodeParameters_eq {ps : List (String × Json)} (h : Json.Tidy ps) (a : Action)
    (hsaid : ∀ name, name ∉ ["from", "to", "type"] → Json.SaysMember ps a.members name) :
    decodeParameters (.object ps) a.kind = .ok a := by
  cases a with
  | constant value =>
    have hvalue : (Form.required "value" .value).Reads (constant value).members value :=
      Form.reads_required rfl (Decoder.reads_value value)
    refine hvalue.map rfl .kept ps h fun name hname => hsaid name ?_
    obtain rfl : name = "value" := by simpa using hname
    decide
  | choose condition whenTrue whenFalse =>
    have hcondition : (Form.required "if" Condition.decode).Reads
        (choose condition whenTrue whenFalse).members condition :=
      Form.reads_required rfl condition.reads_toJson
    have htrue : (Form.required "then" .value).Reads
        (choose condition whenTrue whenFalse).members whenTrue :=
      Form.reads_required rfl (Decoder.reads_value whenTrue)
    have hfalse : (Form.required "else" .value).Reads
        (choose condition whenTrue whenFalse).members whenFalse :=
      Form.reads_required rfl (Decoder.reads_value whenFalse)
    refine (hcondition.and (htrue.and hfalse (by simp)) (by simp)).map rfl .kept ps h
      fun name hname => hsaid name ?_
    obtain rfl | rfl | rfl : name = "if" ∨ name = "then" ∨ name = "else" := by simpa using hname
    all_goals decide
  | lookUp table step =>
    have htable : (Form.required "map" .table).Reads (lookUp table step).members table :=
      Form.reads_required rfl (Decoder.reads_table table)
    have hstep : (Form.optional "transform" TextStep.decode).Reads (lookUp table step).members
        step := Form.reads_optional (by cases step <;> rfl) (fun t => by cases t <;> rfl)
      fun t _ => t.reads_toJson
    refine (htable.and hstep (by simp)).map rfl .kept ps h fun name hname => hsaid name ?_
    obtain rfl | rfl : name = "map" ∨ name = "transform" := by simpa using hname
    all_goals decide
  | _ => rfl

end Action

/-! ### Members of a rule -/

section

variable {α : Type} {read : Json → Except DecodeError α} {m : String × Json}
  {ms : List (String × Json)} {name : String} {slot : Option α} {a : α} {mode : Reading} {d : Draft}
  {source : Option String} {target : String}

/-- A slot of a draft is filled with `a`, now or by the members to come. -/
def Fills (read : Json → Except DecodeError α) (ms : List (String × Json)) (name : String) (a : α) :
    Option α → Prop
  | some b => b = a ∧ (Json.object ms).get? name = none
  | none => ∃ j, (Json.object ms).get? name = some j ∧ read j = .ok a

/-- Where no members are left, a slot is filled. -/
theorem Fills.eq_some (h : Fills read [] name a slot) : slot = some a := by
  cases slot with
  | some b => rw [h.1]
  | none =>
    obtain ⟨j, hj, -⟩ := h
    cases hj

/-- A member of another name leaves a slot as it is. -/
theorem Fills.later (h : Fills read (m :: ms) name a slot) (hm : m.1 ≠ name) :
    Fills read ms name a slot := by
  have hget : (Json.object (m :: ms)).get? name = (Json.object ms).get? name := by
    rw [Json.get?_cons, if_neg (by simpa using hm)]
  cases slot with
  | some b => exact ⟨h.1, hget ▸ h.2⟩
  | none =>
    obtain ⟨j, hj, hread⟩ := h
    exact ⟨j, hget ▸ hj, hread⟩

/-- A member of its name fills a slot, which was empty before, and no later one does. -/
theorem Fills.now (h : Fills read (m :: ms) name a slot) (htidy : Json.Tidy (m :: ms))
    (hm : m.1 = name) : slot = none ∧ read m.2 = .ok a ∧ Fills read ms name a (some a) := by
  have hget : (Json.object (m :: ms)).get? name = some m.2 := by
    rw [Json.get?_cons, if_pos (by simpa using hm)]
  cases slot with
  | some b => cases hget.symm.trans h.2
  | none =>
    obtain ⟨j, hj, hread⟩ := h
    obtain rfl := Option.some.inj (hget.symm.trans hj)
    exact ⟨rfl, hread, rfl, Json.get?_eq_none.2 (hm ▸ htidy.of_cons.2.2)⟩

/-- A flawless member goes to the source, to the target, or to the others. -/
theorem take_eq (hm : m.2.flaw? = none) : d.take mode m =
    if m.1 = "from" then
      match d.source with
      | some _ => .error (.duplicateField "from")
      | none => (Decoder.option .text mode m.2).map fun s => { d with source := some s }
    else if m.1 = "to" then
      match d.target with
      | some _ => .error (.duplicateField "to")
      | none => (Decoder.text mode m.2).map fun s => { d with target := some s }
    else .ok { d with others := d.others ++ [m] } := by
  obtain ⟨name, j⟩ := m
  unfold Draft.take
  split
  · rename_i heq
    cases heq
    cases hm
  · rename_i heq
    cases heq
    rfl
  · rename_i heq
    cases heq
    rfl
  · rename_i hfrom hto heq
    cases heq
    have hsound : Decoder.sound j = .ok () := by
      rw [Decoder.sound]
      exact hm ▸ rfl
    rw [if_neg hfrom, if_neg hto, hsound]
    rfl

/-- **The source and the target are found wherever they stand**, and the other members are left. -/
theorem foldlM_take (h : Json.Tidy ms)
    (hsource : Fills (Decoder.option .text mode) ms "from" source d.source)
    (htarget : Fills (Decoder.text mode) ms "to" target d.target) :
    ms.foldlM (Draft.take mode) d = .ok ⟨some source, some target,
      d.others ++ ms.filter fun m => m.1 != "from" && m.1 != "to"⟩ := by
  induction ms generalizing d with
  | nil =>
    obtain ⟨source', target', others⟩ := d
    obtain rfl := hsource.eq_some
    obtain rfl := htarget.eq_some
    simp [pure, Except.pure]
  | cons m ms ih =>
    obtain ⟨htidy, hm, -⟩ := h.of_cons
    rw [List.foldlM_cons, take_eq hm]
    by_cases hfrom : m.1 = "from"
    · obtain ⟨hslot, hread, hsource⟩ := hsource.now h hfrom
      have htarget := htarget.later (by simp [hfrom])
      rw [if_pos hfrom, hslot, hread, List.filter_cons_of_neg (by simp [hfrom])]
      exact ih htidy hsource htarget
    by_cases hto : m.1 = "to"
    · obtain ⟨hslot, hread, htarget⟩ := htarget.now h hto
      have hsource := hsource.later (by simp [hto])
      rw [if_neg hfrom, if_pos hto, hslot, hread, List.filter_cons_of_neg (by simp [hto])]
      exact ih htidy hsource htarget
    · rw [if_neg hfrom, if_neg hto, List.filter_cons_of_pos (by simp [hfrom, hto])]
      refine (ih (d := { d with others := d.others ++ [m] }) htidy (hsource.later hfrom)
        (htarget.later hto)).trans ?_
      simp only [List.append_assoc, List.singleton_append]

end

/-! ### Whole rules -/

/-- The members of a rule. -/
def members (r : Rule) : List (String × Json) :=
  [("from", (r.source.map .string).getD .null), ("to", .string r.target)] ++ r.action.members

/-- A rule is written without a repeated name. -/
theorem isTidy_toJson (r : Rule) : r.toJson.IsTidy := by
  obtain ⟨hnodup, htidy⟩ := Json.isTidy_object.1 r.action.isTidy_members
  have hfresh : ∀ m ∈ r.action.members, m.1 ≠ "from" ∧ m.1 ≠ "to" := by
    cases r.action with
    | lookUp table step => cases step <;> simp [Action.members, Json.member?]
    | _ => simp [Action.members]
  refine Json.isTidy_object.2 ⟨?_, List.forall_mem_append.2 ⟨?_, htidy⟩⟩
  · rw [List.map_append, List.nodup_append]
    refine ⟨by simp, hnodup, fun name hname name' hname' heq => ?_⟩
    obtain ⟨m, hm, rfl⟩ := List.mem_map.1 hname'
    obtain rfl | rfl : name = "from" ∨ name = "to" := by simpa using hname
    · exact (hfresh m hm).1 heq.symm
    · exact (hfresh m hm).2 heq.symm
  · cases r.source <;> simp

/-- Beside its fields a rule has the members of its action. -/
theorem get?_members {name : String} (r : Rule) (hfrom : name ≠ "from") (hto : name ≠ "to") :
    (Json.object r.members).get? name = (Json.object r.action.members).get? name := by
  rw [members, List.cons_append, List.cons_append, List.nil_append, Json.get?_cons,
    if_neg (by simpa using hfrom.symm), Json.get?_cons, if_neg (by simpa using hto.symm)]

/-- **A rule is read again.** -/
theorem reads_toJson (r : Rule) : decode.Reads r.toJson r := by
  intro mode doc hdoc
  have hnodup : (r.members.map Prod.fst).Nodup := (Json.isTidy_object.1 r.isTidy_toJson).1
  obtain ⟨docs, rfl, htidy, hsaid⟩ := Json.Says.exists_object hnodup hdoc
  have hsource : Fills (Decoder.option .text mode) docs "from" r.source none := by
    obtain ⟨doc, hget, hdoc⟩ := (hsaid "from").some _ rfl
    exact ⟨doc, hget, Decoder.reads_nullable r.source mode doc hdoc⟩
  have htarget : Fills (Decoder.text mode) docs "to" r.target none := by
    obtain ⟨doc, hget, hdoc⟩ := (hsaid "to").some _ rfl
    exact ⟨doc, hget, Decoder.reads_text r.target mode doc hdoc⟩
  have hdraft := foldlM_take (d := ⟨none, none, []⟩) htidy hsource htarget
  have hothers : ∀ name, name ≠ "from" → name ≠ "to" →
      Json.SaysMember (docs.filter fun m => m.1 != "from" && m.1 != "to") r.action.members name :=
    fun name hfrom hto => ((hsaid name).congr (r.get?_members hfrom hto)).filter
      (p := fun name => name != "from" && name != "to") (by simp [hfrom, hto])
  obtain ⟨tag, htag, hname⟩ := (hothers "type" (by decide) (by decide)).some
    (.string r.action.name) (by cases r.action <;> rfl)
  rw [hname.eq_string] at htag
  have htagged := Decoder.tagged_of_get? (htidy.filter _) htag r.action.find?_kinds
  have hparameters : ∀ name, name ∉ ["from", "to", "type"] → Json.SaysMember
      ((docs.filter fun m => m.1 != "from" && m.1 != "to").filter fun m => m.1 != "type")
      r.action.members name := fun name hname => by
    obtain ⟨hfrom, hto, htype⟩ : name ≠ "from" ∧ name ≠ "to" ∧ name ≠ "type" := by
      simpa using hname
    exact (hothers name hfrom hto).filter (p := fun name => name != "type") (by simpa using htype)
  have haction := r.action.decodeParameters_eq ((htidy.filter _).filter _) hparameters
  refine bind_eq_ok.2 ⟨_, hdraft, ?_⟩
  simp only [Draft.finish, List.nil_append]
  refine bind_eq_ok.2 ⟨_, htagged, ?_⟩
  exact bind_eq_ok.2 ⟨_, haction, rfl⟩

end Rule

/-! ### Groupings -/

namespace Grouping

/-- The members of a grouping. -/
def members (g : Grouping) : List (String × Json) :=
  [("target", .string g.target)] ++ Json.member? "source" (g.source.map .string) ++
    Json.member? "groupBy" (g.groupBy.map .string)

/-- A grouping is written without a repeated name. -/
theorem isTidy_toJson (g : Grouping) : g.toJson.IsTidy := by
  obtain ⟨target, source, groupBy⟩ := g
  cases source <;> cases groupBy <;> simp [toJson, Json.member?]

/-- A grouping has each of its optional members under the current name. -/
theorem get?_members (g : Grouping) :
    (Json.object g.members).get? "source" = g.source.map .string ∧
      (Json.object g.members).get? "groupBy" = g.groupBy.map .string ∧
      (Json.object g.members).get? "group_by" = none := by
  obtain ⟨target, source, groupBy⟩ := g
  cases source <;> cases groupBy <;> exact ⟨rfl, rfl, rfl⟩

/-- **A grouping is read again.** -/
theorem reads_toJson (g : Grouping) : decode.Reads g.toJson g := by
  obtain ⟨hgetSource, hgetGroupBy, hgetOther⟩ := g.get?_members
  have htarget : (Form.required "target" .text).Reads g.members g.target :=
    Form.reads_required rfl (Decoder.reads_text g.target)
  have hsource : (Form.optional "source" .text).Reads g.members g.source :=
    Form.reads_optional hgetSource (fun _ => rfl) fun s _ => Decoder.reads_text s
  have hgroupBy : (Form.member "groupBy" ["group_by"] (some none) (.option .text)).Reads g.members
      g.groupBy := Form.reads_option (List.forall_mem_singleton.2 hgetOther) hgetGroupBy
    (fun _ => rfl) fun s _ => Decoder.reads_text s
  exact ((htarget.and (hsource.and hgroupBy (by simp)) (by simp)).map rfl).decode
    (Json.isTidy_object.1 g.isTidy_toJson).1

end Grouping

/-! ### Rule sets -/

namespace RuleSet

/-- The members of a rule set. -/
def members (s : RuleSet) : List (String × Json) :=
  Json.member? "name" (s.name.map .string) ++ Json.member? "version" (s.version.map .string) ++
    [("mappings", .array (s.rules.map Rule.toJson)),
      ("arrays", .array (s.groupings.map Grouping.toJson))]

/-- A rule set is written without a repeated name. -/
theorem isTidy_toJson (s : RuleSet) : s.toJson.IsTidy := by
  obtain ⟨name, version, rules, groupings⟩ := s
  cases name <;> cases version <;>
    simp [toJson, Json.member?, Rule.isTidy_toJson, Grouping.isTidy_toJson]

/-- The members of a rule set: name and version if it has them, and always both lists. -/
theorem get?_members (s : RuleSet) :
    (Json.object s.members).get? "name" = s.name.map .string ∧
      (Json.object s.members).get? "version" = s.version.map .string ∧
      (Json.object s.members).get? "mappings" = some (.array (s.rules.map Rule.toJson)) ∧
      (Json.object s.members).get? "arrays" =
        some (.array (s.groupings.map Grouping.toJson)) := by
  obtain ⟨name, version, rules, groupings⟩ := s
  cases name <;> cases version <;> exact ⟨rfl, rfl, rfl, rfl⟩

/-- **A rule set is read again**, whatever its rules are. -/
theorem reads_toJson (s : RuleSet) : decode.Reads s.toJson s := by
  obtain ⟨hgetName, hgetVersion, hgetRules, hgetGroupings⟩ := s.get?_members
  have hname : (Form.optional "name" .text).Reads s.members s.name :=
    Form.reads_optional hgetName (fun _ => rfl) fun t _ => Decoder.reads_text t
  have hversion : (Form.optional "version" .text).Reads s.members s.version :=
    Form.reads_optional hgetVersion (fun _ => rfl) fun t _ => Decoder.reads_text t
  have hrules : (Form.defaulted "mappings" [] (.list Rule.decode)).Reads s.members s.rules :=
    Form.reads_defaulted hgetRules (Decoder.reads_list fun r _ => r.reads_toJson)
  have hgroupings : (Form.defaulted "arrays" [] (.list Grouping.decode)).Reads s.members
      s.groupings :=
    Form.reads_defaulted hgetGroupings (Decoder.reads_list fun g _ => g.reads_toJson)
  exact ((hname.and (hversion.and (hrules.and hgroupings (by simp)) (by simp)) (by simp)).map
    rfl).decode (Json.isTidy_object.1 s.isTidy_toJson).1

/-- A rule set is decoded from its own document, in the order in which it was written. -/
theorem decode_toJson (s : RuleSet) (mode : Reading) : decode mode s.toJson = .ok s :=
  s.reads_toJson.eq_ok s.isTidy_toJson mode

/-- **The document of a rule set.**  Whatever its rules are, a rule set is read from the document
that is written for it, however the document reaches the reader; from the stored value of the
document; and from every document that says the same in another order.  The round trip is one
between values and trees.  That a tree is read from its text is no part of it: there floats may be
rounded, and trees of more than 127 levels are refused. -/
theorem ruleSet_roundTrip (s : RuleSet) :
    (∀ mode, decode mode s.toJson = .ok s) ∧ decode.ofValue (.ofJson s.toJson) = .ok s ∧
      ∀ mode doc, doc.Says s.toJson → decode mode doc = .ok s :=
  ⟨s.decode_toJson, s.reads_toJson.ofValue, s.reads_toJson⟩

/-- Rules of every kind, of which the first, the third and the last are not valid. -/
def unsorted : RuleSet :=
  ⟨some "orders", none,
    [⟨some "a", "v", .constant .null⟩,
      ⟨some "b", "w", .lookUp (.ofList [("k", "v")]) (some (.substring 1 none))⟩,
      ⟨none, "x", .choose ⟨.contains, .null⟩ (.ofJson (.array [.null, .object []])) .null⟩,
      ⟨none, "y", .skip⟩, ⟨none, "z", .copy⟩],
    [⟨"list", none, some "key"⟩]⟩

/-- The document of these rules with the members of its objects in another order. -/
def unsortedDocument : Json :=
  .object [("arrays", .array [.object [("groupBy", .string "key"), ("target", .string "list")]]),
    ("mappings", .array [
      .object [("value", .null), ("type", .string "static"), ("to", .string "v"),
        ("from", .string "a")],
      .object [("transform", .object [("start", .nat 1), ("type", .string "substring")]),
        ("to", .string "w"), ("map", .object [("k", .string "v")]), ("type", .string "map"),
        ("from", .string "b")],
      .object [("else", .null), ("then", .array [.null, .object []]),
        ("if", .object [("value", .null), ("operator", .string "contains")]), ("from", .null),
        ("type", .string "ifThen"), ("to", .string "x")],
      .object [("type", .string "skip"), ("to", .string "y"), ("from", .null)],
      .object [("to", .string "z"), ("type", .string "direct"), ("from", .null)]]),
    ("name", .string "orders")]

/-- The rules are read from their document in the other order. -/
theorem ruleSet_roundTrip_unsorted :
    unsortedDocument.Says unsorted.toJson ∧ decode .streamed unsortedDocument = .ok unsorted := by
  have hsaid : unsortedDocument.Says unsorted.toJson :=
    ⟨by simp [unsortedDocument, Json.IsTidy, Json.TidyItems, Json.TidyMembers, Json.nat], rfl⟩
  exact ⟨hsaid, unsorted.ruleSet_roundTrip.2.2 .streamed unsortedDocument hsaid⟩

end RuleSet
end MappingCanvas
