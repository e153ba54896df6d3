/-
# Suggestions are read again

All kinds of suggestions share one record in which all members but one may be missing.  A record is
read again as it was, but for a value that is `null`, which then is none
(`Record.reads_toJson`).  That makes no difference to the suggestion of the record, so what is
written for a suggestion is read as the suggestion of its record (`reads_toJson`).

For a suggestion that was itself read off a record that is the same suggestion, or a refusal of the
same kind (`Returned`).  Two things have to be known for that.  A list that must not be empty is not
empty in what was read (`Readable`).  And what was refused is refused again, whatever it lacked,
since the record of a refusal has only a target and a reason: no kind but `skip` and `static` is
content with these, and none of those two is refused (`Refusable`).
-/

import MappingCanvas.Proofs.Json.Reads
import MappingCanvas.Suggestion.Record

namespace MappingCanvas
namespace Suggestion

/-! ### Branches -/

/-- A branch is written without a repeated name. -/
theorem isTidy_branchToJson (b : Branch) : (branchToJson b).IsTidy := by
  simp [branchToJson, Json.isTidy_of_isCanonical _ b.value.canonical]

/-- **A branch is read again.** -/
theorem reads_branchToJson (b : Branch) : decodeBranch.Reads (branchToJson b) b := by
  have hcondition : (Form.defaulted "condition" "" .text).Reads
      [("condition", .string b.condition), ("value", b.value.json)] b.condition :=
    Form.reads_defaulted rfl (Decoder.reads_text b.condition)
  have hvalue : (Form.defaulted "value" Value.null .value).Reads
      [("condition", .string b.condition), ("value", b.value.json)] b.value :=
    Form.reads_defaulted rfl (Decoder.reads_value b.value)
  exact ((hcondition.and hvalue (by simp)).map rfl).decode (by simp)

/-! ### Records -/

namespace Record

/-- The members that a record may have. -/
def slots (r : Record) : List (String × Option Json) :=
  [("target_field", r.targetField.map .string), ("mapping_type", some (.string r.mappingType)),
    ("source_field", r.sourceField.map .string), ("source_fields", r.sourceFields.map .strings),
    ("separator", r.separator.map .string), ("delimiter", r.delimiter.map .string),
    ("index", r.index.map .nat), ("table", r.table.map Payload.tableToJson),
    ("conditions", r.conditions.map fun bs => .array (bs.map branchToJson)),
    ("format", r.format.map .string), ("value", r.value.map Value.json),
    ("reason", r.reason.map .string)]

/-- The members of a record. -/
def members (r : Record) : List (String × Json) := Json.present r.slots

/-- No name is that of two slots. -/
theorem nodup_slots (r : Record) : (r.slots.map Prod.fst).Nodup := by
  simp [slots]

/-- A record is written as the members that it has. -/
theorem toJson_eq (r : Record) : r.toJson = .object r.members := by
  simp only [members, slots, Json.present_cons, Json.present_nil, toJson, List.append_assoc,
    List.append_nil]
  rfl

/-- A record is written without a repeated name. -/
theorem isTidy_toJson (r : Record) : r.toJson.IsTidy := by
  have htable : ∀ t : Table, (Payload.tableToJson t).IsTidy := fun t =>
    Json.isTidy_of_isCanonical _ (Json.isCanonical_texts t.ascending)
  have hvalue : ∀ v : Value, v.json.IsTidy := fun v => Json.isTidy_of_isCanonical _ v.canonical
  rw [toJson_eq]
  exact Json.isTidy_present r.nodup_slots (by simp [slots, htable, hvalue, isTidy_branchToJson])

/-- A member of a record is what its slot holds. -/
theorem get?_members (r : Record) (name : String) : (Json.object r.members).get? name =
    (r.slots.find? fun s => s.1 == name).bind Prod.snd :=
  Json.get?_present r.nodup_slots name

/-- A text is read from its slot. -/
theorem reads_textSlot (r : Record) {name : String} {o : Option String}
    (h : (r.slots.find? fun s => s.1 == name).bind Prod.snd = o.map .string) :
    (Form.optional name .text).Reads r.members o :=
  Form.reads_optional ((r.get?_members name).trans h) (fun _ => rfl) fun s _ => Decoder.reads_text s

/-- A value is read again unless it is null, since a null is read as no value. -/
theorem reads_value (r : Record) :
    (Form.member "value" ["static_value"] (some none) (.option .value)).Reads r.members
      (r.value.filter fun v => !v.isNull) := by
  have hother : (Json.object r.members).get? "static_value" = none := r.get?_members _
  have hget : (Json.object r.members).get? "value" = r.value.map Value.json := r.get?_members _
  refine Form.reads_member (List.forall_mem_singleton.2 hother) (fun j hj => ?_) fun hnone => ?_
  · obtain ⟨v, hv, rfl⟩ := Option.map_eq_some_iff.1 (hget.symm.trans hj)
    rw [hv]
    exact Decoder.reads_option_value v
  · rw [Option.map_eq_none_iff.1 (hget.symm.trans hnone)]
    rfl

/-- **A record is read again**, but for a value that is `null`. -/
theorem reads_toJson (r : Record) :
    decode.Reads r.toJson { r with value := r.value.filter fun v => !v.isNull } := by
  have htarget : (Form.optional "target_field" .text).Reads r.members r.targetField :=
    r.reads_textSlot rfl
  have htype : (Form.defaulted "mapping_type" "" .text).Reads r.members r.mappingType :=
    Form.reads_defaulted (r.get?_members _) (Decoder.reads_text r.mappingType)
  have hsource : (Form.optional "source_field" .text).Reads r.members r.sourceField :=
    r.reads_textSlot rfl
  have hsources : (Form.optional "source_fields" (.list .text)).Reads r.members r.sourceFields :=
    Form.reads_optional (r.get?_members _) (fun _ => rfl) fun ss _ =>
      Decoder.reads_list fun s _ => Decoder.reads_text s
  have hseparator : (Form.optional "separator" .text).Reads r.members r.separator :=
    r.reads_textSlot rfl
  have hdelimiter : (Form.optional "delimiter" .text).Reads r.members r.delimiter :=
    r.reads_textSlot rfl
  have hindex : (Form.optional "index" .nat).Reads r.members r.index :=
    Form.reads_optional (r.get?_members _) (fun _ => rfl) fun n _ => Decoder.reads_nat n
  have htable : (Form.optional "table" .table).Reads r.members r.table :=
    Form.reads_optional (r.get?_members _) (fun _ => rfl) fun t _ => Decoder.reads_table t
  have hconditions : (Form.optional "conditions" (.list decodeBranch)).Reads r.members
      r.conditions := Form.reads_optional (r.get?_members _) (fun _ => rfl) fun bs _ =>
    Decoder.reads_list fun b _ => reads_branchToJson b
  have hformat : (Form.optional "format" .text).Reads r.members r.format :=
    r.reads_textSlot rfl
  have hreason : (Form.optional "reason" .text).Reads r.members r.reason :=
    r.reads_textSlot rfl
  have hlast := hconditions.and (hformat.and (r.reads_value.and hreason (by simp)) (by simp))
    (by simp)
  have hmiddle := hseparator.and (hdelimiter.and (hindex.and (htable.and hlast (by simp))
    (by simp)) (by simp)) (by simp)
  have hall := htarget.and (htype.and (hsource.and (hsources.and hmiddle (by simp)) (by simp))
    (by simp)) (by simp)
  rw [toJson_eq]
  exact (hall.map rfl).decode (r.nodup_slots.sublist (Json.names_present _))

end Record

/-! ### Suggestions -/

/-- A value that is `null` is as good as none. -/
theorem ofRecord_withoutNull (r : Record) :
    ofRecord { r with value := r.value.filter fun v => !v.isNull } = ofRecord r := by
  have hvalue : (r.value.filter fun v => !v.isNull).getD .null = r.value.getD .null := by
    cases hv : r.value with
    | none => rfl
    | some v =>
      cases hnull : v.isNull with
      | false => rw [Option.filter_some_pos (by simp [hnull])]
      | true =>
        rw [Option.filter_some_neg (by simp [hnull])]
        exact (Value.eq_null_of_isNull hnull).symm
  simp only [ofRecord, ofRecordFor, withSource, refuse, hvalue]

/-- **What is written for a suggestion is read as the suggestion of its record.** -/
theorem reads_toJson (s : Suggestion) : decode.Reads s.toJson (ofRecord s.toRecord) :=
  fun mode doc hdoc => by
    rw [decode, s.toRecord.reads_toJson mode doc hdoc]
    exact congrArg Except.ok (ofRecord_withoutNull s.toRecord)

/-- A suggestion is written without a repeated name. -/
theorem isTidy_toJson (s : Suggestion) : s.toJson.IsTidy := s.toRecord.isTidy_toJson

/-! ### What is read comes back -/

/-- Whether a suggestion is made in a known way. -/
def Recognised : Suggestion → Prop
  | unrecognised _ _ _ => False
  | _ => True

/-- The kinds and targets for which a record may lack something. -/
structure Refusable (kind : String) (target : Option String) : Prop where
  not_skip : kind ≠ "skip"
  not_static : kind = "static" → target = none

/-- What a record can be read as. -/
def Readable : Suggestion → Prop
  | conditional _ _ branches => branches ≠ []
  | concat _ sources _ => sources ≠ []
  | unrecognised kind target _ => Refusable kind target
  | _ => True

/-- A suggestion that lacks its source can be refused. -/
theorem readable_withSource {r : Record} {make : String → Suggestion}
    (h : Refusable r.mappingType r.targetField) (hmake : ∀ source, (make source).Readable) :
    (withSource r make).Readable := by
  unfold withSource
  split
  · exact hmake _
  · exact h

/-- What a record with a target is read as can be read again.  There is one case for each kind:
those that need a source, those that need nothing, those that need a list, the table, and the
unknown kinds. -/
theorem readable_ofRecordFor (r : Record) (target : String) : (ofRecordFor r target).Readable := by
  by_cases hskip : r.mappingType = "skip"
  · simp only [ofRecordFor, hskip]
    trivial
  by_cases hstatic : r.mappingType = "static"
  · simp only [ofRecordFor, hstatic]
    trivial
  have hrefused : Refusable r.mappingType r.targetField := ⟨hskip, fun h => absurd h hstatic⟩
  have hsource (make : String → Suggestion) (hmake : ∀ source, (make source).Readable) :
      (withSource r make).Readable := readable_withSource hrefused hmake
  unfold ofRecordFor
  split
  case h_1 | h_5 | h_7 => exact hsource _ fun _ => trivial
  case h_2 | h_8 => trivial
  case h_3 | h_6 =>
    split
    · exact List.cons_ne_nil _ _
    · exact hrefused
  case h_4 =>
    refine hsource _ fun source => ?_
    split
    · trivial
    · exact hrefused
  case h_9 => exact hrefused

/-- What a record is read as can be read again. -/
theorem readable_ofRecord (r : Record) : (ofRecord r).Readable := by
  unfold ofRecord
  split
  · exact readable_ofRecordFor r _
  · rename_i hnone
    split
    · trivial
    · rename_i hskip
      exact ⟨hskip, fun _ => hnone⟩

/-- What is read of a document can be read. -/
theorem readable_of_decode {s : Suggestion} {mode : Reading} {doc : Json}
    (h : decode mode doc = .ok s) : s.Readable := by
  obtain ⟨r, -, rfl⟩ := map_eq_ok_iff.1 h
  exact readable_ofRecord r

/-- How a suggestion comes back: as it is, or refused as it was, for whatever reason. -/
inductive Returned : Suggestion → Suggestion → Prop
  | recognised {s : Suggestion} (h : s.Recognised) : Returned s s
  | unrecognised (kind : String) (target : Option String) (reason reason' : String) :
    Returned (.unrecognised kind target reason) (.unrecognised kind target reason')

/-- The record of a refusal is refused. -/
theorem exists_ofRecord_eq {kind : String} {target : Option String} (h : Refusable kind target)
    (reason : String) : ∃ reason',
      ofRecord (unrecognised kind target reason).toRecord = unrecognised kind target reason' := by
  cases target with
  | none => exact ⟨_, if_neg h.not_skip⟩
  | some target =>
    change ∃ reason', ofRecordFor (unrecognised kind (some target) reason).toRecord target = _
    unfold ofRecordFor
    split
    -- A constant and what is skipped lack nothing; each other kind lacks what it needs first.
    case h_2 hkind => cases h.not_static hkind
    case h_8 hkind => exact absurd hkind h.not_skip
    all_goals exact ⟨_, rfl⟩

/-- **What was read of a record comes back.** -/
theorem Readable.returned {s : Suggestion} (h : s.Readable) : Returned s (ofRecord s.toRecord) := by
  cases s with
  | conditional target source branches =>
    obtain ⟨b, bs, rfl⟩ := List.exists_cons_of_ne_nil h
    exact .recognised trivial
  | concat target sources separator =>
    obtain ⟨s, ss, rfl⟩ := List.exists_cons_of_ne_nil h
    exact .recognised trivial
  | skip target reason => cases target <;> exact .recognised trivial
  | unrecognised kind target reason =>
    obtain ⟨reason', hrefused⟩ := exists_ofRecord_eq h reason
    rw [hrefused]
    exact .unrecognised ..
  | _ => exact .recognised trivial

end Suggestion
end MappingCanvas
