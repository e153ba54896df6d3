/-
# Fields are read again

A field is read from every document that says what is written for it (`reads_toJson`).  The reader
follows a tree only as deep as its fuel goes.  What lies inside a document is less deep than the
document (`Json.depth_lt_of_get?`), and a canonical form is no deeper than what it is the form of
(`Json.depth_canonical_le`), so a document has fuel enough for the field that it says.
-/

import MappingCanvas.Proofs.Json.Reads
import MappingCanvas.Schema.Document

namespace MappingCanvas

/-! ### Depth -/

namespace Json

variable {js : List Json} {ms : List (String × Json)} {j : Json} {name : String}

/-- No item is deeper than the items. -/
theorem depth_le_depthItems (h : j ∈ js) : j.depth ≤ depthItems js := by
  induction js with
  | nil => cases h
  | cons k js ih =>
    rw [depthItems]
    rcases List.mem_cons.1 h with rfl | h
    · exact Nat.le_max_left _ _
    · exact Nat.le_trans (ih h) (Nat.le_max_right _ _)

/-- No value is deeper than the members. -/
theorem depth_le_depthMembers {m : String × Json} (h : m ∈ ms) : m.2.depth ≤ depthMembers ms := by
  induction ms with
  | nil => cases h
  | cons k ms ih =>
    obtain ⟨key, j⟩ := k
    rw [depthMembers]
    rcases List.mem_cons.1 h with rfl | h
    · exact Nat.le_max_left _ _
    · exact Nat.le_trans (ih h) (Nat.le_max_right _ _)

/-- An item is less deep than its array. -/
theorem depth_lt_of_mem (h : j ∈ js) : j.depth < (array js).depth :=
  Nat.lt_succ_of_le (depth_le_depthItems h)

/-- A member is less deep than its object. -/
theorem depth_lt_of_get? (h : (object ms).get? name = some j) : j.depth < (object ms).depth := by
  obtain ⟨m, hm, rfl⟩ := Option.map_eq_some_iff.1 h
  exact Nat.lt_succ_of_le (depth_le_depthMembers (List.mem_of_find?_eq_some hm))

/-- An inserted member adds no depth but its own. -/
theorem depth_insertNew_le (m : String × Json) (ms : List (String × Json)) :
    depthMembers (Ordered.insertNew Prod.fst m ms) ≤ max m.2.depth (depthMembers ms) := by
  induction ms with
  | nil => simp [Ordered.insertNew, depthMembers]
  | cons m' ms ih =>
    rw [Ordered.insertNew]
    split
    · exact Nat.le_refl _
    · split
      · exact Nat.le_max_right _ _
      · simp only [depthMembers]
        omega

mutual
/-- A canonical form is no deeper than the tree. -/
theorem depth_canonical_le : ∀ j : Json, j.canonical.depth ≤ j.depth
  | array items => Nat.succ_le_succ (depth_canonicalItems_le items)
  | object members => Nat.succ_le_succ (depth_canonicalMembers_le members)
  | null | bool _ | number _ | string _ | flawed _ => Nat.le_refl _

/-- Items do not get deeper by becoming canonical. -/
theorem depth_canonicalItems_le : ∀ js : List Json, depthItems (canonicalItems js) ≤ depthItems js
  | [] => Nat.le_refl _
  | j :: js => by
    have hj := depth_canonical_le j
    have hjs := depth_canonicalItems_le js
    simp only [canonicalItems, depthItems]
    omega

/-- Members do not get deeper by becoming canonical. -/
theorem depth_canonicalMembers_le : ∀ ms : List (String × Json),
    depthMembers (canonicalMembers ms) ≤ depthMembers ms
  | [] => Nat.le_refl _
  | (name, j) :: ms => by
    have hj := depth_canonical_le j
    have hms := depth_canonicalMembers_le ms
    have hinsert : _ ≤ max j.canonical.depth (depthMembers (canonicalMembers ms)) :=
      depth_insertNew_le (name, j.canonical) (canonicalMembers ms)
    simp only [canonicalMembers, depthMembers]
    omega
end

end Json

/-- A type of data is known by its name. -/
theorem DataType.ofName?_name (t : DataType) : DataType.ofName? t.name = some t := by
  cases t <;> rfl

/-! ### Fields -/

namespace Field

/-- A forest is written field by field. -/
theorem forestToJson_eq_map (fs : List Field) : forestToJson fs = fs.map toJson := by
  induction fs with
  | nil => rfl
  | cons f fs ih => rw [forestToJson, ih, List.map_cons]

/-- The members of a field. -/
def members (f : Field) : List (String × Json) :=
  [("id", .string f.id), ("name", .string f.name), ("type", .string f.dataType.name)] ++
    Json.member? "children" (f.children.map fun fs => .array (fs.map toJson)) ++
    Json.member? "groupBy" (f.groupBy.map .string)

/-- A field is written as the object of its members. -/
theorem toJson_eq (f : Field) : f.toJson = .object f.members := by
  obtain ⟨id, name, dataType, children, groupBy⟩ := f
  cases children with
  | none => rfl
  | some fs =>
    simp only [toJson, childrenMember, forestToJson_eq_map]
    rfl

/-- No member of a field is written twice. -/
theorem nodup_members (f : Field) : (f.members.map Prod.fst).Nodup := by
  unfold members
  cases f.children <;> cases f.groupBy <;> simp [Json.member?]

/-- Children are written if there is a list of them, be it empty. -/
theorem get?_members_children (f : Field) : (Json.object f.members).get? "children" =
    f.children.map fun fs => .array (fs.map toJson) := by
  unfold members
  cases f.children <;> cases f.groupBy <;> rfl

/-- A grouping is written under its current name only. -/
theorem get?_members_groupBy (f : Field) :
    (Json.object f.members).get? "groupBy" = f.groupBy.map .string ∧
      (Json.object f.members).get? "group_by" = none := by
  unfold members
  cases f.children <;> cases f.groupBy <;> exact ⟨rfl, rfl⟩

mutual
/-- **A written field is tidy**, whatever is in it. -/
theorem isTidy_toJson : ∀ f : Field, f.toJson.IsTidy
  | ⟨id, name, dataType, children, groupBy⟩ => by
    have hchildren := isTidy_childrenMember children
    have hnodup := nodup_members ⟨id, name, dataType, children, groupBy⟩
    rw [toJson, Json.isTidy_object]
    cases children <;> cases groupBy <;>
      simp_all [childrenMember, Json.member?]

/-- Written children are tidy. -/
theorem isTidy_childrenMember : ∀ children : Option (List Field),
    ∀ m ∈ childrenMember children, m.2.IsTidy
  | none => nofun
  | some fs => List.forall_mem_singleton.2 (Json.isTidy_array.2 (isTidy_forestToJson fs))

/-- A written forest is tidy. -/
theorem isTidy_forestToJson : ∀ fs : List Field, ∀ j ∈ forestToJson fs, j.IsTidy
  | [] => nofun
  | f :: fs => List.forall_mem_cons.2 ⟨isTidy_toJson f, isTidy_forestToJson fs⟩
end

/-- **A tree is read as far as the fuel goes.**  A child lies inside the member that holds the
children, so its document is less deep. -/
theorem reads_decodeWithin {fuel : Nat} {f : Field} (hfuel : f.toJson.canonical.depth < fuel) :
    (decodeWithin fuel).Reads f.toJson f := by
  induction fuel generalizing f with
  | zero => exact absurd hfuel (Nat.not_lt_zero _)
  | succ fuel ih =>
    rw [toJson_eq] at hfuel ⊢
    have hid : (Form.required "id" .text).Reads f.members f.id :=
      Form.reads_required rfl (Decoder.reads_text f.id)
    have hname : (Form.required "name" .text).Reads f.members f.name :=
      Form.reads_required rfl (Decoder.reads_text f.name)
    have htype : (Form.defaulted "type" DataType.string DataType.decode).Reads f.members
        f.dataType := Form.reads_defaulted rfl (Decoder.reads_choice f.dataType.ofName?_name)
    have hchildren : (Form.optional "children" (.list (decodeWithin fuel))).Reads f.members
        f.children := by
      refine Form.reads_optional f.get?_members_children (fun _ => rfl) fun fs hfs =>
        Decoder.reads_list fun g hg => ih ?_
      have hwritten : (Json.object f.members).canonical.get? "children" =
          some (Json.array (fs.map toJson)).canonical := by
        rw [Json.get?_canonical f.nodup_members, f.get?_members_children, hfs]
        rfl
      have hitem : g.toJson.canonical.depth < (Json.array (fs.map toJson)).canonical.depth := by
        rw [Json.canonical, Json.canonicalItems_eq_map]
        exact Json.depth_lt_of_mem (List.mem_map_of_mem (List.mem_map_of_mem hg))
      have hmember : (Json.array (fs.map toJson)).canonical.depth <
          (Json.object f.members).canonical.depth := Json.depth_lt_of_get? hwritten
      omega
    obtain ⟨hwritten, hother⟩ := f.get?_members_groupBy
    have hgroupBy : (Form.member "groupBy" ["group_by"] (some none) (.option .text)).Reads f.members
        f.groupBy := Form.reads_option (List.forall_mem_singleton.2 hother) hwritten (fun _ => rfl)
      fun s _ => Decoder.reads_text s
    rw [decodeWithin, form]
    have hall := hid.and (hname.and (htype.and (hchildren.and hgroupBy (by simp)) (by simp))
      (by simp)) (by simp)
    exact (hall.map (by cases f; rfl)).decode f.nodup_members

/-- **A field is read again.** -/
theorem reads_toJson (f : Field) : decode.Reads f.toJson f := fun mode doc hdoc =>
  reads_decodeWithin (hdoc.canonical_eq ▸ Nat.lt_succ_of_le doc.depth_canonical_le) mode doc hdoc

/-- **A field is read again from its stored value.** -/
theorem decode_canonical (f : Field) (mode : Reading) :
    decode mode f.toJson.canonical = .ok f :=
  f.reads_toJson mode _ f.toJson.says_canonical

end Field
end MappingCanvas
