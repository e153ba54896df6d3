/-
# Schemas as documents

A field is written with its id, name and type, then its children and its grouping if it has them.
The grouping may also be called `group_by`; the type may be missing and is then `string`.
-/

import MappingCanvas.Json.Decode
import MappingCanvas.Schema.Grouping

namespace MappingCanvas

/-- A data type, by name. -/
def DataType.decode : Decoder DataType := Decoder.choice DataType.ofName?

namespace Field

mutual
/-- A field as a document. -/
def toJson : Field → Json
  | ⟨id, name, dataType, children, groupBy⟩ =>
    .object ([("id", .string id), ("name", .string name), ("type", .string dataType.name)] ++
      childrenMember children ++ Json.member? "groupBy" (groupBy.map .string))

/-- The member for the children of a field. -/
def childrenMember : Option (List Field) → List (String × Json)
  | none => []
  | some fs => [("children", .array (forestToJson fs))]

/-- The fields of a forest as documents. -/
def forestToJson : List Field → List Json
  | [] => []
  | f :: fs => f.toJson :: forestToJson fs
end

/-- The members of a field, with a decoder for its children. -/
def form (child : Decoder Field) : Form Field :=
  (Form.required "id" .text).and ((Form.required "name" .text).and
    ((Form.defaulted "type" DataType.string DataType.decode).and
      ((Form.optional "children" (.list child)).and
        (Form.member "groupBy" ["group_by"] (some none) (.option .text)))))
  |>.map fun (id, name, dataType, children, groupBy) => ⟨id, name, dataType, children, groupBy⟩

/-- Reads a field tree of less than `fuel` levels. -/
def decodeWithin : Nat → Decoder Field
  | 0 => fun _ _ => .error (.malformed .tooDeep)
  | fuel + 1 => (form (decodeWithin fuel)).decode

/-- Reads a field; a tree has no more levels than its document. -/
def decode : Decoder Field := fun mode j => decodeWithin (j.depth + 1) mode j

end Field

namespace Grouping

/-- A grouping as a document. -/
def toJson (g : Grouping) : Json :=
  .object ([("target", .string g.target)] ++ Json.member? "source" (g.source.map .string) ++
    Json.member? "groupBy" (g.groupBy.map .string))

/-- The members of a grouping. -/
def form : Form Grouping :=
  (Form.required "target" .text).and ((Form.optional "source" .text).and
    (Form.member "groupBy" ["group_by"] (some none) (.option .text)))
  |>.map fun (target, source, groupBy) => ⟨target, source, groupBy⟩

/-- Reads a grouping. -/
def decode : Decoder Grouping := form.decode

end Grouping
end MappingCanvas
