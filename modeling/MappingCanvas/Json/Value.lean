/-
# Stored JSON values

The free-form parts of a document (sample records, constants, data of unknown nodes) are kept as
values: trees without flaws whose objects hold each name once, in ascending order.  Equal contents
have one such tree, `Json.canonical` finds it (the last of several members with one name stays),
and a `Value` is a tree together with the proof that it is its own canonical form.
-/

import MappingCanvas.Json.Basic
import MappingCanvas.Ordered

namespace MappingCanvas
namespace Json

mutual
/-- Names ascend in every object, and nothing is flawed. -/
def IsCanonical : Json → Prop
  | array items => CanonicalItems items
  | object members => Ordered.Ascending Prod.fst members ∧ CanonicalMembers members
  | flawed _ => False
  | _ => True

/-- All items are canonical. -/
def CanonicalItems : List Json → Prop
  | [] => True
  | j :: js => j.IsCanonical ∧ CanonicalItems js

/-- All members are canonical. -/
def CanonicalMembers : List (String × Json) → Prop
  | [] => True
  | (_, j) :: ms => j.IsCanonical ∧ CanonicalMembers ms
end

mutual
/-- The tree with names in ascending order, the last of several members with one name, and `null`
for a flaw. -/
def canonical : Json → Json
  | array items => array (canonicalItems items)
  | object members => object (canonicalMembers members)
  | flawed _ => null
  | null => null
  | bool b => bool b
  | number n => number n
  | string s => string s

/-- The canonical forms of some items. -/
def canonicalItems : List Json → List Json
  | [] => []
  | j :: js => j.canonical :: canonicalItems js

/-- Some members in order, with canonical values. -/
def canonicalMembers : List (String × Json) → List (String × Json)
  | [] => []
  | (name, j) :: ms => Ordered.insertNew Prod.fst (name, j.canonical) (canonicalMembers ms)
end

/-- What is asked of all members at once is asked of each. -/
theorem canonicalMembers_iff {ms : List (String × Json)} :
    CanonicalMembers ms ↔ ∀ m ∈ ms, m.2.IsCanonical := by
  induction ms with
  | nil => simp [CanonicalMembers]
  | cons m ms ih => simp [CanonicalMembers, ih]

/-- A canonical member among canonical ones leaves all of them canonical. -/
theorem canonicalMembers_insertNew {m : String × Json} {ms : List (String × Json)}
    (hm : m.2.IsCanonical) (hms : CanonicalMembers ms) :
    CanonicalMembers (Ordered.insertNew Prod.fst m ms) := by
  rw [canonicalMembers_iff] at *
  intro n hn
  rcases Ordered.mem_insertNew Prod.fst hn with rfl | hn
  · exact hm
  · exact hms n hn

mutual
/-- **The canonical form is canonical**, whatever the tree was. -/
theorem isCanonical_canonical : ∀ j : Json, j.canonical.IsCanonical
  | array items => canonicalItems_canonicalItems items
  | object members => canonicalMembers_canonicalMembers members
  | flawed _ | null | bool _ | number _ | string _ => trivial

/-- The canonical forms of items are canonical. -/
theorem canonicalItems_canonicalItems : ∀ js : List Json, CanonicalItems (canonicalItems js)
  | [] => trivial
  | j :: js => ⟨isCanonical_canonical j, canonicalItems_canonicalItems js⟩

/-- The members of a canonical form ascend, and their values are canonical. -/
theorem canonicalMembers_canonicalMembers : ∀ ms : List (String × Json),
    Ordered.Ascending Prod.fst (canonicalMembers ms) ∧ CanonicalMembers (canonicalMembers ms)
  | [] => ⟨List.Pairwise.nil, trivial⟩
  | (_, j) :: ms =>
    have ih := canonicalMembers_canonicalMembers ms
    ⟨Ordered.ascending_insertNew _ ih.1, canonicalMembers_insertNew (isCanonical_canonical j) ih.2⟩
end

mutual
/-- **A canonical tree is its own canonical form**, so nothing is lost by storing it. -/
theorem canonical_of_isCanonical : ∀ j : Json, j.IsCanonical → j.canonical = j
  | array items, h => by
    rw [canonical, canonicalItems_of_canonicalItems items h]
  | object members, h => by
    rw [canonical, canonicalMembers_of_canonicalMembers members h.1 h.2]
  | null, _ | bool _, _ | number _, _ | string _, _ => rfl

/-- Canonical items are their own canonical forms. -/
theorem canonicalItems_of_canonicalItems : ∀ js : List Json,
    CanonicalItems js → canonicalItems js = js
  | [], _ => rfl
  | j :: js, h => by
    rw [canonicalItems, canonical_of_isCanonical j h.1, canonicalItems_of_canonicalItems js h.2]

/-- Canonical members in ascending order are left as they are. -/
theorem canonicalMembers_of_canonicalMembers : ∀ ms : List (String × Json),
    Ordered.Ascending Prod.fst ms → CanonicalMembers ms → canonicalMembers ms = ms
  | [], _, _ => rfl
  | (name, j) :: ms, ha, h => by
    have ha := List.pairwise_cons.1 ha
    rw [canonicalMembers, canonical_of_isCanonical j h.1,
      canonicalMembers_of_canonicalMembers ms ha.2 h.2, Ordered.insertNew_of_lt _ ha.1]
end

end Json

/-- A JSON value in canonical form. -/
structure Value where
  json : Json
  canonical : json.IsCanonical

namespace Value

/-- The value of a document. -/
def ofJson (j : Json) : Value := ⟨j.canonical, j.isCanonical_canonical⟩

/-- The value of the document of a value is the value itself. -/
@[simp] theorem ofJson_json (v : Value) : ofJson v.json = v := by
  cases v with
  | mk json canonical => simp [ofJson, json.canonical_of_isCanonical canonical]

/-- The value `null`. -/
def null : Value := ofJson .null

/-- A text as a value. -/
def string (s : String) : Value := ofJson (.string s)

/-- The object with the given members; of several with one name the last. -/
def object (members : List (String × Value)) : Value :=
  ofJson (.object (members.map fun m => (m.1, m.2.json)))

instance : Inhabited Value := ⟨null⟩

instance : BEq Value := ⟨fun a b => a.json == b.json⟩

/-- The member of an object with the given name. -/
def get? (v : Value) (name : String) : Option Value := (v.json.get? name).map ofJson

/-- Whether the value is the word `null`. -/
def isNull (v : Value) : Bool := v.json.isNull

end Value
end MappingCanvas
