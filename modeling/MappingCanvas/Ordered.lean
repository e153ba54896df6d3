/-
# Lists in ascending order of a text key

Tables, sets of paths and the objects of stored JSON values keep one entry for each key, in
ascending order of the keys (by code point).  An entry is added with `insertNew`, which leaves an
entry that is already there alone; so a list of entries is put in order from its end, and the
last of several entries with one key stays.

`ascending_ofEntries` says that the result is in order, `ofEntries_of_ascending` that a list which
is already in order is its own result.
-/

namespace MappingCanvas
namespace Ordered

variable {α : Type} (key : α → String)

/-- Each key is below the next one. -/
def Ascending (xs : List α) : Prop := xs.Pairwise fun x y => key x < key y

/-- Adds an entry at its place, unless its key is there. -/
def insertNew (x : α) : List α → List α
  | [] => [x]
  | y :: ys =>
    if key x < key y then x :: y :: ys
    else if key x = key y then y :: ys
    else y :: insertNew x ys

/-- The entries in order; of several with one key the last. -/
def ofEntries : List α → List α
  | [] => []
  | x :: xs => insertNew key x (ofEntries xs)

/-- Of two different texts one comes first. -/
theorem lt_of_not_lt_of_ne {a b : String} (h : ¬a < b) (hne : a ≠ b) : b < a := by
  rcases String.le_total a b with hab | hba
  · exact absurd (String.le_antisymm hab (String.not_lt.1 h)) hne
  · exact String.not_le.1 fun hab => hne (String.le_antisymm hab hba)

/-- What is in a list after an insertion is the new element or was there before. -/
theorem mem_insertNew {x y : α} {ys : List α} (h : y ∈ insertNew key x ys) : y = x ∨ y ∈ ys := by
  induction ys with
  | nil => simpa [insertNew] using h
  | cons z zs ih =>
    simp only [insertNew] at h
    split at h
    · simpa using h
    · split at h
      · exact .inr h
      · rcases List.mem_cons.1 h with rfl | h
        · simp
        · rcases ih h with rfl | h <;> simp [*]

/-- **An insertion keeps the keys ascending.** -/
theorem ascending_insertNew {x : α} {ys : List α} (h : Ascending key ys) :
    Ascending key (insertNew key x ys) := by
  induction ys with
  | nil => simp [insertNew, Ascending]
  | cons z zs ih =>
    have hz := List.pairwise_cons.1 h
    simp only [insertNew]
    split
    · rename_i hlt
      refine List.pairwise_cons.2 ⟨fun w hw => ?_, h⟩
      rcases List.mem_cons.1 hw with rfl | hw
      · exact hlt
      · exact String.lt_trans hlt (hz.1 w hw)
    · split
      · exact h
      · rename_i hlt hne
        refine List.pairwise_cons.2 ⟨fun w hw => ?_, ih hz.2⟩
        rcases mem_insertNew key hw with rfl | hw
        · exact lt_of_not_lt_of_ne hlt hne
        · exact hz.1 w hw

/-- **Whatever order entries are given in, they are kept in that of their keys.** -/
theorem ascending_ofEntries (xs : List α) : Ascending key (ofEntries key xs) := by
  induction xs with
  | nil => exact List.Pairwise.nil
  | cons x xs ih => exact ascending_insertNew key ih

/-- What comes before everything else is put in front. -/
theorem insertNew_of_lt {x : α} {ys : List α} (h : ∀ y ∈ ys, key x < key y) :
    insertNew key x ys = x :: ys := by
  cases ys with
  | nil => rfl
  | cons y ys => simp [insertNew, h y]

/-- Entries that ascend already are kept as they are. -/
theorem ofEntries_of_ascending {xs : List α} (h : Ascending key xs) : ofEntries key xs = xs := by
  induction xs with
  | nil => rfl
  | cons x xs ih =>
    have hx := List.pairwise_cons.1 h
    rw [ofEntries, ih hx.2, insertNew_of_lt key hx.1]

end Ordered

/-- A table from texts to texts, in ascending order of its keys. -/
structure Table where
  entries : List (String × String)
  ascending : Ordered.Ascending Prod.fst entries

namespace Table

instance : Inhabited Table := ⟨⟨[], List.Pairwise.nil⟩⟩

instance : BEq Table := ⟨fun a b => a.entries == b.entries⟩

/-- The table without entries. -/
def empty : Table := default

/-- The table of some entries; of several with one key the last. -/
def ofList (entries : List (String × String)) : Table :=
  ⟨Ordered.ofEntries Prod.fst entries, Ordered.ascending_ofEntries _ entries⟩

/-- A table is the table of its entries. -/
@[simp] theorem ofList_entries (t : Table) : ofList t.entries = t := by
  cases t with
  | mk entries ascending => simp [ofList, Ordered.ofEntries_of_ascending _ ascending]

end Table

/-- A set of texts, in ascending order. -/
structure TextSet where
  toList : List String
  ascending : Ordered.Ascending id toList

namespace TextSet

instance : Inhabited TextSet := ⟨⟨[], List.Pairwise.nil⟩⟩

instance : BEq TextSet := ⟨fun a b => a.toList == b.toList⟩

/-- The set without elements. -/
def empty : TextSet := default

/-- The set of some texts. -/
def ofList (texts : List String) : TextSet :=
  ⟨Ordered.ofEntries id texts, Ordered.ascending_ofEntries _ texts⟩

/-- Adds some texts to a set. -/
def addAll (s : TextSet) (texts : List String) : TextSet := ofList (texts ++ s.toList)

/-- A set is the set of its elements. -/
@[simp] theorem ofList_toList (s : TextSet) : ofList s.toList = s := by
  cases s with
  | mk toList ascending => simp [ofList, Ordered.ofEntries_of_ascending _ ascending]

end TextSet
end MappingCanvas
