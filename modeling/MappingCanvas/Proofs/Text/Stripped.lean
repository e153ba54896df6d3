/-
# Texts and what is stripped from them

Stripping parts a text into what is taken away in front, what is left, and what is taken away behind
(`exists_eq_stripEnds`).  So nothing that is stripped makes a difference at either end
(`stripEnds_append_left`, `stripEnds_append_right`), and nothing is left of a text that has nothing
else (`stripEnds_eq_nil_iff`).
-/

import Mathlib.Data.List.TakeWhile
import MappingCanvas.Text.Blank

namespace MappingCanvas
namespace Text

variable {p : Char → Bool} {cs front back : List Char} {c : Char}

/-- What is stripped in front makes no difference. -/
theorem stripEnds_append_left (h : ∀ c ∈ front, p c = true) :
    stripEnds p (front ++ cs) = stripEnds p cs := by
  rw [stripEnds, List.dropWhile_append_of_pos h, stripEnds]

/-- What is stripped behind makes no difference. -/
theorem stripEnds_append_right (h : ∀ c ∈ back, p c = true) :
    stripEnds p (cs ++ back) = stripEnds p cs := by
  have hback : back.dropWhile p = [] := List.dropWhile_eq_nil_iff.2 h
  rw [stripEnds, stripEnds, List.dropWhile_append]
  split
  · rename_i hnil
    rw [hback, List.isEmpty_iff.1 hnil]
  · rw [List.reverse_append,
      List.dropWhile_append_of_pos fun c hc => h c (List.mem_reverse.1 hc)]

/-- **Stripping parts a text.** -/
theorem exists_eq_stripEnds (p : Char → Bool) (cs : List Char) : ∃ front back,
    cs = front ++ stripEnds p cs ++ back ∧ (∀ c ∈ front, p c = true) ∧ ∀ c ∈ back, p c = true := by
  have htake : ∀ ds : List Char, ∀ c ∈ ds.takeWhile p, p c = true := fun ds c hc =>
    List.mem_takeWhile_imp hc
  refine ⟨cs.takeWhile p, ((cs.dropWhile p).reverse.takeWhile p).reverse, ?_, htake cs,
    fun c hc => htake _ c (List.mem_reverse.1 hc)⟩
  have hrest : stripEnds p cs ++ ((cs.dropWhile p).reverse.takeWhile p).reverse =
      cs.dropWhile p := by
    rw [stripEnds, ← List.reverse_append, List.takeWhile_append_dropWhile, List.reverse_reverse]
  rw [List.append_assoc, hrest, List.takeWhile_append_dropWhile]

/-- **Nothing is left of a text exactly when all of it is stripped.** -/
theorem stripEnds_eq_nil_iff : stripEnds p cs = [] ↔ ∀ c ∈ cs, p c = true := by
  constructor
  · intro h
    obtain ⟨front, back, hcs, hfront, hback⟩ := exists_eq_stripEnds p cs
    rw [h, List.append_nil] at hcs
    intro c hc
    rw [hcs] at hc
    rcases List.mem_append.1 hc with hc | hc
    · exact hfront c hc
    · exact hback c hc
  · intro h
    have hall : stripEnds p (cs ++ []) = stripEnds p [] := stripEnds_append_left h
    rw [List.append_nil] at hall
    exact hall

/-- Nothing is stripped from a text between two characters that are not. -/
theorem stripEnds_enclosed (h : p c = false) :
    stripEnds p (c :: cs ++ [c]) = c :: cs ++ [c] := by
  have hkeep : ∀ ds : List Char, (c :: ds).dropWhile p = c :: ds := fun ds =>
    List.dropWhile_cons_of_neg (by simp [h])
  have hreverse : (c :: cs ++ [c]).reverse = c :: (c :: cs).reverse := by simp
  rw [stripEnds, List.cons_append, hkeep, ← List.cons_append, hreverse, hkeep, ← hreverse,
    List.reverse_reverse]

end Text
end MappingCanvas
