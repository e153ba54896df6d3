/-
# Suggestions in an answer

An answer is any text.  The array in it goes from the first opening bracket to the last closing one
(`bracketed?_eq_some_iff`), and there is none exactly when no opening bracket stands somewhere
before a closing one (`bracketed?_eq_none_iff`).  So an array is found between any texts of which
the one in front opens no bracket and the one behind closes none; they may have the other brackets
(`bracketed?_append`).

Suggestions that were read once are therefore read again from an answer that quotes them in either
layout, between other words: those that were recognised as they are, and the refused ones refused
(`parseAnswer_quoted`).  That the text of the array is read as the array is a hypothesis here.
-/

import Mathlib.Data.List.TakeWhile
import MappingCanvas.Proofs.Result
import MappingCanvas.Proofs.Rule.Varint
import MappingCanvas.Proofs.Suggestion.Record
import MappingCanvas.Suggestion.Request

namespace MappingCanvas
namespace Suggestion

/-! ### Brackets -/

section

variable {c d : Char} {cs front back : List Char}

/-- What is dropped ends at the first occurrence. -/
theorem dropWhile_ne_append (h : c ∉ front) :
    (front ++ c :: back).dropWhile (· ≠ c) = c :: back := by
  have hfront : ∀ d ∈ front, decide (d ≠ c) = true := fun d hd =>
    decide_eq_true fun heq => h (heq ▸ hd)
  rw [List.dropWhile_append_of_pos hfront]
  exact List.dropWhile_cons_of_neg (by simp)

/-- Everything is dropped only where the character does not occur. -/
theorem dropWhile_ne_eq_nil_iff : cs.dropWhile (· ≠ c) = [] ↔ c ∉ cs := by
  rw [List.dropWhile_eq_nil_iff]
  constructor
  · intro h hc
    simpa using h c hc
  · intro h d hd
    exact decide_eq_true fun heq => h (heq ▸ hd)

/-- A character stands behind the first of another kind exactly when it stands behind any. -/
theorem mem_dropWhile_ne_iff (h : c ≠ d) : c ∈ cs.dropWhile (· ≠ d) ↔
    ∃ front middle back, cs = front ++ d :: (middle ++ c :: back) := by
  constructor
  · intro hc
    have hd : d ∈ cs := by
      by_contra hd
      rw [dropWhile_ne_eq_nil_iff.2 hd] at hc
      cases hc
    obtain ⟨front, rest, rfl, hfront⟩ := List.eq_append_cons_of_mem hd
    rw [dropWhile_ne_append hfront, List.mem_cons] at hc
    obtain ⟨middle, back, rfl⟩ := List.append_of_mem (hc.resolve_left h)
    exact ⟨front, middle, back, rfl⟩
  · rintro ⟨front, middle, back, rfl⟩
    rw [List.dropWhile_append]
    split
    · rw [List.dropWhile_cons_of_neg (by simp)]
      simp
    · simp

end

variable {before inner behind : List Char} {text array : String}

/-- An opening bracket stands somewhere before a closing one. -/
def Bracketed (text : String) : Prop :=
  ∃ front middle back, text.toList = front ++ '[' :: (middle ++ ']' :: back)

/-- A text parted at its first opening and its last closing bracket. -/
structure Parts (text : String) (before inner behind : List Char) : Prop where
  eq : text.toList = before ++ '[' :: (inner ++ ']' :: behind)
  first : '[' ∉ before
  last : ']' ∉ behind

/-- From its parts a text is cut down to the brackets and what is between them. -/
theorem Parts.bracketed?_eq (h : Parts text before inner behind) :
    bracketed? text = some (String.ofList ('[' :: (inner ++ [']']))) := by
  have hreverse : ('[' :: (inner ++ ']' :: behind)).reverse =
      behind.reverse ++ ']' :: ('[' :: inner).reverse := by simp
  have hlast : (']' :: ('[' :: inner).reverse).reverse = '[' :: (inner ++ [']']) := by simp
  simp only [bracketed?, h.eq, dropWhile_ne_append h.first, hreverse,
    dropWhile_ne_append (mt List.mem_reverse.1 h.last), hlast]
  rfl

/-- **Nothing is found exactly when no opening bracket stands before a closing one.** -/
theorem bracketed?_eq_none_iff : bracketed? text = none ↔ ¬Bracketed text := by
  have hnil : bracketed? text = none ↔
      (text.toList.dropWhile (· ≠ '[')).reverse.dropWhile (· ≠ ']') = [] := by
    simp only [bracketed?, ite_eq_left_iff, reduceCtorEq, imp_false, not_not, List.isEmpty_iff,
      List.reverse_eq_nil_iff]
  rw [hnil, dropWhile_ne_eq_nil_iff, List.mem_reverse, mem_dropWhile_ne_iff (by decide),
    Bracketed]

/-- A text with an opening bracket before a closing one has such parts. -/
theorem Bracketed.exists_parts (h : Bracketed text) :
    ∃ before inner behind, Parts text before inner behind := by
  obtain ⟨front, middle, back, htext⟩ := h
  have hopening : '[' ∈ text.toList := by simp [htext]
  obtain ⟨before, rest, hbefore, hfirst⟩ := List.eq_append_cons_of_mem hopening
  have hclosing : ']' ∈ rest.reverse := by
    have hmem := (mem_dropWhile_ne_iff (by decide)).2 ⟨front, middle, back, htext⟩
    rw [hbefore, dropWhile_ne_append hfirst] at hmem
    simpa using hmem
  obtain ⟨behind, inner, hbehind, hlast⟩ := List.eq_append_cons_of_mem hclosing
  refine ⟨before, inner.reverse, behind.reverse, ?_, hfirst, mt List.mem_reverse.1 hlast⟩
  rw [hbefore, ← List.reverse_reverse rest, hbehind]
  simp

/-- **What is found goes from the first opening to the last closing bracket.** -/
theorem bracketed?_eq_some_iff : bracketed? text = some array ↔
    ∃ before inner behind, Parts text before inner behind ∧
      array.toList = '[' :: (inner ++ [']']) := by
  constructor
  · intro h
    have hbracketed : Bracketed text := by
      by_contra hnone
      cases h.symm.trans (bracketed?_eq_none_iff.2 hnone)
    obtain ⟨before, inner, behind, hparts⟩ := hbracketed.exists_parts
    refine ⟨before, inner, behind, hparts, ?_⟩
    rw [Option.some.inj (h.symm.trans hparts.bracketed?_eq), String.toList_ofList]
  · rintro ⟨before, inner, behind, hparts, harray⟩
    rw [hparts.bracketed?_eq, ← harray, String.ofList_toList]

/-- **An array between other words is found**, if the words in front open no bracket and those
behind close none. -/
theorem bracketed?_append {front back : String} (harray : array.toList = '[' :: (inner ++ [']']))
    (hfront : '[' ∉ front.toList) (hback : ']' ∉ back.toList) :
    bracketed? (front ++ array ++ back) = some array :=
  bracketed?_eq_some_iff.2 ⟨front.toList, inner, back.toList,
    ⟨by simp [String.toList_append, harray], hfront, hback⟩, harray⟩

/-- A compact array begins and ends with its brackets. -/
theorem exists_compact_array (items : List Json) :
    ∃ inner, (Json.array items).compact.toList = '[' :: (inner ++ [']']) :=
  ⟨_, by rw [Json.compact, String.toList_append, String.toList_append]; rfl⟩

/-- A pretty array begins and ends with its brackets. -/
theorem exists_pretty_array (items : List Json) :
    ∃ inner, (Json.array items).pretty.toList = '[' :: (inner ++ [']']) := by
  rw [Json.pretty, Json.prettyAt, Json.block]
  split
  · exact ⟨[], rfl⟩
  · refine ⟨(Json.newLine 1 ++ ("," ++ Json.newLine 1).intercalate (Json.prettyItems 1 items) ++
      Json.newLine 0).toList, ?_⟩
    simp [String.toList_append]

/-! ### Answers -/

/-- Suggestions as a document. -/
def document (ss : List Suggestion) : Json := .array (ss.map toJson)

/-- Suggestions are written without a repeated name. -/
theorem isTidy_document (ss : List Suggestion) : (document ss).IsTidy :=
  Json.isTidy_array.2 (List.forall_mem_map.2 fun s _ => s.isTidy_toJson)

/-- Suggestions are read one by one, each as its record is. -/
theorem reads_document (ss : List Suggestion) :
    (Decoder.list decode).Reads (document ss) (ss.map fun s => ofRecord s.toRecord) := by
  refine Decoder.reads_items ?_
  rw [List.forall₂_map_left_iff, List.forall₂_map_right_iff, List.forall₂_same]
  exact fun s _ => s.reads_toJson

/-- What is between the brackets may be refused, but not for being missing. -/
theorem parseAnswer_eq_missingArray_iff :
    parseAnswer text = .error .missingArray ↔ ¬Bracketed text := by
  rw [← bracketed?_eq_none_iff, parseAnswer]
  cases bracketed? text with
  | none => simp
  | some array => simp [mapError_eq_error_iff]

/-- **Suggestions survive in an answer, and what is refused stays refused.**  Suggestions that were
read off documents are written as an array, in either layout, and quoted between words that open no
bracket in front and close none behind.  If the text of the array is read as the array, then all of
them come back, in order: the recognised ones as they are, the others unrecognised, of the same type
and for the same target.  An answer lacks an array exactly when no opening bracket stands before a
closing one. -/
theorem parseAnswer_quoted :
    (∀ (ss : List Suggestion) (front text back : String),
      (∀ s ∈ ss, ∃ mode doc, decode mode doc = .ok s) →
      text = (document ss).compact ∨ text = (document ss).pretty →
      Json.read text = ⟨document ss, none⟩ →
      '[' ∉ front.toList → ']' ∉ back.toList →
      ∃ ss', parseAnswer (front ++ text ++ back) = .ok ss' ∧ List.Forall₂ Returned ss ss') ∧
    ∀ text, parseAnswer text = .error .missingArray ↔ ¬Bracketed text := by
  refine ⟨fun ss front text back hss htext hread hfront hback => ?_,
    fun _ => parseAnswer_eq_missingArray_iff⟩
  obtain ⟨inner, harray⟩ : ∃ inner, text.toList = '[' :: (inner ++ [']']) := by
    rcases htext with rfl | rfl
    · exact exists_compact_array _
    · exact exists_pretty_array _
  refine ⟨ss.map fun s => ofRecord s.toRecord, ?_, ?_⟩
  · have hlist := (reads_document ss).eq_ok (isTidy_document ss) .streamed
    rw [parseAnswer, bracketed?_append harray hfront hback]
    simp only [Decoder.ofText, Decoder.ofScan, hread, hlist]
    rfl
  · rw [List.forall₂_map_right_iff, List.forall₂_same]
    intro s hs
    obtain ⟨mode, doc, hdoc⟩ := hss s hs
    exact (readable_of_decode hdoc).returned

/-- A lookup without its table and a constant without its value. -/
def sample : List Suggestion :=
  [.unrecognised "table" (some "t") "missing table", .constant "u" .null]

set_option maxRecDepth 2000 in
/-- The text of the sample is read as its document. -/
theorem read_sample : Json.read (document sample).compact = ⟨document sample, none⟩ := by
  rw [Json.read, Varint.toList_eq]
  rfl

/-- The sample is read again between words that have the other brackets; a text that has the
brackets in the wrong order has no array. -/
theorem parseAnswer_quoted_sample :
    (∀ s ∈ sample, ∃ mode doc, decode mode doc = .ok s) ∧
      Json.read (document sample).compact = ⟨document sample, none⟩ ∧
      (∃ ss, parseAnswer ("1] Sure: " ++ (document sample).compact ++ " [end") = .ok ss ∧
        List.Forall₂ Returned sample ss) ∧
      parseAnswer "] or [" = .error .missingArray := by
  have hlookUp : decode .streamed (.object [("mapping_type", .string "table"),
      ("source_field", .string "s"), ("target_field", .string "t")]) =
        .ok (.unrecognised "table" (some "t") "missing table") := rfl
  have hconstant : decode .streamed (.object [("target_field", .string "u"),
      ("mapping_type", .string "static"), ("static_value", .null)]) = .ok (.constant "u" .null) :=
    rfl
  have hdecoded : ∀ s ∈ sample, ∃ mode doc, decode mode doc = .ok s := by
    simp only [sample, List.forall_mem_cons]
    exact ⟨⟨_, _, hlookUp⟩, ⟨_, _, hconstant⟩, nofun⟩
  obtain ⟨hquoted, hmissing⟩ := parseAnswer_quoted
  refine ⟨hdecoded, read_sample,
    hquoted sample _ _ _ hdecoded (.inl rfl) read_sample (by simp) (by simp), ?_⟩
  rw [hmissing, ← bracketed?_eq_none_iff]
  rfl

end Suggestion
end MappingCanvas
