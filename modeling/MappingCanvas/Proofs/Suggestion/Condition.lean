/-
# Where a condition in words is split

A condition is split at the first place where an operator symbol stands, by the longest symbol that
stands there (`SplitsAt`).  There is at most one way to do so, and it is found if there is any
(`splitAtSymbol?_eq_some_iff`, `splitAtSymbol?_eq_none_iff`).  To search every symbol by itself and
to take the one that stands first, or of those at one place the longest one, comes to the same
(`splitAtSymbol?_eq_search`).

Of the symbols only ` contains ` has blanks, one at either end.  So no symbol reaches across a
blank, and behind a field in which none stands, a blank and a symbol, the condition is split by that
symbol whatever follows (`IsOperand.parseCondition?_eq`).

What follows the symbol is the value.  Its quotes are taken off before it is looked at, so a quoted
numeral becomes a number like a bare one; every other quoted text stays a text
(`parseCondition?_quoted`).
-/

import Mathlib.Data.List.MinMax
import Mathlib.Data.Prod.Lex
import MappingCanvas.Proofs.Text.Numeral
import MappingCanvas.Proofs.Text.Stripped
import MappingCanvas.Suggestion.Condition

namespace MappingCanvas
namespace Suggestion

variable {cs before behind s t : List Char} {field text : String}

/-! ### Symbols -/

/-- The symbols are listed by descending length, so the first that begins at a place is the
longest. -/
theorem pairwise_symbols : symbols.Pairwise fun s t => t.length ≤ s.length := by decide +kernel

/-- Each symbol is that of a comparison, once the blanks around it are gone. -/
theorem isSome_ofSymbol? : ∀ s ∈ symbols,
    (Comparison.ofSymbol? (String.ofList (Text.stripEnds Text.isBlank s))).isSome := by
  decide +kernel

/-- Only the word has blanks, and they stand at its ends. -/
theorem blank_of_mem_symbols : ∀ t ∈ symbols, ∀ i < t.length, t[i]? = some ' ' →
    t = " contains ".toList ∧ (i = 0 ∨ i + 1 = t.length) := by
  decide +kernel

/-- No symbol fits between the blanks of the word. -/
theorem length_of_mem_symbols : ∀ s ∈ symbols,
    0 < s.length ∧ s.length ≤ 10 ∧ s.length + 1 ≠ 10 ∧ s[0]? ≠ some 'c' := by
  decide +kernel

/-- There is no symbol at a place exactly if none begins there. -/
theorem symbolAt?_eq_none_iff : symbolAt? cs = none ↔ ∀ s ∈ symbols, ¬s <+: cs := by
  simp [symbolAt?, List.find?_eq_none]

/-- **Of the symbols at the beginning of a text the longest one is taken.** -/
theorem of_symbolAt? (h : symbolAt? cs = some s) :
    s ∈ symbols ∧ s <+: cs ∧ ∀ t ∈ symbols, t <+: cs → t.length ≤ s.length := by
  obtain ⟨hs, longer, shorter, hsymbols, hlonger⟩ := List.find?_eq_some_iff_append.1 h
  have hmem : s ∈ symbols := by simp [hsymbols]
  refine ⟨hmem, List.isPrefixOf_iff_prefix.1 hs, ?_⟩
  intro t ht hbegins
  have hpairwise := pairwise_symbols
  rw [hsymbols] at ht hpairwise
  rcases List.mem_append.1 ht with ht | ht
  · have hno := hlonger t ht
    rw [List.isPrefixOf_iff_prefix.2 hbegins] at hno
    cases hno
  · rcases List.mem_cons.1 ht with rfl | ht
    · exact Nat.le_refl _
    · exact (List.pairwise_cons.1 (List.pairwise_append.1 hpairwise).2.1).1 t ht

/-! ### The first and longest symbol -/

/-- A text is split by a symbol: none begins before it, and none that begins where it does is
longer. -/
structure SplitsAt (cs before s behind : List Char) : Prop where
  eq : cs = before ++ s ++ behind
  mem : s ∈ symbols
  first : ∀ t ∈ symbols, ∀ pre, pre ++ t <+: cs → before.length ≤ pre.length
  longest : ∀ t ∈ symbols, before ++ t <+: cs → t.length ≤ s.length

/-- A text is what stands before the symbol, the symbol, and what stands behind it. -/
theorem SplitsAt.prefix_eq (h : SplitsAt cs before s behind) : before ++ s <+: cs :=
  ⟨behind, h.eq.symm⟩

/-- No symbol stands in front of the one that a text is split by. -/
theorem SplitsAt.not_infix (h : SplitsAt cs before s behind) : ∀ t ∈ symbols, ¬t <:+: before := by
  rintro t ht ⟨pre, post, hbefore⟩
  have hbegins : pre ++ t <+: cs := by
    refine ⟨post ++ (s ++ behind), ?_⟩
    rw [h.eq, ← hbefore, List.append_assoc, List.append_assoc, List.append_assoc,
      List.append_assoc]
  have hle := h.first t ht pre hbegins
  have hpos := (length_of_mem_symbols t ht).1
  simp only [← hbefore, List.length_append] at hle
  omega

/-- **There is one way to split a text.** -/
theorem SplitsAt.unique {before' s' behind' : List Char} (h : SplitsAt cs before s behind)
    (h' : SplitsAt cs before' s' behind') : before = before' ∧ s = s' ∧ behind = behind' := by
  have hle := h.first s' h'.mem before' h'.prefix_eq
  have hle' := h'.first s h.mem before h.prefix_eq
  obtain ⟨rfl, hrest⟩ : before = before' ∧ s ++ behind = s' ++ behind' := by
    refine List.append_inj ?_ (Nat.le_antisymm hle hle')
    rw [← List.append_assoc, ← List.append_assoc, ← h.eq, ← h'.eq]
  have hlength : s.length = s'.length :=
    Nat.le_antisymm (h'.longest s h.mem h.prefix_eq) (h.longest s' h'.mem h'.prefix_eq)
  obtain ⟨rfl, rfl⟩ := List.append_inj hrest hlength
  exact ⟨rfl, rfl, rfl⟩

/-- A text is not split exactly if no symbol stands in it. -/
theorem splitAtSymbol?_eq_none_iff :
    splitAtSymbol? cs = none ↔ ∀ s ∈ symbols, ¬s <:+: cs := by
  induction cs with
  | nil =>
    have hne : ∀ s ∈ symbols, s ≠ [] := fun s hs hnil =>
      absurd (length_of_mem_symbols s hs).1 (by simp [hnil])
    simpa [splitAtSymbol?] using hne
  | cons c cs ih =>
    simp only [List.infix_cons_iff, not_or, imp_and, forall_and, ← ih, ← symbolAt?_eq_none_iff]
    rw [splitAtSymbol?]
    cases symbolAt? (c :: cs) with
    | some s => simp
    | none => simp

/-- The split that is found is at the first place, by the longest symbol. -/
theorem splitsAt_of_splitAtSymbol? (h : splitAtSymbol? cs = some (before, s, behind)) :
    SplitsAt cs before s behind := by
  induction cs generalizing before with
  | nil => cases h
  | cons c cs ih =>
    rw [splitAtSymbol?] at h
    cases hat : symbolAt? (c :: cs) with
    | some s' =>
      rw [hat] at h
      obtain ⟨rfl, rfl, rfl⟩ : [] = before ∧ s' = s ∧ (c :: cs).drop s'.length = behind := by
        simpa using h
      obtain ⟨hmem, ⟨rest, hrest⟩, hlongest⟩ := of_symbolAt? hat
      refine ⟨?_, hmem, fun _ _ _ _ => Nat.zero_le _, hlongest⟩
      rw [← hrest, List.drop_left, List.nil_append]
    | none =>
      rw [hat] at h
      obtain ⟨⟨before', s', behind'⟩, hsplit, heq⟩ := Option.map_eq_some_iff.1 h
      obtain ⟨rfl, rfl, rfl⟩ : c :: before' = before ∧ s' = s ∧ behind' = behind := by
        simpa using heq
      obtain ⟨hcs, hmem, hfirst, hlongest⟩ := ih hsplit
      refine ⟨by rw [hcs]; rfl, hmem, fun t ht pre hpre => ?_, fun t ht hbegins => ?_⟩
      · rcases pre with _ | ⟨d, pre⟩
        · exact absurd hpre (symbolAt?_eq_none_iff.1 hat t ht)
        · exact Nat.succ_le_succ (hfirst t ht pre (List.cons_prefix_cons.1 hpre).2)
      · exact hlongest t ht (List.cons_prefix_cons.1 hbegins).2

/-- **A text is split at the first place where a symbol stands, by the longest symbol there.** -/
theorem splitAtSymbol?_eq_some_iff :
    splitAtSymbol? cs = some (before, s, behind) ↔ SplitsAt cs before s behind := by
  refine ⟨splitsAt_of_splitAtSymbol?, fun h => ?_⟩
  cases hsplit : splitAtSymbol? cs with
  | none =>
    exact absurd ⟨before, behind, h.eq.symm⟩ (splitAtSymbol?_eq_none_iff.1 hsplit s h.mem)
  | some parts =>
    obtain ⟨rfl, rfl, rfl⟩ := (splitsAt_of_splitAtSymbol? hsplit).unique h
    rfl

/-! ### Symbols searched one by one -/

/-- The first place at which a symbol stands in a text. -/
def firstPlace? (s cs : List Char) : Option Nat :=
  (List.range (cs.length + 1)).find? fun i => s.isPrefixOf (cs.drop i)

/-- The symbols that stand in a text, each with its first place. -/
def found (searched : List (List Char)) (cs : List Char) : List (Nat × List Char) :=
  searched.filterMap fun s => (firstPlace? s cs).map fun i => (i, s)

/-- The order in which a symbol at its place is preferred: the places ascend, and at one place the
lengths descend. -/
def rank (x : Nat × List Char) : ℕ ×ₗ ℕᵒᵈ := toLex (x.1, OrderDual.toDual x.2.length)

/-- A symbol is found at the first place of which it begins the rest of the text. -/
theorem firstPlace?_eq_some_iff {i : Nat} : firstPlace? s cs = some i ↔
    i ≤ cs.length ∧ s <+: cs.drop i ∧ ∀ j < i, ¬s <+: cs.drop j := by
  simp only [firstPlace?, List.find?_range_eq_some, List.mem_range, List.isPrefixOf_iff_prefix,
    Bool.not_eq_true', ← Bool.not_eq_true, Nat.lt_succ_iff]
  tauto

/-- A symbol that stands somewhere has a first place, which is no later. -/
theorem exists_firstPlace? {pre : List Char} (h : pre ++ t <+: cs) :
    ∃ i ≤ pre.length, firstPlace? t cs = some i := by
  obtain ⟨post, hpost⟩ := h
  have hdrop : t <+: cs.drop pre.length := ⟨post, by simp [← hpost]⟩
  have hlength : pre.length ≤ cs.length := by
    rw [← hpost, List.length_append, List.length_append]
    omega
  cases hplace : firstPlace? t cs with
  | none =>
    have hno := List.find?_range_eq_none.1 hplace pre.length (Nat.lt_succ_of_le hlength)
    rw [List.isPrefixOf_iff_prefix.2 hdrop] at hno
    cases hno
  | some i =>
    obtain ⟨-, -, hfirst⟩ := firstPlace?_eq_some_iff.1 hplace
    exact ⟨i, not_lt.1 fun hlt => hfirst pre.length hlt hdrop, rfl⟩

/-- Found are the symbols that were searched and have a first place. -/
theorem mem_found {searched : List (List Char)} {i : Nat} :
    (i, s) ∈ found searched cs ↔ s ∈ searched ∧ firstPlace? s cs = some i := by
  simp only [found, List.mem_filterMap, Option.map_eq_some_iff, Prod.mk.injEq]
  constructor
  · rintro ⟨s', hs, j, hj, rfl, rfl⟩
    exact ⟨hs, hj⟩
  · rintro ⟨hs, hplace⟩
    exact ⟨s, hs, i, hplace, rfl, rfl⟩

/-- **To search each symbol by itself comes to the same split.** -/
theorem splitAtSymbol?_eq_search {searched : List (List Char)}
    (hsearched : ∀ s, s ∈ searched ↔ s ∈ symbols) (cs : List Char) :
    splitAtSymbol? cs = ((found searched cs).argmin rank).map fun x =>
      (cs.take x.1, x.2, cs.drop (x.1 + x.2.length)) := by
  cases hmin : (found searched cs).argmin rank with
  | none =>
    refine splitAtSymbol?_eq_none_iff.2 ?_
    rintro s hs ⟨pre, post, hcs⟩
    obtain ⟨i, -, hplace⟩ := exists_firstPlace? (⟨post, hcs⟩ : pre ++ s <+: cs)
    have hmem : (i, s) ∈ found searched cs := mem_found.2 ⟨(hsearched s).2 hs, hplace⟩
    rw [List.argmin_eq_none.1 hmin] at hmem
    cases hmem
  | some x =>
    obtain ⟨i, s⟩ := x
    obtain ⟨hs, hplace⟩ := mem_found.1 (List.argmin_mem hmin)
    obtain ⟨hi, ⟨behind, hbehind⟩, -⟩ := firstPlace?_eq_some_iff.1 hplace
    have hleast : ∀ t ∈ symbols, ∀ j, firstPlace? t cs = some j →
        i ≤ j ∧ (i = j → t.length ≤ s.length) := fun t ht j hj => by
      have hle := List.le_of_mem_argmin (mem_found.2 ⟨(hsearched t).2 ht, hj⟩) hmin
      exact Prod.Lex.toLex_le_toLex'.1 hle
    have hbefore : (cs.take i).length = i := List.length_take_of_le hi
    refine splitAtSymbol?_eq_some_iff.2 ⟨?_, (hsearched s).1 hs, ?_, ?_⟩
    · have hrest : cs.drop (i + s.length) = behind := by
        rw [← List.drop_drop, ← hbehind, List.drop_left]
      rw [hrest, List.append_assoc, hbehind, List.take_append_drop]
    · intro t ht pre hpre
      obtain ⟨j, hj, hplace'⟩ := exists_firstPlace? hpre
      rw [hbefore]
      exact (hleast t ht j hplace').1.trans hj
    · intro t ht hbegins
      obtain ⟨j, hj, hplace'⟩ := exists_firstPlace? hbegins
      obtain ⟨hij, hlonger⟩ := hleast t ht j hplace'
      exact hlonger (Nat.le_antisymm hij (hbefore ▸ hj))

/-! ### The parts of a condition -/

/-- The field in front of a symbol, which is missing if there are blanks only. -/
def fieldBefore (before : List Char) : Option String :=
  if before.all Text.isBlank then none
  else some (String.ofList (Text.stripEnds Text.isBlank before))

/-- Blanks around the field do not count. -/
theorem fieldBefore_congr {before' : List Char}
    (h : Text.stripEnds Text.isBlank before = Text.stripEnds Text.isBlank before') :
    fieldBefore before = fieldBefore before' := by
  have hall : before.all Text.isBlank = before'.all Text.isBlank := by
    rw [Bool.eq_iff_iff, List.all_eq_true, List.all_eq_true, ← Text.stripEnds_eq_nil_iff,
      ← Text.stripEnds_eq_nil_iff, h]
  rw [fieldBefore, fieldBefore, hall, h]

/-- Blanks around the value do not count. -/
theorem conditionValue_congr {behind' : List Char}
    (h : Text.stripEnds Text.isBlank behind = Text.stripEnds Text.isBlank behind') :
    conditionValue behind = conditionValue behind' := by
  rw [conditionValue, conditionValue, h]

/-- **The parts of a condition are what its split says.** -/
theorem SplitsAt.parseCondition?_eq (h : SplitsAt text.toList before s behind)
    {operator : Comparison}
    (hoperator : Comparison.ofSymbol? (String.ofList (Text.stripEnds Text.isBlank s)) =
      some operator) :
    parseCondition? text = some ⟨fieldBefore before, operator, conditionValue behind⟩ := by
  have hfield : (if (String.ofList (Text.stripEnds Text.isBlank before)).isEmpty then none
      else some (String.ofList (Text.stripEnds Text.isBlank before))) = fieldBefore before := by
    rw [fieldBefore]
    refine if_congr ?_ rfl rfl
    rw [String.isEmpty_iff, List.all_eq_true, ← Text.stripEnds_eq_nil_iff,
      ← String.toList_eq_nil_iff, String.toList_ofList]
  simp only [parseCondition?, splitAtSymbol?_eq_some_iff.2 h, Option.bind_eq_bind,
    Option.bind_some, hoperator, hfield]
  rfl

/-- The symbol that splits a text is that of a comparison. -/
theorem SplitsAt.exists_operator (h : SplitsAt cs before s behind) : ∃ operator,
    Comparison.ofSymbol? (String.ofList (Text.stripEnds Text.isBlank s)) = some operator :=
  Option.isSome_iff_exists.1 (isSome_ofSymbol? s h.mem)

/-- A text in which a symbol stands is split. -/
theorem exists_splitsAt (h : ∃ s ∈ symbols, s <:+: cs) :
    ∃ before s behind, SplitsAt cs before s behind := by
  obtain ⟨t, ht, hin⟩ := h
  cases hsplit : splitAtSymbol? cs with
  | none => exact absurd hin (splitAtSymbol?_eq_none_iff.1 hsplit t ht)
  | some parts => exact ⟨_, _, _, splitsAt_of_splitAtSymbol? hsplit⟩

/-- **A condition has no parts exactly if no symbol stands in it.** -/
theorem parseCondition?_eq_none_iff :
    parseCondition? text = none ↔ ∀ s ∈ symbols, ¬s <:+: text.toList := by
  constructor
  · intro h t ht hin
    obtain ⟨before, s, behind, hsplits⟩ := exists_splitsAt ⟨t, ht, hin⟩
    obtain ⟨operator, hoperator⟩ := hsplits.exists_operator
    rw [hsplits.parseCondition?_eq hoperator] at h
    cases h
  · intro h
    simp [parseCondition?, splitAtSymbol?_eq_none_iff.2 h]

/-- **The parts of a condition are those of the text as it is split**: the comparison of the symbol,
the field in front, and the value behind. -/
theorem parseCondition?_eq_some_iff {p : ParsedCondition} :
    parseCondition? text = some p ↔ ∃ before s behind, SplitsAt text.toList before s behind ∧
      Comparison.ofSymbol? (String.ofList (Text.stripEnds Text.isBlank s)) = some p.operator ∧
      p.field = fieldBefore before ∧ p.value = conditionValue behind := by
  constructor
  · intro h
    have hin : ∃ s ∈ symbols, s <:+: text.toList := by
      by_contra hno
      rw [parseCondition?_eq_none_iff.2 fun s hs hin => hno ⟨s, hs, hin⟩] at h
      cases h
    obtain ⟨before, s, behind, hsplits⟩ := exists_splitsAt hin
    obtain ⟨operator, hoperator⟩ := hsplits.exists_operator
    rw [hsplits.parseCondition?_eq hoperator] at h
    obtain rfl := Option.some.inj h
    exact ⟨before, s, behind, hsplits, hoperator, rfl, rfl⟩
  · rintro ⟨before, s, behind, hsplits, hoperator, hfield, hvalue⟩
    rw [hsplits.parseCondition?_eq hoperator, ← hfield, ← hvalue]

/-! ### A field, a symbol, and whatever follows -/

/-- A field that may be compared: a name without blanks at its ends in which no symbol stands, not
even when a blank follows. -/
structure IsOperand (field : String) : Prop where
  ne_empty : field ≠ ""
  trim_eq : Text.trim field = field
  plain : ∀ t ∈ symbols, ¬t <:+: field.toList ++ [' ']

/-- The symbols as they are written between blanks; the word may come without blanks of its own. -/
def IsSymbol (symbol : String) : Prop := symbol.toList ∈ symbols ∨ symbol = "contains"

/-- A field has no blanks at its ends to be stripped. -/
theorem IsOperand.stripEnds_eq (h : IsOperand field) :
    Text.stripEnds Text.isBlank field.toList = field.toList := by
  have htrim := congrArg String.toList h.trim_eq
  rwa [Text.trim, String.toList_ofList] at htrim

/-- **No symbol begins in a field, and only the word begins with the blank behind it**: one that
begins earlier would end at this blank or before, or have it inside. -/
theorem IsOperand.length_le (h : IsOperand field) (ht : t ∈ symbols) {pre rest : List Char}
    (hbegins : pre ++ t <+: field.toList ++ ' ' :: rest) :
    field.toList.length < pre.length ∨ pre.length = field.toList.length ∧
      t = " contains ".toList := by
  have hpos := (length_of_mem_symbols t ht).1
  have hblank (hle : pre.length ≤ field.toList.length)
      (hreach : field.toList.length < pre.length + t.length) :
      t[field.toList.length - pre.length]? = some ' ' := by
    obtain ⟨post, hpost⟩ := hbegins
    have hat := congrArg (fun cs : List Char => cs[field.toList.length]?) hpost
    rw [List.append_assoc] at hat
    simp only [List.getElem?_append_right hle] at hat
    rw [List.getElem?_append_left (by omega)] at hat
    simpa using hat
  rcases Nat.lt_trichotomy pre.length field.toList.length with hlt | heq | hgt
  · exfalso
    by_cases hin : pre.length + t.length ≤ field.toList.length + 1
    · have hbegins' : pre ++ t <+: field.toList ++ [' '] := by
        refine List.prefix_of_prefix_length_le hbegins ⟨rest, by simp⟩ ?_
        simpa only [List.length_append, List.length_singleton] using hin
      obtain ⟨post, hpost⟩ := hbegins'
      exact h.plain t ht ⟨pre, post, hpost⟩
    · obtain ⟨-, hfirst | hlast⟩ :=
        blank_of_mem_symbols t ht _ (by omega) (hblank hlt.le (by omega))
      · omega
      · omega
  · exact .inr ⟨heq, (blank_of_mem_symbols t ht _ (by omega) (hblank heq.le (by omega))).1⟩
  · exact .inl hgt

/-- Behind a field the word is found with its blanks. -/
theorem IsOperand.splitsAt_word (h : IsOperand field) (rest : List Char) :
    SplitsAt (field.toList ++ ' ' :: ("contains".toList ++ ' ' :: rest)) field.toList
      " contains ".toList rest := by
  refine ⟨by simp, by decide +kernel, fun t ht pre hpre => ?_, fun t ht _ => ?_⟩
  · rcases h.length_le ht hpre with hgt | ⟨heq, -⟩
    · exact hgt.le
    · exact heq.ge
  · exact (length_of_mem_symbols t ht).2.1

/-- Behind a field and a blank a symbol is found. -/
theorem IsOperand.splitsAt (h : IsOperand field) (hs : s ∈ symbols) (rest : List Char) :
    SplitsAt (field.toList ++ ' ' :: (s ++ ' ' :: rest)) (field.toList ++ [' ']) s
      (' ' :: rest) := by
  obtain ⟨hpos, -, hfits, hletter⟩ := length_of_mem_symbols s hs
  refine ⟨by simp, hs, fun t ht pre hpre => ?_, fun t ht hbegins => ?_⟩
  · rcases h.length_le ht hpre with hgt | ⟨heq, rfl⟩
    · rw [List.length_append]
      exact hgt
    · -- The word would go on with a letter, and the symbol does not begin with one.
      exfalso
      obtain ⟨post, hpost⟩ := hpre
      have hat := congrArg (fun cs : List Char => cs[field.toList.length + 1]?) hpost
      rw [List.append_assoc] at hat
      simp only [← heq, List.getElem?_append_right (Nat.le_add_right _ 1)] at hat
      simp only [heq, Nat.add_sub_cancel_left, List.getElem?_append_right (Nat.le_add_right _ 1),
        List.getElem?_cons_succ] at hat
      rw [List.getElem?_append_left hpos] at hat
      exact hletter hat.symm
  · have hbegins : t <+: s ++ ' ' :: rest :=
      (List.prefix_append_right_inj (field.toList ++ [' '])).1 (by simpa using hbegins)
    by_contra hlonger
    have hlt : s.length < t.length := Nat.lt_of_not_le hlonger
    have hat : t[s.length]? = some ' ' := by
      obtain ⟨post, hpost⟩ := hbegins
      have hleft : (t ++ post)[s.length]? = t[s.length]? := List.getElem?_append_left hlt
      rw [← hleft, hpost]
      simp
    obtain ⟨rfl, hfirst | hlast⟩ := blank_of_mem_symbols t ht _ hlt hat
    · omega
    · exact hfits hlast

/-- A field alone in front of a symbol is the field that is compared. -/
theorem IsOperand.fieldBefore_eq (h : IsOperand field) :
    fieldBefore field.toList = some field := by
  have hne : ¬field.toList.all Text.isBlank = true := by
    intro hall
    have hnil := Text.stripEnds_eq_nil_iff.2 (List.all_eq_true.1 hall)
    rw [h.stripEnds_eq] at hnil
    exact h.ne_empty (String.toList_eq_nil_iff.1 hnil)
  rw [fieldBefore, if_neg hne, h.stripEnds_eq, String.ofList_toList]

/-- **Behind a field and a blank, the symbol that is written there splits the condition.** -/
theorem IsOperand.parseCondition?_eq (h : IsOperand field) {symbol : String}
    (hsymbol : IsSymbol symbol) (rest : String) :
    ∃ operator, Comparison.ofSymbol? (Text.trim symbol) = some operator ∧
      parseCondition? (field ++ " " ++ symbol ++ " " ++ rest) =
        some ⟨some field, operator, conditionValue rest.toList⟩ := by
  have htext : (field ++ " " ++ symbol ++ " " ++ rest).toList =
      field.toList ++ ' ' :: (symbol.toList ++ ' ' :: rest.toList) := by
    simp [String.toList_append]
  rcases hsymbol with hmem | rfl
  · have hblank : ∀ c ∈ [' '], Text.isBlank c = true := List.forall_mem_singleton.2 (by decide)
    have hfield : fieldBefore (field.toList ++ [' ']) = some field :=
      (fieldBefore_congr (Text.stripEnds_append_right hblank)).trans h.fieldBefore_eq
    have hvalue : conditionValue (' ' :: rest.toList) = conditionValue rest.toList :=
      conditionValue_congr (Text.stripEnds_append_left hblank)
    have hsplits := h.splitsAt hmem rest.toList
    rw [← htext] at hsplits
    obtain ⟨operator, hoperator⟩ := Option.isSome_iff_exists.1 (isSome_ofSymbol? _ hmem)
    refine ⟨operator, hoperator, ?_⟩
    rw [hsplits.parseCondition?_eq hoperator, hfield, hvalue]
  · have hword : Comparison.ofSymbol? (Text.trim "contains") = some .contains := by decide +kernel
    have hblanks : Comparison.ofSymbol?
        (String.ofList (Text.stripEnds Text.isBlank " contains ".toList)) = some .contains := by
      decide +kernel
    have hsplits := h.splitsAt_word rest.toList
    rw [← htext] at hsplits
    refine ⟨.contains, hword, ?_⟩
    rw [hsplits.parseCondition?_eq hblanks, h.fieldBefore_eq]

/-- **A condition is split at the first place where a symbol stands, by the longest symbol there.**
It has no parts exactly when no symbol stands in it.  The field is what stands in front, without the
blanks around it, and no symbol stands there.  In particular a symbol behind a field and a blank
splits the condition, whatever follows. -/
theorem parseCondition?_firstLongest :
    (∀ text, parseCondition? text = none ↔ ∀ s ∈ symbols, ¬s <:+: text.toList) ∧
      (∀ text p, parseCondition? text = some p ↔
        ∃ before s behind, SplitsAt text.toList before s behind ∧
          (∀ t ∈ symbols, ¬t <:+: before) ∧
          Comparison.ofSymbol? (String.ofList (Text.stripEnds Text.isBlank s)) =
            some p.operator ∧
          p.field = fieldBefore before ∧ p.value = conditionValue behind) ∧
      ∀ field symbol rest, IsOperand field → IsSymbol symbol →
        ∃ operator, Comparison.ofSymbol? (Text.trim symbol) = some operator ∧
          parseCondition? (field ++ " " ++ symbol ++ " " ++ rest) =
            some ⟨some field, operator, conditionValue rest.toList⟩ := by
  refine ⟨fun _ => parseCondition?_eq_none_iff, fun text p => ?_, fun _ _ rest hfield hsymbol =>
    hfield.parseCondition?_eq hsymbol rest⟩
  rw [parseCondition?_eq_some_iff]
  constructor
  · rintro ⟨before, s, behind, hsplits, hparts⟩
    exact ⟨before, s, behind, hsplits, hsplits.not_infix, hparts⟩
  · rintro ⟨before, s, behind, hsplits, -, hparts⟩
    exact ⟨before, s, behind, hsplits, hparts⟩

/-- A field may end in a mark that begins a symbol. -/
theorem isOperand_exclaimed : IsOperand "a !" :=
  ⟨by decide, by decide +kernel, by decide +kernel⟩

/-- A blank keeps the marks around it from being one symbol. -/
theorem parseCondition?_firstLongest_exclaimed :
    IsOperand "a !" ∧ IsSymbol "=" ∧
      parseCondition? ("a !" ++ " " ++ "=" ++ " " ++ "= <> contains 1") =
        some ⟨some "a !", .equals, .string "= <> contains 1"⟩ := by
  have hsymbol : IsSymbol "=" := .inl (by decide +kernel)
  obtain ⟨operator, hoperator, hparts⟩ :=
    parseCondition?_firstLongest.2.2 "a !" "=" "= <> contains 1" isOperand_exclaimed hsymbol
  have hequals : Comparison.ofSymbol? (Text.trim "=") = some .equals := by decide +kernel
  obtain rfl : Comparison.equals = operator := Option.some.inj (hequals.symm.trans hoperator)
  exact ⟨isOperand_exclaimed, hsymbol, hparts⟩

/-! ### Quoted values -/

/-- Quotes are not blank. -/
theorem isBlank_of_isQuote {q : Char} (h : isQuote q = true) : Text.isBlank q = false := by
  simp only [isQuote, Bool.or_eq_true, beq_iff_eq] at h
  rcases h with rfl | rfl <;> decide

/-- What is between quotes is read as if they were not there. -/
theorem conditionValue_quoted {q : Char} (hq : isQuote q = true) {value : String}
    (hvalue : ∀ c ∈ value.toList, isQuote c = false) :
    conditionValue (String.singleton q ++ value ++ String.singleton q).toList =
      match Json.number? value with
      | some n => .ofJson (.number n)
      | none => .string value := by
  have hquotes : ∀ c ∈ [q], isQuote c = true := by
    intro c hc
    rwa [List.mem_singleton.1 hc]
  have hread : (String.singleton q ++ value ++ String.singleton q).toList =
      q :: value.toList ++ [q] := by
    simp [String.toList_append]
  have hkept : Text.stripEnds isQuote (Text.stripEnds Text.isBlank
      (String.singleton q ++ value ++ String.singleton q).toList) = value.toList := by
    rw [hread, Text.stripEnds_enclosed (isBlank_of_isQuote hq),
      Text.stripEnds_append_right hquotes, ← List.singleton_append,
      Text.stripEnds_append_left hquotes, Text.stripEnds_eq_self hvalue]
  cases hnumber : Json.number? value <;>
    simp only [conditionValue, hkept, String.ofList_toList, hnumber]

theorem ofJson_number_ne_string (n : Number) (v : String) :
    Value.ofJson (.number n) ≠ Value.string v := by
  intro h
  have hjson := congrArg Value.json h
  cases hjson

/-- **A quoted value stays a text unless it spells a number.**  Behind a field, a symbol and blanks,
a text in quotes that has no quotes itself is the value; but one that spells a number becomes that
number, as it would without quotes. -/
theorem parseCondition?_quoted {symbol value : String} {q : Char} (hfield : IsOperand field)
    (hsymbol : IsSymbol symbol) (hq : isQuote q = true)
    (hvalue : ∀ c ∈ value.toList, isQuote c = false) :
    ∃ p, parseCondition? (field ++ " " ++ symbol ++ " " ++
          (String.singleton q ++ value ++ String.singleton q)) = some p ∧
      p.field = some field ∧ Comparison.ofSymbol? (Text.trim symbol) = some p.operator ∧
      (p.value = .string value ↔ Json.number? value = none) ∧
      ∀ n, Json.number? value = some n → p.value = .ofJson (.number n) := by
  obtain ⟨operator, hoperator, hparts⟩ := hfield.parseCondition?_eq hsymbol
    (String.singleton q ++ value ++ String.singleton q)
  refine ⟨_, hparts, rfl, hoperator, ?_⟩
  rw [conditionValue_quoted hq hvalue]
  cases hnumber : Json.number? value with
  | none => exact ⟨iff_of_true rfl rfl, fun _ h => by cases h⟩
  | some n =>
    refine ⟨iff_of_false (ofJson_number_ne_string n value) (by simp), ?_⟩
    intro m hm
    obtain rfl := Option.some.inj hm
    rfl

/-- A digit behind a blank is no number, so it stays a text. -/
theorem parseCondition?_quoted_digit :
    IsOperand "a !" ∧ IsSymbol "contains" ∧ isQuote '\'' = true ∧
      (∀ c ∈ " 1".toList, isQuote c = false) ∧
      ∃ p, parseCondition? ("a !" ++ " " ++ "contains" ++ " " ++
            (String.singleton '\'' ++ " 1" ++ String.singleton '\'')) = some p ∧
        p.field = some "a !" ∧ p.value = .string " 1" := by
  have hquote : isQuote '\'' = true := by decide
  have hplain : ∀ c ∈ " 1".toList, isQuote c = false := by simp [isQuote]
  have hnumber : Json.number? " 1" = none := by decide +kernel
  obtain ⟨p, hp, hfield, -, hvalue, -⟩ :=
    parseCondition?_quoted isOperand_exclaimed (.inr rfl) hquote hplain
  exact ⟨isOperand_exclaimed, .inr rfl, hquote, hplain, p, hp, hfield, hvalue.2 hnumber⟩

/-- **A quoted numeral does not stay a text.** -/
theorem parseCondition?_quotedNumeral :
    IsOperand "x" ∧ IsSymbol "=" ∧ (∀ c ∈ "5".toList, isQuote c = false) ∧
      parseCondition? ("x" ++ " " ++ "=" ++ " " ++
          (String.singleton '\'' ++ "5" ++ String.singleton '\'')) =
        some ⟨some "x", .equals, .ofJson (.number (.integer 5))⟩ ∧
      Value.ofJson (.number (.integer 5)) ≠ .string "5" := by
  have hfield : IsOperand "x" := ⟨by decide, by decide +kernel, by decide +kernel⟩
  have hsymbol : IsSymbol "=" := .inl (by decide +kernel)
  have hplain : ∀ c ∈ "5".toList, isQuote c = false := by simp [isQuote]
  have hnumber : Json.number? "5" = some (.integer 5) := by decide +kernel
  have hequals : Comparison.ofSymbol? (Text.trim "=") = some .equals := by decide +kernel
  obtain ⟨operator, hoperator, hparts⟩ := hfield.parseCondition?_eq hsymbol
    (String.singleton '\'' ++ "5" ++ String.singleton '\'')
  obtain rfl : Comparison.equals = operator := Option.some.inj (hequals.symm.trans hoperator)
  refine ⟨hfield, hsymbol, hplain, ?_, ofJson_number_ne_string _ _⟩
  rw [hparts, conditionValue_quoted (by decide) hplain, hnumber]

end Suggestion
end MappingCanvas
