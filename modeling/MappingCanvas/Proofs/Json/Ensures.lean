/-
# What decoders ensure

A decoder ensures a property when every value that it yields has it, in whatever way the document
reaches it.  It may do so only on some documents; what these are must then hold of their parts as
well (`Json.Hereditary`), because that is what the decoders of members and items get to see.

A form ensures a property by one of its states that holds of the blank one, that every member it
takes keeps, and that carries over to the value at the end (`Form.Keeps`); forms that are combined
combine these.
-/

import MappingCanvas.Proofs.Json.Record

namespace MappingCanvas

/-- A property of documents that goes over to their parts. -/
structure Json.Hereditary (D : Json → Prop) : Prop where
  items : ∀ js, D (.array js) → ∀ j ∈ js, D j
  members : ∀ ms, D (.object ms) → ∀ m ∈ ms, D m.2

/-- To ask nothing of a document is to ask nothing of its parts. -/
theorem Json.hereditary_true : Json.Hereditary fun _ => True :=
  ⟨fun _ _ _ _ => trivial, fun _ _ _ _ => trivial⟩

variable {α β : Type} {P : α → Prop} {Q : β → Prop} {D : Json → Prop}

/-- Every value that a decoder yields has a property. -/
def Decoder.Ensures (read : Decoder α) (P : α → Prop) : Prop :=
  ∀ mode j a, read mode j = .ok a → P a

/-- Every value that a decoder yields for some of the documents has a property. -/
def Decoder.EnsuresOn (D : Json → Prop) (read : Decoder α) (P : α → Prop) : Prop :=
  ∀ mode j a, D j → read mode j = .ok a → P a

/-- What is ensured of all documents is ensured of some of them. -/
theorem Decoder.Ensures.on {read : Decoder α} (h : read.Ensures P) : read.EnsuresOn D P :=
  fun mode j a _ => h mode j a

/-- What is ensured of an item is ensured of all items of a list. -/
theorem Decoder.EnsuresOn.list {read : Decoder α} (hD : Json.Hereditary D)
    (h : read.EnsuresOn D P) : (Decoder.list read).EnsuresOn D fun as => ∀ a ∈ as, P a := by
  intro mode j as hdoc hj
  unfold Decoder.list at hj
  split at hj
  · have hread := mapM_eq_ok_iff.1 hj
    have hitems := hD.items _ hdoc
    clear hj hdoc
    induction hread with
    | nil => exact fun _ ha => absurd ha List.not_mem_nil
    | cons hread _ ih =>
      obtain ⟨hitem, hitems⟩ := List.forall_mem_cons.1 hitems
      exact List.forall_mem_cons.2 ⟨h mode _ _ hitem hread, ih hitems⟩
  · cases hj
  · cases hj

namespace Form

variable {f : Form α} {g : Form β}

/-- A property of the states of a form that makes its values have a property. -/
structure Keeps (D : Json → Prop) (f : Form α) (P : α → Prop) (inv : f.State → Prop) : Prop where
  blank : inv f.blank
  accept : ∀ name take, f.accept name = some take →
    ∀ s mode j s', inv s → D j → take s mode j = .ok s' → inv s'
  finish : ∀ s a, inv s → f.finish s = .ok a → P a
  positional : ∀ mode place items a rest, (∀ j ∈ items, D j) →
    f.positional mode place items = .ok (a, rest) → P a ∧ ∀ j ∈ rest, D j

/-- Every value that a form yields for some of the documents has a property. -/
def EnsuresOn (D : Json → Prop) (f : Form α) (P : α → Prop) : Prop := ∃ inv, f.Keeps D P inv

/-- One member keeps what a form keeps. -/
theorem Keeps.step {inv : f.State → Prop} (h : f.Keeps D P inv) {mode : Reading} {s s' : f.State}
    {m : String × Json} (hs : inv s) (hm : D m.2) (hstep : f.step mode s m = .ok s') : inv s' := by
  unfold Form.step at hstep
  split at hstep
  · cases hstep
  · cases haccept : f.accept _ with
    | some take =>
      rw [haccept] at hstep
      exact h.accept _ take haccept s mode _ s' hs hm hstep
    | none =>
      rw [haccept] at hstep
      obtain ⟨_, -, hstep⟩ := bind_eq_ok.1 hstep
      obtain rfl := Except.ok.inj hstep
      exact hs

/-- **All members keep what a form keeps.** -/
theorem Keeps.foldlM {inv : f.State → Prop} (h : f.Keeps D P inv) {mode : Reading}
    {s s' : f.State} {ms : List (String × Json)} (hs : inv s) (hms : ∀ m ∈ ms, D m.2)
    (hfold : ms.foldlM (f.step mode) s = .ok s') : inv s' := by
  induction ms generalizing s with
  | nil =>
    obtain rfl := Except.ok.inj hfold
    exact hs
  | cons m ms ih =>
    obtain ⟨hm, hms⟩ := List.forall_mem_cons.1 hms
    obtain ⟨s₁, hs₁, hfold⟩ := bind_eq_ok.1 hfold
    exact ih (h.step hs hm hs₁) hms hfold

/-- **What a form ensures, its decoder ensures.** -/
theorem EnsuresOn.decode (hD : Json.Hereditary D) (h : f.EnsuresOn D P) :
    Decoder.EnsuresOn D f.decode P := by
  obtain ⟨inv, h⟩ := h
  intro mode j a hdoc hj
  unfold Form.decode at hj
  split at hj
  · obtain ⟨s, hs, hj⟩ := bind_eq_ok.1 hj
    exact h.finish s a (h.foldlM h.blank (hD.members _ hdoc) hs) hj
  · obtain ⟨⟨a', rest⟩, hpos, hj⟩ := bind_eq_ok.1 hj
    cases rest with
    | nil =>
      obtain rfl := Except.ok.inj hj
      exact (h.positional _ _ _ _ _ (hD.items _ hdoc) hpos).1
    | cons j rest => cases hj
  · cases hj
  · cases hj
  · cases hj

/-- A member ensures what its reader and its default ensure, wherever it stands. -/
theorem EnsuresOn.member (name : String) (aliases : List String) {absent : Option α}
    {read : Decoder α} (ha : ∀ a ∈ absent, P a) (h : read.EnsuresOn D P) :
    (Form.member name aliases absent read).EnsuresOn D P := by
  refine ⟨fun s : Option α => ∀ a ∈ s, P a, ⟨fun _ h => (by cases h), ?_, ?_, ?_⟩⟩
  · intro given take htake s mode j s' _ hdoc hj
    simp only [Form.member] at htake
    split at htake
    · obtain rfl := Option.some.inj htake
      cases s with
      | some a => cases hj
      | none =>
        obtain ⟨a, hread, rfl⟩ := map_eq_ok_iff.1 hj
        exact fun a' ha' => Option.some.inj ha' ▸ h mode j a hdoc hread
    · cases htake
  · intro s a hs hfinish
    cases s with
    | some a' =>
      cases hfinish
      exact hs a rfl
    | none =>
      cases absent with
      | some a' =>
        cases hfinish
        exact ha a rfl
      | none => cases hfinish
  · intro mode place items a rest hitems hpos
    cases items with
    | nil =>
      cases absent with
      | some a' =>
        cases hpos
        exact ⟨ha a rfl, hitems⟩
      | none => cases hpos
    | cons j items =>
      obtain ⟨hitem, hitems⟩ := List.forall_mem_cons.1 hitems
      obtain ⟨a', hread, heq⟩ := map_eq_ok_iff.1 hpos
      cases heq
      exact ⟨h mode j a hitem hread, hitems⟩

/-- A member that must be there ensures what its reader ensures. -/
theorem EnsuresOn.required (name : String) {read : Decoder α} (h : read.EnsuresOn D P) :
    (Form.required name read).EnsuresOn D P :=
  EnsuresOn.member name [] nofun h

/-- A member with a default ensures what its reader ensures, if the default has it too. -/
theorem EnsuresOn.defaulted (name : String) {absent : α} {read : Decoder α} (ha : P absent)
    (h : read.EnsuresOn D P) : (Form.defaulted name absent read).EnsuresOn D P :=
  EnsuresOn.member name [] (by simpa using ha) h

/-- A member that nothing is asked of. -/
theorem EnsuresOn.any (name : String) (aliases : List String) (absent : Option α)
    (read : Decoder α) : (Form.member name aliases absent read).EnsuresOn D fun _ => True :=
  EnsuresOn.member name aliases (fun _ _ => trivial) fun _ _ _ _ _ => trivial

/-- Two forms side by side ensure what each of them ensures. -/
theorem EnsuresOn.and (hf : f.EnsuresOn D P) (hg : g.EnsuresOn D Q) :
    (f.and g).EnsuresOn D fun x => P x.1 ∧ Q x.2 := by
  obtain ⟨inv, hf⟩ := hf
  obtain ⟨inv', hg⟩ := hg
  refine ⟨fun s => inv s.1 ∧ inv' s.2, ⟨⟨hf.blank, hg.blank⟩, ?_, ?_, ?_⟩⟩
  · intro name take htake s mode j s' ⟨hs, ht⟩ hdoc hj
    simp only [Form.and] at htake
    split at htake
    · obtain rfl := Option.some.inj htake
      obtain ⟨s₁, hs₁, rfl⟩ := map_eq_ok_iff.1 hj
      exact ⟨hf.accept _ _ ‹_› _ _ _ _ hs hdoc hs₁, ht⟩
    · obtain rfl := Option.some.inj htake
      obtain ⟨t₁, ht₁, rfl⟩ := map_eq_ok_iff.1 hj
      exact ⟨hs, hg.accept _ _ ‹_› _ _ _ _ ht hdoc ht₁⟩
    · cases htake
  · intro s x ⟨hs, ht⟩ hfinish
    obtain ⟨a, ha, hfinish⟩ := bind_eq_ok.1 hfinish
    obtain ⟨b, hb, hfinish⟩ := bind_eq_ok.1 hfinish
    obtain rfl := Except.ok.inj hfinish
    exact ⟨hf.finish _ a hs ha, hg.finish _ b ht hb⟩
  · intro mode place items x rest hitems hpos
    obtain ⟨⟨a, rest₁⟩, ha, hpos⟩ := bind_eq_ok.1 hpos
    obtain ⟨⟨b, rest₂⟩, hb, hpos⟩ := bind_eq_ok.1 hpos
    cases hpos
    obtain ⟨hPa, hrest₁⟩ := hf.positional _ _ _ a _ hitems ha
    obtain ⟨hQb, hrest⟩ := hg.positional _ _ _ b _ hrest₁ hb
    exact ⟨⟨hPa, hQb⟩, hrest⟩

/-- What is made of a record has what follows from what the record has. -/
theorem EnsuresOn.map {make : α → β} (h : f.EnsuresOn D P) (hmake : ∀ a, P a → Q (make a)) :
    (f.map make).EnsuresOn D Q := by
  obtain ⟨inv, h⟩ := h
  refine ⟨inv, ⟨h.blank, h.accept, ?_, ?_⟩⟩
  · intro s b hs hfinish
    obtain ⟨a, ha, rfl⟩ := map_eq_ok_iff.1 hfinish
    exact hmake a (h.finish s a hs ha)
  · intro mode place items b rest hitems hpos
    obtain ⟨⟨a, rest₁⟩, ha, heq⟩ := map_eq_ok_iff.1 hpos
    cases heq
    obtain ⟨hP, hrest⟩ := h.positional _ _ _ a _ hitems ha
    exact ⟨hmake a hP, hrest⟩

end Form
end MappingCanvas
