/-
# Cycles of steps

A step feeds another one when an edge leads from the first to the second.  A step on a cycle of
such edges, or behind one, can never run: each of the steps before it waits for another one.  In
the other direction, steps that all wait for one another hold a cycle, because there are only
finitely many of them (`exists_cycle_before`).
-/

import Mathlib.Data.Finite.Defs
import Mathlib.Data.Set.Finite.List
import Mathlib.Logic.Relation
import Mathlib.Order.WellFounded
import MappingCanvas.Proofs.Canvas.Index

namespace MappingCanvas
namespace Plan

open Relation

/-- An edge leads from one step to another; an edge from a step to itself counts too. -/
def Feeds (c : Canvas) (u v : String) : Prop :=
  u ∈ c.innerIds ∧ v ∈ c.innerIds ∧ ∃ e ∈ c.edges.toList, e.source = u ∧ e.target = v

/-- A step lies on a cycle of steps, or behind one. -/
def BehindCycle (c : Canvas) (v : String) : Prop :=
  ∃ w, TransGen (Feeds c) w w ∧ ReflTransGen (Feeds c) w v

/-- **Where everyone has someone in front, there is a cycle in front.**  In a finite list in which
each element has a predecessor, each element is behind a cycle; without one, the elements in front
of it would have a first one. -/
theorem exists_cycle_before {α : Type} {r : α → α → Prop} {xs : List α}
    (h : ∀ v ∈ xs, ∃ u ∈ xs, r u v) {v : α} (hv : v ∈ xs) :
    ∃ w, TransGen r w w ∧ ReflTransGen r w v := by
  by_contra hno
  let Front := { w : α // w ∈ xs ∧ ReflTransGen r w v }
  have hfin : Finite Front :=
    (xs.finite_toSet.subset fun w (hw : w ∈ xs ∧ ReflTransGen r w v) => hw.1).to_subtype
  have htrans : IsTrans Front fun a b => TransGen r a.1 b.1 := ⟨fun _ _ _ => TransGen.trans⟩
  have hirrefl : Std.Irrefl fun a b : Front => TransGen r a.1 b.1 :=
    ⟨fun a ha => hno ⟨a.1, ha, a.2.2⟩⟩
  have hwf := Finite.wellFounded_of_trans_of_irrefl fun a b : Front => TransGen r a.1 b.1
  obtain ⟨m, -, hm⟩ := hwf.has_min Set.univ ⟨⟨v, hv, .refl⟩, trivial⟩
  obtain ⟨u, hu, hum⟩ := h m.1 m.2.1
  exact hm ⟨u, hu, .head hum m.2.2⟩ trivial (.single hum)

end Plan
end MappingCanvas
