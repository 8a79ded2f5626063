import Mathlib

set_option autoImplicit false

/-!
# Cycles that a search meets

A search through a graph keeps the nodes on its way. It meets one of them again
exactly where its start reaches a cycle.
-/
namespace ModelForge.GraphCycles

open Relation (ReflTransGen TransGen)

variable {ν : Type} (edge : ν → ν → Prop)

def ReachesCycle (n : ν) : Prop := ∃ a, ReflTransGen edge n a ∧ TransGen edge a a

/-- From `n` the way leads back to a node in `visiting`, or into a cycle. -/
def Closes (visiting : Finset ν) (n : ν) : Prop :=
  (∃ s ∈ visiting, ReflTransGen edge n s) ∨ ReachesCycle edge n

variable {edge}

theorem closes_empty {n : ν} : Closes edge ∅ n ↔ ReachesCycle edge n := by simp [Closes]

theorem closes_of_mem {visiting : Finset ν} {n : ν} (h : n ∈ visiting) : Closes edge visiting n :=
  .inl ⟨n, h, .refl⟩

theorem Closes.step {visiting : Finset ν} {n c : ν} [DecidableEq ν] (hedge : edge n c)
    (h : Closes edge (insert n visiting) c) : Closes edge visiting n := by
  cases h with
  | inl h =>
    obtain ⟨s, hs, hreach⟩ := h
    cases Finset.mem_insert.mp hs with
    | inl hs =>
      subst hs
      exact .inr ⟨s, .refl, TransGen.head' hedge hreach⟩
    | inr hs => exact .inl ⟨s, hs, hreach.head hedge⟩
  | inr h =>
    obtain ⟨a, hreach, hcycle⟩ := h
    exact .inr ⟨a, hreach.head hedge, hcycle⟩

/-- Outside the nodes on the way, a node closes through one of its successors. -/
theorem closes_iff {visiting : Finset ν} {n : ν} [DecidableEq ν] (hn : n ∉ visiting) :
    Closes edge visiting n ↔ ∃ c, edge n c ∧ Closes edge (insert n visiting) c := by
  constructor
  · intro h
    cases h with
    | inl h =>
      obtain ⟨s, hs, hreach⟩ := h
      cases hreach.cases_head with
      | inl heq => exact absurd (heq ▸ hs) hn
      | inr h =>
        obtain ⟨c, hedge, hreach⟩ := h
        exact ⟨c, hedge, .inl ⟨s, Finset.mem_insert_of_mem hs, hreach⟩⟩
    | inr h =>
      obtain ⟨a, hreach, hcycle⟩ := h
      cases hreach.cases_head with
      | inl heq =>
        -- the node itself is on the cycle, and comes back to itself
        subst heq
        obtain ⟨c, hedge, hback⟩ := TransGen.head'_iff.mp hcycle
        exact ⟨c, hedge, .inl ⟨n, Finset.mem_insert_self _ _, hback⟩⟩
      | inr h =>
        obtain ⟨c, hedge, hreach⟩ := h
        exact ⟨c, hedge, .inr ⟨a, hreach, hcycle⟩⟩
  · intro ⟨c, hedge, h⟩
    exact h.step hedge

end ModelForge.GraphCycles
