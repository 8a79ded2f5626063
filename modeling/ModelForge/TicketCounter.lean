import Mathlib.Data.List.Basic
import Mathlib.Order.Nat

set_option autoImplicit false

/-!
# Tickets from a counter

Workers take tickets from a counter. A worker has one ticket at a time, and gives it
up when it takes the next one or stops.
-/
namespace ModelForge.TicketCounter

variable {next i : ℕ} {held : List (Option ℕ)} {w : ℕ} {old new : Option ℕ}

/-- Each ticket is below the counter and has one holder. -/
structure Tickets (next : ℕ) (held : List (Option ℕ)) : Prop where
  below : ∀ i, some i ∈ held → i < next
  once : ∀ v w i : ℕ, held[v]? = some (some i) → held[w]? = some (some i) → v = w

/-- The ticket was taken and given up again. -/
def GivenUp (next : ℕ) (held : List (Option ℕ)) (i : ℕ) : Prop := i < next ∧ some i ∉ held

theorem get_of_set {v : ℕ} (h : (held.set w new)[v]? = some (some i)) :
    v = w ∧ new = some i ∨ v ≠ w ∧ held[v]? = some (some i) := by
  rw [List.getElem?_set] at h
  by_cases hv : w = v
  · rw [if_pos hv] at h
    split at h
    · exact .inl ⟨hv.symm, Option.some.inj h⟩
    · cases h
  · rw [if_neg hv] at h
    exact .inr ⟨fun heq => hv heq.symm, h⟩

theorem mem_of_set (h : some i ∈ held.set w new) : new = some i ∨ some i ∈ held := by
  obtain ⟨v, hv⟩ := List.mem_iff_getElem?.mp h
  cases get_of_set hv with
  | inl hnew => exact .inl hnew.2
  | inr hold => exact .inr (List.mem_of_getElem? hold.2)

/-- The holders of tickets after one of them has moved. -/
theorem Tickets.mem_set (h : Tickets next held) (hw : held[w]? = some old) :
    some i ∈ held.set w new ↔ new = some i ∨ some i ∈ held ∧ old ≠ some i := by
  constructor
  · intro hmem
    obtain ⟨v, hv⟩ := List.mem_iff_getElem?.mp hmem
    cases get_of_set hv with
    | inl hnew => exact .inl hnew.2
    | inr hold =>
      refine .inr ⟨List.mem_of_getElem? hold.2, fun heq => hold.1 ?_⟩
      rw [heq] at hw
      exact h.once v w i hold.2 hw
  · intro hmem
    cases hmem with
    | inl hnew => exact hnew ▸ List.mem_set (List.getElem?_eq_some_iff.mp hw).1 _
    | inr hold =>
      obtain ⟨v, hv⟩ := List.mem_iff_getElem?.mp hold.1
      have hne : w ≠ v := by
        rintro rfl
        exact hold.2 (Option.some.inj (hw.symm.trans hv))
      rw [← List.getElem?_set_ne hne] at hv
      exact List.mem_of_getElem? hv

theorem Tickets.take (h : Tickets next held) (w : ℕ) : Tickets (next + 1) (held.set w (some next)) where
  below := by
    intro i hi
    cases mem_of_set hi with
    | inl hnew => exact Option.some.inj hnew ▸ Nat.lt_succ_self next
    | inr hold => exact (h.below i hold).trans (Nat.lt_succ_self next)
  once := by
    intro u v i hu hv
    cases get_of_set hu with
    | inl hunew =>
      cases get_of_set hv with
      | inl hvnew => exact hunew.1.trans hvnew.1.symm
      | inr hvold =>
        have hlt := h.below i (List.mem_of_getElem? hvold.2)
        rw [Option.some.inj hunew.2] at hlt
        exact absurd hlt (lt_irrefl i)
    | inr huold =>
      cases get_of_set hv with
      | inl hvnew =>
        have hlt := h.below i (List.mem_of_getElem? huold.2)
        rw [Option.some.inj hvnew.2] at hlt
        exact absurd hlt (lt_irrefl i)
      | inr hvold => exact h.once u v i huold.2 hvold.2

theorem Tickets.stop (h : Tickets next held) (w : ℕ) : Tickets next (held.set w none) where
  below := by
    intro i hi
    cases mem_of_set hi with
    | inl hnew => cases hnew
    | inr hold => exact h.below i hold
  once := by
    intro u v i hu hv
    cases get_of_set hu with
    | inl hunew => cases hunew.2
    | inr huold =>
      cases get_of_set hv with
      | inl hvnew => cases hvnew.2
      | inr hvold => exact h.once u v i huold.2 hvold.2

/-- The first tickets are given out in order. -/
theorem tickets_range (k : ℕ) : Tickets k ((List.range k).map some) where
  below := by
    intro i hi
    obtain ⟨j, hj, heq⟩ := List.mem_map.mp hi
    exact Option.some.inj heq ▸ List.mem_range.mp hj
  once := by
    have hget {v i : ℕ} (h : ((List.range k).map some)[v]? = some (some i)) : v = i := by
      rw [List.getElem?_map, Option.map_eq_some_iff] at h
      obtain ⟨j, hj, heq⟩ := h
      obtain ⟨hlt, hv⟩ := List.getElem?_eq_some_iff.mp hj
      rw [List.getElem_range] at hv
      exact hv.trans (Option.some.inj heq)
    intro v w i hv hw
    exact (hget hv).trans (hget hw).symm

theorem Tickets.givenUp_take (h : Tickets next held) (hw : held[w]? = some old) :
    GivenUp (next + 1) (held.set w (some next)) i ↔ GivenUp next held i ∨ old = some i := by
  rw [GivenUp, GivenUp, h.mem_set hw, Option.some.injEq, Nat.lt_succ_iff]
  constructor
  · rintro ⟨hle, hnot⟩
    by_cases hold : old = some i
    · exact .inr hold
    · exact .inl ⟨lt_of_le_of_ne hle fun heq => hnot (.inl heq.symm), fun hmem => hnot (.inr ⟨hmem, hold⟩)⟩
  · rintro (⟨hlt, hnot⟩ | hold)
    · exact ⟨hlt.le, fun hmem => hmem.elim hlt.ne' fun hmem => hnot hmem.1⟩
    · have hlt := h.below i (hold ▸ List.mem_of_getElem? hw)
      exact ⟨hlt.le, fun hmem => hmem.elim hlt.ne' fun hmem => hmem.2 hold⟩

theorem Tickets.givenUp_stop (h : Tickets next held) (hw : held[w]? = some old) :
    GivenUp next (held.set w none) i ↔ GivenUp next held i ∨ old = some i := by
  rw [GivenUp, GivenUp, h.mem_set hw]
  constructor
  · rintro ⟨hlt, hnot⟩
    by_cases hold : old = some i
    · exact .inr hold
    · exact .inl ⟨hlt, fun hmem => hnot (.inr ⟨hmem, hold⟩)⟩
  · rintro (⟨hlt, hnot⟩ | hold)
    · exact ⟨hlt, fun hmem => hmem.elim (fun hnone => by cases hnone) fun hmem => hnot hmem.1⟩
    · have hlt := h.below i (hold ▸ List.mem_of_getElem? hw)
      exact ⟨hlt, fun hmem => hmem.elim (fun hnone => by cases hnone) fun hmem => hmem.2 hold⟩

/-- When nobody holds a ticket any more, all have been given up. -/
theorem givenUp_of_all_none (h : ∀ ticket ∈ held, ticket = none) : GivenUp next held i ↔ i < next := by
  refine ⟨fun hgiven => hgiven.1, fun hlt => ⟨hlt, fun hmem => ?_⟩⟩
  cases h _ hmem

end ModelForge.TicketCounter
