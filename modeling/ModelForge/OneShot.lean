import Mathlib

set_option autoImplicit false

/-!
# Taken once, written by one writer

A resource is taken only while it is free, and is not free again once it is
taken: then it is taken once. A log that is numbered from one ends with the first
entry that is final.
-/
namespace ModelForge.OneShot

/-! ## Resources -/

section Resources

variable {τ : Type} {free free' : τ → Prop} {taken : List τ} {t : τ}

/-- The resources that were taken, none of which is free. -/
structure Once (free : τ → Prop) (taken : List τ) : Prop where
  nodup : taken.Nodup
  gone : ∀ t ∈ taken, ¬ free t

theorem once_nil (free : τ → Prop) : Once free [] := ⟨List.nodup_nil, fun _ h => absurd h List.not_mem_nil⟩

theorem Once.keep (h : Once free taken) (hfree : ∀ t ∈ taken, free' t → free t) : Once free' taken :=
  ⟨h.nodup, fun t ht hnow => h.gone t ht (hfree t ht hnow)⟩

theorem Once.notMem (h : Once free taken) (ht : free t) : t ∉ taken := fun hmem => h.gone t hmem ht

theorem Once.take (h : Once free taken) (ht : free t) (hgone : ¬ free' t)
    (hfree : ∀ u ∈ taken, free' u → free u) : Once free' (taken ++ [t]) := by
  refine ⟨?_, ?_⟩
  · have hconcat := h.nodup.concat (h.notMem ht)
    rwa [List.concat_eq_append] at hconcat
  · intro u hu
    rw [List.mem_append, List.mem_singleton] at hu
    cases hu with
    | inl hu => exact fun hnow => h.gone u hu (hfree u hu hnow)
    | inr hu => exact hu ▸ hgone

end Resources

/-! ## Logs -/

section Logs

variable {α : Type} {number : α → ℕ} {final : α → Bool} {log : List α} {x : α}

/-- The entries are numbered from one, and only the last may be final. -/
structure Numbered (number : α → ℕ) (final : α → Bool) (log : List α) : Prop where
  numbers : log.map number = List.range' 1 log.length
  sealed : ∀ x ∈ log.dropLast, final x = false

theorem numbered_nil : Numbered number final [] := ⟨rfl, fun _ h => absurd h List.not_mem_nil⟩

theorem Numbered.concat (h : Numbered number final log) (hopen : ∀ y ∈ log, final y = false)
    (hx : number x = log.length + 1) : Numbered number final (log ++ [x]) := by
  refine ⟨?_, ?_⟩
  · rw [List.map_append, h.numbers, List.length_append, List.length_singleton, List.range'_concat]
    simp only [List.map_singleton, hx, one_mul]
    rw [Nat.add_comm]
  · rw [List.dropLast_concat]
    exact hopen

/-- Nothing follows a final entry. -/
theorem Numbered.last (h : Numbered number final log) {front back : List α} (hlog : log = front ++ x :: back)
    (hx : final x = true) : back = [] := by
  by_contra hback
  have hmem : x ∈ log.dropLast := by
    rw [hlog, List.dropLast_append_of_ne_nil (List.cons_ne_nil x back)]
    apply List.mem_append_right
    cases back with
    | nil => exact absurd rfl hback
    | cons y ys => exact List.mem_cons_self
  rw [h.sealed x hmem] at hx
  cases hx

end Logs

end ModelForge.OneShot
