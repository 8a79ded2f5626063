import Mathlib

set_option autoImplicit false

/-!
# Participants

A list of participants, each known by its place. In a step one of them moves, or
a new one joins at the end; the others stay as they are.
-/
namespace ModelForge.Participants

variable {α β : Type} {xs ys : List α} {x y : α} {i j : ℕ} {f : α → α}

/-! ## One moves -/

theorem get_modify (xs : List α) (i j : ℕ) (f : α → α) :
    (xs.modify i f)[j]? = if i = j then xs[j]?.map f else xs[j]? := by
  rw [List.getElem?_modify]
  split
  · rfl
  · exact Option.map_id'

theorem get_of_modify (h : (xs.modify i f)[j]? = some y) :
    j = i ∧ (∃ x, xs[i]? = some x ∧ y = f x) ∨ j ≠ i ∧ xs[j]? = some y := by
  rw [get_modify] at h
  by_cases hij : i = j
  · subst hij
    rw [if_pos rfl] at h
    obtain ⟨x, hx, hy⟩ := Option.map_eq_some_iff.mp h
    exact .inl ⟨rfl, x, hx, hy.symm⟩
  · rw [if_neg hij] at h
    exact .inr ⟨Ne.symm hij, h⟩

theorem mem_of_modify (h : y ∈ xs.modify i f) : (∃ x, xs[i]? = some x ∧ y = f x) ∨ y ∈ xs := by
  obtain ⟨j, hj⟩ := List.mem_iff_getElem?.mp h
  cases get_of_modify hj with
  | inl hmoved => exact .inl hmoved.2
  | inr hkept => exact .inr (List.mem_of_getElem? hkept.2)

/-- What a move keeps of each participant is kept of all. -/
theorem forall_modify {P : α → Prop} (h : ∀ x ∈ xs, P x) (hf : ∀ x, P x → P (f x)) :
    ∀ x ∈ xs.modify i f, P x := by
  intro y hy
  rcases mem_of_modify hy with ⟨x, hx, rfl⟩ | hold
  · exact hf x (h x (List.mem_of_getElem? hx))
  · exact h y hold

/-! ## One joins -/

theorem get_append (h : xs[j]? = some y) (ys : List α) : (xs ++ ys)[j]? = some y := by
  rw [List.getElem?_append_left (List.getElem?_eq_some_iff.mp h).1, h]

theorem get_of_concat (h : (xs ++ [x])[j]? = some y) : xs[j]? = some y ∨ j = xs.length ∧ y = x := by
  rcases Nat.lt_or_ge j xs.length with hlt | hge
  · rw [List.getElem?_append_left hlt] at h
    exact .inl h
  · rw [List.getElem?_append_right hge, List.getElem?_singleton] at h
    split at h
    · exact .inr ⟨by omega, (Option.some.inj h).symm⟩
    · cases h

/-- A newcomer of whom `g` tells nothing makes no difference to it. -/
theorem bind_concat {g : α → Option β} (h : g x = none) (xs : List α) (j : ℕ) :
    (xs ++ [x])[j]?.bind g = xs[j]?.bind g := by
  apply Option.ext
  intro b
  rw [Option.bind_eq_some_iff, Option.bind_eq_some_iff]
  constructor
  · rintro ⟨y, hy, hb⟩
    rcases get_of_concat hy with hold | ⟨-, rfl⟩
    · exact ⟨y, hold, hb⟩
    · rw [h] at hb
      cases hb
  · rintro ⟨y, hy, hb⟩
    exact ⟨y, get_append hy [x], hb⟩

end ModelForge.Participants
