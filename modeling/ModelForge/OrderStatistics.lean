import Mathlib

set_option autoImplicit false

/-!
# Order statistics

How many elements of a list are at most a value, and which element of the sorted
list is the least that a given number of elements do not exceed.
-/
namespace ModelForge.OrderStatistics

variable {α : Type} [LinearOrder α]

def countLe (v : α) (values : List α) : ℕ := values.countP (· ≤ v)

theorem countLe_perm {values values' : List α} (h : values.Perm values') (v : α) :
    countLe v values = countLe v values' :=
  h.countP_eq _

theorem countLe_mono {v w : α} (h : v ≤ w) (values : List α) : countLe v values ≤ countLe w values := by
  apply List.countP_mono_left
  intro x _ hx
  exact decide_eq_true ((of_decide_eq_true hx).trans h)

theorem countLe_cons_of_lt {v head : α} {tail : List α} (h : v < head)
    (hsorted : (head :: tail).Pairwise (· ≤ ·)) : countLe v (head :: tail) = 0 := by
  rw [countLe, List.countP_eq_zero]
  intro x hx hle
  have hhead : head ≤ x := by
    cases hx with
    | head => exact le_rfl
    | tail _ hx => exact (List.pairwise_cons.mp hsorted).1 x hx
  exact absurd (hhead.trans (of_decide_eq_true hle)) h.not_ge

/-- In a sorted list the elements that a value does not fall below come first. -/
theorem getElem_le_iff {sorted : List α} (hsorted : sorted.Pairwise (· ≤ ·)) {v : α} {i : ℕ}
    (hi : i < sorted.length) : sorted[i] ≤ v ↔ i < countLe v sorted := by
  induction sorted generalizing i with
  | nil => simp at hi
  | cons head tail ih =>
    by_cases hhead : head ≤ v
    · have hcount : countLe v (head :: tail) = countLe v tail + 1 := by simp [countLe, hhead]
      rw [hcount]
      cases i with
      | zero => simpa using hhead
      | succ i =>
        have htail := ih (List.pairwise_cons.mp hsorted).2 (i := i) (by simpa using hi)
        rw [List.getElem_cons_succ, htail]
        omega
    · rw [countLe_cons_of_lt (not_le.mp hhead) hsorted]
      have hle : head ≤ (head :: tail)[i] := by
        cases i with
        | zero => exact le_rfl
        | succ i => exact (List.pairwise_cons.mp hsorted).1 _ (List.getElem_mem _)
      constructor
      · intro h
        exact absurd (hle.trans h) hhead
      · intro h
        omega

/-- A value that some element does not exceed has as many elements below it as
the largest such element. -/
theorem exists_mem_countLe_eq {v : α} {values : List α} (h : 0 < countLe v values) :
    ∃ w ∈ values, w ≤ v ∧ countLe w values = countLe v values := by
  obtain ⟨x, hx, hxv⟩ := List.countP_pos_iff.mp h
  let below := values.toFinset.filter (· ≤ v)
  have hne : below.Nonempty := ⟨x, by simpa [below, hx] using hxv⟩
  obtain ⟨hmem, hle⟩ := Finset.mem_filter.mp (below.max'_mem hne)
  refine ⟨below.max' hne, List.mem_toFinset.mp hmem, hle, ?_⟩
  apply le_antisymm (countLe_mono hle values)
  apply List.countP_mono_left
  intro y hy hyv
  exact decide_eq_true (below.le_max' y (by simpa [below, hy] using hyv))

end ModelForge.OrderStatistics
