import Mathlib

set_option autoImplicit false

/-!
# Counting in windows

Points in time, each in a window of a fixed length. Where no two windows overlap
and none holds more than so many points, an interval of that length meets two
windows at most.
-/
namespace ModelForge.WindowCount

/-- A point in time and the start of its window. -/
abbrev Point := ℤ × ℤ

def inWindow (start : ℤ) (points : List Point) : ℕ := points.countP fun a => a.2 = start

def inInterval (length t : ℤ) (points : List Point) : ℕ :=
  points.countP fun a => t ≤ a.1 ∧ a.1 < t + length

/-- Each point lies in its window, windows do not overlap, and no window holds
more than `most` points. -/
structure Windowed (length : ℤ) (most : ℕ) (points : List Point) : Prop where
  inside : ∀ a ∈ points, a.2 ≤ a.1 ∧ a.1 < a.2 + length
  apart : ∀ a ∈ points, ∀ b ∈ points, a.2 < b.2 → a.2 + length ≤ b.2
  few : ∀ start, inWindow start points ≤ most

variable {length : ℤ} {most : ℕ} {points : List Point}

theorem windowed_nil : Windowed length most [] where
  inside := by simp
  apart := by simp
  few _ := Nat.zero_le most

theorem inWindow_append (start : ℤ) (points : List Point) (a : Point) :
    inWindow start (points ++ [a]) = inWindow start points + if a.2 = start then 1 else 0 := by
  simp [inWindow, List.countP_append, List.countP_cons]

theorem inWindow_eq_zero {start : ℤ} (h : ∀ a ∈ points, a.2 ≠ start) : inWindow start points = 0 := by
  apply List.countP_eq_zero.mpr
  intro a ha heq
  exact h a ha (of_decide_eq_true heq)

/-- A further point goes to a window with room that overlaps no other. -/
theorem Windowed.push (h : Windowed length most points) {t start : ℤ} (hin : start ≤ t)
    (hend : t < start + length)
    (hapart : ∀ a ∈ points, a.2 = start ∨ a.2 + length ≤ start ∨ start + length ≤ a.2)
    (hroom : inWindow start points < most) : Windowed length most (points ++ [(t, start)]) where
  inside := by
    intro a ha
    rcases List.mem_append.mp ha with ha | ha
    · exact h.inside a ha
    · obtain rfl := List.mem_singleton.mp ha
      exact ⟨hin, hend⟩
  apart := by
    intro a ha b hb hlt
    simp only [List.mem_append, List.mem_singleton] at ha hb
    rcases ha with ha | rfl
    · rcases hb with hb | rfl
      · exact h.apart a ha b hb hlt
      · have := hapart a ha
        simp only at hlt ⊢
        omega
    · rcases hb with hb | rfl
      · have := hapart b hb
        simp only at hlt ⊢
        omega
      · omega
  few := by
    intro s
    have hs := h.few s
    rw [inWindow_append]
    by_cases heq : start = s
    · rw [heq] at hroom
      simp only [heq, if_true]
      omega
    · simp only [heq, if_false]
      omega

theorem countP_le_add {α : Type} (p q r : α → Bool) (xs : List α)
    (h : ∀ a ∈ xs, p a = true → q a = true ∨ r a = true) : xs.countP p ≤ xs.countP q + xs.countP r := by
  induction xs with
  | nil => exact Nat.zero_le _
  | cons a xs ih =>
    have hrest := ih fun b hb => h b (List.mem_cons_of_mem a hb)
    have ha := h a List.mem_cons_self
    simp only [List.countP_cons]
    split_ifs <;> simp_all <;> omega

/-- Points of one window at most are no more than a window holds. -/
theorem Windowed.countP_le (h : Windowed length most points) (p : Point → Bool)
    (hone : ∀ a ∈ points, ∀ b ∈ points, p a = true → p b = true → a.2 < b.2 + length) :
    points.countP p ≤ most := by
  by_cases hany : ∃ a ∈ points, p a = true
  · obtain ⟨a, ha, hpa⟩ := hany
    have hsame : ∀ b ∈ points, p b = true → b.2 = a.2 := by
      intro b hb hpb
      have hab := hone a ha b hb hpa hpb
      have hba := hone b hb a ha hpb hpa
      have hlt := h.apart a ha b hb
      have hgt := h.apart b hb a ha
      omega
    apply le_trans _ (h.few a.2)
    apply List.countP_mono_left
    intro b hb hpb
    exact decide_eq_true (hsame b hb hpb)
  · have hzero : points.countP p = 0 := List.countP_eq_zero.mpr fun a ha hpa => hany ⟨a, ha, hpa⟩
    omega

/-- Of the windows that an interval meets, one began before it at most, and one in it. -/
theorem Windowed.inInterval_le (h : Windowed length most points) (t : ℤ) :
    inInterval length t points ≤ 2 * most := by
  have hsplit := countP_le_add (fun a : Point => decide (t ≤ a.1 ∧ a.1 < t + length))
    (fun a => decide (t < a.2 + length ∧ a.2 ≤ t)) (fun a => decide (t < a.2 ∧ a.2 < t + length)) points
    (by
      intro a ha hp
      have hin := h.inside a ha
      simp only [decide_eq_true_eq] at hp ⊢
      omega)
  have hbefore := h.countP_le (fun a => decide (t < a.2 + length ∧ a.2 ≤ t)) (by
    intro a _ b _ hpa hpb
    simp only [decide_eq_true_eq] at hpa hpb
    omega)
  have hwithin := h.countP_le (fun a => decide (t < a.2 ∧ a.2 < t + length)) (by
    intro a _ b _ hpa hpb
    simp only [decide_eq_true_eq] at hpa hpb
    omega)
  unfold inInterval
  omega

end ModelForge.WindowCount
