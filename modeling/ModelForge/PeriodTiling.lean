import Mathlib

set_option autoImplicit false

/-!
# Tilings by half-open periods

Periods that are handed out one after the other, each beginning where the one
before it ended, are disjoint and leave no gap.
-/
namespace ModelForge.PeriodTiling

variable {τ : Type} [LinearOrder τ]

def Within (p : τ × τ) (t : τ) : Prop := p.1 ≤ t ∧ t < p.2

/-- `periods` tile the line from `first` to the start of the current period,
which may be among them. -/
structure Tiling (first : τ) (current : τ × τ) (periods : List (τ × τ)) : Prop where
  past : ∀ p ∈ periods, p = current ∨ p.2 ≤ current.1
  order : current.1 < current.2 ∨ ∀ p ∈ periods, p = current
  disjoint : ∀ p ∈ periods, ∀ q ∈ periods, p ≠ q → ∀ t, Within p t → ¬ Within q t
  covers : ∀ t, first ≤ t → t < current.1 → ∃ p ∈ periods, Within p t
  head : periods = [] ∧ current.1 = first ∨ ∃ b, periods.head? = some (first, b)

variable {first next : τ} {current : τ × τ} {periods : List (τ × τ)}

theorem Tiling.start (current : τ × τ) : Tiling current.1 current [] where
  past p hp := by cases hp
  order := .inr fun p hp => by cases hp
  disjoint p hp := by cases hp
  covers t hfirst hlast := absurd hlast hfirst.not_gt
  head := .inl ⟨rfl, rfl⟩

/-- The current period is handed out, perhaps again. -/
theorem Tiling.handOut (h : Tiling first current periods) : Tiling first current (periods ++ [current]) := by
  have hcases : ∀ p ∈ periods ++ [current], p ∈ periods ∨ p = current := fun p hp =>
    (List.mem_append.mp hp).imp_right List.mem_singleton.mp
  have hpast : ∀ p ∈ periods ++ [current], p = current ∨ p.2 ≤ current.1 := fun p hp =>
    (hcases p hp).elim (h.past p) .inl
  have hnew : ∀ p ∈ periods ++ [current], p ≠ current → ∀ t, Within p t → ¬ Within current t := by
    intro p hp hne t hin hcurrent
    have hended := (hpast p hp).resolve_left hne
    exact absurd (hin.2.trans_le hended) hcurrent.1.not_gt
  refine ⟨hpast, ?_, ?_, ?_, ?_⟩
  · refine h.order.imp_right fun hall p hp => ?_
    exact (hcases p hp).elim (hall p) id
  · intro p hp q hq hne t hinp hinq
    by_cases hpc : p = current
    · subst hpc
      exact hnew q hq hne.symm t hinq hinp
    · by_cases hqc : q = current
      · subst hqc
        exact hnew p hp hne t hinp hinq
      · exact h.disjoint p ((hcases p hp).resolve_right hpc) q ((hcases q hq).resolve_right hqc) hne t
          hinp hinq
  · intro t hfirst hlast
    obtain ⟨p, hp, hin⟩ := h.covers t hfirst hlast
    exact ⟨p, List.mem_append_left _ hp, hin⟩
  · refine .inr ?_
    rcases h.head with ⟨rfl, rfl⟩ | ⟨b, hb⟩
    · exact ⟨current.2, rfl⟩
    · refine ⟨b, ?_⟩
      rw [List.head?_append, hb]
      rfl

/-- After the current period was handed out the next one begins at its end. -/
theorem Tiling.advance (h : Tiling first current periods) (hcurrent : current ∈ periods)
    (hnext : current.2 < next) : Tiling first (current.2, next) periods where
  past p hp := by
    refine .inr ?_
    rcases h.past p hp with rfl | hended
    · exact le_rfl
    · rcases h.order with hlt | hall
      · exact hended.trans hlt.le
      · rw [hall p hp]
  order := .inl hnext
  disjoint := h.disjoint
  covers t hfirst hlast := by
    rcases lt_or_ge t current.1 with hbefore | hin
    · exact h.covers t hfirst hbefore
    · exact ⟨current, hcurrent, hin, hlast⟩
  head := by
    rcases h.head with ⟨rfl, -⟩ | hhead
    · cases hcurrent
    · exact .inr hhead

theorem Tiling.existsUnique (h : Tiling first current periods) {t : τ} (hfirst : first ≤ t)
    (hlast : t < current.1) : ∃! p, p ∈ periods ∧ Within p t := by
  obtain ⟨p, hp, hin⟩ := h.covers t hfirst hlast
  refine ⟨p, ⟨hp, hin⟩, fun q hq => ?_⟩
  by_contra hne
  exact h.disjoint q hq.1 p hp hne t hq.2 hin

end ModelForge.PeriodTiling
