import Mathlib

set_option autoImplicit false

/-!
# Counting holders

Each of a list of holders holds at most one tag. How many hold a given tag, and
how that changes when one holder takes or drops it.
-/
namespace ModelForge.HolderCount

variable {η τ : Type} [DecidableEq τ] (held : η → Option τ)

def holders (hs : List η) (tag : τ) : ℕ := hs.countP fun h => held h = some tag

theorem holders_eq_zero {hs : List η} {tag : τ} :
    holders held hs tag = 0 ↔ ∀ i : ℕ, (hs[i]?).bind held ≠ some tag := by
  rw [holders, List.countP_eq_zero]
  constructor
  · intro h i hi
    obtain ⟨x, hx, hheld⟩ := Option.bind_eq_some_iff.mp hi
    exact h x (List.mem_of_getElem? hx) (decide_eq_true hheld)
  · intro h x hx hheld
    obtain ⟨i, hi⟩ := List.mem_iff_getElem?.mp hx
    exact h i (Option.bind_eq_some_iff.mpr ⟨x, hi, of_decide_eq_true hheld⟩)

theorem holders_pos {hs : List η} {i : ℕ} {x : η} {tag : τ} (hx : hs[i]? = some x)
    (hheld : held x = some tag) : 0 < holders held hs tag :=
  List.countP_pos_iff.mpr ⟨x, List.mem_of_getElem? hx, decide_eq_true hheld⟩

theorem holders_append (hs hs' : List η) (tag : τ) :
    holders held (hs ++ hs') tag = holders held hs tag + holders held hs' tag :=
  List.countP_append

theorem holders_singleton (h : η) (tag : τ) :
    holders held [h] tag = if held h = some tag then 1 else 0 := by
  simp [holders, List.countP_cons]

theorem holders_modify {hs : List η} {i : ℕ} {x : η} (hx : hs[i]? = some x) (f : η → η) (tag : τ) :
    holders held (hs.modify i f) tag + (if held x = some tag then 1 else 0) =
      holders held hs tag + if held (f x) = some tag then 1 else 0 := by
  obtain ⟨hlt, hget⟩ := List.getElem?_eq_some_iff.mp hx
  have hset : hs.modify i f = hs.set i (f x) := by
    refine List.ext_getElem? fun j => ?_
    rw [List.getElem?_modify, List.getElem?_set]
    by_cases hij : i = j
    · subst hij
      simp [hlt, hget]
    · simp [hij]
  rw [hset, holders, List.countP_set hlt, hget]
  by_cases hold : held x = some tag
  · have hpos := holders_pos held hx hold
    simp only [holders] at hpos ⊢
    simp only [hold, decide_true, if_true, decide_eq_true_eq]
    omega
  · simp [hold, holders]

end ModelForge.HolderCount
