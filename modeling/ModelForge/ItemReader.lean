import Mathlib.Data.List.Basic

set_option autoImplicit false

/-!
# Readers of separated items

A reader takes a value from the front of a text and returns what follows it. A list
is read item by item up to a closing mark, and what was read stays read when more
text comes behind.
-/
namespace ModelForge.ItemReader

variable {σ α : Type}

abbrev Reader (σ α : Type) := List σ → Option (α × List σ)

/-- Where the first reader stops before the end of a text, the second reads the same
from the text with more behind it. -/
def Extends (one one' : Reader σ α) : Prop :=
  ∀ text a rest more, one text = some (a, rest) → rest ≠ [] → one' (text ++ more) = some (a, rest ++ more)

theorem Extends.skip {one one' : Reader σ α} (h : Extends one one') (hnone : one [] = none)
    {skip : List σ → List σ} (hskip : ∀ text more, skip text ≠ [] → skip (text ++ more) = skip text ++ more) :
    Extends (fun text => one (skip text)) fun text => one' (skip text) := by
  intro text a rest more hread hrest
  dsimp only at hread ⊢
  have hne : skip text ≠ [] := by
    intro hnil
    rw [hnil, hnone] at hread
    cases hread
  rw [hskip text more hne]
  exact h (skip text) a rest more hread hrest

variable [DecidableEq σ]

/-- Items between separators up to the closing mark; `skip` passes over blanks, and the
fuel bounds the items. -/
def items (skip : List σ → List σ) (separator close : σ) (one : Reader σ α) : ℕ → Reader σ (List α)
  | 0, _ => none
  | fuel + 1, text => do
    let (a, rest) ← one text
    match skip rest with
    | [] => none
    | c :: rest =>
      if c = close then return ([a], rest)
      else if c = separator then
        let (as, rest) ← items skip separator close one fuel rest
        return (a :: as, rest)
      else none

variable {skip : List σ → List σ} {separator close : σ} {one one' : Reader σ α}

theorem items_cases {fuel : ℕ} {text rest : List σ} {as : List α}
    (h : items skip separator close one fuel text = some (as, rest)) :
    ∃ fuel' a after, fuel = fuel' + 1 ∧ one text = some (a, after) ∧
      ((skip after = close :: rest ∧ as = [a]) ∨
        ∃ behind others, skip after = separator :: behind ∧ separator ≠ close ∧
          items skip separator close one fuel' behind = some (others, rest) ∧ as = a :: others) := by
  cases fuel with
  | zero => cases h
  | succ fuel =>
    simp only [items, Option.bind_eq_bind, Option.bind_eq_some_iff, Prod.exists] at h
    obtain ⟨a, after, hone, h⟩ := h
    refine ⟨fuel, a, after, rfl, hone, ?_⟩
    split at h
    · cases h
    · rename_i c behind hskip
      split at h
      · rename_i hclose
        cases h
        exact .inl ⟨hclose ▸ hskip, rfl⟩
      · rename_i hclose
        split at h
        · rename_i hseparator
          simp only [Option.pure_def, Option.bind_eq_some_iff, Option.some.injEq, Prod.mk.injEq, Prod.exists]
            at h
          obtain ⟨others, last, hitems, has, hlast⟩ := h
          subst hseparator
          exact .inr ⟨behind, others, hskip, hclose, hlast ▸ hitems, has.symm⟩
        · cases h

theorem items_last {fuel : ℕ} {text after rest : List σ} {a : α} (hone : one text = some (a, after))
    (hskip : skip after = close :: rest) :
    items skip separator close one (fuel + 1) text = some ([a], rest) := by
  simp [items, hone, hskip]

theorem items_more {fuel : ℕ} {text after behind rest : List σ} {a : α} {others : List α}
    (hone : one text = some (a, after)) (hskip : skip after = separator :: behind) (hne : separator ≠ close)
    (hitems : items skip separator close one fuel behind = some (others, rest)) :
    items skip separator close one (fuel + 1) text = some (a :: others, rest) := by
  simp [items, hone, hskip, hne, hitems]

theorem start_ne_nil (hnone : one [] = none) {fuel : ℕ} {text : List σ} {read : List α × List σ}
    (h : items skip separator close (fun text => one (skip text)) fuel text = some read) : skip text ≠ [] := by
  intro hnil
  obtain ⟨_, _, _, -, hone, -⟩ := items_cases h
  rw [hnil, hnone] at hone
  cases hone

/-- The closing mark is in what was read, so more text changes nothing. -/
theorem items_append (hone : Extends one one')
    (hskip : ∀ text more, skip text ≠ [] → skip (text ++ more) = skip text ++ more) (hnil : skip [] = [])
    {fuel fuel' : ℕ} (hfuel : fuel ≤ fuel') {text rest : List σ} {as : List α}
    (h : items skip separator close one fuel text = some (as, rest)) (more : List σ) :
    items skip separator close one' fuel' (text ++ more) = some (as, rest ++ more) := by
  induction fuel generalizing fuel' text as with
  | zero => cases h
  | succ fuel ih =>
    obtain ⟨_, a, after, hsucc, hread, hcases⟩ := items_cases h
    obtain rfl := Nat.succ.inj hsucc
    obtain ⟨fuel', rfl⟩ : ∃ f, fuel' = f + 1 := ⟨fuel' - 1, by omega⟩
    have hafter : skip after ≠ [] := by
      rcases hcases with ⟨hskip, -⟩ | ⟨_, _, hskip, -⟩ <;> simp [hskip]
    have hmore : after ≠ [] := by
      rintro rfl
      exact hafter hnil
    have hread' := hone text a after more hread hmore
    rcases hcases with ⟨hclose, rfl⟩ | ⟨behind, others, hseparator, hne, hitems, rfl⟩
    · refine items_last hread' ?_
      rw [hskip after more hafter, hclose, List.cons_append]
    · refine items_more hread' ?_ hne (ih (Nat.le_of_succ_le_succ hfuel) hitems)
      rw [hskip after more hafter, hseparator, List.cons_append]

/-- Items whose texts are read back, each before a separator or the closing mark, are
read back as a list. -/
theorem items_intercalate {write : α → List σ} {as : List α} {fuel : ℕ} (hfuel : as.length ≤ fuel) (hnil : as ≠ [])
    (hne : separator ≠ close) (hseparator : ∀ more, skip (separator :: more) = separator :: more)
    (hclose : ∀ more, skip (close :: more) = close :: more)
    (hread : ∀ a ∈ as, ∀ c more, c = separator ∨ c = close → one (write a ++ c :: more) = some (a, c :: more))
    (more : List σ) :
    items skip separator close one fuel ([separator].intercalate (as.map write) ++ close :: more) =
      some (as, more) := by
  induction as generalizing fuel with
  | nil => exact absurd rfl hnil
  | cons a as ih =>
    obtain ⟨fuel, rfl⟩ : ∃ f, fuel = f + 1 := ⟨fuel - 1, by rw [List.length_cons] at hfuel; omega⟩
    have hfirst := hread a List.mem_cons_self
    by_cases hlast : as = []
    · subst hlast
      rw [List.map_singleton, List.intercalate_singleton]
      exact items_last (hfirst close more (.inr rfl)) (hclose more)
    · have hothers := ih (Nat.le_of_succ_le_succ hfuel) hlast fun b hb => hread b (List.mem_cons_of_mem _ hb)
      have hsplit : [separator].intercalate ((a :: as).map write) ++ close :: more =
          write a ++ separator :: ([separator].intercalate (as.map write) ++ close :: more) := by
        rw [List.map_cons, List.intercalate_cons_of_ne_nil (by simpa using hlast)]
        simp
      rw [hsplit]
      exact items_more (hfirst separator _ (.inl rfl)) (hseparator _) hne hothers

end ModelForge.ItemReader
