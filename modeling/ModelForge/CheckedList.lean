import Mathlib.Data.List.Perm.Basic

set_option autoImplicit false

/-!
# Lists whose elements are all checked

`mapM` in `Option`: one element that fails the check fails the list, else the
results stand in the order of the elements.
-/
namespace ModelForge.CheckedList

variable {α β γ : Type} {check : α → Option β} {values : List α} {parsed : List β}

theorem mapM_eq_some_iff : values.mapM check = some parsed ↔
    List.Forall₂ (fun value result => check value = some result) values parsed := by
  induction values generalizing parsed with
  | nil => simp [eq_comm]
  | cons value values ih =>
    simp only [List.mapM_cons, Option.bind_eq_bind, Option.bind_eq_some_iff, Option.pure_def,
      Option.some.injEq, List.forall₂_cons_left_iff, ih]
    constructor
    · intro ⟨first, hfirst, rest, hrest, hparsed⟩
      exact ⟨first, rest, hfirst, hrest, hparsed.symm⟩
    · intro ⟨first, rest, hfirst, hrest, hparsed⟩
      exact ⟨first, hfirst, rest, hrest, hparsed.symm⟩

theorem mapM_isSome_iff :
    (∃ parsed, values.mapM check = some parsed) ↔ ∀ value ∈ values, ∃ result, check value = some result := by
  induction values with
  | nil => simp
  | cons value values ih =>
    rw [List.forall_mem_cons, ← ih, List.mapM_cons]
    cases check value with
    | none => simp
    | some first => cases values.mapM check <;> simp

theorem length_of_mapM (h : values.mapM check = some parsed) : parsed.length = values.length :=
  (mapM_eq_some_iff.mp h).length_eq.symm

theorem mem_of_mapM (h : values.mapM check = some parsed) {result : β} (hresult : result ∈ parsed) :
    ∃ value ∈ values, check value = some result := by
  have hall := mapM_eq_some_iff.mp h
  induction hall with
  | nil => cases hresult
  | @cons value first values rest hfirst hrest ih =>
    cases hresult with
    | head => exact ⟨value, List.mem_cons_self, hfirst⟩
    | tail _ hresult =>
      obtain ⟨a, ha, hab⟩ := ih (mapM_eq_some_iff.mpr hrest) hresult
      exact ⟨a, List.mem_cons_of_mem _ ha, hab⟩

/-- The results of a permuted list are permuted. -/
theorem mapM_perm {values' : List α} (hperm : values.Perm values')
    (h : values.mapM check = some parsed) :
    ∃ parsed', values'.mapM check = some parsed' ∧ parsed.Perm parsed' := by
  obtain ⟨parsed', hparsed', hperm'⟩ := List.perm_comp_forall₂ hperm.symm (mapM_eq_some_iff.mp h)
  exact ⟨parsed', mapM_eq_some_iff.mpr hparsed', hperm'.symm⟩

theorem mapM_eq_map {f : α → β} (h : ∀ value ∈ values, check value = some (f value)) :
    values.mapM check = some (values.map f) := by
  rw [mapM_eq_some_iff, List.forall₂_map_right_iff, List.forall₂_same]
  exact h

theorem mapM_mono {check' : α → Option β}
    (h : ∀ value result, check value = some result → check' value = some result)
    (hparsed : values.mapM check = some parsed) : values.mapM check' = some parsed :=
  mapM_eq_some_iff.mpr ((mapM_eq_some_iff.mp hparsed).imp h)

/-- What the check keeps of each element. -/
theorem map_eq_of_mapM {f : α → γ} {g : β → γ}
    (hkeeps : ∀ value result, check value = some result → g result = f value)
    (h : values.mapM check = some parsed) : parsed.map g = values.map f := by
  have hall := (mapM_eq_some_iff.mp h).imp hkeeps
  rw [← List.forall₂_eq_eq_eq, List.forall₂_map_left_iff, List.forall₂_map_right_iff]
  exact hall.flip

end ModelForge.CheckedList
