import Mathlib.Data.List.Basic
import Mathlib.Data.List.Nodup

set_option autoImplicit false

/-!
# Rows that refer to rows

Tables are lists of rows. A row is found by its key, and refers to a row of another
table by that one's key; what refers to a row that is deleted is deleted with it.
-/
namespace ModelForge.RelatedRows

variable {α β κ : Type} {key : α → κ} {ref : β → κ} {rows rows' : List α} {others : List β} {row row' : α}
  {other : β} {k : κ}

/-! ## Keys and references -/

/-- No two rows have the same key. -/
def Keyed (key : α → κ) (rows : List α) : Prop := (rows.map key).Nodup

theorem Keyed.eq (h : Keyed key rows) (hrow : row ∈ rows) (hrow' : row' ∈ rows) (heq : key row = key row') :
    row = row' :=
  List.inj_on_of_nodup_map h hrow hrow' heq

theorem Keyed.insert (h : Keyed key rows) (hnew : ∀ other ∈ rows, key other ≠ key row) : Keyed key (rows ++ [row]) := by
  rw [Keyed, List.map_append, List.nodup_append]
  refine ⟨h, List.nodup_singleton _, ?_⟩
  intro k hk k' hk'
  obtain ⟨other, hother, rfl⟩ := List.mem_map.mp hk
  rw [List.map_singleton, List.mem_singleton] at hk'
  exact hk' ▸ hnew other hother

theorem Keyed.of_sublist (h : Keyed key rows) (hsub : rows'.Sublist rows) : Keyed key rows' :=
  List.Nodup.sublist (hsub.map key) h

/-- Every row refers to a row that is there. -/
def Refers (ref : β → κ) (others : List β) (key : α → κ) (rows : List α) : Prop :=
  ∀ other ∈ others, ∃ row ∈ rows, key row = ref other

theorem Refers.insert (h : Refers ref others key rows) (hrow : row ∈ rows) (heq : key row = ref other) :
    Refers ref (others ++ [other]) key rows := by
  intro o ho
  cases List.mem_append.mp ho with
  | inl hold => exact h o hold
  | inr hnew => exact List.mem_singleton.mp hnew ▸ ⟨row, hrow, heq⟩

theorem Refers.mono (h : Refers ref others key rows) (hkeys : ∀ k ∈ rows.map key, k ∈ rows'.map key) :
    Refers ref others key rows' := by
  intro other hother
  obtain ⟨row, hrow, heq⟩ := h other hother
  obtain ⟨row', hrow', heq'⟩ := List.mem_map.mp (hkeys _ (List.mem_map_of_mem hrow))
  exact ⟨row', hrow', heq'.trans heq⟩

/-! ## Finding and changing -/

variable [DecidableEq κ]

def find (key : α → κ) (rows : List α) (k : κ) : Option α := rows.find? fun row => key row = k

theorem find_eq_some (h : find key rows k = some row) : row ∈ rows ∧ key row = k := by
  have hkey := List.find?_some h
  exact ⟨List.mem_of_find?_eq_some h, of_decide_eq_true hkey⟩

/-- `UPDATE ... WHERE key = k` -/
def update (key : α → κ) (k : κ) (f : α → α) (rows : List α) : List α :=
  rows.map fun row => if key row = k then f row else row

theorem mem_update {f : α → α} : row ∈ update key k f rows ↔ ∃ old ∈ rows, (if key old = k then f old else old) = row :=
  List.mem_map

theorem map_update {γ : Type} {g : α → γ} {f : α → α} (h : ∀ row, g (f row) = g row) :
    (update key k f rows).map g = rows.map g := by
  rw [update, List.map_map]
  apply List.map_congr_left
  intro row _
  rw [Function.comp_apply]
  split
  · exact h row
  · rfl

/-! ## Deleting -/

/-- `ON DELETE CASCADE`, once rows have been deleted. -/
def cascade (ref : β → κ) (others : List β) (key : α → κ) (rows : List α) : List β :=
  others.filter fun other => rows.any fun row => key row = ref other

theorem mem_cascade : other ∈ cascade ref others key rows ↔ other ∈ others ∧ ∃ row ∈ rows, key row = ref other := by
  simp [cascade]

theorem cascade_sublist (ref : β → κ) (others : List β) (key : α → κ) (rows : List α) :
    (cascade ref others key rows).Sublist others :=
  List.filter_sublist

theorem refers_cascade (ref : β → κ) (others : List β) (key : α → κ) (rows : List α) :
    Refers ref (cascade ref others key rows) key rows :=
  fun _ hother => (mem_cascade.mp hother).2

/-- What refers to a row that stays, stays. -/
theorem filter_cascade (hrow : row ∈ rows) :
    (cascade ref others key rows).filter (fun other => ref other = key row) =
      others.filter fun other => ref other = key row := by
  rw [cascade, List.filter_filter]
  apply List.filter_congr
  intro other _
  rw [Bool.and_eq_left_iff_imp, decide_eq_true_eq, List.any_eq_true]
  intro heq
  exact ⟨row, hrow, decide_eq_true heq.symm⟩

end ModelForge.RelatedRows
