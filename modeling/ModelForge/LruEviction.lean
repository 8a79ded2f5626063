import Mathlib

set_option autoImplicit false

/-!
# Eviction in least-recently-used order

A pool of sized elements makes room for a new one by evicting idle elements, the
least recently used first. Evicting from the front of the ordered list until the
need fits is evicting its shortest prefix that makes room.
-/
namespace ModelForge.LruEviction

variable {α τ : Type} [DecidableEq α] [LinearOrder τ]

/-- The idle elements of the pool, strictly by their last use. -/
structure LruOrder (lastUse : α → τ) (Idle : α → Prop) (pool : Finset α) (order : List α) : Prop where
  sorted : order.Pairwise fun x y => lastUse x < lastUse y
  mem : ∀ x, x ∈ order ↔ x ∈ pool ∧ Idle x

def Fits (size : α → ℕ) (budget need : ℕ) (pool : Finset α) : Prop :=
  ∑ x ∈ pool, size x + need ≤ budget

instance (size : α → ℕ) (budget need : ℕ) (pool : Finset α) : Decidable (Fits size budget need pool) :=
  inferInstanceAs (Decidable (_ ≤ _))

/-- No prefix of the order that makes room is shorter. -/
structure ShortestPrefix (size : α → ℕ) (budget need : ℕ) (pool : Finset α)
    (order evicted : List α) : Prop where
  isPrefix : evicted <+: order
  fits : Fits size budget need (pool \ evicted.toFinset)
  shortest : ∀ other, other <+: order → Fits size budget need (pool \ other.toFinset) →
    evicted.length ≤ other.length

/-- Evicts from the front until the need fits: what goes, and whether it fits then. -/
def evict (size : α → ℕ) (budget need : ℕ) : Finset α → List α → List α × Bool
  | pool, [] => ([], decide (Fits size budget need pool))
  | pool, x :: rest =>
    if Fits size budget need pool then ([], true)
    else
      let later := evict size budget need (pool.erase x) rest
      (x :: later.1, later.2)

section Order

variable {lastUse : α → τ} {Idle : α → Prop} {pool : Finset α} {x y : α} {order : List α}

omit [DecidableEq α] in
theorem LruOrder.nodup (h : LruOrder lastUse Idle pool order) : order.Nodup := by
  refine h.sorted.imp ?_
  rintro x _ hlt rfl
  exact lt_irrefl _ hlt

omit [DecidableEq α] in
theorem exists_lruOrder [DecidablePred Idle]
    (distinct : ∀ x ∈ pool, ∀ y ∈ pool, lastUse x = lastUse y → x = y) :
    ∃ order, LruOrder lastUse Idle pool order := by
  let r := fun x y : α => lastUse x ≤ lastUse y
  have : Std.Total r := ⟨fun x y => le_total (lastUse x) (lastUse y)⟩
  have : IsTrans α r := ⟨fun _ _ _ => le_trans⟩
  have hmem : ∀ x, x ∈ (pool.filter Idle).toList.insertionSort r ↔ x ∈ pool ∧ Idle x := by
    intro x
    rw [List.mem_insertionSort, Finset.mem_toList, Finset.mem_filter]
  refine ⟨(pool.filter Idle).toList.insertionSort r, ?_, hmem⟩
  have hnodup : ((pool.filter Idle).toList.insertionSort r).Nodup :=
    (List.perm_insertionSort r _).nodup_iff.mpr (Finset.nodup_toList _)
  refine ((List.pairwise_insertionSort r _).and hnodup).imp_of_mem fun hx hy hxy => ?_
  refine lt_of_le_of_ne hxy.1 fun heq => hxy.2 ?_
  exact distinct _ ((hmem _).mp hx).1 _ ((hmem _).mp hy).1 heq

/-- Without the first of the order, the rest of it is the order. -/
theorem LruOrder.erase (h : LruOrder lastUse Idle pool (x :: order)) :
    LruOrder lastUse Idle (pool.erase x) order := by
  obtain ⟨hfirst, hrest⟩ := List.pairwise_cons.mp h.sorted
  refine ⟨hrest, fun y => ?_⟩
  rw [Finset.mem_erase, and_assoc, ← h.mem, List.mem_cons]
  constructor
  · intro hy
    exact ⟨fun heq => lt_irrefl _ (heq ▸ hfirst y hy), .inr hy⟩
  · rintro ⟨hne, rfl | hy⟩
    · exact absurd rfl hne
    · exact hy

omit [DecidableEq α] in
/-- An idle element used no later than any other idle one is the first. -/
theorem LruOrder.eq_first (h : LruOrder lastUse Idle pool (x :: order)) (hy : y ∈ pool) (hidle : Idle y)
    (hmin : ∀ z ∈ pool, Idle z → lastUse y ≤ lastUse z) : y = x := by
  rcases List.mem_cons.mp ((h.mem y).mpr ⟨hy, hidle⟩) with heq | hrest
  · exact heq
  · obtain ⟨hx, hxidle⟩ := (h.mem x).mp List.mem_cons_self
    have hlt := (List.pairwise_cons.mp h.sorted).1 y hrest
    exact absurd hlt (hmin x hx hxidle).not_gt

end Order

section Walk

variable {size : α → ℕ} {budget need : ℕ} {pool : Finset α} {x : α} {order victims : List α}

theorem sdiff_cons (pool : Finset α) (x : α) (victims : List α) :
    pool \ (x :: victims).toFinset = pool.erase x \ victims.toFinset := by
  ext y
  simp only [List.toFinset_cons, Finset.mem_sdiff, Finset.mem_insert, Finset.mem_erase]
  tauto

theorem evict_isPrefix (pool : Finset α) (order : List α) :
    (evict size budget need pool order).1 <+: order := by
  induction order generalizing pool with
  | nil => exact List.prefix_rfl
  | cons x rest ih =>
    by_cases hfits : Fits size budget need pool
    · rw [evict, if_pos hfits]
      exact List.nil_prefix
    · rw [evict, if_neg hfits]
      exact (List.prefix_cons_inj x).mpr (ih (pool.erase x))

theorem evict_fits (h : (evict size budget need pool order).2 = true) :
    Fits size budget need (pool \ (evict size budget need pool order).1.toFinset) := by
  induction order generalizing pool with
  | nil => simpa [evict] using h
  | cons x rest ih =>
    by_cases hfits : Fits size budget need pool
    · simp [evict, hfits]
    · simp only [evict, if_neg hfits] at h ⊢
      rw [sdiff_cons]
      exact ih h

/-- A prefix that makes room is at least as long as what is evicted. -/
theorem evict_shortest (h : victims <+: order) (hfits : Fits size budget need (pool \ victims.toFinset)) :
    (evict size budget need pool order).2 = true ∧
      (evict size budget need pool order).1.length ≤ victims.length := by
  induction order generalizing pool victims with
  | nil =>
    obtain rfl := List.prefix_nil.mp h
    exact ⟨by simpa [evict] using hfits, Nat.zero_le _⟩
  | cons x rest ih =>
    by_cases hnow : Fits size budget need pool
    · rw [evict, if_pos hnow]
      exact ⟨rfl, Nat.zero_le _⟩
    · cases victims with
      | nil => exact absurd (by simpa using hfits) hnow
      | cons y victims =>
        obtain ⟨rfl, hrest⟩ := List.cons_prefix_cons.mp h
        rw [sdiff_cons] at hfits
        obtain ⟨hok, hlength⟩ := ih hrest hfits
        simp only [evict, if_neg hnow, List.length_cons]
        exact ⟨hok, Nat.succ_le_succ hlength⟩

theorem evict_of_fits (h : (evict size budget need pool order).2 = true) :
    ShortestPrefix size budget need pool order (evict size budget need pool order).1 :=
  ⟨evict_isPrefix pool order, evict_fits h, fun _ hother hfits => (evict_shortest hother hfits).2⟩

/-- Where the eviction fails, everything has gone and no prefix makes room. -/
theorem evict_of_not_fits (h : (evict size budget need pool order).2 = false) :
    (evict size budget need pool order).1 = order ∧
      ∀ other, other <+: order → ¬ Fits size budget need (pool \ other.toFinset) := by
  refine ⟨?_, fun other hother hfits => ?_⟩
  · induction order generalizing pool with
    | nil => rfl
    | cons x rest ih =>
      by_cases hfits : Fits size budget need pool
      · simp [evict, hfits] at h
      · simp only [evict, if_neg hfits] at h ⊢
        rw [ih h]
  · have hok := (evict_shortest hother hfits).1
    rw [h] at hok
    cases hok

end Walk

end ModelForge.LruEviction
