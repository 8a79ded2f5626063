import Mathlib

set_option autoImplicit false

/-!
# Insertion-ordered maps

A finite map whose entries stay in the order in which their keys were first
set. Setting a key that is there keeps its place; deleting and setting it again
moves it to the end.
-/
namespace ModelForge

structure KeyedMap (κ ν : Type) where
  entries : List (κ × ν)
  nodup : (entries.map Prod.fst).Nodup
  deriving DecidableEq

namespace KeyedMap

variable {κ ν : Type}

def empty : KeyedMap κ ν := ⟨[], List.nodup_nil⟩

def keys (m : KeyedMap κ ν) : List κ := m.entries.map Prod.fst

def values (m : KeyedMap κ ν) : List ν := m.entries.map Prod.snd

def size (m : KeyedMap κ ν) : ℕ := m.entries.length

@[simp] theorem size_empty : (empty : KeyedMap κ ν).size = 0 := rfl

variable [DecidableEq κ]

def get? (m : KeyedMap κ ν) (k : κ) : Option ν := m.entries.lookup k

/-- Applies `f` to the value at `k`, if there is one. -/
def update (m : KeyedMap κ ν) (k : κ) (f : ν → ν) : KeyedMap κ ν where
  entries := m.entries.map fun e => if e.1 = k then (e.1, f e.2) else e
  nodup := by
    have hkeys : (m.entries.map fun e => if e.1 = k then (e.1, f e.2) else e).map Prod.fst =
        m.entries.map Prod.fst := by
      rw [List.map_map]
      refine List.map_congr_left fun e _ => ?_
      by_cases he : e.1 = k <;> simp [he]
    exact hkeys ▸ m.nodup

/-- Applies `f` to every value. -/
def mapValues (m : KeyedMap κ ν) (f : ν → ν) : KeyedMap κ ν where
  entries := m.entries.map fun e => (e.1, f e.2)
  nodup := by
    rw [List.map_map]
    exact m.nodup

def delete (m : KeyedMap κ ν) (k : κ) : KeyedMap κ ν where
  entries := m.entries.filter fun e => e.1 ≠ k
  nodup := (List.Sublist.map Prod.fst List.filter_sublist).nodup m.nodup

def set (m : KeyedMap κ ν) (k : κ) (v : ν) : KeyedMap κ ν :=
  if hk : k ∈ m.keys then m.update k fun _ => v
  else
    { entries := m.entries ++ [(k, v)]
      nodup := by
        rw [List.map_append, List.map_singleton]
        refine m.nodup.append (List.nodup_singleton k) fun j hj hjk => hk ?_
        obtain rfl := List.mem_singleton.mp hjk
        exact hj }

@[simp] theorem get?_empty (k : κ) : (empty : KeyedMap κ ν).get? k = none := rfl

theorem mem_of_get? {m : KeyedMap κ ν} {k : κ} {v : ν} (h : m.get? k = some v) :
    (k, v) ∈ m.entries := by
  obtain ⟨xs, ys, hsplit, -⟩ := List.lookup_eq_some_iff.mp h
  rw [hsplit]
  exact List.mem_append_right _ List.mem_cons_self

theorem get?_of_mem {m : KeyedMap κ ν} {k : κ} {v : ν} (h : (k, v) ∈ m.entries) :
    m.get? k = some v := by
  obtain ⟨xs, ys, hsplit⟩ := List.append_of_mem h
  refine List.lookup_eq_some_iff.mpr ⟨xs, ys, hsplit, fun e he => ?_⟩
  have hn := m.nodup
  rw [hsplit, List.map_append, List.map_cons, List.nodup_append] at hn
  have hne : e.1 ≠ k := hn.2.2 _ (List.mem_map_of_mem he) _ List.mem_cons_self
  simpa using Ne.symm hne

theorem mem_entries {m : KeyedMap κ ν} {k : κ} {v : ν} : (k, v) ∈ m.entries ↔ m.get? k = some v :=
  ⟨get?_of_mem, mem_of_get?⟩

theorem mem_keys {m : KeyedMap κ ν} {k : κ} : k ∈ m.keys ↔ (m.get? k).isSome := by
  rw [keys, List.mem_map, Option.isSome_iff_exists]
  constructor
  · rintro ⟨⟨j, v⟩, he, rfl⟩
    exact ⟨v, get?_of_mem he⟩
  · rintro ⟨v, hv⟩
    exact ⟨(k, v), mem_of_get? hv, rfl⟩

theorem not_mem_keys {m : KeyedMap κ ν} {k : κ} : k ∉ m.keys ↔ m.get? k = none := by
  rw [mem_keys, Bool.not_eq_true, Option.isSome_eq_false_iff, Option.isNone_iff_eq_none]

theorem mem_values {m : KeyedMap κ ν} {v : ν} : v ∈ m.values ↔ ∃ k, m.get? k = some v := by
  simp only [values, List.mem_map, Prod.exists, exists_eq_right, mem_entries]

theorem get?_update (m : KeyedMap κ ν) (k j : κ) (f : ν → ν) :
    (m.update k f).get? j = if j = k then (m.get? j).map f else m.get? j := by
  simp only [get?, update]
  induction m.entries with
  | nil => simp
  | cons e rest ih =>
    obtain ⟨i, v⟩ := e
    by_cases hik : i = k
    · subst hik
      by_cases hji : j = i
      · subst hji
        simp
      · have hb : (j == i) = false := beq_false_of_ne hji
        simp [List.lookup_cons, hji, hb, ih]
    · by_cases hji : j = i
      · subst hji
        simp [hik]
      · have hb : (j == i) = false := beq_false_of_ne hji
        simp [List.lookup_cons, hik, hb, ih]

theorem get?_mapValues (m : KeyedMap κ ν) (f : ν → ν) (k : κ) :
    (m.mapValues f).get? k = (m.get? k).map f := by
  simp only [get?, mapValues]
  induction m.entries with
  | nil => rfl
  | cons e rest ih =>
    rw [List.map_cons, List.lookup_cons, List.lookup_cons, ih]
    cases k == e.1 <;> rfl

theorem get?_delete (m : KeyedMap κ ν) (k j : κ) :
    (m.delete k).get? j = if j = k then none else m.get? j := by
  refine Option.ext fun v => ?_
  by_cases hjk : j = k
  · subst hjk
    simp [← mem_entries, delete]
  · simp [← mem_entries, delete, hjk]

theorem get?_set (m : KeyedMap κ ν) (k j : κ) (v : ν) :
    (m.set k v).get? j = if j = k then some v else m.get? j := by
  unfold set
  by_cases hk : k ∈ m.keys
  · rw [dif_pos hk, get?_update]
    by_cases hjk : j = k
    · subst hjk
      obtain ⟨w, hw⟩ := Option.isSome_iff_exists.mp (mem_keys.mp hk)
      simp [hw]
    · simp [hjk]
  · rw [dif_neg hk]
    have happ : (m.entries ++ [(k, v)]).lookup j = (m.get? j).or ([(k, v)].lookup j) :=
      List.lookup_append
    change (m.entries ++ [(k, v)]).lookup j = _
    by_cases hjk : j = k
    · subst hjk
      rw [happ, not_mem_keys.mp hk]
      simp
    · have hb : (j == k) = false := beq_false_of_ne hjk
      rw [happ]
      simp [hjk, hb, List.lookup_cons]

@[simp] theorem get?_set_self (m : KeyedMap κ ν) (k : κ) (v : ν) : (m.set k v).get? k = some v := by
  rw [get?_set, if_pos rfl]

@[simp] theorem get?_delete_self (m : KeyedMap κ ν) (k : κ) : (m.delete k).get? k = none := by
  rw [get?_delete, if_pos rfl]

theorem get?_set_of_ne {m : KeyedMap κ ν} {k j : κ} {v : ν} (h : j ≠ k) :
    (m.set k v).get? j = m.get? j := by
  rw [get?_set, if_neg h]

theorem get?_delete_of_ne {m : KeyedMap κ ν} {k j : κ} (h : j ≠ k) :
    (m.delete k).get? j = m.get? j := by
  rw [get?_delete, if_neg h]

theorem entries_set_of_absent {m : KeyedMap κ ν} {k : κ} (h : m.get? k = none) (v : ν) :
    (m.set k v).entries = m.entries ++ [(k, v)] := by
  rw [set, dif_neg (not_mem_keys.mpr h)]

/-- A map to which entries with different keys are added has them in that order. -/
theorem entries_foldl_set (es : List (κ × ν)) (m : KeyedMap κ ν) (h : (m.keys ++ es.map Prod.fst).Nodup) :
    (es.foldl (fun m e => m.set e.1 e.2) m).entries = m.entries ++ es := by
  induction es generalizing m with
  | nil => simp
  | cons e es ih =>
    have hsplit : (m.keys ++ [e.1]) ++ es.map Prod.fst = m.keys ++ (e :: es).map Prod.fst := by simp
    have habsent : m.get? e.1 = none := by
      refine not_mem_keys.mp fun hmem => ?_
      rw [List.map_cons] at h
      exact (List.disjoint_of_nodup_append h) hmem List.mem_cons_self
    have hentries := entries_set_of_absent habsent e.2
    have hkeys : (m.set e.1 e.2).keys = m.keys ++ [e.1] := by
      rw [keys, hentries, List.map_append, keys]
      rfl
    rw [List.foldl_cons, ih _ (by rwa [hkeys, hsplit]), hentries, List.append_assoc, List.singleton_append]

theorem entries_delete_of_absent {m : KeyedMap κ ν} {k : κ} (h : m.get? k = none) :
    (m.delete k).entries = m.entries := by
  refine List.filter_eq_self.mpr fun e he => decide_eq_true ?_
  rintro rfl
  rw [get?_of_mem he] at h
  cases h

/-! ## Sums over the values -/

def total (f : ν → ℕ) (m : KeyedMap κ ν) : ℕ := (m.entries.map fun e => f e.2).sum

omit [DecidableEq κ] in
theorem size_eq_total (m : KeyedMap κ ν) : m.size = m.total fun _ => 1 := by
  simp [size, total]

theorem total_set_of_absent {m : KeyedMap κ ν} {k : κ} (h : m.get? k = none) (f : ν → ℕ) (v : ν) :
    (m.set k v).total f = m.total f + f v := by
  rw [total, entries_set_of_absent h]
  simp [total]

theorem total_delete_of_absent {m : KeyedMap κ ν} {k : κ} (h : m.get? k = none) (f : ν → ℕ) :
    (m.delete k).total f = m.total f := by
  rw [total, entries_delete_of_absent h, total]

theorem total_delete {m : KeyedMap κ ν} {k : κ} {v : ν} (h : m.get? k = some v) (f : ν → ℕ) :
    (m.delete k).total f + f v = m.total f := by
  obtain ⟨xs, ys, hsplit⟩ := List.append_of_mem (mem_of_get? h)
  have hn := m.nodup
  rw [hsplit, List.map_append, List.map_cons, List.nodup_append] at hn
  obtain ⟨-, hys, hxs⟩ := hn
  have hkeepx : xs.filter (fun e => decide (e.1 ≠ k)) = xs :=
    List.filter_eq_self.mpr fun e he =>
      decide_eq_true (hxs _ (List.mem_map_of_mem he) _ List.mem_cons_self)
  have hkeepy : ys.filter (fun e => decide (e.1 ≠ k)) = ys := by
    refine List.filter_eq_self.mpr fun e he => decide_eq_true ?_
    intro hek
    have hmem : e.1 ∈ ys.map Prod.fst := List.mem_map_of_mem he
    exact (List.nodup_cons.mp hys).1 (hek ▸ hmem)
  have hdel : (m.delete k).entries = xs ++ ys := by
    change m.entries.filter (fun e => decide (e.1 ≠ k)) = _
    rw [hsplit, List.filter_append, hkeepx, List.filter_cons_of_neg (by simp), hkeepy]
  simp only [total, hdel, hsplit, List.map_append, List.map_cons, List.sum_append, List.sum_cons]
  omega

theorem total_update (m : KeyedMap κ ν) (k : κ) {f : ν → ℕ} {g : ν → ν} (h : ∀ v, f (g v) = f v) :
    (m.update k g).total f = m.total f := by
  simp only [total, update, List.map_map]
  congr 1
  refine List.map_congr_left fun e _ => ?_
  by_cases he : e.1 = k <;> simp [he, h]

theorem size_set_of_absent {m : KeyedMap κ ν} {k : κ} (h : m.get? k = none) (v : ν) :
    (m.set k v).size = m.size + 1 := by
  rw [size_eq_total, size_eq_total, total_set_of_absent h]

theorem size_delete {m : KeyedMap κ ν} {k : κ} {v : ν} (h : m.get? k = some v) :
    (m.delete k).size + 1 = m.size := by
  rw [size_eq_total, size_eq_total, total_delete h]

end KeyedMap

end ModelForge
