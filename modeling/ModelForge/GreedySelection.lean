import Mathlib.Data.List.Basic
import Mathlib.Data.List.Pairwise
import Mathlib.Order.Nat

set_option autoImplicit false

/-!
# Greedy selections

A list is gone through once, and an item is picked unless it repeats one that was
picked before, up to a number of items. The relation need not be symmetric or
transitive.
-/
namespace ModelForge.GreedySelection

variable {α : Type} {repeats : α → α → Prop} {limit : ℕ} {items picked : List α} {positions : List ℕ}

/-- The items at the positions are picked: none of them repeats an earlier one, and an
item left out repeats one that stands before it, or comes when there is no room. -/
structure Selects (repeats : α → α → Prop) (limit : ℕ) (items picked : List α) (positions : List ℕ) :
    Prop where
  sublist : picked.Sublist items
  ascending : positions.Pairwise (· < ·)
  picks : positions.map (items[·]?) = picked.map some
  bounded : picked.length ≤ limit
  apart : picked.Pairwise fun earlier later => ¬ repeats earlier later
  left_out : ∀ i item, items[i]? = some item → i ∉ positions →
    (∃ p ∈ positions, p < i ∧ ∃ earlier, items[p]? = some earlier ∧ repeats earlier item) ∨
      limit ≤ positions.countP (· < i)

theorem selects_nil (repeats : α → α → Prop) (limit : ℕ) : Selects repeats limit [] [] [] where
  sublist := .slnil
  ascending := .nil
  picks := rfl
  bounded := Nat.zero_le _
  apart := .nil
  left_out := by simp

theorem Selects.length_eq (h : Selects repeats limit items picked positions) :
    positions.length = picked.length := by
  have hlength := congrArg List.length h.picks
  rwa [List.length_map, List.length_map] at hlength

theorem Selects.exists_item (h : Selects repeats limit items picked positions) {p : ℕ} (hp : p ∈ positions) :
    ∃ item ∈ picked, items[p]? = some item := by
  have hmem : items[p]? ∈ positions.map (items[·]?) := List.mem_map_of_mem hp
  rw [h.picks] at hmem
  obtain ⟨item, hitem, heq⟩ := List.mem_map.mp hmem
  exact ⟨item, hitem, heq.symm⟩

theorem Selects.exists_position (h : Selects repeats limit items picked positions) {item : α}
    (hitem : item ∈ picked) : ∃ p ∈ positions, items[p]? = some item := by
  have hmem : some item ∈ picked.map some := List.mem_map_of_mem hitem
  rw [← h.picks] at hmem
  exact List.mem_map.mp hmem

theorem Selects.lt_length (h : Selects repeats limit items picked positions) {p : ℕ} (hp : p ∈ positions) :
    p < items.length := by
  obtain ⟨item, -, hitem⟩ := h.exists_item hp
  exact (List.getElem?_eq_some_iff.mp hitem).1

theorem Selects.countP_lt (h : Selects repeats limit items picked positions) {i : ℕ}
    (hi : items.length ≤ i) : positions.countP (· < i) = picked.length := by
  rw [← h.length_eq, List.countP_eq_length]
  intro p hp
  exact decide_eq_true ((h.lt_length hp).trans_le hi)

theorem Selects.getElem?_append (h : Selects repeats limit items picked positions) (rest : List α) {p : ℕ}
    (hp : p ∈ positions) : (items ++ rest)[p]? = items[p]? :=
  List.getElem?_append_left (h.lt_length hp)

theorem Selects.picks_append (h : Selects repeats limit items picked positions) (rest : List α) :
    positions.map ((items ++ rest)[·]?) = picked.map some := by
  rw [← h.picks]
  exact List.map_congr_left fun p hp => h.getElem?_append rest hp

theorem Selects.left_out_append (h : Selects repeats limit items picked positions) (rest : List α) {i : ℕ}
    {item : α} (hi : i < items.length) (hitem : (items ++ rest)[i]? = some item) (hout : i ∉ positions) :
    (∃ p ∈ positions, p < i ∧ ∃ earlier, (items ++ rest)[p]? = some earlier ∧ repeats earlier item) ∨
      limit ≤ positions.countP (· < i) := by
  rw [List.getElem?_append_left hi] at hitem
  cases h.left_out i item hitem hout with
  | inl hrepeats =>
    obtain ⟨p, hp, hlt, earlier, hearlier, hitem⟩ := hrepeats
    exact .inl ⟨p, hp, hlt, earlier, (h.getElem?_append rest hp).trans hearlier, hitem⟩
  | inr hfull => exact .inr hfull

/-- Items that repeat a picked one, or come when there is no room, are left out. -/
theorem Selects.pass (h : Selects repeats limit items picked positions) {rest : List α}
    (hrest : ∀ item ∈ rest, (∃ earlier ∈ picked, repeats earlier item) ∨ limit ≤ picked.length) :
    Selects repeats limit (items ++ rest) picked positions where
  sublist := h.sublist.trans (List.sublist_append_left _ _)
  ascending := h.ascending
  picks := h.picks_append rest
  bounded := h.bounded
  apart := h.apart
  left_out := by
    intro i item hitem hout
    by_cases hi : i < items.length
    · exact h.left_out_append rest hi hitem hout
    · have hlast : items.length ≤ i := Nat.le_of_not_lt hi
      rw [List.getElem?_append_right hlast] at hitem
      cases hrest item (List.mem_of_getElem? hitem) with
      | inl hrepeats =>
        obtain ⟨earlier, hearlier, hitem⟩ := hrepeats
        obtain ⟨p, hp, hget⟩ := h.exists_position hearlier
        exact .inl ⟨p, hp, (h.lt_length hp).trans_le hlast, earlier, (h.getElem?_append rest hp).trans hget, hitem⟩
      | inr hfull => exact .inr (hfull.trans (h.countP_lt hlast).ge)

/-- An item that repeats none of the picked ones is picked if there is room. -/
theorem Selects.pick (h : Selects repeats limit items picked positions) {item : α}
    (hnew : ∀ earlier ∈ picked, ¬ repeats earlier item) (hroom : picked.length < limit) :
    Selects repeats limit (items ++ [item]) (picked ++ [item]) (positions ++ [items.length]) where
  sublist := h.sublist.append (List.Sublist.refl _)
  ascending := by
    refine List.pairwise_append.mpr ⟨h.ascending, List.pairwise_singleton _ _, fun p hp q hq => ?_⟩
    rw [List.mem_singleton.mp hq]
    exact h.lt_length hp
  picks := by
    rw [List.map_append, h.picks_append, List.map_append, List.map_singleton, List.getElem?_concat_length]
    rfl
  bounded := by
    rw [List.length_append]
    exact hroom
  apart := by
    refine List.pairwise_append.mpr ⟨h.apart, List.pairwise_singleton _ _, fun earlier hearlier later hlater => ?_⟩
    rw [List.mem_singleton.mp hlater]
    exact hnew earlier hearlier
  left_out := by
    intro i other hother hout
    rw [List.mem_append, List.mem_singleton, not_or] at hout
    have hlength : i < items.length + 1 := by
      have := (List.getElem?_eq_some_iff.mp hother).1
      rwa [List.length_append] at this
    have hi : i < items.length := lt_of_le_of_ne (Nat.le_of_lt_succ hlength) hout.2
    have hpositions : (positions ++ [items.length]).countP (· < i) = positions.countP (· < i) := by
      rw [List.countP_append, List.countP_singleton, if_neg (by simpa using hi.le), Nat.add_zero]
    rw [hpositions]
    cases h.left_out_append [item] hi hother hout.1 with
    | inl hrepeats =>
      obtain ⟨p, hp, hrest⟩ := hrepeats
      exact .inl ⟨p, List.mem_append_left _ hp, hrest⟩
    | inr hfull => exact .inr hfull

theorem Selects.head?_eq (h : Selects repeats limit items picked positions) (hlimit : 0 < limit) :
    picked.head? = items.head? := by
  cases items with
  | nil => rw [List.sublist_nil.mp h.sublist]
  | cons item items =>
    have hzero : 0 ∈ positions := by
      by_contra hout
      cases h.left_out 0 item rfl hout with
      | inl hrepeats =>
        obtain ⟨p, -, hlt, -⟩ := hrepeats
        exact Nat.not_lt_zero p hlt
      | inr hfull =>
        have hnone : positions.countP (· < 0) = 0 := by simp
        omega
    cases positions with
    | nil => cases hzero
    | cons p positions =>
      have hp : p = 0 := by
        cases List.mem_cons.mp hzero with
        | inl heq => exact heq.symm
        | inr hmem => exact absurd (List.rel_of_pairwise_cons h.ascending hmem) (Nat.not_lt_zero p)
      have hpicks := h.picks
      subst hp
      cases picked with
      | nil => cases hpicks
      | cons first picked => exact (List.cons.inj hpicks).1.symm

/-- Of sorted items, one is left out for a picked one that is not behind it, or when the
room is taken by such items. -/
theorem Selects.left_out_sorted {r : α → α → Prop} (h : Selects repeats limit items picked positions)
    (hsorted : items.Pairwise r) {item : α} (hitem : item ∈ items) (hnot : item ∉ picked) :
    (∃ earlier ∈ picked, repeats earlier item ∧ r earlier item) ∨
      picked.length = limit ∧ ∀ earlier ∈ picked, r earlier item := by
  obtain ⟨i, hi⟩ := List.mem_iff_getElem?.mp hitem
  have hbefore {p : ℕ} {earlier : α} (hlt : p < i) (hp : items[p]? = some earlier) : r earlier item := by
    obtain ⟨hplt, rfl⟩ := List.getElem?_eq_some_iff.mp hp
    obtain ⟨hilt, rfl⟩ := List.getElem?_eq_some_iff.mp hi
    exact List.pairwise_iff_getElem.mp hsorted p i hplt hilt hlt
  have houtside : i ∉ positions := by
    intro hmem
    obtain ⟨other, hother, hat⟩ := h.exists_item hmem
    exact hnot (Option.some.inj (hi.symm.trans hat) ▸ hother)
  cases h.left_out i item hi houtside with
  | inl hrepeats =>
    obtain ⟨p, hp, hlt, earlier, hearlier, hrepeats⟩ := hrepeats
    obtain ⟨other, hother, hat⟩ := h.exists_item hp
    obtain rfl := Option.some.inj (hearlier.symm.trans hat)
    exact .inl ⟨earlier, hother, hrepeats, hbefore hlt hearlier⟩
  | inr hfull =>
    have hlength := h.length_eq
    have hbounded := h.bounded
    have hcount : positions.countP (· < i) ≤ positions.length := List.countP_le_length
    have hsame : positions.countP (· < i) = positions.length := by omega
    have hall := List.countP_eq_length.mp hsame
    refine .inr ⟨by omega, fun earlier hearlier => ?_⟩
    obtain ⟨p, hp, hat⟩ := h.exists_position hearlier
    exact hbefore (of_decide_eq_true (hall p hp)) hat

end ModelForge.GreedySelection
