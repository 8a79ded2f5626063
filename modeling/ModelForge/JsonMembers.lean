import ModelForge.JsonText

set_option autoImplicit false

/-!
# Ordering the members of JSON objects

Stable sorting compared with another order, and rearrangements of the members
of every object in a value by their keys alone.
-/
namespace ModelForge.JsonMembers
open JsonText
open scoped List

section Stable
variable {α : Type}

/-- Two elements stand in one order only. -/
theorem pair_order {a b : α} {xs : List α} (nodup : xs.Nodup) (h : [a, b] <+ xs) :
    ¬ [b, a] <+ xs := by
  intro h'
  induction xs with
  | nil => cases h
  | cons x xs ih =>
    obtain ⟨hx, hxs⟩ := List.nodup_cons.mp nodup
    cases h with
    | cons _ hab =>
      cases h' with
      | cons _ hba => exact ih hxs hab hba
      | cons_cons _ _ => exact hx (hab.subset (by simp))
    | cons_cons _ hb =>
      cases h' with
      | cons _ hba => exact hx (hba.subset (by simp))
      | cons_cons _ _ => exact hx (hb.subset (by simp))

theorem pair_or_pair {a b : α} {xs : List α} (ha : a ∈ xs) (hb : b ∈ xs) (hne : a ≠ b) :
    [a, b] <+ xs ∨ [b, a] <+ xs := by
  obtain ⟨s, t, rfl⟩ := List.append_of_mem ha
  rcases List.mem_append.mp hb with hs | ht
  · right
    exact (List.singleton_sublist.mpr hs).append (List.singleton_sublist.mpr List.mem_cons_self)
  · left
    have hb' : b ∈ t := (List.mem_cons.mp ht).resolve_left (Ne.symm hne)
    exact ((List.singleton_sublist.mpr hb').cons_cons a).trans (List.sublist_append_right s _)

variable {r R : α → α → Prop} [DecidableRel r] [Std.Total r] [IsTrans α r]

/-- A stable sort keeps the old order of the elements it does not tell apart. -/
theorem insertionSort_stable {xs : List α} (hx : xs.Pairwise R) (nodup : xs.Nodup) :
    (xs.insertionSort r).Pairwise fun a b => r a b ∧ (r b a → R a b) := by
  have hperm := List.perm_insertionSort r xs
  have hsorted : (xs.insertionSort r).Pairwise r := List.pairwise_insertionSort r xs
  have hnodup : (xs.insertionSort r).Nodup := hperm.nodup_iff.mpr nodup
  rw [List.pairwise_iff_forall_sublist] at hx hsorted ⊢
  intro a b hab
  refine ⟨hsorted hab, fun hba => ?_⟩
  have ha : a ∈ xs := hperm.mem_iff.mp (hab.subset (by simp))
  have hb : b ∈ xs := hperm.mem_iff.mp (hab.subset (by simp))
  have hne : a ≠ b := by
    have := hnodup.sublist hab
    simpa using this
  rcases pair_or_pair ha hb hne with h | h
  · exact hx h
  · -- otherwise the sort would have kept `b` before `a`
    exact absurd (List.pair_sublist_insertionSort hba h) (pair_order hnodup hab)

/-- What a sort puts first is below everything. -/
theorem insertionSort_head {xs : List α} {a : α} (h : (xs.insertionSort r).head? = some a) :
    a ∈ xs ∧ ∀ b ∈ xs, r a b := by
  have hperm := List.perm_insertionSort r xs
  have hsorted := List.pairwise_insertionSort r xs
  obtain ⟨rest, hrest⟩ := List.head?_eq_some_iff.mp h
  rw [hrest] at hperm hsorted
  refine ⟨hperm.mem_iff.mp List.mem_cons_self, fun b hb => ?_⟩
  rcases List.mem_cons.mp (hperm.mem_iff.mpr hb) with rfl | hlater
  · exact (Std.Total.total b b).elim id id
  · exact List.rel_of_pairwise_cons hsorted hlater

omit [Std.Total r] [IsTrans α r] in
theorem insertionSort_head_isSome {xs : List α} (h : xs ≠ []) :
    ∃ a, (xs.insertionSort r).head? = some a := by
  have hlength := (List.perm_insertionSort r xs).length_eq
  cases hsorted : xs.insertionSort r with
  | nil =>
    rw [hsorted] at hlength
    exact absurd (List.eq_nil_of_length_eq_zero hlength.symm) h
  | cons a rest => exact ⟨a, rfl⟩

/-- A stable sort of `xs` gives `ys` exactly when `ys` is sorted and keeps the
old order of the elements the sort does not tell apart. -/
theorem insertionSort_eq_iff {xs ys : List α} (hx : xs.Pairwise R) (nodup : xs.Nodup)
    (asymm : ∀ a b, R a b → ¬ R b a) (hperm : ys.Perm xs) :
    xs.insertionSort r = ys ↔ ys.Pairwise fun a b => r a b ∧ (r b a → R a b) := by
  have hstable := insertionSort_stable (r := r) hx nodup
  refine ⟨fun h => h ▸ hstable, fun h => ?_⟩
  refine List.Perm.eq_of_pairwise ?_ hstable h ((List.perm_insertionSort r xs).trans hperm.symm)
  rintro a b - - ⟨hab, hRab⟩ ⟨hba, hRba⟩
  exact absurd (hRba hab) (asymm a b (hRab hba))

end Stable

/-- An order of the members of an object that depends on their keys only. -/
structure Arrangement where
  arrange : {α : Type} → List (String × α) → List (String × α)
  natural : ∀ {α β : Type} (f : α → β) (ms : List (String × α)),
    arrange (ms.map (Prod.map id f)) = (arrange ms).map (Prod.map id f)
  perm : ∀ {α : Type} (ms : List (String × α)), (arrange ms).Perm ms

namespace Arrangement
variable {α : Type} (A B : Arrangement)

/-- The same order on bare keys. -/
def keys (ks : List String) : List String := (A.arrange (ks.map fun k => (k, ()))).map Prod.fst

theorem keys_arrange (ms : List (String × α)) : (A.arrange ms).map Prod.fst = A.keys (ms.map Prod.fst) := by
  have h := A.natural (fun _ : α => ()) ms
  unfold keys
  rw [List.map_map]
  change _ = (A.arrange (ms.map (Prod.map id fun _ : α => ()))).map Prod.fst
  rw [h, List.map_map]
  rfl

theorem keys_perm (ks : List String) : (A.keys ks).Perm ks := by
  have h := (A.perm (ks.map fun k => (k, ()))).map Prod.fst
  rw [List.map_map] at h
  simpa [keys, Function.comp_def] using h

/-- Stable sorting by key. -/
def byKey (r : String → String → Prop) [DecidableRel r] : Arrangement where
  arrange ms := ms.insertionSort fun a b => r a.1 b.1
  natural f ms := (List.map_insertionSort (fun a b => r a.1 b.1) (fun a b => r a.1 b.1) (Prod.map id f)
    ms fun _ _ _ _ => Iff.rfl).symm
  perm ms := List.perm_insertionSort _ ms

theorem byKey_keys (r : String → String → Prop) [DecidableRel r] (ks : List String) :
    (byKey r).keys ks = ks.insertionSort r := by
  unfold keys byKey
  rw [List.map_insertionSort _ r Prod.fst _ fun _ _ _ _ => Iff.rfl, List.map_map]
  simp [Function.comp_def]

/-- First `B`, then `A`. -/
def after : Arrangement where
  arrange ms := A.arrange (B.arrange ms)
  natural f ms := by rw [B.natural, A.natural]
  perm ms := (A.perm _).trans (B.perm ms)

theorem after_keys (ks : List String) : (A.after B).keys ks = A.keys (B.keys ks) := by
  have h := A.keys_arrange (B.arrange (ks.map fun k => (k, ())))
  exact h

end Arrangement

theorem eq_of_keys {α : Type} {xs ys : List (String × α)} (hperm : xs.Perm ys)
    (hkeys : xs.map Prod.fst = ys.map Prod.fst) (nodup : (xs.map Prod.fst).Nodup) : xs = ys := by
  have hlen : xs.length = ys.length := hperm.length_eq
  refine List.ext_getElem hlen fun i hi hi' => ?_
  have hfst : xs[i].1 = ys[i].1 := by
    have := congrArg (fun l : List String => l[i]?) hkeys
    simpa [hi, hi'] using this
  exact List.inj_on_of_nodup_map nodup (List.getElem_mem hi)
    (hperm.mem_iff.mpr (List.getElem_mem hi')) hfst

mutual

/-- Rearranges the members of every object in a value. -/
def reorder (A : Arrangement) : Json → Json
  | .null => .null
  | .bool b => .bool b
  | .number n => .number n
  | .string s => .string s
  | .array items => .array (reorderItems A items)
  | .object members => .object (A.arrange (reorderMembers A members))

def reorderItems (A : Arrangement) : List Json → List Json
  | [] => []
  | t :: rest => reorder A t :: reorderItems A rest

def reorderMembers (A : Arrangement) : List (String × Json) → List (String × Json)
  | [] => []
  | (k, t) :: rest => (k, reorder A t) :: reorderMembers A rest

end

mutual

/-- `P` holds of the keys of every object in the value. -/
def Everywhere (P : List String → Prop) : Json → Prop
  | .null => True
  | .bool _ => True
  | .number _ => True
  | .string _ => True
  | .array items => EverywhereItems P items
  | .object members => P (members.map Prod.fst) ∧ EverywhereMembers P members

def EverywhereItems (P : List String → Prop) : List Json → Prop
  | [] => True
  | t :: rest => Everywhere P t ∧ EverywhereItems P rest

def EverywhereMembers (P : List String → Prop) : List (String × Json) → Prop
  | [] => True
  | (_, t) :: rest => Everywhere P t ∧ EverywhereMembers P rest

end

/-- No object has two members of one key. -/
def DistinctKeys (t : Json) : Prop := Everywhere List.Nodup t

theorem reorderItems_eq_map (A : Arrangement) (items : List Json) :
    reorderItems A items = items.map (reorder A) := by
  induction items with
  | nil => rfl
  | cons t rest ih => rw [reorderItems, ih, List.map_cons]

theorem reorderMembers_eq_map (A : Arrangement) (ms : List (String × Json)) :
    reorderMembers A ms = ms.map (Prod.map id (reorder A)) := by
  induction ms with
  | nil => rfl
  | cons m rest ih =>
    obtain ⟨k, t⟩ := m
    rw [reorderMembers, ih]
    rfl

theorem reorderMembers_keys (A : Arrangement) (ms : List (String × Json)) :
    (reorderMembers A ms).map Prod.fst = ms.map Prod.fst := by
  rw [reorderMembers_eq_map, List.map_map]
  rfl

mutual

theorem reorder_reorder (A B : Arrangement) : ∀ t : Json,
    reorder A (reorder B t) = reorder (A.after B) t
  | .null => rfl
  | .bool _ => rfl
  | .number _ => rfl
  | .string _ => rfl
  | .array items => by
    simp only [reorder, reorderItems_reorderItems A B items]
  | .object members => by
    simp only [reorder, reorderMembers_eq_map A, ← B.natural]
    rw [← reorderMembers_eq_map A, reorderMembers_reorderMembers A B members]
    rfl

theorem reorderItems_reorderItems (A B : Arrangement) : ∀ items : List Json,
    reorderItems A (reorderItems B items) = reorderItems (A.after B) items
  | [] => rfl
  | t :: rest => by
    simp only [reorderItems, reorder_reorder A B t, reorderItems_reorderItems A B rest]

theorem reorderMembers_reorderMembers (A B : Arrangement) : ∀ ms : List (String × Json),
    reorderMembers A (reorderMembers B ms) = reorderMembers (A.after B) ms
  | [] => rfl
  | (k, t) :: rest => by
    simp only [reorderMembers, reorder_reorder A B t, reorderMembers_reorderMembers A B rest]

end

mutual

/-- Two rearrangements of a value agree where they order every object's keys alike. -/
theorem reorder_eq_iff (A B : Arrangement) : ∀ t : Json, DistinctKeys t →
    (reorder A t = reorder B t ↔ Everywhere (fun ks => A.keys ks = B.keys ks) t)
  | .null, _ => by simp [reorder, Everywhere]
  | .bool _, _ => by simp [reorder, Everywhere]
  | .number _, _ => by simp [reorder, Everywhere]
  | .string _, _ => by simp [reorder, Everywhere]
  | .array items, h => by
    simp only [reorder, Everywhere, Json.array.injEq]
    exact reorderItems_eq_iff A B items h
  | .object members, h => by
    simp only [reorder, Everywhere, Json.object.injEq]
    obtain ⟨hnodup, hvalues⟩ := h
    rw [← reorderMembers_eq_iff A B members hvalues]
    have hkeys : ∀ C D : Arrangement, (C.arrange (reorderMembers D members)).map Prod.fst =
        C.keys (members.map Prod.fst) := fun C D => by
      rw [C.keys_arrange, reorderMembers_keys]
    have hdistinct : ∀ C D : Arrangement,
        ((C.arrange (reorderMembers D members)).map Prod.fst).Nodup := fun C D => by
      rw [hkeys]
      exact (C.keys_perm _).nodup_iff.mpr hnodup
    constructor
    · intro he
      refine ⟨by rw [← hkeys A A, he, hkeys], ?_⟩
      have hperm : (reorderMembers A members).Perm (reorderMembers B members) :=
        (A.perm _).symm.trans (he ▸ B.perm _)
      refine eq_of_keys hperm (by rw [reorderMembers_keys, reorderMembers_keys]) ?_
      rw [reorderMembers_keys]
      exact hnodup
    · rintro ⟨hsame, hmembers⟩
      rw [← hmembers]
      refine eq_of_keys ((A.perm _).trans (B.perm _).symm) ?_ (hdistinct A A)
      rw [hkeys, hkeys, hsame]

theorem reorderItems_eq_iff (A B : Arrangement) : ∀ items : List Json,
    EverywhereItems List.Nodup items → (reorderItems A items = reorderItems B items ↔
      EverywhereItems (fun ks => A.keys ks = B.keys ks) items)
  | [], _ => by simp [reorderItems, EverywhereItems]
  | t :: rest, h => by
    simp only [reorderItems, EverywhereItems, List.cons.injEq]
    exact and_congr (reorder_eq_iff A B t h.1) (reorderItems_eq_iff A B rest h.2)

theorem reorderMembers_eq_iff (A B : Arrangement) : ∀ ms : List (String × Json),
    EverywhereMembers List.Nodup ms → (reorderMembers A ms = reorderMembers B ms ↔
      EverywhereMembers (fun ks => A.keys ks = B.keys ks) ms)
  | [], _ => by simp [reorderMembers, EverywhereMembers]
  | (k, t) :: rest, h => by
    simp only [reorderMembers, EverywhereMembers, List.cons.injEq, Prod.mk.injEq, true_and]
    exact and_congr (reorder_eq_iff A B t h.1) (reorderMembers_eq_iff A B rest h.2)

end

mutual

theorem Everywhere.congr {P Q : List String → Prop} (h : ∀ ks, ks.Nodup → (P ks ↔ Q ks)) :
    ∀ t : Json, DistinctKeys t → (Everywhere P t ↔ Everywhere Q t)
  | .null, _ => Iff.rfl
  | .bool _, _ => Iff.rfl
  | .number _, _ => Iff.rfl
  | .string _, _ => Iff.rfl
  | .array items, hd => EverywhereItems.congr h items hd
  | .object members, hd => and_congr (h _ hd.1) (EverywhereMembers.congr h members hd.2)

theorem EverywhereItems.congr {P Q : List String → Prop} (h : ∀ ks, ks.Nodup → (P ks ↔ Q ks)) :
    ∀ items : List Json, EverywhereItems List.Nodup items →
      (EverywhereItems P items ↔ EverywhereItems Q items)
  | [], _ => Iff.rfl
  | t :: rest, hd => and_congr (Everywhere.congr h t hd.1) (EverywhereItems.congr h rest hd.2)

theorem EverywhereMembers.congr {P Q : List String → Prop} (h : ∀ ks, ks.Nodup → (P ks ↔ Q ks)) :
    ∀ ms : List (String × Json), EverywhereMembers List.Nodup ms →
      (EverywhereMembers P ms ↔ EverywhereMembers Q ms)
  | [], _ => Iff.rfl
  | (_, t) :: rest, hd => and_congr (Everywhere.congr h t hd.1) (EverywhereMembers.congr h rest hd.2)

end

theorem everywhereMembers_iff (P : List String → Prop) (ms : List (String × Json)) :
    EverywhereMembers P ms ↔ ∀ m ∈ ms, Everywhere P m.2 := by
  induction ms with
  | nil => simp [EverywhereMembers]
  | cons m rest ih =>
    rw [EverywhereMembers, ih, List.forall_mem_cons]

mutual

theorem distinctKeys_reorder (A : Arrangement) : ∀ t : Json, DistinctKeys t →
    DistinctKeys (reorder A t)
  | .null, _ => trivial
  | .bool _, _ => trivial
  | .number _, _ => trivial
  | .string _, _ => trivial
  | .array items, h => distinctKeys_reorderItems A items h
  | .object members, h => by
    have hkeys := A.keys_arrange (reorderMembers A members)
    rw [reorderMembers_keys] at hkeys
    refine ⟨?_, (everywhereMembers_iff _ _).mpr fun m hm => ?_⟩
    · rw [hkeys]
      exact (A.keys_perm _).nodup_iff.mpr h.1
    · exact (everywhereMembers_iff _ _).mp (distinctKeys_reorderMembers A members h.2) m
        ((A.perm _).mem_iff.mp hm)

theorem distinctKeys_reorderItems (A : Arrangement) : ∀ items : List Json,
    EverywhereItems List.Nodup items → EverywhereItems List.Nodup (reorderItems A items)
  | [], _ => trivial
  | t :: rest, h => ⟨distinctKeys_reorder A t h.1, distinctKeys_reorderItems A rest h.2⟩

theorem distinctKeys_reorderMembers (A : Arrangement) : ∀ ms : List (String × Json),
    EverywhereMembers List.Nodup ms → EverywhereMembers List.Nodup (reorderMembers A ms)
  | [], _ => trivial
  | (_, t) :: rest, h => ⟨distinctKeys_reorder A t h.1, distinctKeys_reorderMembers A rest h.2⟩

end

end ModelForge.JsonMembers
