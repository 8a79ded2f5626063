import ModelForge.JsonParse

set_option autoImplicit false

/-!
# The canonical form

Canonical texts are equal exactly for values that are equal up to the order of the
keys of their objects, and a canonical text is that of the value it is parsed to.
-/
namespace ModelForge.CanonicalRoundTrip
open JsonText JsonMembers CanonicalJson JsonParse

mutual

/-- Equal but for the order of the keys, at every depth. -/
def Same : Json → Json → Prop
  | .null, .null => True
  | .bool b, .bool b' => b = b'
  | .number n, .number n' => n = n'
  | .string s, .string s' => s = s'
  | .array items, .array items' => SameItems items items'
  | .object members, .object members' =>
    ∃ listed, listed.Perm members' ∧ SameMembers members listed
  | _, _ => False

def SameItems : List Json → List Json → Prop
  | [], [] => True
  | t :: rest, t' :: rest' => Same t t' ∧ SameItems rest rest'
  | _, _ => False

def SameMembers : List (String × Json) → List (String × Json) → Prop
  | [], [] => True
  | (k, t) :: rest, (k', t') :: rest' => k = k' ∧ Same t t' ∧ SameMembers rest rest'
  | _, _ => False

end

mutual

theorem same_of_reorder_eq (A : Arrangement) : ∀ t t' : Json, reorder A t = reorder A t' → Same t t'
  | .null, t', h => by cases t' <;> simp_all [reorder, Same]
  | .bool b, t', h => by cases t' <;> simp_all [reorder, Same]
  | .number n, t', h => by cases t' <;> simp_all [reorder, Same]
  | .string s, t', h => by cases t' <;> simp_all [reorder, Same]
  | .array items, t', h => by
    cases t' with
    | array items' =>
      rw [Same]
      exact sameItems_of_reorder_eq A items items' (Json.array.inj h)
    | _ => cases h
  | .object members, t', h => by
    cases t' with
    | object members' =>
      have hperm : (reorderMembers A members).Perm (reorderMembers A members') :=
        (A.perm _).symm.trans (Json.object.inj h ▸ A.perm _)
      rw [reorderMembers_eq_map A members'] at hperm
      obtain ⟨listed, hlisted, hperm⟩ :=
        (congrFun₂ (List.eq_map_comp_perm (Prod.map id (reorder A))) (reorderMembers A members)
          members').mpr hperm
      refine ⟨listed, hperm, sameMembers_of_reorder_eq A members listed ?_⟩
      rw [hlisted, reorderMembers_eq_map]
    | _ => cases h

theorem sameItems_of_reorder_eq (A : Arrangement) : ∀ items items' : List Json,
    reorderItems A items = reorderItems A items' → SameItems items items'
  | [], [], _ => trivial
  | t :: rest, t' :: rest', h => by
    obtain ⟨ht, hrest⟩ := List.cons.inj h
    exact ⟨same_of_reorder_eq A t t' ht, sameItems_of_reorder_eq A rest rest' hrest⟩

theorem sameMembers_of_reorder_eq (A : Arrangement) : ∀ ms ms' : List (String × Json),
    reorderMembers A ms = reorderMembers A ms' → SameMembers ms ms'
  | [], [], _ => trivial
  | (k, t) :: rest, (k', t') :: rest', h => by
    obtain ⟨hm, hrest⟩ := List.cons.inj h
    obtain ⟨hk, ht⟩ := Prod.mk.inj hm
    exact ⟨hk, same_of_reorder_eq A t t' ht, sameMembers_of_reorder_eq A rest rest' hrest⟩

end

instance : Std.Antisymm codeUnitLe := ⟨fun _ _ hab hba => utf16_injective (le_antisymm hab hba)⟩

/-- Sorted by code unit, members with different keys have one order. -/
theorem arrange_eq_of_perm {ms ms' : List (String × Json)} (h : ms.Perm ms')
    (hdistinct : (ms.map Prod.fst).Nodup) :
    (Arrangement.byKey codeUnitLe).arrange ms = (Arrangement.byKey codeUnitLe).arrange ms' := by
  have hkeys : ∀ ms : List (String × Json), ((Arrangement.byKey codeUnitLe).arrange ms).map Prod.fst =
      (ms.map Prod.fst).insertionSort codeUnitLe := fun ms => by
    rw [Arrangement.keys_arrange, Arrangement.byKey_keys]
  refine eq_of_keys ((Arrangement.perm _ ms).trans (h.trans (Arrangement.perm _ ms').symm)) ?_ ?_
  · rw [hkeys, hkeys]
    refine List.Perm.eq_of_pairwise' (List.pairwise_insertionSort codeUnitLe _)
      (List.pairwise_insertionSort codeUnitLe _) ?_
    exact (List.perm_insertionSort _ _).trans ((h.map Prod.fst).trans (List.perm_insertionSort _ _).symm)
  · rw [hkeys]
    exact (List.perm_insertionSort _ _).nodup_iff.mpr hdistinct

mutual

theorem reorder_eq_of_same : ∀ t t' : Json, DistinctKeys t → Same t t' →
    reorder (Arrangement.byKey codeUnitLe) t = reorder (Arrangement.byKey codeUnitLe) t'
  | .null, t', _, h => by cases t' <;> simp_all [reorder, Same]
  | .bool b, t', _, h => by cases t' <;> simp_all [reorder, Same]
  | .number n, t', _, h => by cases t' <;> simp_all [reorder, Same]
  | .string s, t', _, h => by cases t' <;> simp_all [reorder, Same]
  | .array items, t', hdistinct, h => by
    cases t' with
    | array items' =>
      rw [Same] at h
      rw [reorder, reorder, reorderItems_eq_of_same items items' hdistinct h]
    | _ => exact absurd h (by simp [Same])
  | .object members, t', hdistinct, h => by
    cases t' with
    | object members' =>
      rw [Same] at h
      obtain ⟨listed, hperm, hsame⟩ := h
      have hmembers := reorderMembers_eq_of_same members listed hdistinct.2 hsame
      have hlisted : (reorderMembers (Arrangement.byKey codeUnitLe) listed).Perm
          (reorderMembers (Arrangement.byKey codeUnitLe) members') := by
        rw [reorderMembers_eq_map, reorderMembers_eq_map]
        exact hperm.map _
      have hkeys : ((reorderMembers (Arrangement.byKey codeUnitLe) listed).map Prod.fst).Nodup := by
        rw [← hmembers, reorderMembers_keys]
        exact hdistinct.1
      rw [reorder, reorder, hmembers, arrange_eq_of_perm hlisted hkeys]
    | _ => exact absurd h (by simp [Same])

theorem reorderItems_eq_of_same : ∀ items items' : List Json,
    EverywhereItems List.Nodup items → SameItems items items' →
      reorderItems (Arrangement.byKey codeUnitLe) items =
        reorderItems (Arrangement.byKey codeUnitLe) items'
  | [], [], _, _ => rfl
  | t :: rest, t' :: rest', hdistinct, h => by
    rw [SameItems] at h
    rw [reorderItems, reorderItems, reorder_eq_of_same t t' hdistinct.1 h.1,
      reorderItems_eq_of_same rest rest' hdistinct.2 h.2]

theorem reorderMembers_eq_of_same : ∀ ms ms' : List (String × Json),
    EverywhereMembers List.Nodup ms → SameMembers ms ms' →
      reorderMembers (Arrangement.byKey codeUnitLe) ms =
        reorderMembers (Arrangement.byKey codeUnitLe) ms'
  | [], [], _, _ => rfl
  | (k, t) :: rest, (k', t') :: rest', hdistinct, h => by
    rw [SameMembers] at h
    rw [reorderMembers, reorderMembers, h.1, reorder_eq_of_same t t' hdistinct.1 h.2.1,
      reorderMembers_eq_of_same rest rest' hdistinct.2 h.2.2]

end

/-- Values have one canonical text exactly if they are equal up to key order. -/
theorem canonicalStringify_eq_iff {t t' : Json} (hdistinct : DistinctKeys t) :
    canonicalStringify (toJs t) = canonicalStringify (toJs t') ↔ Same t t' := by
  rw [canonicalStringify_toJs, canonicalStringify_toJs, Except.ok.injEq, text_injective.eq_iff]
  exact ⟨same_of_reorder_eq _ t t', reorder_eq_of_same t t' hdistinct⟩

theorem numbersMembers_eq_flatMap (ms : List (String × Json)) :
    numbersMembers ms = ms.flatMap fun m => numbers m.2 := by
  induction ms with
  | nil => rfl
  | cons m rest ih => rw [numbersMembers, ih, List.flatMap_cons]

mutual

theorem mem_numbers_reorder (A : Arrangement) (n : JsNumber) : ∀ t : Json,
    n ∈ numbers (reorder A t) ↔ n ∈ numbers t
  | .null => Iff.rfl
  | .bool _ => Iff.rfl
  | .number _ => Iff.rfl
  | .string _ => Iff.rfl
  | .array items => mem_numbersItems_reorder A n items
  | .object members => by
    have hperm := (A.perm (reorderMembers A members)).flatMap_right fun m => numbers m.2
    rw [reorder, numbers, numbers, ← mem_numbersMembers_reorder A n members,
      numbersMembers_eq_flatMap, numbersMembers_eq_flatMap]
    exact hperm.mem_iff

theorem mem_numbersItems_reorder (A : Arrangement) (n : JsNumber) : ∀ items : List Json,
    n ∈ numbersItems (reorderItems A items) ↔ n ∈ numbersItems items
  | [] => Iff.rfl
  | t :: rest => by
    rw [reorderItems, numbersItems, numbersItems, List.mem_append, List.mem_append,
      mem_numbers_reorder A n t, mem_numbersItems_reorder A n rest]

theorem mem_numbersMembers_reorder (A : Arrangement) (n : JsNumber) : ∀ ms : List (String × Json),
    n ∈ numbersMembers (reorderMembers A ms) ↔ n ∈ numbersMembers ms
  | [] => Iff.rfl
  | (k, t) :: rest => by
    rw [reorderMembers, numbersMembers, numbersMembers, List.mem_append, List.mem_append,
      mem_numbers_reorder A n t, mem_numbersMembers_reorder A n rest]

end

theorem sameMembers_map {f : String × Json → String × Json} {ms : List (String × Json)}
    (h : ∀ m ∈ ms, (f m).1 = m.1 ∧ Same (f m).2 m.2) : SameMembers (ms.map f) ms := by
  induction ms with
  | nil => trivial
  | cons m rest ih =>
    obtain ⟨hm, hrest⟩ := List.forall_mem_cons.mp h
    exact ⟨hm.1, hm.2, ih hrest⟩

mutual

theorem same_reorder (A : Arrangement) : ∀ t : Json, Same (reorder A t) t
  | .null => trivial
  | .bool _ => rfl
  | .number _ => rfl
  | .string _ => rfl
  | .array items => sameItems_reorder A items
  | .object members => by
    rw [reorder, reorderMembers_eq_map, A.natural, Same]
    refine ⟨A.arrange members, A.perm members, sameMembers_map fun m hm => ⟨rfl, ?_⟩⟩
    exact same_reorder_member A members m ((A.perm members).mem_iff.mp hm)

theorem sameItems_reorder (A : Arrangement) : ∀ items : List Json,
    SameItems (reorderItems A items) items
  | [] => trivial
  | t :: rest => ⟨same_reorder A t, sameItems_reorder A rest⟩

theorem same_reorder_member (A : Arrangement) : ∀ (ms : List (String × Json)), ∀ m ∈ ms,
    Same (reorder A m.2) m.2
  | (_, t) :: rest, m, hm => by
    rcases List.mem_cons.mp hm with rfl | hm
    · exact same_reorder A t
    · exact same_reorder_member A rest m hm

end

/-- The canonical form: values have one text exactly if they are equal up to key
order; a value's text is parsed to the value, up to key order, and that one has
the same text again. -/
theorem canonical_form (readNumber : List Char → Option JsNumber) :
    (∀ t t' : Json, DistinctKeys t → DistinctKeys t' →
      (canonicalStringify (toJs t) = canonicalStringify (toJs t') ↔ Same t t')) ∧
    ∀ t : Json, DistinctKeys t → (∀ n ∈ numbers t, readNumber n.chars = some n) →
      ∃ s value, canonicalStringify (toJs t) = .ok s ∧ parse readNumber s = some value ∧
        Same value t ∧ canonicalStringify (toJs value) = .ok s := by
  refine ⟨fun t t' hdistinct _ => canonicalStringify_eq_iff hdistinct, ?_⟩
  intro t hdistinct hnumbers
  have hsorted := distinctKeys_reorder (Arrangement.byKey codeUnitLe) t hdistinct
  have hsame : Same (reorder propertyOrder (reorder (Arrangement.byKey codeUnitLe) t)) t := by
    rw [reorder_reorder]
    exact same_reorder _ t
  refine ⟨_, _, canonicalStringify_toJs t, parse_text readNumber _ hsorted ?_, hsame, ?_⟩
  · exact fun n hn => hnumbers n ((mem_numbers_reorder _ n t).mp hn)
  · rw [← canonicalStringify_toJs t]
    exact (canonicalStringify_eq_iff (distinctKeys_reorder _ _ hsorted)).mpr hsame

/-- The text of a number as it is, where a number can have it. -/
def sampleReadNumber (chars : List Char) : Option JsNumber :=
  if h : chars ≠ [] ∧ ∀ c ∈ chars, isNumeric c = true then some ⟨chars, h.1, h.2⟩ else none

def one : JsNumber where
  chars := ['1']
  nonempty := by decide
  numeric := by
    intro c hc
    rw [List.mem_singleton.mp hc]
    decide

/-- `{"b": [1, null], "a": "x"}` and the same in the other order. -/
def sampleValue : Json := .object [("b", .array [.number one, .null]), ("a", .string "x")]

def otherOrder : Json := .object [("a", .string "x"), ("b", .array [.number one, .null])]

theorem sample_value_round_trip :
    (canonicalStringify (toJs sampleValue) = canonicalStringify (toJs otherOrder) ↔
      Same sampleValue otherOrder) ∧
    ∃ s value, canonicalStringify (toJs sampleValue) = .ok s ∧ parse sampleReadNumber s = some value ∧
      Same value sampleValue ∧ canonicalStringify (toJs value) = .ok s := by
  have hform := canonical_form sampleReadNumber
  have hvalue : DistinctKeys sampleValue :=
    ⟨by decide +kernel, ⟨trivial, trivial, trivial⟩, trivial, trivial⟩
  have hother : DistinctKeys otherOrder :=
    ⟨by decide +kernel, trivial, ⟨trivial, trivial, trivial⟩, trivial⟩
  refine ⟨hform.1 sampleValue otherOrder hvalue hother, hform.2 sampleValue hvalue ?_⟩
  intro n hn
  obtain rfl : n = one := List.mem_singleton.mp hn
  exact dif_pos ⟨one.nonempty, one.numeric⟩

end ModelForge.CanonicalRoundTrip
