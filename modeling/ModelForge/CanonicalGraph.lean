import ModelForge.CanonicalJson
import ModelForge.CheckedList
import ModelForge.GraphCycles

set_option autoImplicit false

/-!
# Canonical JSON of an object graph

`serialize` on objects that refer to each other, with the set of the objects that
are being visited. An object may be referred to from many places.
-/
namespace ModelForge.CanonicalGraph

open GraphCycles JsonText JsonMembers CanonicalJson

/-! ## Object graphs -/

/-- What an array, an object or a variable holds. -/
inductive Slot (ν : Type) where
  | null
  | boolean (b : Bool)
  | number (n : JsNumber)
  | string (s : String)
  | ref (node : ν)

/-- A plain object or an array without holes. -/
inductive Node (ν : Type) where
  | array (items : List (Slot ν))
  | object (entries : List (String × Slot ν))

abbrev Heap (ν : Type) := ν → Node ν

def Node.slots {ν : Type} : Node ν → List (Slot ν)
  | .array items => items
  | .object entries => entries.map Prod.snd

/-- One object refers to the other. -/
def Heap.edge {ν : Type} (heap : Heap ν) (n c : ν) : Prop := .ref c ∈ (heap n).slots

/-- A cycle can be reached from the slot. -/
def CycleReachable {ν : Type} (heap : Heap ν) : Slot ν → Prop
  | .ref node => ReachesCycle heap.edge node
  | _ => False

/-- The tree of a slot, with every shared object written out where it is
referred to; `none` where it is deeper than the fuel. -/
def unfold {ν : Type} (heap : Heap ν) : ℕ → Slot ν → Option Json
  | 0, _ => none
  | fuel + 1, slot =>
    match slot with
    | .null => some .null
    | .boolean b => some (.bool b)
    | .number n => some (.number n)
    | .string s => some (.string s)
    | .ref node =>
      match heap node with
      | .array items => (items.mapM (unfold heap fuel)).map .array
      | .object entries =>
        (entries.mapM fun entry => (unfold heap fuel entry.2).map fun t => (entry.1, t)).map .object

def Unfolds {ν : Type} (heap : Heap ν) (slot : Slot ν) (tree : Json) : Prop :=
  ∃ fuel, unfold heap fuel slot = some tree

/-! ## The serializer -/

def circular : String := "Cannot canonicalize a circular structure"

section
variable {ν : Type}

/-- What a call returns or throws, and the stack that it leaves; `none` where it
has not ended within the fuel. -/
abbrev Call (ν α : Type) := Option (Except String α × Finset ν)

/-- One call after the other, up to one that throws. -/
def each {α : Type} (call : α → Finset ν → Call ν String) : List α → Finset ν → Call ν (List String)
  | [], stack => some (.ok [], stack)
  | a :: rest, stack =>
    match call a stack with
    | none => none
    | some (.error e, stack) => some (.error e, stack)
    | some (.ok text, stack) =>
      match each call rest stack with
      | none => none
      | some (.error e, stack) => some (.error e, stack)
      | some (.ok texts, stack) => some (.ok (text :: texts), stack)

def mapResult {α β : Type} (f : α → β) : Call ν α → Call ν β :=
  Option.map fun (result, stack) => (result.map f, stack)

/-- A member of an object, with its key. -/
def member (call : Slot ν → Finset ν → Call ν String) (entry : String × Slot ν) (stack : Finset ν) :
    Call ν String :=
  mapResult (fun text => quoteText entry.1 ++ ":" ++ text) (call entry.2 stack)

variable [DecidableEq ν]

/-- The `finally` block. -/
def leave {α : Type} (node : ν) : Call ν α → Call ν α :=
  Option.map fun (result, stack) => (result, stack.erase node)

def serialize (heap : Heap ν) : ℕ → Slot ν → Finset ν → Call ν String
  | 0, _, _ => none
  | fuel + 1, slot, stack =>
    match slot with
    | .null => some (.ok "null", stack)
    | .boolean b => some (.ok (if b then "true" else "false"), stack)
    | .number n => some (.ok (String.ofList n.chars), stack)
    | .string s => some (.ok (quoteText s), stack)
    | .ref node =>
      if node ∈ stack then some (.error circular, stack)
      else
        let stack := insert node stack
        leave node <|
          match heap node with
          | .array items =>
            mapResult (fun texts => "[" ++ ",".intercalate texts ++ "]")
              (each (serialize heap fuel) items stack)
          | .object entries =>
            mapResult (fun texts => "\x7b" ++ ",".intercalate texts ++ "\x7d")
              (each (member (serialize heap fuel)) ((Arrangement.byKey codeUnitLe).arrange entries) stack)

def canonicalStringify (heap : Heap ν) (fuel : ℕ) (root : Slot ν) : Option (Except String String) :=
  (serialize heap fuel root ∅).map Prod.fst

end

/-! ## The text of a tree -/

/-- What `canonicalStringify` makes of a tree. -/
def canon (t : Json) : String := text (reorder (Arrangement.byKey codeUnitLe) t)

theorem canonicalStringify_tree (t : Json) : CanonicalJson.canonicalStringify (toJs t) = .ok (canon t) :=
  canonicalStringify_toJs t

theorem canon_array (items : List Json) :
    canon (.array items) = "[" ++ ",".intercalate (items.map canon) ++ "]" := by
  rw [canon, reorder, text_array, reorderItems_eq_map, List.map_map]
  rfl

theorem canon_object (members : List (String × Json)) :
    canon (.object members) = "\x7b" ++ ",".intercalate
      (((Arrangement.byKey codeUnitLe).arrange members).map fun m => quoteText m.1 ++ ":" ++ canon m.2) ++
        "\x7d" := by
  rw [canon, reorder, text_object, reorderMembers_eq_map, Arrangement.natural, List.map_map]
  rfl

/-! ## What a call comes to -/

section
variable {ν : Type}

/-- If every call throws on the bad values and returns a text on the others, with
the stack as it was, then so does their sequence. -/
theorem each_spec {α : Type} {call : α → Finset ν → Call ν String} {stack : Finset ν} {e : String}
    (bad : α → Prop) (text : α → String) (values : List α)
    (h : ∀ a ∈ values, bad a ∧ call a stack = some (.error e, stack) ∨
      ¬ bad a ∧ call a stack = some (.ok (text a), stack)) :
    (∃ a ∈ values, bad a) ∧ each call values stack = some (.error e, stack) ∨
      (∀ a ∈ values, ¬ bad a) ∧ each call values stack = some (.ok (values.map text), stack) := by
  induction values with
  | nil => exact .inr ⟨by simp, rfl⟩
  | cons a values ih =>
    cases h a List.mem_cons_self with
    | inl hbad => exact .inl ⟨⟨a, List.mem_cons_self, hbad.1⟩, by simp [each, hbad.2]⟩
    | inr hgood =>
      cases ih fun b hb => h b (List.mem_cons_of_mem _ hb) with
      | inl hrest =>
        obtain ⟨⟨b, hb, hbad⟩, hthrows⟩ := hrest
        exact .inl ⟨⟨b, List.mem_cons_of_mem _ hb, hbad⟩, by simp [each, hgood.2, hthrows]⟩
      | inr hrest =>
        refine .inr ⟨?_, by simp [each, hgood.2, hrest.2]⟩
        intro b hb
        cases hb with
        | head => exact hgood.1
        | tail _ hb => exact hrest.1 b hb

/-- The search from a slot closes. -/
def SlotCloses (heap : Heap ν) (stack : Finset ν) : Slot ν → Prop
  | .ref node => Closes heap.edge stack node
  | _ => False

theorem closes_iff_slot [DecidableEq ν] {heap : Heap ν} {stack : Finset ν} {node : ν} (h : node ∉ stack) :
    Closes heap.edge stack node ↔ ∃ slot ∈ (heap node).slots, SlotCloses heap (insert node stack) slot := by
  rw [closes_iff h]
  constructor
  · intro ⟨c, hedge, hc⟩
    exact ⟨.ref c, hedge, hc⟩
  · intro ⟨slot, hslot, hcloses⟩
    cases slot with
    | ref c => exact ⟨c, hslot, hcloses⟩
    | null | boolean | number | string => exact hcloses.elim

variable [DecidableEq ν]

/-- What a call does: it throws where the search closes, and returns the text of
the unfolded tree elsewhere; the stack is left as it was. -/
def Serializes (heap : Heap ν) (fuel : ℕ) (stack : Finset ν) (slot : Slot ν) : Prop :=
  SlotCloses heap stack slot ∧ serialize heap fuel slot stack = some (.error circular, stack) ∨
    ¬ SlotCloses heap stack slot ∧ ∃ tree, unfold heap fuel slot = some tree ∧
      serialize heap fuel slot stack = some (.ok (canon tree), stack)

/-- The tree of a slot within the fuel. -/
def treeOf (heap : Heap ν) (fuel : ℕ) (slot : Slot ν) : Json := (unfold heap fuel slot).getD .null

theorem Serializes.cases {heap : Heap ν} {fuel : ℕ} {stack : Finset ν} {slot : Slot ν}
    (h : Serializes heap fuel stack slot) :
    SlotCloses heap stack slot ∧ serialize heap fuel slot stack = some (.error circular, stack) ∨
      ¬ SlotCloses heap stack slot ∧
        serialize heap fuel slot stack = some (.ok (canon (treeOf heap fuel slot)), stack) := by
  cases h with
  | inl h => exact .inl h
  | inr h =>
    obtain ⟨hopen, tree, htree, htext⟩ := h
    refine .inr ⟨hopen, ?_⟩
    rw [htext, treeOf, htree, Option.getD_some]

theorem Serializes.tree {heap : Heap ν} {fuel : ℕ} {stack : Finset ν} {slot : Slot ν}
    (h : Serializes heap fuel stack slot) (hopen : ¬ SlotCloses heap stack slot) :
    unfold heap fuel slot = some (treeOf heap fuel slot) := by
  cases h with
  | inl h => exact absurd h.1 hopen
  | inr h =>
    obtain ⟨_, tree, htree, _⟩ := h
    rw [treeOf, htree, Option.getD_some]

theorem leave_insert {α : Type} {node : ν} {stack : Finset ν} (h : node ∉ stack) (result : Except String α) :
    leave node (some (result, insert node stack)) = some (result, stack) := by
  rw [leave, Option.map_some]
  exact congrArg (fun stack => some (result, stack)) (Finset.erase_insert h)

theorem serialize_array {heap : Heap ν} {fuel : ℕ} {stack : Finset ν} {node : ν} {items : List (Slot ν)}
    (hnode : heap node = .array items) (hnew : node ∉ stack)
    (ih : ∀ slot, Serializes heap fuel (insert node stack) slot) :
    Serializes heap (fuel + 1) stack (.ref node) := by
  have hcloses : Closes heap.edge stack node ↔
      ∃ slot ∈ items, SlotCloses heap (insert node stack) slot := by
    rw [closes_iff_slot hnew, hnode]
    rfl
  have hcall : serialize heap (fuel + 1) (.ref node) stack =
      leave node (mapResult (fun texts => "[" ++ ",".intercalate texts ++ "]")
        (each (serialize heap fuel) items (insert node stack))) := by
    simp only [serialize, if_neg hnew, hnode]
  have heach := each_spec (SlotCloses heap (insert node stack))
    (fun slot => canon (treeOf heap fuel slot)) items fun slot _ => (ih slot).cases
  cases heach with
  | inl h =>
    left
    refine ⟨hcloses.mpr h.1, ?_⟩
    rw [hcall, h.2]
    exact leave_insert hnew _
  | inr h =>
    right
    refine ⟨fun hc => ?_, .array (items.map (treeOf heap fuel)), ?_, ?_⟩
    · obtain ⟨slot, hslot, hclosed⟩ := hcloses.mp hc
      exact h.1 slot hslot hclosed
    · have hmap := CheckedList.mapM_eq_map fun slot hslot => (ih slot).tree (h.1 slot hslot)
      simp only [unfold, hnode, hmap, Option.map_some]
    · rw [hcall, h.2, canon_array, List.map_map]
      exact leave_insert hnew _

theorem serialize_object {heap : Heap ν} {fuel : ℕ} {stack : Finset ν} {node : ν}
    {entries : List (String × Slot ν)} (hnode : heap node = .object entries) (hnew : node ∉ stack)
    (ih : ∀ slot, Serializes heap fuel (insert node stack) slot) :
    Serializes heap (fuel + 1) stack (.ref node) := by
  have hperm := (Arrangement.byKey codeUnitLe).perm entries
  have hcloses : Closes heap.edge stack node ↔
      ∃ entry ∈ (Arrangement.byKey codeUnitLe).arrange entries,
        SlotCloses heap (insert node stack) entry.2 := by
    have hslots : ∀ slot, slot ∈ (heap node).slots ↔ ∃ entry ∈ entries, entry.2 = slot := by
      intro slot
      rw [hnode, Node.slots, List.mem_map]
    rw [closes_iff_slot hnew]
    constructor
    · intro ⟨slot, hslot, hclosed⟩
      obtain ⟨entry, hentry, rfl⟩ := (hslots slot).mp hslot
      exact ⟨entry, hperm.mem_iff.mpr hentry, hclosed⟩
    · intro ⟨entry, hentry, hclosed⟩
      exact ⟨entry.2, (hslots _).mpr ⟨entry, hperm.mem_iff.mp hentry, rfl⟩, hclosed⟩
  have hcall : serialize heap (fuel + 1) (.ref node) stack =
      leave node (mapResult (fun texts => "\x7b" ++ ",".intercalate texts ++ "\x7d")
        (each (member (serialize heap fuel)) ((Arrangement.byKey codeUnitLe).arrange entries)
          (insert node stack))) := by
    simp only [serialize, if_neg hnew, hnode]
  have hmember : ∀ entry ∈ (Arrangement.byKey codeUnitLe).arrange entries,
      SlotCloses heap (insert node stack) entry.2 ∧
          member (serialize heap fuel) entry (insert node stack) =
            some (.error circular, insert node stack) ∨
        ¬ SlotCloses heap (insert node stack) entry.2 ∧
          member (serialize heap fuel) entry (insert node stack) =
            some (.ok (quoteText entry.1 ++ ":" ++ canon (treeOf heap fuel entry.2)), insert node stack) := by
    intro entry _
    cases (ih entry.2).cases with
    | inl h => exact .inl ⟨h.1, by rw [member, h.2]; rfl⟩
    | inr h => exact .inr ⟨h.1, by rw [member, h.2]; rfl⟩
  have heach := each_spec (fun entry : String × Slot ν => SlotCloses heap (insert node stack) entry.2)
    (fun entry : String × Slot ν => quoteText entry.1 ++ ":" ++ canon (treeOf heap fuel entry.2)) _ hmember
  cases heach with
  | inl h =>
    left
    refine ⟨hcloses.mpr h.1, ?_⟩
    rw [hcall, h.2]
    exact leave_insert hnew _
  | inr h =>
    right
    refine ⟨fun hc => ?_, .object (entries.map (Prod.map id (treeOf heap fuel))), ?_, ?_⟩
    · obtain ⟨entry, hentry, hclosed⟩ := hcloses.mp hc
      exact h.1 entry hentry hclosed
    · have hmap : (entries.mapM fun entry => (unfold heap fuel entry.2).map fun t => (entry.1, t)) =
          some (entries.map (Prod.map id (treeOf heap fuel))) := by
        apply CheckedList.mapM_eq_map
        intro entry hentry
        rw [(ih entry.2).tree (h.1 entry (hperm.mem_iff.mpr hentry))]
        rfl
      simp only [unfold, hnode, hmap, Option.map_some]
    · rw [hcall, h.2, canon_object, Arrangement.natural, List.map_map]
      exact leave_insert hnew _

/-- By induction on the fuel: each nested call has one more object on the stack,
and there are finitely many. -/
theorem serializes [Fintype ν] (heap : Heap ν) (fuel : ℕ) (stack : Finset ν) (slot : Slot ν)
    (hfuel : (stackᶜ).card < fuel) : Serializes heap fuel stack slot := by
  induction fuel generalizing stack slot with
  | zero => omega
  | succ fuel ih =>
    cases slot with
    | null => exact .inr ⟨id, .null, rfl, rfl⟩
    | boolean b => exact .inr ⟨id, .bool b, rfl, by cases b <;> rfl⟩
    | number n => exact .inr ⟨id, .number n, rfl, rfl⟩
    | string s => exact .inr ⟨id, .string s, rfl, rfl⟩
    | ref node =>
      by_cases hmem : node ∈ stack
      · exact .inl ⟨closes_of_mem hmem, by simp [serialize, hmem]⟩
      · have hless : ((insert node stack)ᶜ).card < fuel := by
          have hlt : (insert node stack)ᶜ ⊂ stackᶜ := by
            rw [Finset.compl_insert]
            exact Finset.erase_ssubset (Finset.mem_compl.mpr hmem)
          have := Finset.card_lt_card hlt
          omega
        have hnested := fun slot => ih (insert node stack) slot hless
        cases hnode : heap node with
        | array items => exact serialize_array hnode hmem hnested
        | object entries => exact serialize_object hnode hmem hnested

/-! ## The tree of a slot -/

omit [DecidableEq ν] in
theorem unfold_succ {heap : Heap ν} {fuel : ℕ} {slot : Slot ν} {tree : Json}
    (h : unfold heap fuel slot = some tree) : unfold heap (fuel + 1) slot = some tree := by
  induction fuel generalizing slot tree with
  | zero => cases h
  | succ fuel ih =>
    cases slot with
    | null | boolean | number | string => exact h
    | ref node =>
      rw [unfold] at h ⊢
      cases hnode : heap node with
      | array items =>
        simp only [hnode, Option.map_eq_some_iff] at h ⊢
        obtain ⟨trees, htrees, rfl⟩ := h
        exact ⟨trees, CheckedList.mapM_mono (fun slot tree htree => ih htree) htrees, rfl⟩
      | object entries =>
        simp only [hnode, Option.map_eq_some_iff] at h ⊢
        obtain ⟨members, hmembers, rfl⟩ := h
        refine ⟨members, CheckedList.mapM_mono (fun entry member hmember => ?_) hmembers, rfl⟩
        obtain ⟨tree, htree, rfl⟩ := Option.map_eq_some_iff.mp hmember
        rw [ih htree, Option.map_some]

omit [DecidableEq ν] in
/-- A slot has one tree. -/
theorem Unfolds.unique {heap : Heap ν} {slot : Slot ν} {tree tree' : Json} (h : Unfolds heap slot tree)
    (h' : Unfolds heap slot tree') : tree = tree' := by
  have hmono : ∀ {fuel m : ℕ} {t : Json}, unfold heap fuel slot = some t →
      unfold heap (fuel + m) slot = some t := by
    intro fuel m t ht
    induction m with
    | zero => exact ht
    | succ m ih => exact unfold_succ ih
  obtain ⟨fuel, hfuel⟩ := h
  obtain ⟨fuel', hfuel'⟩ := h'
  have hsum := hmono (m := fuel') hfuel
  rw [Nat.add_comm, hmono hfuel'] at hsum
  exact (Option.some.inj hsum).symm

/-- The serializer ends, it throws exactly where a cycle can be reached, and
elsewhere it returns the canonical text of the unfolded tree. -/
theorem cycle_detection_exact [Fintype ν] (heap : Heap ν) (root : Slot ν) :
    ∃ result, (∀ fuel, Fintype.card ν < fuel → canonicalStringify heap fuel root = some result) ∧
      (result = .error circular ↔ CycleReachable heap root) ∧
      (¬ CycleReachable heap root → ∃ tree text, Unfolds heap root tree ∧
        CanonicalJson.canonicalStringify (toJs tree) = .ok text ∧ result = .ok text) := by
  have hcloses : SlotCloses heap ∅ root ↔ CycleReachable heap root := by
    cases root with
    | ref node => exact closes_empty
    | null | boolean | number | string => exact Iff.rfl
  have hspec : ∀ fuel, Fintype.card ν < fuel → Serializes heap fuel ∅ root := by
    intro fuel hfuel
    apply serializes
    rwa [Finset.compl_empty, Finset.card_univ]
  by_cases hcycle : CycleReachable heap root
  · refine ⟨.error circular, ?_, by simp [hcycle], fun h => absurd hcycle h⟩
    intro fuel hfuel
    cases hspec fuel hfuel with
    | inl h => rw [canonicalStringify, h.2, Option.map_some]
    | inr h => exact absurd (hcloses.mpr hcycle) h.1
  · obtain ⟨tree, htree, _⟩ := ((hspec _ (Nat.lt_succ_self _)).resolve_left
      fun h => hcycle (hcloses.mp h.1)).2
    refine ⟨.ok (canon tree), ?_, by simp [hcycle], ?_⟩
    · intro fuel hfuel
      cases hspec fuel hfuel with
      | inl h => exact absurd (hcloses.mp h.1) hcycle
      | inr h =>
        obtain ⟨_, tree', htree', htext⟩ := h
        have hsame : tree' = tree := Unfolds.unique ⟨fuel, htree'⟩ ⟨_, htree⟩
        rw [canonicalStringify, htext, Option.map_some, hsame]
    · intro _
      exact ⟨tree, canon tree, ⟨_, htree⟩, canonicalStringify_tree tree, rfl⟩

end

-- an empty array that is referred to twice, and an object that refers to itself
example :
    canonicalStringify (fun node : Bool => .array (if node then [.ref false, .ref false] else [])) 3
        (.ref true) = some (.ok "[[],[]]") ∧
      canonicalStringify (fun _ : Unit => .object [("self", .ref ())]) 2 (.ref ()) =
        some (.error circular) := by
  decide +kernel

end ModelForge.CanonicalGraph
