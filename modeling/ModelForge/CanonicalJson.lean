import ModelForge.JsonMembers

set_option autoImplicit false

/-!
# canonicalStringify and stableStringify

The platform's canonical form sorts keys by UTF-16 code unit, the web verifier's
by `localeCompare`. After a parse the two agree exactly on the values in which
both orders agree on the keys of every object.
-/
namespace ModelForge.CanonicalJson
open JsonText JsonMembers
open scoped List

/-- The UTF-16 code units of a character. -/
def codeUnits (c : Char) : List ℕ :=
  if c.toNat < 65536 then [c.toNat]
  else [55296 + (c.toNat - 65536) / 1024, 56320 + (c.toNat - 65536) % 1024]

def utf16 (s : String) : List ℕ := s.toList.flatMap codeUnits

/-- The order of `Array.prototype.sort` without a comparator. -/
def codeUnitLe (a b : String) : Prop := utf16 a ≤ utf16 b

def codeUnitLt (a b : String) : Prop := utf16 a < utf16 b

instance : DecidableRel codeUnitLe := fun a b => inferInstanceAs (Decidable (utf16 a ≤ utf16 b))

instance : DecidableRel codeUnitLt := fun a b => inferInstanceAs (Decidable (utf16 a < utf16 b))

instance : Std.Total codeUnitLe := ⟨fun a b => le_total (utf16 a) (utf16 b)⟩

instance : IsTrans String codeUnitLe := ⟨fun _ _ _ => le_trans⟩

theorem char_range (c : Char) : c.toNat < 55296 ∨ 57343 < c.toNat ∧ c.toNat < 1114112 := c.valid

theorem codeUnits_ne_nil (c : Char) : codeUnits c ≠ [] := by
  unfold codeUnits
  split <;> simp

/-- A character above the basic plane starts with a surrogate, no other does. -/
theorem codeUnits_prefixFree : PrefixFree codeUnits := by
  intro a b x y h
  have ha := char_range a
  have hb := char_range b
  have hab : a.toNat = b.toNat := by
    unfold codeUnits at h
    split at h <;> split at h <;> simp only [List.cons_append, List.nil_append, List.cons.injEq] at h <;>
      omega
  obtain rfl := Char.toNat_inj.mp hab
  exact ⟨rfl, List.append_cancel_left h⟩

theorem utf16_injective : Function.Injective utf16 := fun _ _ h =>
  String.toList_inj.mp (codeUnits_prefixFree.flatMap_injective codeUnits_ne_nil h)

/-- A locale's order: strings compare as their sort keys do. -/
structure Collation where
  sortKey : String → List ℕ

namespace Collation
variable (c : Collation)

def localeCompare (a b : String) : Ordering := cmp (c.sortKey a) (c.sortKey b)

def Le (a b : String) : Prop := c.localeCompare a b ≠ .gt

instance : DecidableRel c.Le := fun a b =>
  inferInstanceAs (Decidable (c.localeCompare a b ≠ .gt))

theorem le_iff (a b : String) : c.Le a b ↔ c.sortKey a ≤ c.sortKey b := by
  unfold Le localeCompare cmp cmpUsing
  split
  · rename_i h
    exact ⟨fun _ => h.le, fun _ => nofun⟩
  · split
    · rename_i h
      exact ⟨fun hne => absurd rfl hne, fun hle => absurd h (not_lt.mpr hle)⟩
    · rename_i h
      exact ⟨fun _ => not_lt.mp h, fun _ => nofun⟩

instance : Std.Total c.Le := ⟨fun a b => by
  rw [le_iff, le_iff]
  exact le_total _ _⟩

instance : IsTrans String c.Le := ⟨fun _ _ _ => by
  simp only [le_iff]
  exact le_trans⟩

end Collation

/-- What JavaScript passes to `serialize`: JSON values, values JSON has no text
for, and objects with a `toJSON` method, given by its result. -/
inductive JsValue where
  | null
  | boolean (b : Bool)
  | number (n : JsNumber)
  | nonFinite
  | string (s : String)
  | bigint (n : ℤ)
  | absent
  | array (items : List JsValue)
  | object (entries : List (String × JsValue))
  | withToJSON (result : JsValue)

inductive CanonicalError where
  | nonFinite
  | bigint
  | root
  deriving DecidableEq, Repr

def CanonicalError.message : CanonicalError → String
  | .nonFinite => "Canonical JSON cannot represent non-finite numbers"
  | .bigint => "Canonical JSON cannot represent bigint values"
  | .root => "The root value is not JSON serializable"

/-- `JSON.stringify` of a string. -/
def quoteText (s : String) : String := String.ofList (quote s)

/-- The entries of an object in the order of their keys: the first failure is
thrown, a value without text is left out. -/
def collectEntries : List (String × Except CanonicalError (Option String)) →
    Except CanonicalError (List String)
  | [] => .ok []
  | (key, serialized) :: rest => do
    match ← serialized with
    | none => collectEntries rest
    | some s => return (quoteText key ++ ":" ++ s) :: (← collectEntries rest)

mutual

/-- `serialize`; a value here is a tree, which has no circular structure. -/
def serialize : JsValue → Except CanonicalError (Option String)
  | .null => .ok (some "null")
  | .boolean b => .ok (some (if b then "true" else "false"))
  | .number n => .ok (some (String.ofList n.chars))
  | .nonFinite => .error .nonFinite
  | .string s => .ok (some (quoteText s))
  | .bigint _ => .error .bigint
  | .absent => .ok none
  | .withToJSON result => serialize result
  | .array items => do
    return some ("[" ++ ",".intercalate (← serializeItems items) ++ "]")
  | .object entries => do
    let sorted := (Arrangement.byKey codeUnitLe).arrange (serializeEntries entries)
    return some ("\x7b" ++ ",".intercalate (← collectEntries sorted) ++ "\x7d")

def serializeItems : List JsValue → Except CanonicalError (List String)
  | [] => .ok []
  | item :: rest => do
    let s ← serialize item
    return s.getD "null" :: (← serializeItems rest)

def serializeEntries : List (String × JsValue) →
    List (String × Except CanonicalError (Option String))
  | [] => []
  | (key, value) :: rest => (key, serialize value) :: serializeEntries rest

end

def canonicalStringify (value : JsValue) : Except CanonicalError String := do
  match ← serialize value with
  | some s => return s
  | none => throw .root

mutual

/-- The verifier's `stableStringify`, on what `JSON.parse` returns. -/
def stableStringify (c : Collation) : Json → String
  | .null => "null"
  | .bool b => if b then "true" else "false"
  | .number n => String.ofList n.chars
  | .string s => quoteText s
  | .array items => "[" ++ ",".intercalate (stableItems c items) ++ "]"
  | .object members =>
    "\x7b" ++ ",".intercalate (((Arrangement.byKey c.Le).arrange (stableEntries c members)).map
      fun (k, v) => quoteText k ++ ":" ++ v) ++ "\x7d"

def stableItems (c : Collation) : List Json → List String
  | [] => []
  | item :: rest => stableStringify c item :: stableItems c rest

def stableEntries (c : Collation) : List (String × Json) → List (String × String)
  | [] => []
  | (key, value) :: rest => (key, stableStringify c value) :: stableEntries c rest

end

mutual

/-- A JSON value as the JavaScript value it is. -/
def toJs : Json → JsValue
  | .null => .null
  | .bool b => .boolean b
  | .number n => .number n
  | .string s => .string s
  | .array items => .array (toJsItems items)
  | .object members => .object (toJsMembers members)

def toJsItems : List Json → List JsValue
  | [] => []
  | item :: rest => toJs item :: toJsItems rest

def toJsMembers : List (String × Json) → List (String × JsValue)
  | [] => []
  | (key, value) :: rest => (key, toJs value) :: toJsMembers rest

end

theorem renderItems_eq_map (items : List Json) : renderItems items = items.map render := by
  induction items with
  | nil => rfl
  | cons t rest ih => rw [renderItems, ih, List.map_cons]

theorem renderMembers_eq_map (ms : List (String × Json)) :
    renderMembers ms = ms.map fun m => quote m.1 ++ ':' :: render m.2 := by
  induction ms with
  | nil => rfl
  | cons m rest ih => rw [renderMembers, ih, List.map_cons]

@[simp] theorem toList_text (t : Json) : (text t).toList = render t := String.toList_ofList

@[simp] theorem toList_quoteText (s : String) : (quoteText s).toList = quote s := String.toList_ofList

theorem text_array (items : List Json) :
    text (.array items) = "[" ++ ",".intercalate (items.map text) ++ "]" := by
  apply String.toList_inj.mp
  simp only [toList_text, render, String.toList_append, String.toList_intercalate,
    renderItems_eq_map, List.map_map, Function.comp_def]
  rfl

theorem text_object (ms : List (String × Json)) :
    text (.object ms) =
      "\x7b" ++ ",".intercalate (ms.map fun m => quoteText m.1 ++ ":" ++ text m.2) ++ "\x7d" := by
  have hcolon : ":".toList = [':'] := by decide
  apply String.toList_inj.mp
  simp only [toList_text, toList_quoteText, render, String.toList_append, String.toList_intercalate,
    renderMembers_eq_map, List.map_map, Function.comp_def, hcolon, List.append_assoc,
    List.singleton_append]
  rfl

theorem collectEntries_ok (ms : List (String × Json)) :
    collectEntries (ms.map (Prod.map id fun t => .ok (some (text t)))) =
      .ok (ms.map fun m => quoteText m.1 ++ ":" ++ text m.2) := by
  induction ms with
  | nil => rfl
  | cons m rest ih =>
    rw [List.map_cons, List.map_cons, Prod.map_apply, collectEntries, ih]
    rfl

mutual

/-- `serialize` writes the text of the value with all keys sorted by code unit. -/
theorem serialize_toJs : ∀ t : Json,
    serialize (toJs t) = .ok (some (text (reorder (Arrangement.byKey codeUnitLe) t)))
  | .null => rfl
  | .bool b => by cases b <;> rfl
  | .number n => rfl
  | .string s => rfl
  | .array items => by
    rw [toJs, serialize, serializeItems_toJs items, reorder, text_array]
    rfl
  | .object members => by
    rw [toJs, serialize, serializeEntries_toJs members, Arrangement.natural]
    simp only [collectEntries_ok]
    rw [reorder, text_object]
    rfl

theorem serializeItems_toJs : ∀ items : List Json, serializeItems (toJsItems items) =
    .ok ((reorderItems (Arrangement.byKey codeUnitLe) items).map text)
  | [] => rfl
  | t :: rest => by
    rw [toJsItems, serializeItems, serialize_toJs t, serializeItems_toJs rest]
    rfl

theorem serializeEntries_toJs : ∀ ms : List (String × Json), serializeEntries (toJsMembers ms) =
    (reorderMembers (Arrangement.byKey codeUnitLe) ms).map
      (Prod.map id fun t => .ok (some (text t)))
  | [] => rfl
  | (k, t) :: rest => by
    rw [toJsMembers, serializeEntries, serialize_toJs t, serializeEntries_toJs rest]
    rfl

end

theorem canonicalStringify_toJs (t : Json) :
    canonicalStringify (toJs t) = .ok (text (reorder (Arrangement.byKey codeUnitLe) t)) := by
  rw [canonicalStringify, serialize_toJs]
  rfl

mutual

/-- `stableStringify` writes the text with all keys sorted by the locale. -/
theorem stableStringify_eq (c : Collation) : ∀ t : Json,
    stableStringify c t = text (reorder (Arrangement.byKey c.Le) t)
  | .null => rfl
  | .bool b => by cases b <;> rfl
  | .number n => rfl
  | .string s => rfl
  | .array items => by
    rw [stableStringify, stableItems_eq c items, reorder, text_array]
  | .object members => by
    rw [stableStringify, stableEntries_eq c members, Arrangement.natural, List.map_map, reorder,
      text_object]
    rfl

theorem stableItems_eq (c : Collation) : ∀ items : List Json,
    stableItems c items = (reorderItems (Arrangement.byKey c.Le) items).map text
  | [] => rfl
  | t :: rest => by
    rw [stableItems, stableStringify_eq c t, stableItems_eq c rest]
    rfl

theorem stableEntries_eq (c : Collation) : ∀ ms : List (String × Json),
    stableEntries c ms = (reorderMembers (Arrangement.byKey c.Le) ms).map (Prod.map id text)
  | [] => rfl
  | (k, t) :: rest => by
    rw [stableEntries, stableStringify_eq c t, stableEntries_eq c rest]
    rfl

end

/-- The value of a key that is an array index in canonical decimal form. -/
def arrayIndex (key : String) : Option ℕ :=
  let digits := key.toList
  let value := digits.foldl (fun n c => 10 * n + (c.toNat - 48)) 0
  if digits ≠ [] ∧ (digits.all Char.isDigit) ∧ (digits = ['0'] ∨ digits.head? ≠ some '0') ∧
      value < 4294967295 then some value
  else none

def indexLe (a b : String) : Prop := (arrayIndex a).getD 0 ≤ (arrayIndex b).getD 0

instance : DecidableRel indexLe := fun a b =>
  inferInstanceAs (Decidable ((arrayIndex a).getD 0 ≤ (arrayIndex b).getD 0))

instance : Std.Total indexLe := ⟨fun _ _ => le_total _ _⟩

instance : IsTrans String indexLe := ⟨fun _ _ _ => le_trans⟩

/-- The order in which an object lists its own keys: array indices ascending,
then the others as they were added. -/
def propertyOrder : Arrangement where
  arrange ms := (Arrangement.byKey indexLe).arrange (ms.filter fun m => (arrayIndex m.1).isSome) ++
    ms.filter fun m => !(arrayIndex m.1).isSome
  natural f ms := by
    simp only [List.filter_map, List.map_append, ← Arrangement.natural]
    rfl
  perm ms := (((Arrangement.byKey indexLe).perm _).append_right _).trans
    (List.filter_append_perm _ ms)

/-- A JSON parser: it reads the text of a value back, with its members listed
as an object lists its keys. -/
structure JsonParser where
  parse : String → Option Json
  inverts : ∀ t, DistinctKeys t → parse (text t) = some (reorder propertyOrder t)

/-- `a` is listed before `b` by an object to which it was added first. -/
def ListedBefore (a b : String) : Prop :=
  match arrayIndex a, arrayIndex b with
  | some i, some j => i ≤ j ∧ (j ≤ i → codeUnitLt a b)
  | some _, none => True
  | none, some _ => False
  | none, none => codeUnitLt a b

instance : DecidableRel ListedBefore := fun a b => by
  unfold ListedBefore
  split <;> infer_instance

/-- Of any two keys, the one that is first by code unit is first for the locale
too; where the locale ties them, it is the one an object lists first. -/
def OrdersAgree (c : Collation) (ks : List String) : Prop :=
  ∀ a ∈ ks, ∀ b ∈ ks, codeUnitLt a b → c.Le a b ∧ (c.Le b a → ListedBefore a b)

theorem listedBefore_asymm (a b : String) (h : ListedBefore a b) : ¬ ListedBefore b a := by
  unfold ListedBefore at h ⊢
  cases ha : arrayIndex a <;> cases hb : arrayIndex b <;> simp only [ha, hb] at h ⊢
  · exact lt_asymm h
  · exact not_false
  · exact fun h' => lt_asymm (h.2 h'.1) (h'.2 h.1)

theorem propertyOrder_keys (ks : List String) : propertyOrder.keys ks =
    (ks.filter fun k => (arrayIndex k).isSome).insertionSort indexLe ++
      ks.filter fun k => !(arrayIndex k).isSome := by
  have hpair : ∀ p : String → Bool,
      (ks.map fun k => (k, ())).filter (fun m => p m.1) = (ks.filter p).map fun k => (k, ()) :=
    fun p => List.filter_map
  have hfst : ∀ l : List String, (l.map fun k => (k, ())).map Prod.fst = l := fun l => by
    rw [List.map_map]
    exact List.map_id l
  change ((Arrangement.byKey indexLe).arrange _ ++ _).map Prod.fst = _
  rw [List.map_append, hpair fun k => (arrayIndex k).isSome, hpair fun k => !(arrayIndex k).isSome,
    hfst, ← Arrangement.byKey_keys]
  rfl

/-- An object to which keys were added in code unit order lists them so. -/
theorem propertyOrder_listed {ks : List String} (h : ks.Pairwise codeUnitLt) (nodup : ks.Nodup) :
    (propertyOrder.keys ks).Pairwise ListedBefore := by
  rw [propertyOrder_keys, List.pairwise_append]
  have hindex : ∀ k ∈ (ks.filter fun k => (arrayIndex k).isSome).insertionSort indexLe,
      ∃ i, arrayIndex k = some i := fun k hk =>
    Option.isSome_iff_exists.mp
      (List.mem_filter.mp ((List.mem_insertionSort indexLe).mp hk)).2
  have hother : ∀ k ∈ ks.filter fun k => !(arrayIndex k).isSome, arrayIndex k = none := fun k hk => by
    simpa using (List.mem_filter.mp hk).2
  refine ⟨?_, ?_, fun a ha b hb => ?_⟩
  · have hstable := insertionSort_stable (r := indexLe) (h.filter fun k => (arrayIndex k).isSome)
      (nodup.filter _)
    refine hstable.imp_of_mem fun {a b} ha hb hab => ?_
    obtain ⟨i, hi⟩ := hindex a ha
    obtain ⟨j, hj⟩ := hindex b hb
    simpa [ListedBefore, indexLe, hi, hj] using hab
  · refine (h.filter _).imp_of_mem fun {a b} ha hb hab => ?_
    simpa [ListedBefore, hother a ha, hother b hb] using hab
  · obtain ⟨i, hi⟩ := hindex a ha
    simp [ListedBefore, hi, hother b hb]

/-- Sorting the listed keys by the locale restores the code unit order exactly
when the two orders agree on them. -/
theorem keys_eq_iff (c : Collation) {ks : List String} (nodup : ks.Nodup) :
    (((Arrangement.byKey c.Le).after propertyOrder).after (Arrangement.byKey codeUnitLe)).keys ks =
      (Arrangement.byKey codeUnitLe).keys ks ↔ OrdersAgree c ks := by
  have hperm := List.perm_insertionSort codeUnitLe ks
  have hnodup : (ks.insertionSort codeUnitLe).Nodup := hperm.nodup_iff.mpr nodup
  have hsorted : (ks.insertionSort codeUnitLe).Pairwise codeUnitLt := by
    refine (List.pairwise_insertionSort codeUnitLe ks).imp₂ (fun a b hle hne => ?_) hnodup
    exact lt_of_le_of_ne hle fun he => hne (utf16_injective he)
  rw [Arrangement.after_keys, Arrangement.after_keys, Arrangement.byKey_keys, Arrangement.byKey_keys,
    insertionSort_eq_iff (propertyOrder_listed hsorted hnodup)
      ((propertyOrder.keys_perm _).nodup_iff.mpr hnodup) listedBefore_asymm
      (propertyOrder.keys_perm _).symm]
  constructor
  · intro h a ha b hb hlt
    have hne : a ≠ b := by
      rintro rfl
      exact lt_irrefl _ hlt
    rcases pair_or_pair (hperm.mem_iff.mpr ha) (hperm.mem_iff.mpr hb) hne with hab | hba
    · exact List.pairwise_iff_forall_sublist.mp h hab
    · exact absurd (List.pairwise_iff_forall_sublist.mp hsorted hba) (lt_asymm hlt)
  · intro h
    exact hsorted.imp_of_mem fun {a b} ha hb hlt =>
      h a (hperm.mem_iff.mp ha) b (hperm.mem_iff.mp hb) hlt

/-- The two orders agree on the keys of every object in the value. -/
def KeysAgree (c : Collation) (t : Json) : Prop := Everywhere (OrdersAgree c) t

/-- Parsing a canonical text and writing it again with the verifier's function
gives the same text exactly when both orders agree on all keys. -/
theorem restringify_iff (c : Collation) (parser : JsonParser) (t : Json) (distinct : DistinctKeys t) :
    (parser.parse (text (reorder (Arrangement.byKey codeUnitLe) t))).map (stableStringify c) =
      some (text (reorder (Arrangement.byKey codeUnitLe) t)) ↔ KeysAgree c t := by
  rw [parser.inverts _ (distinctKeys_reorder _ t distinct), Option.map_some, Option.some_inj,
    stableStringify_eq, reorder_reorder, reorder_reorder, text_injective.eq_iff,
    reorder_eq_iff _ _ t distinct]
  exact Everywhere.congr (fun ks nodup => keys_eq_iff c nodup) t distinct

end ModelForge.CanonicalJson
