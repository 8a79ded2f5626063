import ModelForge.BundleRegistration
import ModelForge.PosixPath

set_option autoImplicit false

/-!
# Deleting a model's weights

Removing a model from the registry deletes its GGUF file, or all the shards, as
long as no other row names the same file. The shards' names are made again from
the registered one.
-/
namespace ModelForge.WeightDeletion

open WeightFiles hiding relativePath
open PosixPath
open BundleRegistration (HostedModel length_padStart isDigit_padStart five_of_length)

/-! ## The files -/

/-- The entries of a file system, by absolute path. -/
structure Disk where
  entries : KeyedMap (List String) Node
  named : ∀ path ∈ entries.keys, ∀ name ∈ path, IsName name

namespace Disk

def get? (disk : Disk) (path : List String) : Option Node := disk.entries.get? path

def unlink (disk : Disk) (path : List String) : Disk where
  entries := disk.entries.delete path
  named := by
    intro other hother
    refine disk.named other ?_
    rw [KeyedMap.mem_keys, KeyedMap.get?_delete] at hother
    split at hother
    · cases hother
    · exact KeyedMap.mem_keys.mpr hother

theorem get?_unlink (disk : Disk) (path other : List String) :
    (disk.unlink path).get? other = if other = path then none else disk.get? other :=
  KeyedMap.get?_delete disk.entries path other

/-- What is under a directory, by path from it. -/
def under (disk : Disk) (root : List String) : Tree where
  entries := disk.entries.entries.filterMap fun entry =>
    (root.isPrefixOf? entry.1).map fun path => (path, entry.2)
  nodup := by
    have hkeys : (disk.entries.entries.filterMap fun entry =>
        (root.isPrefixOf? entry.1).map fun path => (path, entry.2)).map Prod.fst =
          (disk.entries.entries.map Prod.fst).filterMap root.isPrefixOf? := by
      rw [List.map_filterMap, List.filterMap_map]
      refine List.filterMap_congr fun entry _ => ?_
      rw [Option.map_map, Function.comp_apply]
      exact congrFun Option.map_id _
    rw [hkeys]
    refine List.Nodup.filterMap ?_ disk.entries.nodup
    intro path other rest hpath hother
    rw [← List.isPrefixOf?_eq_some_iff_append_eq.mp hpath,
      ← List.isPrefixOf?_eq_some_iff_append_eq.mp hother]

theorem get?_under {disk : Disk} {root path : List String} {node : Node}
    (h : (disk.under root).get? path = some node) : disk.get? (root ++ path) = some node := by
  obtain ⟨entry, hentry, hsome⟩ := List.mem_filterMap.mp (KeyedMap.mem_of_get? h)
  obtain ⟨rest, hrest, heq⟩ := Option.map_eq_some_iff.mp hsome
  obtain ⟨rfl, rfl⟩ := Prod.mk.inj heq
  rw [List.isPrefixOf?_eq_some_iff_append_eq.mp hrest]
  exact KeyedMap.get?_of_mem hentry

theorem isName {disk : Disk} {path : List String} {node : Node} (h : disk.get? path = some node) :
    ∀ name ∈ path, IsName name :=
  disk.named path (KeyedMap.mem_keys.mpr (Option.isSome_iff_exists.mpr ⟨node, h⟩))

end Disk

/-! ## Deletion -/

/-- `!inside || inside.startsWith("..") || path.isAbsolute(inside)` -/
def isOutside (inside : String) : Bool :=
  inside = "" || inside.toList.take 2 = ['.', '.'] || isAbsolute inside

def resolveInsideWeightsDir (root : List String) (relativePath : String) :
    Except String (List String) :=
  let target := resolve root relativePath
  if isOutside (relative root target) then
    .error "Refusing to delete weights outside MODEL_WEIGHTS_DIR"
  else .ok target

/-- The names that are made from a registered file's. -/
def weightNames (fileName : List Char) : List String :=
  match SHARD_PATTERN (withoutExt fileName) with
  | some shard =>
    (List.range (number shard.count)).map fun index => String.ofList
      (shard.base ++ '-' :: padStart (index + 1) ++ "-of-".toList ++ shard.count ++ ".gguf".toList)
  | none => [String.ofList fileName]

/-- The loop of `unlink`s in `dir`. A directory of the name makes it throw, with
what `unlinkError` says of its path. -/
def unlinkEach (unlinkError : List String → String) (root dir : List String) :
    List String → Disk → List String → Disk × Except String (List String)
  | [], disk, deleted => (disk, .ok deleted)
  | name :: names, disk, deleted =>
    let file := join dir name
    let inside := relative root file
    if isOutside inside then unlinkEach unlinkError root dir names disk deleted
    else
      match disk.get? file with
      | none => unlinkEach unlinkError root dir names disk deleted
      | some .directory => (disk, .error (unlinkError file))
      | some _ => unlinkEach unlinkError root dir names (disk.unlink file) (deleted ++ [inside])

def deleteRegisteredWeights (unlinkError : List String → String) (root : List String)
    (relativePath : String) (disk : Disk) : Disk × Except String (List String) :=
  match resolveInsideWeightsDir root relativePath with
  | .error message => (disk, .error message)
  | .ok target =>
    unlinkEach unlinkError root target.dropLast (weightNames (target.getLastD "").toList) disk []

/-! ## The route -/

inductive ProviderKind where
  | localGguf
  | openaiCompat
  deriving DecidableEq, Repr

structure Row extends HostedModel where
  providerKind : ProviderKind
  deriving DecidableEq

structure Plan where
  id : String
  allowedModelIds : List String
  deriving DecidableEq

structure Entitlement where
  planId : String
  modelSlug : String
  deriving DecidableEq

/-- The tables and the files that the route changes; the models by `modelId`. -/
structure Store where
  hostedModels : KeyedMap String Row
  plans : List Plan
  entitlements : List Entitlement
  disk : Disk

inductive Reply where
  | notFound (type message : String)
  | unavailable (error : String)
  | success (modelId : String) (deletedFiles : List String) (message : String)
  deriving DecidableEq

/-- The rows but the model's own that name the same file. -/
def others (models : KeyedMap String Row) (modelId weightsPath : String) : ℕ :=
  ((models.delete modelId).values.filter fun row => row.weightsPath = weightsPath).length

def withoutModel (modelId : String) (plan : Plan) : Plan :=
  if modelId ∈ plan.allowedModelIds then
    { plan with allowedModelIds := plan.allowedModelIds.filter fun id => id ≠ modelId }
  else plan

/-- `DELETE /engine/models/:modelId`; `unloaded` is how `unloadModel` ends. -/
def deleteModel (unlinkError : List String → String) (root : List String)
    (unloaded : Except String Unit) (modelId : String) (store : Store) : Store × Reply :=
  match store.hostedModels.get? modelId with
  | none => (store, .notFound "model_not_found" "Unknown model")
  | some hosted =>
    match unloaded with
    | .error message => (store, .unavailable message)
    | .ok _ =>
      let tables : Store :=
        { store with
          plans := store.plans.map (withoutModel modelId)
          entitlements := store.entitlements.filter fun row => row.modelSlug ≠ modelId
          hostedModels := store.hostedModels.delete modelId }
      if others store.hostedModels modelId hosted.weightsPath = 0 then
        match deleteRegisteredWeights unlinkError root hosted.weightsPath store.disk with
        | (disk, .error fileError) =>
          ({ tables with disk := disk }, .success modelId []
            ("Model removed from the registry, but weights were not deleted: " ++ fileError))
        | (disk, .ok deletedFiles) =>
          ({ tables with disk := disk }, .success modelId deletedFiles
            (if deletedFiles ≠ [] then "Model removed from the registry and weights deleted"
            else "Model removed from the registry"))
      else (tables, .success modelId [] "Model removed from the registry")

/-! ## What belongs to a model -/

/-- `.gguf` as the name writes it. -/
def extension (name : List Char) : List Char := name.drop (withoutExt name).length

/-- Another part of the sharded model that has this name: the names differ in the
index only, which is one of the model's parts. -/
def ShardOf (name other : List Char) : Prop :=
  ∃ shard part, SHARD_PATTERN (withoutExt name) = some shard ∧
    SHARD_PATTERN (withoutExt other) = some part ∧ part.base = shard.base ∧
    part.count = shard.count ∧ extension other = extension name ∧
    1 ≤ number part.index ∧ number part.index ≤ number shard.count

/-- The model's file, or one of its shards. -/
def Belongs (name other : List Char) : Prop := other = name ∨ ShardOf name other

/-- A path at which the files of the model registered as `weightsPath` are. -/
def Owns (root : List String) (weightsPath : String) (file : List String) : Prop :=
  ∃ path name other, (∀ part ∈ path ++ [name], IsName part) ∧ render (path ++ [name]) = weightsPath ∧
    Belongs name.toList other.toList ∧ file = root ++ path ++ [other]

def Present (disk : Disk) (file : List String) : Prop :=
  disk.get? file ≠ none ∧ disk.get? file ≠ some .directory

instance (disk : Disk) (file : List String) : Decidable (Present disk file) :=
  inferInstanceAs (Decidable (_ ∧ _))

def Removed (before after : Disk) (file : List String) : Prop :=
  before.get? file ≠ none ∧ after.get? file = none

/-- A deletion that takes exactly the model's own files. -/
structure DeletesOwn (root : List String) (weightsPath : String) (staying : List Row)
    (before after : Disk) : Prop where
  own : ∀ file, Removed before after file ↔ Present before file ∧ Owns root weightsPath file
  inside : ∀ file, Removed before after file → root <+: file ∧ file ≠ root
  spares : ∀ row ∈ staying, row.providerKind = .localGguf →
    ∀ file, Removed before after file → ¬ Owns root row.weightsPath file
  rest : ∀ file, ¬ Removed before after file → after.get? file = before.get? file

/-! ## Digits -/

theorem number_padStart (n : ℕ) : number (padStart n) = n := by
  rw [number, padStart, List.leftpad, Nat.ofDigitChars_append, Nat.ofDigitChars_replicate_zero,
    Nat.mul_zero, Nat.ofDigitChars_ten_toDigits]

theorem digit_bounds {c : Char} (h : c.isDigit = true) : 48 ≤ c.toNat ∧ c.toNat < 58 := by
  have hbounds : '0'.toNat ≤ c.toNat ∧ c.toNat ≤ '9'.toNat := by
    simpa [Char.isDigit, UInt32.le_iff_toNat_le] using h
  exact ⟨hbounds.1, Nat.lt_succ_of_le hbounds.2⟩

theorem ofDigitChars_lt {ds : List Char} (h : ∀ c ∈ ds, c.isDigit = true) (n : ℕ) :
    Nat.ofDigitChars 10 ds n < (n + 1) * 10 ^ ds.length := by
  induction ds generalizing n with
  | nil => simp
  | cons c ds ih =>
    obtain ⟨hc, hds⟩ := List.forall_mem_cons.mp h
    have hdigit := digit_bounds hc
    have hzero : '0'.toNat = 48 := rfl
    rw [Nat.ofDigitChars_cons, List.length_cons, Nat.pow_succ']
    calc _ < (10 * n + (c.toNat - '0'.toNat) + 1) * 10 ^ ds.length := ih hds _
      _ ≤ (n + 1) * 10 * 10 ^ ds.length := Nat.mul_le_mul_right _ (by omega)
      _ = (n + 1) * (10 * 10 ^ ds.length) := Nat.mul_assoc _ _ _

/-- As many digits are told from their number. -/
theorem ofDigitChars_inj {ds es : List Char} (hds : ∀ c ∈ ds, c.isDigit = true)
    (hes : ∀ c ∈ es, c.isDigit = true) (hlength : ds.length = es.length) {n m : ℕ}
    (h : Nat.ofDigitChars 10 ds n = Nat.ofDigitChars 10 es m) : n = m ∧ ds = es := by
  induction ds generalizing es n m with
  | nil =>
    obtain rfl := List.length_eq_zero_iff.mp hlength.symm
    exact ⟨h, rfl⟩
  | cons c ds ih =>
    cases es with
    | nil => cases hlength
    | cons e es =>
      obtain ⟨hc, hds⟩ := List.forall_mem_cons.mp hds
      obtain ⟨he, hes⟩ := List.forall_mem_cons.mp hes
      rw [Nat.ofDigitChars_cons, Nat.ofDigitChars_cons] at h
      obtain ⟨hrest, rfl⟩ := ih hds hes (Nat.succ.inj hlength) h
      have hzero : '0'.toNat = 48 := rfl
      have hcbounds := digit_bounds hc
      have hebounds := digit_bounds he
      have hchar : c.toNat = e.toNat := by omega
      obtain rfl := Char.toNat_inj.mp hchar
      exact ⟨by omega, rfl⟩

theorem padStart_number {ds : List Char} (hlength : ds.length = 5)
    (hds : ∀ c ∈ ds, c.isDigit = true) : padStart (number ds) = ds := by
  have hlt : number ds < 10 ^ 5 := by
    have hbound := ofDigitChars_lt hds 0
    rwa [hlength, Nat.zero_add, Nat.one_mul] at hbound
  have hsame : (padStart (number ds)).length = ds.length := (length_padStart hlt).trans hlength.symm
  exact (ofDigitChars_inj (fun _ => isDigit_padStart) hds hsame (number_padStart _)).2

/-! ## Names -/

theorem SHARD_PATTERN_eq_some {text : List Char} {shard : Shard} :
    SHARD_PATTERN text = some shard ↔
      text = shard.base ++ '-' :: shard.index ++ "-of-".toList ++ shard.count ∧
        shard.index.length = 5 ∧ shard.count.length = 5 ∧
        (∀ c ∈ shard.index, c.isDigit = true) ∧ ∀ c ∈ shard.count, c.isDigit = true := by
  constructor
  · intro h
    unfold SHARD_PATTERN at h
    split at h
    · rename_i a b c d e g h i j k hdrop
      split at h
      · rename_i hdigits
        obtain rfl := Option.some.inj h
        simp only [List.all_cons, List.all_nil, Bool.and_eq_true, and_true] at hdigits
        refine ⟨?_, rfl, rfl, by simp [hdigits], by simp [hdigits]⟩
        have hwhole := (List.take_append_drop (text.length - 15) text).symm
        rw [hdrop] at hwhole
        simpa using hwhole
      · cases h
    · cases h
  · rintro ⟨rfl, hindex, hcount, hindexDigits, hcountDigits⟩
    obtain ⟨base, index, count⟩ := shard
    obtain ⟨a, b, c, d, e, rfl⟩ := five_of_length hindex
    obtain ⟨g, h, i, j, k, rfl⟩ := five_of_length hcount
    dsimp only at *
    have hassoc : base ++ '-' :: [a, b, c, d, e] ++ "-of-".toList ++ [g, h, i, j, k] =
        base ++ ['-', a, b, c, d, e, '-', 'o', 'f', '-', g, h, i, j, k] := by simp
    have hlength : (base ++ ['-', a, b, c, d, e, '-', 'o', 'f', '-', g, h, i, j, k]).length - 15 =
        base.length := by simp
    unfold SHARD_PATTERN
    rw [hassoc, hlength, List.drop_left, List.take_left]
    simp only [List.forall_mem_cons] at hindexDigits hcountDigits
    simp [hindexDigits, hcountDigits]

theorem withoutExt_append (stem : List Char) {ext : List Char} (h : ext.map Char.toLower = ".gguf".toList) :
    withoutExt (stem ++ ext) = stem ∧ extension (stem ++ ext) = ext := by
  have hlength : ext.length = 5 := by
    have hmap := congrArg List.length h
    rwa [List.length_map] at hmap
  have hstem : (stem ++ ext).length - 5 = stem.length := by
    rw [List.length_append, hlength, Nat.add_sub_cancel]
  have hends : endsWithGguf (stem ++ ext) = true := by
    rw [endsWithGguf, hstem, List.drop_left]
    exact decide_eq_true h
  have hwithout : withoutExt (stem ++ ext) = stem := by
    rw [withoutExt, if_pos hends, hstem, List.take_left]
  exact ⟨hwithout, by rw [extension, hwithout, List.drop_left]⟩

theorem append_extension {name : List Char} (h : endsWithGguf name = true) :
    withoutExt name ++ extension name = name ∧
      (extension name).map Char.toLower = ".gguf".toList := by
  have hdrop : (name.drop (name.length - 5)).map Char.toLower = ".gguf".toList := of_decide_eq_true h
  have happend := withoutExt_append (name.take (name.length - 5)) hdrop
  rw [List.take_append_drop] at happend
  rw [happend.1, happend.2, List.take_append_drop]
  exact ⟨rfl, hdrop⟩

theorem reported_spec {name : List Char} (h : reported name = true) :
    endsWithGguf name = true ∧
      ∀ shard, SHARD_PATTERN (withoutExt name) = some shard → number shard.index = 1 := by
  obtain ⟨hends, hindex⟩ := Bool.and_eq_true_iff.mp h
  refine ⟨hends, fun shard hshard => ?_⟩
  rw [hshard] at hindex
  exact of_decide_eq_true hindex

/-- The name of part `i`. -/
def partName (shard : Shard) (ext : List Char) (i : ℕ) : List Char :=
  shard.base ++ '-' :: padStart i ++ "-of-".toList ++ shard.count ++ ext

theorem weightNames_single {name : List Char} (h : SHARD_PATTERN (withoutExt name) = none) :
    weightNames name = [String.ofList name] := by
  unfold weightNames
  rw [h]

theorem weightNames_shard {name : List Char} {shard : Shard}
    (h : SHARD_PATTERN (withoutExt name) = some shard) :
    weightNames name = (List.range (number shard.count)).map fun index =>
      String.ofList (partName shard ".gguf".toList (index + 1)) := by
  unfold weightNames
  rw [h]
  simp only [partName]

section Parts

variable {name : List Char} {shard : Shard} (hshard : SHARD_PATTERN (withoutExt name) = some shard)

include hshard

theorem count_lt : number shard.count < 10 ^ 5 := by
  obtain ⟨-, -, hlength, -, hdigits⟩ := SHARD_PATTERN_eq_some.mp hshard
  have hbound := ofDigitChars_lt hdigits 0
  rwa [hlength, Nat.zero_add, Nat.one_mul] at hbound

theorem partName_parts (ext : List Char) (hext : ext.map Char.toLower = ".gguf".toList) {i : ℕ}
    (hi : i ≤ number shard.count) :
    SHARD_PATTERN (withoutExt (partName shard ext i)) = some ⟨shard.base, padStart i, shard.count⟩ ∧
      extension (partName shard ext i) = ext := by
  obtain ⟨hwithout, hextension⟩ :=
    withoutExt_append (shard.base ++ '-' :: padStart i ++ "-of-".toList ++ shard.count) hext
  obtain ⟨-, -, hlength, -, hdigits⟩ := SHARD_PATTERN_eq_some.mp hshard
  refine ⟨?_, hextension⟩
  rw [partName, hwithout]
  exact SHARD_PATTERN_eq_some.mpr ⟨rfl, length_padStart (Nat.lt_of_le_of_lt hi (count_lt hshard)),
    hlength, fun _ => isDigit_padStart, hdigits⟩

/-- The name is that of the part with its index. -/
theorem eq_partName (hends : endsWithGguf name = true) :
    name = partName shard (extension name) (number shard.index) := by
  obtain ⟨hbase, hlength, -, hdigits, -⟩ := SHARD_PATTERN_eq_some.mp hshard
  rw [partName, padStart_number hlength hdigits, ← hbase, (append_extension hends).1]

theorem shardOf_iff (hends : endsWithGguf name = true) {other : List Char} :
    ShardOf name other ↔
      ∃ i, 1 ≤ i ∧ i ≤ number shard.count ∧ other = partName shard (extension name) i := by
  obtain ⟨-, hext⟩ := append_extension hends
  constructor
  · rintro ⟨shard', part, hshard', hpart, hbase, hcount, hextension, hlow, hhigh⟩
    obtain rfl := Option.some.inj (hshard.symm.trans hshard')
    have hotherEnds : endsWithGguf other = true := by
      by_contra hnot
      rw [extension, withoutExt, if_neg hnot, List.drop_length] at hextension
      rw [← hextension] at hext
      cases hext
    refine ⟨number part.index, hlow, hhigh, ?_⟩
    rw [eq_partName hpart hotherEnds, hextension]
    simp only [partName, hbase, hcount]
  · rintro ⟨i, hlow, hhigh, rfl⟩
    obtain ⟨hparse, hextension⟩ := partName_parts hshard _ hext hhigh
    refine ⟨shard, _, hshard, hparse, rfl, rfl, hextension, ?_, ?_⟩
    · rwa [number_padStart]
    · rwa [number_padStart]

end Parts

/-- A sharded model whose shards' names the deletion makes as they are. -/
def Regenerable (name : List Char) : Prop :=
  ∀ shard ∈ SHARD_PATTERN (withoutExt name),
    extension name = ".gguf".toList ∧ 0 < number shard.count

/-- The path of part `i`. -/
def partFile (dir : List String) (name : String) (shard : Shard) (i : ℕ) : List String :=
  dir ++ [String.ofList (partName shard (extension name.toList) i)]

/-- No directory has the name of a part before one that is there. -/
def Unblocked (disk : Disk) (dir : List String) (name : String) : Prop :=
  ∀ shard ∈ SHARD_PATTERN (withoutExt name.toList), ∀ j ≤ number shard.count, ∀ i < j, 1 ≤ i →
    disk.get? (partFile dir name shard i) = some .directory →
      ¬ Present disk (partFile dir name shard j)

theorem belongs_of_not_shard {name other : List Char} (h : SHARD_PATTERN (withoutExt name) = none) :
    Belongs name other ↔ other = name := by
  refine ⟨fun hbelongs => ?_, Or.inl⟩
  rcases hbelongs with hsame | ⟨shard, -, hshard, -⟩
  · exact hsame
  · rw [h] at hshard
    cases hshard

/-- The names made again are those of the model's files. -/
theorem mem_weightNames {name : List Char} (hreported : reported name = true)
    (hregenerable : Regenerable name) (other : String) :
    other ∈ weightNames name ↔ Belongs name other.toList := by
  obtain ⟨hends, hindex⟩ := reported_spec hreported
  cases hshard : SHARD_PATTERN (withoutExt name) with
  | none =>
    rw [belongs_of_not_shard hshard, weightNames_single hshard, List.mem_singleton,
      ← String.toList_inj, String.toList_ofList]
  | some shard =>
    obtain ⟨hext, hpos⟩ := hregenerable shard hshard
    have hown : name = partName shard ".gguf".toList 1 := by
      have hname := eq_partName hshard hends
      rwa [hindex shard hshard, hext] at hname
    rw [weightNames_shard hshard, Belongs, shardOf_iff hshard hends, hext]
    constructor
    · intro hmem
      obtain ⟨index, hlt, rfl⟩ := List.mem_map.mp hmem
      exact .inr ⟨index + 1, by omega, List.mem_range.mp hlt, String.toList_ofList⟩
    · have hpart : ∀ i, 1 ≤ i → i ≤ number shard.count →
          other.toList = partName shard ".gguf".toList i →
          other ∈ (List.range (number shard.count)).map fun index =>
            String.ofList (partName shard ".gguf".toList (index + 1)) := by
        intro i hlow hhigh hother
        refine List.mem_map.mpr ⟨i - 1, List.mem_range.mpr (by omega), ?_⟩
        rw [Nat.sub_add_cancel hlow, ← hother, String.ofList_toList]
      rintro (hsame | ⟨i, hlow, hhigh, hother⟩)
      · exact hpart 1 le_rfl hpos (hsame.trans hown)
      · exact hpart i hlow hhigh hother

/-- Otherwise not even the registered file's name is among them. -/
theorem own_not_mem_weightNames {name : List Char} (hreported : reported name = true)
    (hregenerable : ¬ Regenerable name) : String.ofList name ∉ weightNames name := by
  obtain ⟨hends, -⟩ := reported_spec hreported
  intro hmem
  refine hregenerable fun shard hshard => ?_
  rw [weightNames_shard hshard] at hmem
  obtain ⟨index, hlt, hname⟩ := List.mem_map.mp hmem
  have hown : partName shard ".gguf".toList (index + 1) = name := String.ofList_injective hname
  have hlt' := List.mem_range.mp hlt
  have hext := (partName_parts hshard ".gguf".toList (by decide) hlt').2
  rw [hown] at hext
  exact ⟨hext, Nat.zero_lt_of_lt hlt'⟩

/-! ## Staying inside -/

/-- The start of a name that looks like a way out of the weights directory. -/
def Dotted (name : String) : Prop := name.toList.take 2 = ['.', '.']

instance (name : String) : Decidable (Dotted name) := inferInstanceAs (Decidable (_ = _))

theorem isOutside_render {name : String} {path : List String}
    (h : ∀ part ∈ name :: path, IsName part) :
    isOutside (render (name :: path)) = decide (Dotted name) := by
  have hname := h name List.mem_cons_self
  obtain ⟨rest, hrest⟩ := render_cons name path
  have hne : name.toList ≠ [] := by simpa using hname.nonempty
  have hdot : name.toList ≠ ['.'] := fun hdot => hname.notSelf (String.ext hdot)
  have hempty : render (name :: path) ≠ "" := by
    intro hempty
    rw [hempty] at hrest
    exact hne (List.append_eq_nil_iff.mp hrest.symm).1
  have hdotted : decide (Dotted name) = decide (name.toList.take 2 = ['.', '.']) := rfl
  rw [isOutside, isAbsolute_render h, Bool.or_false, decide_eq_false hempty, Bool.false_or, hrest,
    hdotted]
  match htext : name.toList with
  | [] => exact absurd htext hne
  | [c] =>
    have hc : c ≠ '.' := by
      rintro rfl
      exact hdot htext
    simp [hc]
  | _ :: _ :: _ => rfl

theorem dotted_shard (base rest : List Char) :
    (base ++ '-' :: rest).take 2 = ['.', '.'] ↔ base.take 2 = ['.', '.'] := by
  match base with
  | [] => simp
  | [_] => simp
  | _ :: _ :: _ => rfl

theorem weightNames_dotted {name made : String} (hends : endsWithGguf name.toList = true)
    (h : made ∈ weightNames name.toList) : Dotted made ↔ Dotted name := by
  cases hshard : SHARD_PATTERN (withoutExt name.toList) with
  | none =>
    rw [weightNames_single hshard, List.mem_singleton, String.ofList_toList] at h
    rw [h]
  | some shard =>
    rw [weightNames_shard hshard] at h
    obtain ⟨index, -, rfl⟩ := List.mem_map.mp h
    rw [Dotted, Dotted, String.toList_ofList, eq_partName hshard hends]
    simp only [partName, List.append_assoc, List.cons_append, dotted_shard]

theorem weightNames_isName {name made : String} (hends : endsWithGguf name.toList = true)
    (hname : IsName name) (h : made ∈ weightNames name.toList) : IsName made := by
  cases hshard : SHARD_PATTERN (withoutExt name.toList) with
  | none =>
    rw [weightNames_single hshard, List.mem_singleton, String.ofList_toList] at h
    rwa [h]
  | some shard =>
    rw [weightNames_shard hshard] at h
    obtain ⟨index, -, rfl⟩ := List.mem_map.mp h
    obtain ⟨-, -, hlength, -, hdigits⟩ := SHARD_PATTERN_eq_some.mp hshard
    have hlong : 2 < (partName shard ".gguf".toList (index + 1)).length := by
      simp only [partName, List.length_append, List.length_cons, hlength]
      omega
    have hshort : ∀ text : String, text.toList.length ≤ 2 →
        String.ofList (partName shard ".gguf".toList (index + 1)) ≠ text := by
      rintro text htext rfl
      rw [String.toList_ofList] at htext
      omega
    refine ⟨hshort "" (by decide), hshort "." (by decide), hshort ".." (by decide), ?_⟩
    have hbase : '/' ∉ shard.base := by
      intro hmem
      refine hname.noSlash ?_
      rw [eq_partName hshard hends]
      simp [partName, hmem]
    have hdigit : ∀ digits : List Char, (∀ c ∈ digits, c.isDigit = true) → '/' ∉ digits :=
      fun digits hall hmem => absurd (hall _ hmem) (by decide)
    have hindex := hdigit (padStart (index + 1)) fun _ => isDigit_padStart
    have hcount := hdigit shard.count hdigits
    rw [String.toList_ofList]
    simp [partName, hbase, hindex, hcount]

/-! ## The loop -/

/-- The names up to the first one that a directory has. -/
def reach (disk : Disk) (dir names : List String) : List String :=
  names.takeWhile fun name => disk.get? (dir ++ [name]) ≠ some .directory

theorem reach_unlink {disk : Disk} {file : List String} (h : disk.get? file ≠ some .directory)
    (dir names : List String) : reach (disk.unlink file) dir names = reach disk dir names := by
  unfold reach
  congr 1
  funext name
  rw [Disk.get?_unlink]
  by_cases hfile : dir ++ [name] = file
  · rw [if_pos hfile, hfile]
    simp [h]
  · rw [if_neg hfile]

/-- What the loop leaves. -/
theorem get?_unlinkEach {unlinkError : List String → String} {root dir names : List String}
    (hnames : ∀ name ∈ names, IsName name ∧ isOutside (relative root (dir ++ [name])) = false)
    (disk : Disk) (deleted : List String) (file : List String) :
    (unlinkEach unlinkError root dir names disk deleted).1.get? file =
      if Present disk file ∧ ∃ name ∈ reach disk dir names, file = dir ++ [name] then none
      else disk.get? file := by
  induction names generalizing disk deleted with
  | nil => simp [unlinkEach, reach]
  | cons name names ih =>
    obtain ⟨⟨hname, hinside⟩, hrest⟩ := List.forall_mem_cons.mp hnames
    rw [unlinkEach, join_name hname, if_neg (by simp [hinside])]
    cases hnode : disk.get? (dir ++ [name]) with
    | none =>
      have hreach : reach disk dir (name :: names) = name :: reach disk dir names := by
        rw [reach, List.takeWhile_cons_of_pos (by simp [hnode]), reach]
      rw [ih hrest, hreach]
      refine if_congr (and_congr_right fun hpresent => ?_) rfl rfl
      have hne : file ≠ dir ++ [name] := by
        rintro rfl
        exact hpresent.1 hnode
      simp [hne]
    | some node =>
      have hstop : reach disk dir (name :: names) =
          if node = .directory then [] else name :: reach disk dir names := by
        by_cases hdirectory : node = .directory <;>
          simp [reach, hnode, hdirectory]
      have hgo : node ≠ .directory →
          (unlinkEach unlinkError root dir names (disk.unlink (dir ++ [name]))
            (deleted ++ [relative root (dir ++ [name])])).1.get? file =
          if Present disk file ∧ ∃ name' ∈ reach disk dir (name :: names), file = dir ++ [name'] then
            none else disk.get? file := by
        intro hdirectory
        have hkept : disk.get? (dir ++ [name]) ≠ some .directory := by simp [hnode, hdirectory]
        rw [ih hrest, reach_unlink hkept, hstop, if_neg hdirectory]
        by_cases hfile : file = dir ++ [name]
        · subst hfile
          simp [Present, Disk.get?_unlink, hnode, hdirectory]
        · simp [Present, Disk.get?_unlink, hfile]
      cases node with
      | directory => simp [hstop]
      | file sizeBytes => exact hgo (by simp)
      | other => exact hgo (by simp)

/-! ## What the scan reports -/

theorem get?_of_mem_readdir {tree : Tree} {dir : List String} {name : String} {node : Node}
    (h : (name, node) ∈ readdir tree dir) : tree.get? (dir ++ [name]) = some node := by
  obtain ⟨⟨path, node'⟩, hentry, hsome⟩ := List.mem_filterMap.mp h
  dsimp only at hsome
  split at hsome
  · rename_i last hlast
    split at hsome
    · rename_i hdir
      obtain ⟨rfl, rfl⟩ := Prod.mk.inj (Option.some.inj hsome)
      have hpath : dir ++ [last] = path := hdir ▸ List.dropLast_append_getLast? last hlast
      rw [hpath]
      exact KeyedMap.get?_of_mem hentry
    · cases hsome
  · cases hsome

theorem walk_found {tree : Tree} {levels : ℕ} {dir : List String} {d : DiscoveredWeight}
    (h : d ∈ walk tree levels dir) :
    ∃ path name sizeBytes, d = describe (render (dir ++ (path ++ [name]))) sizeBytes ∧
      tree.get? (dir ++ (path ++ [name])) = some (.file sizeBytes) ∧
      reported name.toList = true ∧ ∀ part ∈ path, skipped part = false := by
  induction levels generalizing dir with
  | zero => cases h
  | succ levels ih =>
    obtain ⟨⟨name, node⟩, hentry, hfound⟩ := List.mem_flatMap.mp h
    have hget := get?_of_mem_readdir hentry
    cases node with
    | directory =>
      dsimp only at hfound
      split at hfound
      · cases hfound
      · rename_i hskipped
        obtain ⟨path, last, sizeBytes, hd, hfile, hreported, hpath⟩ := ih hfound
        rw [List.append_assoc, List.singleton_append, ← List.cons_append] at hd hfile
        refine ⟨name :: path, last, sizeBytes, hd, hfile, hreported, ?_⟩
        exact List.forall_mem_cons.mpr ⟨by simpa using hskipped, hpath⟩
    | file sizeBytes =>
      dsimp only at hfound
      split at hfound
      · rename_i hreported
        exact ⟨[], name, sizeBytes, List.mem_singleton.mp hfound, hget, hreported, by simp⟩
      · cases hfound
    | other => cases hfound

/-- A file of the weights directory as the scan finds it. -/
structure Found (disk : Disk) (root path : List String) (name : String) : Prop where
  names : ∀ part ∈ path ++ [name], IsName part
  file : ∃ sizeBytes, disk.get? (root ++ path ++ [name]) = some (.file sizeBytes)
  reported : reported name.toList = true
  visible : ∀ part ∈ path, skipped part = false

theorem found_of_scan {c : CanonicalJson.Collation} {disk : Disk} {root : List String}
    {weightsPath : String}
    (h : weightsPath ∈ (scanWeights c (disk.under root)).map DiscoveredWeight.relativePath) :
    ∃ path name, weightsPath = render (path ++ [name]) ∧ Found disk root path name := by
  obtain ⟨d, hd, rfl⟩ := List.mem_map.mp h
  obtain ⟨path, name, sizeBytes, rfl, hfile, hreported, hpath⟩ :=
    walk_found ((List.mem_insertionSort _).mp hd)
  have hdisk := Disk.get?_under hfile
  have hnames := disk.isName hdisk
  refine ⟨path, name, describe_relativePath _ _, ?_, ⟨sizeBytes, ?_⟩, hreported, hpath⟩
  · exact fun part hpart => hnames part (List.mem_append_right _ hpart)
  · rwa [List.append_assoc]

/-! ## What the deletion takes -/

theorem all_in_takeWhile_iff {α : Type} {q : α → Bool} {p : α → Prop} (hpq : ∀ a, p a → q a = true)
    {l : List α} (hl : l.Nodup) :
    (∀ a ∈ l, p a → a ∈ l.takeWhile q) ↔ l.Pairwise fun a b => q a = false → ¬ p b := by
  induction l with
  | nil => simp
  | cons a l ih =>
    obtain ⟨ha, hl⟩ := List.nodup_cons.mp hl
    rw [List.pairwise_cons, ← ih hl]
    cases hq : q a with
    | true =>
      rw [List.takeWhile_cons_of_pos hq]
      have hne : ∀ b ∈ l, b ≠ a := fun b hb hba => ha (hba ▸ hb)
      simp only [Bool.true_eq_false, false_implies, implies_true, true_and]
      rw [List.forall_mem_cons]
      simp only [List.mem_cons, true_or, implies_true, true_and]
      exact forall₂_congr fun b hb => by rw [or_iff_right (hne b hb)]
    | false =>
      have hpa : ¬ p a := fun hp => by simp [hpq a hp] at hq
      rw [List.takeWhile_cons_of_neg (by simp [hq])]
      simp only [List.forall_mem_cons, List.not_mem_nil, hpa, forall_const]
      constructor
      · rintro ⟨-, hall⟩
        exact ⟨hall, fun b hb hp => absurd hp (hall b hb)⟩
      · rintro ⟨hall, -⟩
        exact ⟨fun h => h.elim, hall⟩

theorem weightNames_nodup (name : List Char) : (weightNames name).Nodup := by
  cases hshard : SHARD_PATTERN (withoutExt name) with
  | none =>
    rw [weightNames_single hshard]
    exact List.nodup_singleton _
  | some shard =>
    rw [weightNames_shard hshard]
    refine List.nodup_range.map_on fun i hi j hj h => ?_
    have hsame := String.ofList_injective h
    have hi' := (partName_parts hshard ".gguf".toList (by decide) (List.mem_range.mp hi)).1
    have hj' := (partName_parts hshard ".gguf".toList (by decide) (List.mem_range.mp hj)).1
    rw [hsame, hj', Option.some.injEq, Shard.mk.injEq] at hi'
    have hnumber := congrArg number hi'.2.1
    rw [number_padStart, number_padStart] at hnumber
    omega

/-- The loop gets to every file that is there. -/
theorem unblocked_iff {disk : Disk} {dir : List String} {name : String}
    (hregenerable : Regenerable name.toList) :
    Unblocked disk dir name ↔ ∀ made ∈ weightNames name.toList, Present disk (dir ++ [made]) →
      made ∈ reach disk dir (weightNames name.toList) := by
  have hpairs := all_in_takeWhile_iff (q := fun made => disk.get? (dir ++ [made]) ≠ some .directory)
    (p := fun made => Present disk (dir ++ [made])) (fun made hmade => decide_eq_true hmade.2)
    (weightNames_nodup name.toList)
  refine Iff.trans ?_ hpairs.symm
  cases hshard : SHARD_PATTERN (withoutExt name.toList) with
  | none =>
    rw [weightNames_single hshard]
    simp [Unblocked, hshard]
  | some shard =>
    have hext := (hregenerable shard hshard).1
    rw [weightNames_shard hshard, List.pairwise_map, List.pairwise_iff_getElem]
    simp only [List.length_range, List.getElem_range, decide_eq_false_iff_not, not_not, Unblocked,
      hshard, Option.mem_def, Option.some.injEq, forall_eq', partFile, hext]
    constructor
    · intro h i j hi hj hij
      exact h (j + 1) hj (i + 1) (by omega) (by omega)
    · intro h j hj i hij hi
      have hpair := h (i - 1) (j - 1) (by omega) (by omega) (by omega)
      rwa [Nat.sub_add_cancel hi, Nat.sub_add_cancel (by omega : 1 ≤ j)] at hpair

/-- A file tells the model that it belongs to. -/
theorem belongs_unique {name other file : List Char} (hname : reported name = true)
    (hother : reported other = true) (h : Belongs name file) (h' : Belongs other file) :
    name = other := by
  have hfirst : ∀ {name : List Char}, reported name = true → Belongs name file →
      name = match SHARD_PATTERN (withoutExt file) with
        | some part => partName part (extension file) 1
        | none => file := by
    intro name hreported hbelongs
    obtain ⟨hends, hindex⟩ := reported_spec hreported
    rcases hbelongs with rfl | ⟨shard, part, hshard, hpart, hbase, hcount, hextension, -⟩
    · cases hshard : SHARD_PATTERN (withoutExt file) with
      | none => rfl
      | some shard =>
        have hown := eq_partName hshard hends
        rwa [hindex shard hshard] at hown
    · have hown := eq_partName hshard hends
      rw [hindex shard hshard] at hown
      rw [hpart, hown]
      simp only [partName, hbase, hcount, hextension]
  exact (hfirst hname h).trans (hfirst hother h').symm

/-- A file of the root itself whose name looks like a way out. -/
def Outward (path : List String) (name : String) : Prop := path = [] ∧ Dotted name

instance (path : List String) (name : String) : Decidable (Outward path name) :=
  inferInstanceAs (Decidable (_ ∧ _))

theorem owns_iff (root : List String) {path : List String} {name : String}
    (hnames : ∀ part ∈ path ++ [name], IsName part) {file : List String} :
    Owns root (render (path ++ [name])) file ↔
      ∃ other : String, Belongs name.toList other.toList ∧ file = root ++ path ++ [other] := by
  constructor
  · rintro ⟨path', name', other, hnames', hrender, hbelongs, rfl⟩
    have hsame := render_injective hnames' hnames (by simp) (by simp) hrender
    obtain ⟨rfl, hlast⟩ := List.append_inj' hsame rfl
    obtain rfl := List.singleton_injective hlast
    exact ⟨other, hbelongs, rfl⟩
  · rintro ⟨other, hbelongs, rfl⟩
    exact ⟨path, name, other, hnames, rfl, hbelongs, rfl⟩

section Found

variable {disk : Disk} {root path : List String} {name : String} (h : Found disk root path name)

include h

theorem isOutside_at {last : String} (hlast : IsName last) :
    isOutside (relative root (root ++ path ++ [last])) = decide (Outward path last) := by
  have hnames : ∀ part ∈ path ++ [last], IsName part := by
    intro part hpart
    rcases List.mem_append.mp hpart with hpath | hend
    · exact h.names part (List.mem_append_left _ hpath)
    · rwa [List.mem_singleton.mp hend]
  rw [List.append_assoc, relative_append]
  cases path with
  | nil =>
    rw [List.nil_append, isOutside_render hnames]
    exact decide_eq_decide.mpr (by simp [Outward])
  | cons part path =>
    rw [List.cons_append] at hnames ⊢
    rw [isOutside_render hnames]
    refine decide_eq_decide.mpr ⟨fun hdotted => ?_, fun houtward => by cases houtward.1⟩
    have hvisible := (Bool.or_eq_false_iff.mp (h.visible part List.mem_cons_self)).2
    unfold Dotted at hdotted
    cases htext : part.toList with
    | nil => simp [htext] at hdotted
    | cons c cs =>
      rw [htext, List.take_succ_cons, List.cons.injEq] at hdotted
      simp [htext, hdotted.1] at hvisible

theorem isOutside_made {made : String} (hmade : made ∈ weightNames name.toList) :
    isOutside (relative root (root ++ path ++ [made])) = decide (Outward path name) := by
  obtain ⟨hends, -⟩ := reported_spec h.reported
  rw [isOutside_at h (weightNames_isName hends (h.names name (by simp)) hmade)]
  exact decide_eq_decide.mpr (and_congr_right fun _ => weightNames_dotted hends hmade)

/-- What is left of the files. -/
theorem get?_deleteRegisteredWeights (unlinkError : List String → String) (file : List String) :
    (deleteRegisteredWeights unlinkError root (render (path ++ [name])) disk).1.get? file =
      if ¬ Outward path name ∧ Present disk file ∧
          ∃ made ∈ reach disk (root ++ path) (weightNames name.toList), file = root ++ path ++ [made]
      then none else disk.get? file := by
  have htarget : resolve root (render (path ++ [name])) = root ++ path ++ [name] := by
    rw [resolve_render (by simp) h.names, List.append_assoc]
  have hname : IsName name := h.names name (by simp)
  rw [deleteRegisteredWeights, resolveInsideWeightsDir, htarget, isOutside_at h hname]
  by_cases houtward : Outward path name
  · simp [houtward]
  · obtain ⟨hends, -⟩ := reported_spec h.reported
    simp only [houtward, decide_false, Bool.false_eq_true, if_false, not_false_eq_true, true_and,
      List.dropLast_concat, List.getLastD_concat]
    refine get?_unlinkEach (fun made hmade => ⟨weightNames_isName hends hname hmade, ?_⟩) disk [] file
    rw [isOutside_made h hmade, decide_eq_false houtward]

theorem removed_own_iff (unlinkError : List String → String) :
    (∀ file, Removed disk
        (deleteRegisteredWeights unlinkError root (render (path ++ [name])) disk).1 file ↔
          Present disk file ∧ Owns root (render (path ++ [name])) file) ↔
      ¬ Outward path name ∧ Regenerable name.toList ∧ Unblocked disk (root ++ path) name := by
  have hremoved : ∀ file, Removed disk
      (deleteRegisteredWeights unlinkError root (render (path ++ [name])) disk).1 file ↔
        ¬ Outward path name ∧ Present disk file ∧
          ∃ made ∈ reach disk (root ++ path) (weightNames name.toList),
            file = root ++ path ++ [made] := by
    intro file
    rw [Removed, get?_deleteRegisteredWeights h]
    split
    · rename_i htaken
      exact ⟨fun _ => htaken, fun _ => ⟨htaken.2.1.1, rfl⟩⟩
    · rename_i hkept
      exact ⟨fun hgone => absurd hgone.2 hgone.1, fun htaken => absurd htaken hkept⟩
  have hown : Present disk (root ++ path ++ [name]) ∧
      Owns root (render (path ++ [name])) (root ++ path ++ [name]) := by
    obtain ⟨sizeBytes, hfile⟩ := h.file
    have hpresent : Present disk (root ++ path ++ [name]) := by
      unfold Present
      rw [hfile]
      simp
    exact ⟨hpresent, (owns_iff root h.names).mpr ⟨name, .inl rfl, rfl⟩⟩
  constructor
  · intro hexact
    obtain ⟨houtward, -, made, hmade, hsame⟩ := (hremoved _).mp ((hexact _).mpr hown)
    have hregenerable : Regenerable name.toList := by
      by_contra hnot
      have hnotMade := own_not_mem_weightNames h.reported hnot
      rw [String.ofList_toList] at hnotMade
      obtain rfl : name = made := by simpa using hsame
      exact hnotMade ((List.takeWhile_sublist _).mem hmade)
    refine ⟨houtward, hregenerable, (unblocked_iff hregenerable).mpr fun made hmade hpresent => ?_⟩
    have howns := (owns_iff root h.names).mpr
      ⟨made, (mem_weightNames h.reported hregenerable made).mp hmade, rfl⟩
    obtain ⟨-, -, made', hmade', hsame⟩ := (hremoved _).mp ((hexact _).mpr ⟨hpresent, howns⟩)
    obtain rfl : made = made' := by simpa using hsame
    exact hmade'
  · rintro ⟨houtward, hregenerable, hunblocked⟩ file
    rw [hremoved, owns_iff root h.names]
    have hreach := (unblocked_iff hregenerable).mp hunblocked
    constructor
    · rintro ⟨-, hpresent, made, hmade, rfl⟩
      have hmem := (List.takeWhile_sublist _).mem hmade
      exact ⟨hpresent, made, (mem_weightNames h.reported hregenerable made).mp hmem, rfl⟩
    · rintro ⟨hpresent, other, hbelongs, rfl⟩
      have hmem := (mem_weightNames h.reported hregenerable other).mpr hbelongs
      exact ⟨houtward, hpresent, other, hreach other hmem hpresent, rfl⟩

/-- A file belongs to one model. -/
theorem owns_unique {path' : List String} {name' : String} (h' : Found disk root path' name')
    {file : List String} (howns : Owns root (render (path ++ [name])) file)
    (howns' : Owns root (render (path' ++ [name'])) file) :
    render (path ++ [name]) = render (path' ++ [name']) := by
  obtain ⟨other, hbelongs, rfl⟩ := (owns_iff root h.names).mp howns
  obtain ⟨other', hbelongs', hsame⟩ := (owns_iff root h'.names).mp howns'
  obtain ⟨hpaths, hlast⟩ := List.append_inj' hsame rfl
  obtain rfl := List.append_cancel_left hpaths
  obtain rfl := List.singleton_injective hlast
  have hnames := belongs_unique h.reported h'.reported hbelongs hbelongs'
  rw [String.toList_injective hnames]

/-- What is not removed is as it was. -/
theorem get?_of_not_removed {unlinkError : List String → String} {file : List String}
    (hkept : ¬ Removed disk
      (deleteRegisteredWeights unlinkError root (render (path ++ [name])) disk).1 file) :
    (deleteRegisteredWeights unlinkError root (render (path ++ [name])) disk).1.get? file =
      disk.get? file := by
  by_contra hchanged
  refine hkept ⟨fun hnone => hchanged ?_, ?_⟩
  · rw [get?_deleteRegisteredWeights h]
    split
    · exact hnone.symm
    · rfl
  · rw [get?_deleteRegisteredWeights h] at hchanged ⊢
    split
    · rfl
    · rename_i hnot
      exact absurd (if_neg hnot) hchanged

end Found

/-- When a deletion goes as it should: the name does not look like a way out of the
weights directory, a shard's name has the extension in lower case and a count of at
least one, and no directory has a shard's name before a shard that is there. -/
def Deletable (disk : Disk) (root : List String) (weightsPath : String) : Prop :=
  let path := (segments weightsPath).dropLast
  let name := (segments weightsPath).getLastD ""
  ¬ Outward path name ∧ Regenerable name.toList ∧ Unblocked disk (root ++ path) name

instance (disk : Disk) (root : List String) (weightsPath : String) :
    Decidable (Deletable disk root weightsPath) := by
  unfold Deletable Regenerable Unblocked
  infer_instance

theorem others_eq_zero {models : KeyedMap String Row} {modelId weightsPath : String} :
    others models modelId weightsPath = 0 ↔
      ∀ row ∈ (models.delete modelId).values, row.weightsPath ≠ weightsPath := by
  rw [others, List.length_eq_zero_iff, List.filter_eq_nil_iff]
  simp

/-- For every file system, every weights directory on it and every registry whose
local rows name files that its scan reports: deleting a model whose file no other
row names takes exactly the model's own files if and only if it is `Deletable`. -/
theorem deletes_own_iff (unlinkError : List String → String) (root : List String)
    (c : CanonicalJson.Collation) (store : Store) (modelId : String) (hosted : Row)
    (hhosted : store.hostedModels.get? modelId = some hosted)
    (hlocal : hosted.providerKind = .localGguf)
    (hregistry : ∀ row ∈ store.hostedModels.values, row.providerKind = .localGguf →
      row.weightsPath ∈ (scanWeights c (store.disk.under root)).map DiscoveredWeight.relativePath)
    (hothers : ∀ row ∈ (store.hostedModels.delete modelId).values,
      row.weightsPath ≠ hosted.weightsPath) :
    DeletesOwn root hosted.weightsPath (store.hostedModels.delete modelId).values store.disk
        (deleteModel unlinkError root (.ok ()) modelId store).1.disk ↔
      Deletable store.disk root hosted.weightsPath := by
  have hdisk : (deleteModel unlinkError root (.ok ()) modelId store).1.disk =
      (deleteRegisteredWeights unlinkError root hosted.weightsPath store.disk).1 := by
    simp only [deleteModel, hhosted, if_pos (others_eq_zero.mpr hothers)]
    split <;> simp only [*]
  obtain ⟨path, name, hpath, hfound⟩ :=
    found_of_scan (hregistry hosted (KeyedMap.mem_values.mpr ⟨modelId, hhosted⟩) hlocal)
  have hdeletable : Deletable store.disk root hosted.weightsPath ↔
      ¬ Outward path name ∧ Regenerable name.toList ∧ Unblocked store.disk (root ++ path) name := by
    unfold Deletable
    rw [hpath, segments_render (by simp) hfound.names, List.dropLast_concat, List.getLastD_concat]
  rw [hdeletable, ← removed_own_iff hfound unlinkError, hdisk, hpath]
  refine ⟨DeletesOwn.own, fun hown => ⟨hown, ?_, ?_, fun _ => get?_of_not_removed hfound⟩⟩
  · intro file hremoved
    obtain ⟨other, -, rfl⟩ := (owns_iff root hfound.names).mp ((hown file).mp hremoved).2
    exact ⟨⟨path ++ [other], by simp⟩, by simp⟩
  · intro row hrow hrowLocal file hremoved howns
    have hmem : row ∈ store.hostedModels.values := by
      obtain ⟨id, hid⟩ := KeyedMap.mem_values.mp hrow
      rw [KeyedMap.get?_delete] at hid
      split at hid
      · cases hid
      · exact KeyedMap.mem_values.mpr ⟨id, hid⟩
    obtain ⟨path', name', hpath', hfound'⟩ := found_of_scan (hregistry row hmem hrowLocal)
    refine hothers row hrow ?_
    rw [hpath'] at howns ⊢
    exact (owns_unique hfound hfound' ((hown file).mp hremoved).2 howns).symm.trans hpath.symm

def sampleTree (names : List String) : KeyedMap (List String) Node :=
  names.foldl (fun tree name => tree.set ["models", name] (.file 1))
    ((KeyedMap.empty : KeyedMap (List String) Node).set ["models"] .directory)

def sampleRows (weightsPath : String) : KeyedMap String Row :=
  (KeyedMap.empty.set "m" ⟨⟨"m", weightsPath, "unknown"⟩, .localGguf⟩).set "n"
    ⟨⟨"n", "n.gguf", "unknown"⟩, .localGguf⟩

def eisdir (file : List String) : String :=
  "EISDIR: illegal operation on a directory, unlink '/" ++ render file ++ "'"

/-- A model in two parts, and another one. -/
def twoParts : Store where
  hostedModels := sampleRows "m-00001-of-00002.gguf"
  plans := [⟨"p", ["m", "n"]⟩]
  entitlements := []
  disk := ⟨sampleTree ["m-00001-of-00002.gguf", "m-00002-of-00002.gguf", "n.gguf"], by decide +kernel⟩

theorem two_parts_deleted :
    DeletesOwn ["models"] "m-00001-of-00002.gguf" (twoParts.hostedModels.delete "m").values
      twoParts.disk (deleteModel eisdir ["models"] (.ok ()) "m" twoParts).1.disk :=
  (deletes_own_iff eisdir ["models"] BundleRegistration.sampleCollation twoParts "m"
    ⟨⟨"m", "m-00001-of-00002.gguf", "unknown"⟩, .localGguf⟩ (by decide +kernel) rfl
    (by decide +kernel) (by decide +kernel)).mpr (by decide +kernel)

/-- The same with the extension in upper case. -/
def upperCase : Store where
  hostedModels := sampleRows "m-00001-of-00002.GGUF"
  plans := []
  entitlements := []
  disk := ⟨sampleTree ["m-00001-of-00002.GGUF", "m-00002-of-00002.GGUF", "n.gguf"], by decide +kernel⟩

theorem upper_case_parts_left :
    (∀ row ∈ upperCase.hostedModels.values, row.weightsPath ∈
      (scanWeights BundleRegistration.sampleCollation (upperCase.disk.under ["models"])).map
        DiscoveredWeight.relativePath) ∧
    (∀ row ∈ (upperCase.hostedModels.delete "m").values,
      row.weightsPath ≠ "m-00001-of-00002.GGUF") ∧
    ¬ DeletesOwn ["models"] "m-00001-of-00002.GGUF" (upperCase.hostedModels.delete "m").values
      upperCase.disk (deleteModel eisdir ["models"] (.ok ()) "m" upperCase).1.disk := by
  refine ⟨by decide +kernel, by decide +kernel, fun h => ?_⟩
  have howns : Owns ["models"] "m-00001-of-00002.GGUF" ["models", "m-00001-of-00002.GGUF"] :=
    ⟨[], "m-00001-of-00002.GGUF", "m-00001-of-00002.GGUF", by decide +kernel, by decide +kernel,
      .inl rfl, rfl⟩
  have hgone := ((h.own _).mpr ⟨by decide +kernel, howns⟩).2
  exact absurd hgone (by decide +kernel)

end ModelForge.WeightDeletion
