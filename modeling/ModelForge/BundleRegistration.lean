import ModelForge.DownloadFiles
import ModelForge.WeightFiles

set_option autoImplicit false

/-!
# Registering a sharded model

`completeDownload` registers the bundle of a completed download where no other
download of the bundle is active. The registry's entry names the first shard, so
an entry for it should mean that every shard has been downloaded.
-/
namespace ModelForge.BundleRegistration

open DownloadQueue hiding Event step
open DownloadSteps DownloadFiles WeightFiles RunInvariant

/-- `huggingface/<owner>/<repo>/<path>` under the weights directory. -/
def relativePathOf (repoId filePath : String) : String :=
  "huggingface/" ++ repoId ++ "/" ++ filePath

/-- The columns of the registry's row that a registration writes. -/
structure HostedModel where
  displayName : String
  weightsPath : String
  quantization : String
  deriving DecidableEq

/-- `completeDownload` from the scan on: the row is made, or brought up to date. -/
def register (c : CanonicalJson.Collation) (weights : Tree) (state : DownloadState)
    (registry : KeyedMap String HostedModel) : KeyedMap String HostedModel :=
  let path := relativePathOf state.repoId state.filePath
  match (scanWeights c weights).find? fun file =>
    file.relativePath = path ∨ bundleIdentity file.relativePath = bundleIdentity path with
  | none => registry
  | some discovered =>
    registry.set discovered.suggestedModelId
      ⟨discovered.suggestedDisplayName, discovered.relativePath, discovered.quantization⟩

/-- The gateway with the registry, and beside it the files, by relative path,
whose downloads have completed so far. -/
structure Host where
  gateway : Gateway
  registry : KeyedMap String HostedModel
  completed : List String

/-- `weights` is the weights directory as a scan finds it at this step. -/
structure Event where
  event : DownloadFiles.Event
  weights : Tree

/-- The download whose registration is awaited, when it goes on. -/
def registering (w : Gateway) : DownloadFiles.Event → Option DownloadState
  | .progress k .ok =>
    (points w.queue)[k]?.bind fun p =>
      if p.awaiting = .registration then w.queue.states.get? p.id else none
  | _ => none

/-- The download for which `completeDownload` is called from one state to the next. -/
def completing (w w' : Gateway) : DownloadFiles.Event → Option DownloadState
  | .progress k _ =>
    match (points w.queue)[k]?, (points w'.queue)[k]? with
    | some p, some p' =>
      if (p.awaiting = .prepare ∨ p.awaiting = .rename) ∧
          (p'.awaiting = .registration ∨ p'.awaiting = .returning) then w.queue.states.get? p.id
      else none
    | _, _ => none
  | _ => none

variable (cfg : Config) (hub : Hub) (sha256 : Bytes → String) (c : CanonicalJson.Collation)

def step (host : Host) (e : Event) : Option Host :=
  (DownloadFiles.step cfg hub sha256 host.gateway e.event).map fun w' =>
    { gateway := w'
      registry :=
        match registering host.gateway e.event with
        | some state => register c e.weights state host.registry
        | none => host.registry
      completed :=
        match completing host.gateway w' e.event with
        | some state => relativePathOf state.repoId state.filePath :: host.completed
        | none => host.completed }

/-- A model in `count` parts, `<stem>-00001-of-<count>.gguf` and so on. -/
structure Bundle where
  stem : List Char
  extension : List Char
  count : ℕ
  pos : 0 < count
  bounded : count < 10 ^ 5
  gguf : extension.map Char.toLower = ".gguf".toList

namespace Bundle

variable (b : Bundle)

def tag (i : ℕ) : List Char := '-' :: padStart i ++ "-of-".toList ++ padStart b.count

/-- The relative path of part `i`. -/
def path (i : ℕ) : String := String.ofList (b.stem ++ b.tag i ++ b.extension)

def identity : String := String.ofList (b.stem ++ b.extension)

end Bundle

/-- An entry for the bundle means that all its parts have completed. -/
def RegisteredWhole (b : Bundle) (host : Host) : Prop :=
  ∀ modelId row, host.registry.get? modelId = some row → row.weightsPath = b.path 1 →
    ∀ i < b.count, b.path (i + 1) ∈ host.completed

/-- When a download of the bundle completes and no other one is active, each part
of the bundle is its own file or has completed before. -/
def PartsAccounted (b : Bundle) (host : Host) (e : Event) (host' : Host) : Prop :=
  ∀ state ∈ completing host.gateway host'.gateway e.event,
    bundleIdentity (relativePathOf state.repoId state.filePath) = b.identity →
    bundleStillActive host.gateway.queue state = false →
      ∀ i < b.count, b.path (i + 1) = relativePathOf state.repoId state.filePath ∨
        b.path (i + 1) ∈ host.completed

instance (b : Bundle) (host : Host) (e : Event) (host' : Host) :
    Decidable (PartsAccounted b host e host') := by
  unfold PartsAccounted
  infer_instance

/-! ## The identity of the parts -/

theorem length_padStart {n : ℕ} (h : n < 10 ^ 5) : (padStart n).length = 5 := by
  have hdigits : (Nat.toDigits 10 n).length ≤ 5 :=
    (Nat.length_toDigits_le_iff (by decide) (by decide)).mpr h
  rw [padStart, List.leftpad, List.length_append, List.length_replicate]
  omega

theorem isDigit_padStart {n : ℕ} {c : Char} (hc : c ∈ padStart n) : c.isDigit = true := by
  rcases List.mem_append.mp hc with hzero | hdigit
  · rw [(List.mem_replicate.mp hzero).2]
    rfl
  · exact Nat.isDigit_of_mem_toDigits (by decide) (by decide) hdigit

theorem five_of_length {ds : List Char} (h : ds.length = 5) : ∃ a b c d e, ds = [a, b, c, d, e] := by
  match ds, h with
  | [a, b, c, d, e], _ => exact ⟨a, b, c, d, e, rfl⟩

theorem isShardTag_of_digits {ds es : List Char} (hds : ds.length = 5) (hes : es.length = 5)
    (hdigits : ∀ c ∈ ds ++ es, c.isDigit = true) :
    isShardTag ('-' :: ds ++ "-of-".toList ++ es) = true := by
  obtain ⟨a, b, c, d, e, rfl⟩ := five_of_length hds
  obtain ⟨g, h, i, j, k, rfl⟩ := five_of_length hes
  have hall : [a, b, c, d, e, g, h, i, j, k].all Char.isDigit = true :=
    List.all_eq_true.mpr fun c hc => hdigits c hc
  change (_ && _ && _) = true
  rw [hall]
  rfl

theorem bundleIdentity_shard {stem tag extension : List Char} (htag : isShardTag tag = true)
    (hlength : tag.length = 15) (hgguf : extension.map Char.toLower = ".gguf".toList) :
    bundleIdentity (String.ofList (stem ++ tag ++ extension)) = String.ofList (stem ++ extension) := by
  have hext : extension.length = 5 := by
    have h := congrArg List.length hgguf
    rwa [List.length_map] at h
  unfold bundleIdentity
  simp only [String.toList_ofList]
  have htake : (stem ++ tag ++ extension).length - 5 = (stem ++ tag).length := by
    rw [List.length_append, hext, Nat.add_sub_cancel]
  rw [htake, List.take_left, List.drop_left]
  have hstem : (stem ++ tag).length - 15 = stem.length := by
    rw [List.length_append, hlength, Nat.add_sub_cancel]
  rw [hstem, List.take_left, List.drop_left, if_pos ⟨hgguf, htag⟩]

theorem Bundle.identity_path (b : Bundle) {i : ℕ} (hi : i < b.count) :
    bundleIdentity (b.path (i + 1)) = b.identity := by
  have hpart : i + 1 < 10 ^ 5 := Nat.lt_of_le_of_lt hi b.bounded
  have hlength : (b.tag (i + 1)).length = 15 := by
    simp [Bundle.tag, length_padStart hpart, length_padStart b.bounded]
  refine bundleIdentity_shard (isShardTag_of_digits ?_ ?_ ?_) hlength b.gguf
  · exact length_padStart hpart
  · exact length_padStart b.bounded
  · intro c hc
    rcases List.mem_append.mp hc with h | h <;> exact isDigit_padStart h

/-! ## One step -/

def AllCompleted (b : Bundle) (completed : List String) : Prop :=
  ∀ i < b.count, b.path (i + 1) ∈ completed

/-- A task whose registration is awaited for the bundle has found it whole. -/
def Good (b : Bundle) (completed : List String) (_ : ℕ) (p : Point) (r : Record) : Prop :=
  p.awaiting = .registration →
    bundleIdentity (relativePathOf r.repoId r.filePath) = b.identity → AllCompleted b completed

structure Inv (b : Bundle) (host : Host) : Prop where
  keyed : Keyed host.gateway.queue
  tasks : Sound (Good b host.completed) (fun _ _ => True) host.gateway.queue
  registry : RegisteredWhole b host

theorem launches_good {b : Bundle} {completed : List String} :
    Launches (Good b completed) fun _ _ => True :=
  fun _ _ _ _ _ h => by cases h

theorem Good.mono {b : Bundle} {completed completed' : List String} {k : ℕ} {p : Point} {r : Record}
    (hsub : ∀ path ∈ completed, path ∈ completed') (h : Good b completed k p r) :
    Good b completed' k p r :=
  fun hawaiting hidentity i hi => hsub _ (h hawaiting hidentity i hi)

section Step

variable {cfg : Config} {hub : Hub} {sha256 : Bytes → String} {c : CanonicalJson.Collation}
  {b : Bundle} {host host' : Host}

/-- Only the completing download's own job may differ once its status is set. -/
theorem bundleStillActive_markCompleted {s : Downloads} {id : String} {state : DownloadState}
    (hkeyed : Keyed s) (hstate : s.states.get? id = some state)
    (h : bundleStillActive (markCompleted s id) state = false) : bundleStillActive s state = false := by
  have hid : state.id = id := hkeyed id _ (recordOf_of_state hstate)
  refine List.any_eq_false.mpr fun job hjob hactive => ?_
  obtain ⟨id', hid', hget⟩ := List.mem_filterMap.mp hjob
  have hjobId : job.id = id' := hkeyed id' _ (recordOf_of_state hget)
  have hne : id' ≠ id := by
    rintro rfl
    simp [hjobId, hid] at hactive
  have hkept : (markCompleted s id).states.get? id' = some job := by
    rw [markCompleted, Downloads.mutate, KeyedMap.get?_update, if_neg hne]
    exact hget
  have hjob' : job ∈ (markCompleted s id).jobs := List.mem_filterMap.mpr ⟨id', hid', hkept⟩
  exact List.any_eq_false.mp h job hjob' hactive

/-- A registration for the bundle comes of a download with its identity. -/
theorem register_identity {weights : Tree} {state : DownloadState}
    {registry : KeyedMap String HostedModel} {modelId : String} {row : HostedModel}
    (h : (register c weights state registry).get? modelId = some row)
    (hpath : row.weightsPath = b.path 1) :
    registry.get? modelId = some row ∨
      bundleIdentity (relativePathOf state.repoId state.filePath) = b.identity := by
  unfold register at h
  dsimp only at h
  split at h
  · exact .inl h
  · rename_i discovered hfound
    rw [KeyedMap.get?_set] at h
    split at h
    · obtain rfl := Option.some.inj h
      refine .inr ?_
      have hmatch := List.find?_some hfound
      rw [decide_eq_true_eq] at hmatch
      have hidentity : bundleIdentity discovered.relativePath = b.identity := by
        rw [show discovered.relativePath = b.path 1 from hpath]
        exact b.identity_path b.pos
      rcases hmatch with hsame | hsame
      · rw [← hsame]
        exact hidentity
      · exact hsame.symm.trans hidentity
    · exact .inl h

/-- What a step leaves registered is whole, if what it registers is. -/
theorem registry_step {e : Event} (h : Inv b host)
    (hstep : step cfg hub sha256 c host e = some host') : RegisteredWhole b host' := by
  obtain ⟨w', hw, rfl⟩ := Option.map_eq_some_iff.mp hstep
  intro modelId row hrow hpath
  have hall : AllCompleted b host.completed := by
    dsimp only at hrow
    split at hrow
    · rename_i state hregistering
      unfold registering at hregistering
      split at hregistering
      · rename_i k _
        obtain ⟨p, hp, hstate⟩ := Option.bind_eq_some_iff.mp hregistering
        split at hstate
        · rename_i hawaiting
          obtain ⟨r, hr, hgood⟩ := h.tasks.tasks k p hp
          obtain rfl := Option.some.inj ((recordOf_of_state hstate).symm.trans hr)
          rcases register_identity hrow hpath with hold | hidentity
          · exact h.registry modelId row hold hpath
          · exact hgood hawaiting hidentity
        · cases hstate
      · cases hregistering
    · exact h.registry modelId row hrow hpath
  intro i hi
  dsimp only
  split
  · exact List.mem_cons_of_mem _ (hall i hi)
  · exact hall i hi

theorem completed_mono {e : Event} (hstep : step cfg hub sha256 c host e = some host') :
    ∀ path ∈ host.completed, path ∈ host'.completed := by
  obtain ⟨w', hw, rfl⟩ := Option.map_eq_some_iff.mp hstep
  intro path hpath
  dsimp only
  split
  · exact List.mem_cons_of_mem _ hpath
  · exact hpath

theorem completed_of_completing {e : Event} {state : DownloadState}
    (hstep : step cfg hub sha256 c host e = some host')
    (h : completing host.gateway host'.gateway e.event = some state) :
    relativePathOf state.repoId state.filePath ∈ host'.completed := by
  obtain ⟨w', hw, rfl⟩ := Option.map_eq_some_iff.mp hstep
  dsimp only at h ⊢
  rw [h]
  exact List.mem_cons_self

theorem completing_of_points {w w' : Gateway} {k : ℕ} {moment : Moment} {p p' : Point}
    {state : DownloadState} {settled : Settled} (hp : (points w.queue)[k]? = some p)
    (hp' : (points w'.queue)[k]? = some p') (hstate : w.queue.states.get? p.id = some state)
    (hcompletes : Completes p.awaiting settled) (hawaiting : p'.awaiting = .registration) :
    completing w w' (.progress k moment) = some state := by
  have hbefore : p.awaiting = .prepare ∨ p.awaiting = .rename :=
    hcompletes.imp And.left And.left
  simp only [completing, hp, hp', if_pos (And.intro hbefore (Or.inl hawaiting)), hstate]

theorem Inv.progress {k : ℕ} {moment : Moment} {weights : Tree} (h : Inv b host)
    (hparts : PartsAccounted b host ⟨.progress k moment, weights⟩ host')
    (hstep : step cfg hub sha256 c host ⟨.progress k moment, weights⟩ = some host') :
    Inv b host' := by
  have hmono := completed_mono hstep
  have hregistry := registry_step h hstep
  obtain ⟨w', hw, hhost⟩ := Option.map_eq_some_iff.mp hstep
  have hgateway : host'.gateway = w' := congrArg Host.gateway hhost.symm
  obtain ⟨task, state, w₁, settled, htask, hstate, heffect, hsettles, -⟩ := step_progress hw
  have hqueue₁ : w₁.queue = host.gateway.queue := heffect.isLocal.queue
  cases settled with
  | none =>
    obtain rfl : w' = w₁ := hsettles
    have hsame : host'.gateway.queue = host.gateway.queue := hgateway ▸ hqueue₁
    refine ⟨hsame ▸ h.keyed, ?_, hregistry⟩
    rw [hsame]
    exact h.tasks.mono fun _ _ _ _ _ => Good.mono hmono
  | some settled =>
    obtain ⟨queue, hqueue, rfl⟩ := settle_eq_some hsettles
    rw [hqueue₁] at hqueue
    have hsame : host'.gateway.queue = queue := congrArg Gateway.queue hgateway
    refine ⟨hsame ▸ h.keyed.progress hqueue, ?_, hregistry⟩
    rw [hsame]
    refine h.tasks.progress launches_good hqueue (fun _ _ _ _ _ _ => Good.mono hmono) ?_
      fun _ _ _ _ _ _ => trivial
    intro state p p' hp hstate hnext hp' hgood hawaiting hidentity
    obtain ⟨hcompletes, hactive⟩ := hnext.registration hawaiting
    have hcompleting : completing host.gateway host'.gateway (.progress k moment) = some state :=
      completing_of_points hp (hsame ▸ hp') hstate hcompletes hawaiting
    have hinactive := bundleStillActive_markCompleted h.keyed hstate hactive
    intro i hi
    rcases hparts state hcompleting hidentity hinactive i hi with hown | hbefore
    · rw [hown]
      exact completed_of_completing hstep hcompleting
    · exact hmono _ hbefore

theorem Inv.step {e : Event} (h : Inv b host) (hparts : PartsAccounted b host e host')
    (hstep : step cfg hub sha256 c host e = some host') : Inv b host' := by
  obtain ⟨event, weights⟩ := e
  have hregistry := registry_step h hstep
  have hmono := completed_mono hstep
  obtain ⟨w', hw, hhost⟩ := Option.map_eq_some_iff.mp hstep
  have hgateway : host'.gateway = w' := congrArg Host.gateway hhost.symm
  cases step_moves hw with
  | progress k moment => exact h.progress hparts hstep
  | request _ hrequested =>
    have hsame : host'.gateway.queue = _ := congrArg Gateway.queue hgateway
    refine ⟨hsame ▸ h.keyed.request hrequested.request hrequested.step, ?_, hregistry⟩
    rw [hsame]
    refine Sound.mono ?_ fun _ _ _ _ _ => Good.mono hmono
    exact h.tasks.request launches_good hrequested.request hrequested.step fun _ _ _ => trivial
  | persist =>
    have hsame : host'.gateway.queue = host.gateway.queue := by
      rw [hgateway]
    refine ⟨hsame ▸ h.keyed, ?_, hregistry⟩
    rw [hsame]
    exact h.tasks.mono fun _ _ _ _ _ => Good.mono hmono
  | restart readable =>
    obtain ⟨u, hrestored, hleft⟩ := restore_restored cfg
      ((if readable then host.gateway.persisted else []).map Prod.fst)
    have hsame : host'.gateway.queue = _ := congrArg Gateway.queue hgateway
    refine ⟨hsame ▸ hrestored.keyed hleft, ?_, hregistry⟩
    rw [hsame]
    exact Sound.left launches_good hrestored.sound hleft

end Step

def Host.initial (disk : KeyedMap String StoredFile) (registry : KeyedMap String HostedModel) :
    Host := ⟨.initial disk, registry, []⟩

/-- From any registry without an entry for the bundle: in a run, the bundle is
registered only when all its parts have completed, where each download of it
that completes while no other one is active finds the other parts completed. -/
theorem accounted_parts_registered_whole (cfg : Config) (hub : Hub) (sha256 : Bytes → String)
    (c : CanonicalJson.Collation) (b : Bundle) (disk : KeyedMap String StoredFile)
    (registry : KeyedMap String HostedModel)
    (hregistry : ∀ row ∈ registry.values, row.weightsPath ≠ b.path 1) (events : List Event)
    (hruns : EveryStep (step cfg hub sha256 c) (PartsAccounted b) (.initial disk registry) events) :
    EveryStep (step cfg hub sha256 c) (fun _ _ host => RegisteredWhole b host)
      (.initial disk registry) events := by
  refine everyStep_guarded (Inv b) (PartsAccounted b) _ ?_ ?_ hruns
  · intro host e host' h hstep hparts
    have hinv := h.step hparts hstep
    exact ⟨hinv.registry, hinv⟩
  · refine ⟨?_, initial_sound, ?_⟩
    · intro id r hr
      cases hr
    · intro modelId row hrow hpath
      exact absurd hpath (hregistry row (KeyedMap.mem_values.mpr ⟨modelId, hrow⟩))

def sampleConfig : Config :=
  ⟨2, 100, fun repoId filePath => .ok (relativePathOf repoId filePath)⟩

def sampleHub : Hub :=
  ⟨fun _ => [⟨"m-00001-of-00002.gguf", 1, none⟩, ⟨"m-00002-of-00002.gguf", 1, none⟩]⟩

def sampleCollation : CanonicalJson.Collation := ⟨fun s => s.toList.map Char.toNat⟩

def sampleBundle : Bundle where
  stem := "huggingface/org/repo/m".toList
  extension := ".gguf".toList
  count := 2
  pos := by decide
  bounded := by decide
  gguf := by decide

/-- The weights directory with these parts of the sample bundle. -/
def sampleWeights (parts : List String) : Tree :=
  parts.foldl (fun tree name => tree.set ["huggingface", "org", "repo", name] (.file 1))
    ((((KeyedMap.empty : Tree).set ["huggingface"] .directory).set ["huggingface", "org"]
      .directory).set ["huggingface", "org", "repo"] .directory)

/-- Task `k` fetches a part of one byte. -/
def transferred (k : ℕ) (weights : Tree) : List Event :=
  [.hash true, .stats true true, .response 200 0 1 true, .opened, .chunk [1], .bodyEnds,
    .renamed].map fun moment => ⟨.progress k moment, weights⟩

/-- Both parts are started, and fetched one after the other. -/
def bothParts : List Event :=
  let first := sampleWeights ["m-00001-of-00002.gguf"]
  let both := sampleWeights ["m-00001-of-00002.gguf", "m-00002-of-00002.gguf"]
  [⟨.start "org/repo" "m-00001-of-00002.gguf" true "a", .empty⟩,
    ⟨.start "org/repo" "m-00002-of-00002.gguf" true "b", .empty⟩] ++
    transferred 0 first ++ transferred 1 both ++ [⟨.progress 1 .ok, both⟩]

theorem both_parts_registered_whole :
    EveryStep (step sampleConfig sampleHub (fun _ => "") sampleCollation)
      (fun _ _ host => RegisteredWhole sampleBundle host) (.initial .empty .empty) bothParts :=
  accounted_parts_registered_whole _ _ _ _ sampleBundle .empty .empty nofun bothParts
    (by decide +kernel)

example : ((run (step sampleConfig sampleHub (fun _ => "") sampleCollation)
    (.initial .empty .empty) bothParts).map fun host =>
      (host.registry.get? "m").map HostedModel.weightsPath) =
    some (some "huggingface/org/repo/m-00001-of-00002.gguf") := by decide +kernel

/-- Only the first part is ever started. -/
def firstPart : List Event :=
  let first := sampleWeights ["m-00001-of-00002.gguf"]
  ⟨.start "org/repo" "m-00001-of-00002.gguf" true "a", .empty⟩ :: transferred 0 first ++
    [⟨.progress 0 .ok, first⟩]

theorem first_part_registered :
    ¬ EveryStep (step sampleConfig sampleHub (fun _ => "") sampleCollation)
      (fun _ _ host => RegisteredWhole sampleBundle host) (.initial .empty .empty) firstPart := by
  intro h
  have hrun : ((run (step sampleConfig sampleHub (fun _ => "") sampleCollation)
      (.initial .empty .empty) firstPart).map fun host =>
        ((host.registry.get? "m").map HostedModel.weightsPath,
          decide (sampleBundle.path 2 ∈ host.completed))) =
      some (some (sampleBundle.path 1), false) := by decide +kernel
  obtain ⟨host, hhost, hfacts⟩ := Option.map_eq_some_iff.mp hrun
  obtain ⟨hpath, hmissing⟩ := Prod.mk.inj hfacts
  obtain ⟨row, hrow, hrowPath⟩ := Option.map_eq_some_iff.mp hpath
  obtain ⟨_, hwhole⟩ := EveryStep.last
    (show EveryStep _ _ _ (firstPart.dropLast ++ [firstPart.getLast (by decide)]) from h) hhost
  exact of_decide_eq_false hmissing (hwhole "m" row hrow hrowPath 1 (by decide))

end ModelForge.BundleRegistration
