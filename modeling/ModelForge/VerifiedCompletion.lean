import ModelForge.DownloadFiles

set_option autoImplicit false

/-!
# What a completed download has had checked

The routes to the status completed, against the hash in the repository's
listing: the `.part` that a task renames is the one whose digest it compared,
where its look-up of the hash was answered; a file that was at the destination
before is taken as it is.
-/
namespace ModelForge.VerifiedCompletion

open DownloadQueue hiding Event step
open DownloadSteps DownloadFiles RunInvariant

variable (hub : Hub) (sha256 : Bytes → String)

/-- The bytes have the hash that the listing gives for the download's file. -/
def Matches (r : Record) (bytes : Bytes) : Prop :=
  ∀ hash ∈ hub.sha256 r.repoId r.filePath, SameDigest (sha256 bytes) hash

instance (r : Record) (bytes : Bytes) : Decidable (Matches hub sha256 r bytes) :=
  inferInstanceAs (Decidable (∀ hash ∈ hub.sha256 r.repoId r.filePath, SameDigest (sha256 bytes) hash))

/-- A download that has just completed has a file with the listed hash. -/
def Verified (w : Gateway) (e : Event) (w' : Gateway) : Prop :=
  ∀ (k : ℕ) (moment : Moment) (id : String) (r : Record), e = .progress k moment →
    recordOf w'.queue id = some r → Completed w'.queue id → ¬ Completed w.queue id →
    ∃ bytes, (w'.file r.destination).final = some bytes ∧ Matches hub sha256 r bytes

/-- No two tasks of one destination are executing. -/
def EachAlone (w : Gateway) : Prop :=
  ∀ i < w.queue.tasks.length, ∀ j < w.queue.tasks.length,
    (executingAt w i).isSome → executingAt w i = executingAt w j → i = j

instance (w : Gateway) : Decidable (EachAlone w) :=
  inferInstanceAs (Decidable (∀ i < w.queue.tasks.length, ∀ j < w.queue.tasks.length,
    (executingAt w i).isSome → executingAt w i = executingAt w j → i = j))

/-- A moment that may complete the download completes it with a checked file: one
of the expected size that is there already has the listed hash, and a task that
renames was given a hash where one is listed. -/
def CheckedMoment (w : Gateway) (task : Task) (state : DownloadState) : Moment → Prop
  | .stats true _ =>
    task.awaiting = .prepare → ∀ bytes ∈ (w.file state.destination).final,
      w.total state.id = 0 ∨ bytes.length = w.total state.id →
        Matches hub sha256 (DownloadState.record state) bytes
  | .renamed =>
    task.expectedSha256 = none → hub.sha256 state.repoId state.filePath = none
  | _ => True

instance (w : Gateway) (task : Task) (state : DownloadState) (moment : Moment) :
    Decidable (CheckedMoment hub sha256 w task state moment) := by
  unfold CheckedMoment
  split <;> infer_instance

def Checked (w : Gateway) : Event → Prop
  | .progress k moment =>
    EachAlone w ∧ ∀ task ∈ w.queue.tasks[k]?, ∀ state ∈ w.queue.states.get? task.id,
      CheckedMoment hub sha256 w task state moment
  | _ => True

instance (w : Gateway) (e : Event) : Decidable (Checked hub sha256 w e) := by
  unfold Checked
  split <;> infer_instance

/-! ## The hash that a task carries -/

def HashOk (r : Record) (hash : Option String) : Prop := hash = hub.sha256 r.repoId r.filePath

/-- A task has the listed hash or none, and the `.part` that it is about to
rename has the hash that it has. -/
structure Good (w : Gateway) (k : ℕ) (p : Point) (r : Record) : Prop where
  hash : p.expectedSha256 = none ∨ HashOk hub r p.expectedSha256
  known : ∀ hash, p.awaiting = .expectedHash (some hash) → HashOk hub r hash
  verified : p.awaiting = .rename → ∀ hash, p.expectedSha256 = some hash →
    ∃ bytes, (w.file r.destination).part = some bytes ∧ SameDigest (sha256 bytes) hash

def Inv (w : Gateway) : Prop := Sound (Good hub sha256 w) (HashOk hub) w.queue

variable {hub sha256} {cfg : Config} {w w₁ w' : Gateway} {k : ℕ} {task : Task}
  {state : DownloadState} {moment : Moment} {settled : Option Settled}

theorem launches_good : Launches (Good hub sha256 w) (HashOk hub) := by
  intro k id r known hknown
  refine ⟨.inl rfl, fun hash hhash => ?_, nofun⟩
  exact hknown hash (Await.expectedHash.inj hhash)

theorem EachAlone.alone (h : EachAlone w) (destination : String) : Alone destination w := by
  intro i hi j hj hat hat'
  exact h i hi j hj (hat ▸ rfl) (hat.trans hat'.symm)

/-- Of another task, only the `.part` of its own destination matters. -/
theorem Good.other (halone : EachAlone w) (hlocal : Local w k state w₁)
    (hlt : k < w.queue.tasks.length) (hk : executingAt w k = some state.destination)
    {j : ℕ} {q : Point} {r : Record} (hjk : j ≠ k) (hq : (points w.queue)[j]? = some q)
    (hr : recordOf w.queue q.id = some r) (hgood : Good hub sha256 w j q r) :
    Good hub sha256 w₁ j q r := by
  refine ⟨hgood.hash, hgood.known, fun hrename => ?_⟩
  rcases hlocal.other (halone.alone r.destination) hlt (fun hd => hd ▸ hk) hjk hq hr rfl with
    hended | ⟨hfile, -⟩
  · exact absurd (hended.symm.trans hrename) (by simp)
  · rw [hfile]
    exact hgood.verified hrename

/-- A task that waits on has nothing to rename yet. -/
theorem Good.stays {r : Record} (heffect : Effect hub sha256 w k task state moment w₁ none)
    (hgood : Good hub sha256 w k (Task.point task) r) :
    Good hub sha256 w₁ k (Task.point task) r := by
  refine ⟨hgood.hash, hgood.known, fun hrename => ?_⟩
  have hrename : task.awaiting = .rename := hrename
  rcases heffect.of_none rfl with hawaiting | hawaiting <;> rw [hawaiting] at hrename <;> cases hrename

theorem Good.awaits {p : Point} {r : Record} (hgood : Good hub sha256 w k p r) {awaiting : Await}
    (hknown : ∀ hash, awaiting ≠ .expectedHash (some hash)) (hrename : awaiting ≠ .rename) :
    Good hub sha256 w₁ k { p with awaiting := awaiting } r :=
  ⟨hgood.hash, fun hash h => absurd h (hknown hash), fun h => absurd h hrename⟩

theorem Good.given {id : String} {r : Record} {hash : Option String}
    (hhash : hash = none ∨ HashOk hub r hash) : Good hub sha256 w₁ k ⟨id, hash, .prepare⟩ r :=
  ⟨hhash, nofun, nofun⟩

theorem Good.next {settled : Settled} {p' : Point}
    (heffect : Effect hub sha256 w k task state moment w₁ (some settled))
    (hnext : Next w.queue state (Task.point task) settled p')
    (hgood : Good hub sha256 w k (Task.point task) (DownloadState.record state))
    (hmap : ∀ hash, w.queue.expectedHashes.get? task.id = some hash →
      HashOk hub (DownloadState.record state) hash) :
    Good hub sha256 w₁ k p' (DownloadState.record state) := by
  cases hnext with
  | hashKnown hash found hawaiting => exact .given (.inr (hgood.known hash hawaiting))
  | hashFound hash hawaiting =>
    obtain ⟨-, -, hfound⟩ := heffect.of_manifest rfl
    refine .given (.inr (Option.some.inj (hfound.resolve_left ?_)))
    simp
  | hashFailed => exact .given (.inl rfl)
  | registers | returns | digests | body | registered | waits | ends =>
    exact hgood.awaits (by simp) (by simp)
  | renames _ _ hhash =>
    refine ⟨hgood.hash, nofun, fun _ hash hsome => ?_⟩
    cases hhash.symm.trans hsome
  | verified hawaiting =>
    obtain ⟨rfl, bytes, expected, hpart, hexpected, hsame⟩ := heffect.of_digest rfl hawaiting
    refine ⟨hgood.hash, nofun, fun _ hash hsome => ⟨bytes, hpart, ?_⟩⟩
    exact Option.some.inj (hexpected.symm.trans hsome) ▸ hsame
  | retries =>
    refine ⟨hgood.hash, fun hash hhash => ?_, nofun⟩
    exact hmap hash (Await.expectedHash.inj hhash)

/-- The file that a completed download leaves. -/
theorem effect_completes {settled : Settled}
    (heffect : Effect hub sha256 w k task state moment w₁ (some settled))
    (hcompletes : Completes task.awaiting settled)
    (hgood : Good hub sha256 w k (Task.point task) (DownloadState.record state))
    (hchecked : CheckedMoment hub sha256 w task state moment) :
    ∃ bytes, (w₁.file state.destination).final = some bytes ∧
      Matches hub sha256 (DownloadState.record state) bytes := by
  rcases hcompletes with ⟨hprepare, hthere⟩ | ⟨hrename, hok⟩
  · obtain ⟨rfl, ⟨seesPart, rfl⟩, bytes, hbytes, hsize⟩ :=
      heffect.of_alreadyThere (congrArg some hthere)
    exact ⟨bytes, hbytes, hchecked hprepare bytes hbytes hsize⟩
  · obtain ⟨rfl, bytes, hbytes, rfl⟩ := heffect.of_rename (congrArg some hok) hrename
    refine ⟨bytes, by rw [Gateway.file_setFile_self], fun hash hlisted => ?_⟩
    have hlisted : hub.sha256 state.repoId state.filePath = some hash := hlisted
    cases hexpected : task.expectedSha256 with
    | none => cases (hchecked hexpected).symm.trans hlisted
    | some expected =>
      rcases hgood.hash with hnone | hcarried
      · cases hexpected.symm.trans hnone
      · have hsome : some expected = some hash := hexpected.symm.trans (hcarried.trans hlisted)
        obtain rfl := Option.some.inj hsome
        obtain ⟨part, hpart, hsame⟩ := hgood.verified hrename expected hexpected
        obtain rfl := Option.some.inj (hbytes.symm.trans hpart)
        exact hsame

/-! ## Every step -/

theorem Inv.request (h : Inv hub sha256 w) {e : DownloadQueue.Event} {sizes : KeyedMap String ℕ}
    {queue : Downloads} (hrequested : Requested cfg hub w e sizes queue) :
    Inv hub sha256 { w with totalBytes := sizes, queue := queue } := by
  have htasks : Sound (Good hub sha256 w) (HashOk hub) queue := by
    refine Sound.request h launches_good hrequested.request hrequested.step fun r hash hnew => ?_
    obtain ⟨file, hlisted, -, rfl, -⟩ := hrequested.starts r hash hnew
    exact (congrArg (Option.bind · HuggingFaceFile.sha256) hlisted).symm
  exact htasks.mono fun _ _ _ _ _ hgood => ⟨hgood.hash, hgood.known, hgood.verified⟩

/-- A task that waits on. -/
theorem Inv.stays (h : Inv hub sha256 w) (heffect : Effect hub sha256 w k task state moment w₁ none)
    (hp : (points w.queue)[k]? = some (Task.point task))
    (hother : ∀ j q r, j ≠ k → (points w.queue)[j]? = some q → recordOf w.queue q.id = some r →
      Good hub sha256 w j q r → Good hub sha256 w₁ j q r) : Inv hub sha256 w₁ := by
  rw [Inv, heffect.isLocal.queue]
  refine h.mono fun j q r hq hqr hgood => ?_
  by_cases hjk : j = k
  · subst hjk
    obtain rfl := Option.some.inj (hp.symm.trans hq)
    exact hgood.stays heffect
  · exact hother j q r hjk hq hqr hgood

/-- A task whose await is settled. -/
theorem Inv.moves (h : Inv hub sha256 w) {settled : Settled} {queue : Downloads}
    (heffect : Effect hub sha256 w k task state moment w₁ (some settled))
    (hp : (points w.queue)[k]? = some (Task.point task))
    (hstate : w.queue.states.get? task.id = some state)
    (hqueue : DownloadQueue.step cfg w.queue (.progress k settled) = some queue)
    (hother : ∀ j q r, j ≠ k → (points w.queue)[j]? = some q → recordOf w.queue q.id = some r →
      Good hub sha256 w j q r → Good hub sha256 w₁ j q r) :
    Sound (Good hub sha256 w₁) (HashOk hub) queue := by
  refine Sound.progress h launches_good hqueue hother ?_ ?_
  · intro state' p p' hpk hstate' hnext _ hgood
    obtain rfl := Option.some.inj (hp.symm.trans hpk)
    obtain rfl := Option.some.inj (hstate.symm.trans hstate')
    refine hgood.next heffect hnext fun hash hhash => ?_
    obtain ⟨r, hr, hok⟩ := h.hashes task.id hash hhash
    exact Option.some.inj (hr.symm.trans (recordOf_of_state hstate)) ▸ hok
  · rintro state' p hash hpk hstate' rfl
    obtain rfl := Option.some.inj (hp.symm.trans hpk)
    obtain rfl := Option.some.inj (hstate.symm.trans hstate')
    obtain ⟨-, -, hfound⟩ := heffect.of_manifest rfl
    exact Option.some.inj (hfound.resolve_left (by simp))

theorem Inv.progress (h : Inv hub sha256 w) (hchecked : Checked hub sha256 w (.progress k moment))
    (hstep : step cfg hub sha256 w (.progress k moment) = some w') :
    Verified hub sha256 w (.progress k moment) w' ∧ Inv hub sha256 w' := by
  obtain ⟨task, state, w₁, settled, htask, hstate, heffect, hsettles, hrunning⟩ :=
    step_progress hstep
  have hlocal : Local w k state w₁ := heffect.isLocal
  have hp : (points w.queue)[k]? = some (Task.point task) := point_of_task htask
  have hr : recordOf w.queue task.id = some (DownloadState.record state) := recordOf_of_state hstate
  obtain ⟨r, hr', hgood⟩ := h.tasks k _ hp
  obtain rfl : DownloadState.record state = r := Option.some.inj (hr.symm.trans hr')
  have hk : executingAt w k = some state.destination := executingAt_of hp hr hrunning
  have hother : ∀ j q r, j ≠ k → (points w.queue)[j]? = some q → recordOf w.queue q.id = some r →
      Good hub sha256 w j q r → Good hub sha256 w₁ j q r :=
    fun j q r hjk hq hqr => Good.other hchecked.1 hlocal (lt_of_point hp) hk hjk hq hqr
  cases settled with
  | none =>
    obtain rfl : w' = w₁ := hsettles
    have hqueue : w'.queue = w.queue := hlocal.queue
    refine ⟨?_, h.stays heffect hp hother⟩
    intro _ _ id _ _ _ hcompleted hbefore
    exact absurd (hqueue ▸ hcompleted) hbefore
  | some settled =>
    obtain ⟨queue, hqueue, rfl⟩ := settle_eq_some hsettles
    rw [hlocal.queue] at hqueue
    have htasks := h.moves heffect hp hstate hqueue hother
    refine ⟨?_, htasks.mono fun _ _ _ _ _ hgood => ⟨hgood.hash, hgood.known, hgood.verified⟩⟩
    intro _ _ id r _ hid hcompleted hbefore
    obtain ⟨p, hpk, rfl, hcompletes⟩ := progress_completed hqueue hcompleted hbefore
    obtain rfl := Option.some.inj (hp.symm.trans hpk)
    obtain rfl := Option.some.inj (hr.symm.trans ((progress_recordOf hqueue _).symm.trans hid))
    have hmoment := hchecked.2 task htask state hstate
    have hfile := effect_completes heffect hcompletes hgood hmoment
    exact hfile

theorem Inv.step {e : Event} (h : Inv hub sha256 w) (hchecked : Checked hub sha256 w e)
    (hstep : DownloadFiles.step cfg hub sha256 w e = some w') :
    Verified hub sha256 w e w' ∧ Inv hub sha256 w' := by
  cases step_moves hstep with
  | progress k moment _ hstep => exact h.progress hchecked hstep
  | request hother hrequested =>
    refine ⟨?_, h.request hrequested⟩
    intro k moment _ _ he
    exact absurd he (hother k moment)
  | persist =>
    exact ⟨nofun, h.mono fun _ _ _ _ _ hgood => ⟨hgood.hash, hgood.known, hgood.verified⟩⟩
  | restart readable =>
    obtain ⟨u, hrestored, hleft⟩ := restore_restored cfg
      ((if readable then w.persisted else []).map Prod.fst)
    exact ⟨nofun, Sound.left launches_good hrestored.sound hleft⟩

/-- In a run from any disk, every download that completes has a file with the
listed hash, where no file that is already at the destination is taken with
another hash, every task that renames its `.part` was given a hash if one is
listed, and no two tasks of one destination are executing. -/
theorem checked_runs_verify (cfg : Config) (hub : Hub) (sha256 : Bytes → String)
    (disk : KeyedMap String StoredFile) (events : List Event)
    (hruns : EveryStep (DownloadFiles.step cfg hub sha256) (fun w e _ => Checked hub sha256 w e)
      (.initial disk) events) :
    EveryStep (DownloadFiles.step cfg hub sha256) (Verified hub sha256) (.initial disk) events := by
  refine everyStep_guarded (Inv hub sha256) _ _ ?_ initial_sound hruns
  intro w e w' h hstep hchecked
  exact h.step hchecked hstep

def sampleConfig : Config :=
  ⟨2, 100, fun repoId filePath => .ok ("huggingface/" ++ repoId ++ "/" ++ filePath)⟩

def sampleHub : Hub := ⟨fun _ => [⟨"m.gguf", 3, some "AA"⟩]⟩

def sampleDigest (bytes : Bytes) : String := if bytes = [1, 2, 3] then "aa" else "bb"

/-- A fresh transfer whose digest is compared. -/
def freshRun : List Event :=
  .start "org/repo" "m.gguf" true "a" ::
    [.hash true, .stats true true, .response 200 0 3 true, .opened, .chunk [1, 2, 3], .bodyEnds,
      .digest, .renamed].map (Event.progress 0)

theorem fresh_run_verified :
    EveryStep (DownloadFiles.step sampleConfig sampleHub sampleDigest)
      (Verified sampleHub sampleDigest) (.initial .empty) freshRun :=
  checked_runs_verify _ _ _ .empty freshRun (by decide +kernel)

/-- A file of the right size and with other bytes is at the destination. -/
def corruptDisk : KeyedMap String StoredFile :=
  KeyedMap.empty.set "huggingface/org/repo/m.gguf" ⟨some [9, 9, 9], none⟩

def presentRun : List Event :=
  [.start "org/repo" "m.gguf" true "a", .progress 0 (.hash true)]

/-- The download completes with the file as it is. -/
theorem present_file_unverified :
    ¬ EveryStep (DownloadFiles.step sampleConfig sampleHub sampleDigest)
      (Verified sampleHub sampleDigest) (.initial corruptDisk)
      (presentRun ++ [.progress 0 (.stats true true)]) := by
  intro h
  have hrun : ((run (DownloadFiles.step sampleConfig sampleHub sampleDigest) (.initial corruptDisk)
      presentRun).bind fun w => (DownloadFiles.step sampleConfig sampleHub sampleDigest w
        (.progress 0 (.stats true true))).map fun w' =>
          ((decide (Completed w.queue "a"), decide (Completed w'.queue "a")),
            (recordOf w'.queue "a", (w'.file "huggingface/org/repo/m.gguf").final))) =
      some ((false, true),
        (some ⟨"a", "org/repo", "m.gguf", "huggingface/org/repo/m.gguf"⟩, some [9, 9, 9])) := by
    decide +kernel
  obtain ⟨w, hw, hlast⟩ := Option.bind_eq_some_iff.mp hrun
  obtain ⟨w', hstep, hfacts⟩ := Option.map_eq_some_iff.mp hlast
  simp only [Prod.mk.injEq, decide_eq_false_iff_not, decide_eq_true_eq] at hfacts
  obtain ⟨⟨hbefore, hafter⟩, hrecord, hfile⟩ := hfacts
  have hverified := (everyStep_iff_cut _ _ _).mp h presentRun _ [] rfl w w' hw hstep
  obtain ⟨bytes, hbytes, hmatches⟩ := hverified 0 _ "a" _ rfl hrecord hafter hbefore
  obtain rfl : [9, 9, 9] = bytes := Option.some.inj (hfile.symm.trans hbytes)
  exact absurd (hmatches "AA" rfl) (by decide +kernel)

end ModelForge.VerifiedCompletion
