import ModelForge.DownloadQueue

set_option autoImplicit false

/-!
# What a step of the download queue can do

Seen from its tasks: each task's download, the hash it was given and its await.
A request leaves them as they are and the pump adds new ones after them, and a
settled await moves the one task that was waiting for it.
-/
namespace ModelForge.DownloadSteps

open DownloadQueue

structure Point where
  id : String
  expectedSha256 : Option String
  awaiting : Await

def Task.point (task : Task) : Point := ⟨task.id, task.expectedSha256, task.awaiting⟩

def points (s : Downloads) : List Point := s.tasks.map Task.point

/-- What of a state object never changes. -/
structure Record where
  id : String
  repoId : String
  filePath : String
  destination : String
  deriving DecidableEq

def DownloadState.record (state : DownloadState) : Record :=
  ⟨state.id, state.repoId, state.filePath, state.destination⟩

def recordOf (s : Downloads) (id : String) : Option Record :=
  (s.states.get? id).map DownloadState.record

def Completed (s : Downloads) (id : String) : Prop :=
  (s.states.get? id).map DownloadState.status = some .completed

instance (s : Downloads) (id : String) : Decidable (Completed s id) :=
  inferInstanceAs (Decidable (_ = _))

/-- A task that the pump has just started. -/
def started (s : Downloads) (id : String) : Point :=
  ⟨id, none, .expectedHash (s.expectedHashes.get? id)⟩

/-! ## The requests -/

/-- The records are kept, and no download becomes completed. -/
structure Frame (s u : Downloads) : Prop where
  records : ∀ id, recordOf u id = recordOf s id
  completed : ∀ id, Completed u id → Completed s id

theorem Frame.refl (s : Downloads) : Frame s s := ⟨fun _ => rfl, fun _ h => h⟩

theorem Frame.trans {s u v : Downloads} (hsu : Frame s u) (huv : Frame u v) : Frame s v :=
  ⟨fun id => (huv.records id).trans (hsu.records id), fun id h =>
    hsu.completed id (huv.completed id h)⟩

theorem recordOf_mutate (s : Downloads) (id id' : String) {f : DownloadState → DownloadState}
    (hf : ∀ state, DownloadState.record (f state) = DownloadState.record state) :
    recordOf (s.mutate id f) id' = recordOf s id' := by
  unfold recordOf
  rw [Downloads.mutate, KeyedMap.get?_update]
  split
  · rw [Option.map_map]
    exact congrArg (fun g => Option.map g _) (funext hf)
  · rfl

theorem Frame.mutate (s : Downloads) (id : String) {f : DownloadState → DownloadState}
    (hf : ∀ state, DownloadState.record (f state) = DownloadState.record state)
    (hstatus : ∀ state, (f state).status = .completed → state.status = .completed) :
    Frame s (s.mutate id f) := by
  refine ⟨fun id' => recordOf_mutate s id id' hf, fun id' h => ?_⟩
  unfold Completed at h ⊢
  rw [Downloads.mutate, KeyedMap.get?_update] at h
  split at h
  · rw [Option.map_map] at h
    obtain ⟨state, hstate, hcompleted⟩ := Option.map_eq_some_iff.mp h
    rw [hstate]
    exact congrArg some (hstatus state hcompleted)
  · exact h

/-- What a request leaves for the pump: the tasks as they were, and at most one
new download with the hash it was started with. -/
structure Asked (s u : Downloads) (fresh : Option (Record × Option String)) : Prop where
  points : points u = DownloadSteps.points s
  records : ∀ id, recordOf u id =
    if fresh.map (fun new => new.1.id) = some id then fresh.map Prod.fst else recordOf s id
  hashes : ∀ id hash, u.expectedHashes.get? id = some hash →
    s.expectedHashes.get? id = some hash ∨ ∃ r, fresh = some (r, hash) ∧ r.id = id
  completed : ∀ id, Completed u id → Completed s id

theorem Asked.frame {s u : Downloads} (h : Frame s u)
    (hpoints : DownloadSteps.points u = DownloadSteps.points s)
    (hhashes : u.expectedHashes = s.expectedHashes) : Asked s u none :=
  ⟨hpoints, h.records, fun _ _ hhash => .inl (hhashes ▸ hhash), h.completed⟩

theorem retry_asked {s : Downloads} {id : String} {τ : Turn}
    (h : retryHuggingFaceDownload s id = .ok τ) :
    ∃ u, (τ = .quiet u ∨ τ = .pump u) ∧ Asked s u none := by
  unfold retryHuggingFaceDownload at h
  cases hjob : s.activeDownload? id with
  | none => simp [hjob] at h
  | some state =>
    simp only [hjob] at h
    split at h
    · obtain rfl := Except.ok.inj h
      exact ⟨s, .inl rfl, .frame (.refl s) rfl rfl⟩
    · obtain rfl := Except.ok.inj h
      have hqueued : Frame s
          (s.mutate id fun state => { state with status := .queued, error := none }) :=
        Frame.mutate s id (fun _ => rfl) (by simp)
      exact ⟨_, .inr rfl, .frame ⟨hqueued.records, hqueued.completed⟩ rfl rfl⟩

theorem cancel_asked (s : Downloads) (id : String) :
    Asked s (cancelHuggingFaceDownload s id).2 none := by
  have hcancelled : Frame s (s.mutate id fun state => { state with status := .cancelled }) :=
    Frame.mutate s id (fun _ => rfl) (by simp)
  unfold cancelHuggingFaceDownload
  split
  · exact .frame (.refl s) rfl rfl
  · split
    · dsimp only
      split
      · refine .frame ⟨hcancelled.records, hcancelled.completed⟩ ?_ rfl
        change (s.tasks.modify _ _).map _ = _
        refine List.ext_getElem? fun i => ?_
        rw [List.getElem?_map, List.getElem?_modify, points, List.getElem?_map]
        cases s.tasks[i]? with
        | none => rfl
        | some task =>
          simp only [Option.map_some]
          split <;> rfl
      · exact .frame ⟨hcancelled.records, hcancelled.completed⟩ rfl rfl
    · exact .frame (.refl s) rfl rfl

theorem remove_asked (s : Downloads) (id : String) :
    Asked s (removeHuggingFaceDownload s id).2 none := by
  unfold removeHuggingFaceDownload
  split
  · exact .frame (.refl s) rfl rfl
  · split
    · exact .frame (.refl s) rfl rfl
    · exact .frame ⟨fun _ => rfl, fun _ h => h⟩ rfl rfl

theorem start_asked {cfg : Config} {s : Downloads} {repoId filePath id : String}
    {files : List HuggingFaceFile} {register : Bool} {τ : Turn}
    (h : startHuggingFaceDownload cfg s repoId filePath files register id = .ok τ) :
    ∃ u, (τ = .quiet u ∨ τ = .pump u) ∧
      (Asked s u none ∨ ∃ file destination,
        files.find? (fun file => file.path = filePath) = some file ∧
        cfg.safeDestination repoId filePath = .ok destination ∧
        Asked s u (some (⟨id, repoId, filePath, destination⟩, file.sha256))) := by
  unfold startHuggingFaceDownload at h
  split at h
  · cases h
  · rename_i file hfile
    dsimp only at h
    split at h
    · obtain rfl := Except.ok.inj h
      exact ⟨s, .inl rfl, .inl (.frame (.refl s) rfl rfl)⟩
    · split at h
      · obtain ⟨u, hu, hasked⟩ := retry_asked h
        exact ⟨u, hu, .inl hasked⟩
      · split at h
        · cases h
        · rename_i destination hdestination
          split at h
          · cases h
          · obtain rfl := Except.ok.inj h
            refine ⟨_, .inr rfl, .inr ⟨file, destination, hfile, hdestination, rfl, ?_, ?_, ?_⟩⟩
            · intro id'
              simp only [recordOf, KeyedMap.get?_set, Option.map_some, Option.some.injEq]
              by_cases hid : id' = id
              · rw [if_pos hid, if_pos hid.symm]
                rfl
              · rw [if_neg hid, if_neg (Ne.symm hid)]
            · intro id' hash hhash
              simp only [KeyedMap.get?_set] at hhash
              split at hhash
              · rename_i hid
                cases hhash
                exact .inr ⟨_, rfl, hid.symm⟩
              · exact .inl hhash
            · intro id' hcompleted
              simp only [Completed, KeyedMap.get?_set] at hcompleted ⊢
              split at hcompleted
              · simp at hcompleted
              · exact hcompleted

/-! ## The pump -/

theorem frame_launch (s : Downloads) (id : String) : Frame s (launch s id) := by
  have hattempt : Frame s (s.mutate id fun state => { state with attempt := 1 }) :=
    Frame.mutate s id (fun _ => rfl) fun _ h => h
  exact ⟨hattempt.records, hattempt.completed⟩

theorem points_launch (s : Downloads) (id : String) :
    points (launch s id) = points s ++ [started s id] := List.map_append

/-- The pump starts tasks beside those there are. -/
structure Pumped (s u : Downloads) (launched : List String) : Prop where
  points : points u = DownloadSteps.points s ++ launched.map (started s)
  frame : Frame s u
  hashes : u.expectedHashes = s.expectedHashes
  known : ∀ id ∈ launched, (recordOf s id).isSome

theorem activeDownload_known {s : Downloads} {id : String} {state : DownloadState}
    (h : s.activeDownload? id = some state) : (recordOf s id).isSome := by
  unfold Downloads.activeDownload? at h
  split at h
  · rw [recordOf, h]
    rfl
  · cases h

theorem Pumped.after_launch {s u : Downloads} {id : String} {launched : List String}
    (hid : (recordOf s id).isSome) (h : Pumped (launch s id) u launched) :
    Pumped s u (id :: launched) where
  points := by
    rw [h.points, points_launch, List.append_assoc]
    rfl
  frame := (frame_launch s id).trans h.frame
  hashes := h.hashes
  known id' hid' := by
    rcases List.mem_cons.mp hid' with rfl | hmem
    · exact hid
    · exact (frame_launch s id).records id' ▸ h.known id' hmem

theorem pumpLoop_pumped (cfg : Config) (queue : List String) (s : Downloads) :
    ∃ launched, Pumped s (pumpLoop cfg queue s) launched := by
  induction queue generalizing s with
  | nil => exact ⟨[], (List.append_nil _).symm, ⟨fun _ => rfl, fun _ h => h⟩, rfl, nofun⟩
  | cons id rest ih =>
    unfold pumpLoop
    split
    · split
      · exact ih s
      · rename_i state hjob
        split
        · obtain ⟨launched, h⟩ := ih (launch s id)
          exact ⟨id :: launched, .after_launch (activeDownload_known hjob) h⟩
        · exact ih s
    · exact ⟨[], (List.append_nil _).symm, ⟨fun _ => rfl, fun _ h => h⟩, rfl, nofun⟩

/-! ## The settled awaits -/

/-- `completeDownload` is called. -/
def Completes (awaiting : Await) (settled : Settled) : Prop :=
  awaiting = .prepare ∧ settled = .alreadyThere ∨ awaiting = .rename ∧ settled = .ok

/-- The whole body is in the `.part`. -/
def Whole (awaiting : Await) (settled : Settled) : Prop :=
  awaiting = .prepare ∧ settled = .partWhole ∨ awaiting = .body ∧ settled = .ok

/-- The download's status as `completeDownload` sets it. -/
def markCompleted (s : Downloads) (id : String) : Downloads :=
  s.mutate id fun state => { state with status := .completed, error := none }

/-- Where a settled await leaves its task. -/
inductive Next (s : Downloads) (state : DownloadState) (p : Point) : Settled → Point → Prop where
  | hashKnown (hash : Option String) (found : Option (Option String))
      (h : p.awaiting = .expectedHash (some hash)) :
      Next s state p (.manifest found) ⟨p.id, hash, .prepare⟩
  | hashFound (hash : Option String) (h : p.awaiting = .expectedHash none) :
      Next s state p (.manifest (some hash)) ⟨p.id, hash, .prepare⟩
  | hashFailed (h : p.awaiting = .expectedHash none) :
      Next s state p (.manifest none) ⟨p.id, none, .prepare⟩
  | registers (settled : Settled) (h : Completes p.awaiting settled)
      (hactive : bundleStillActive (markCompleted s p.id) state = false) :
      Next s state p settled { p with awaiting := .registration }
  | returns (settled : Settled) (h : Completes p.awaiting settled) :
      Next s state p settled { p with awaiting := .returning }
  | digests (settled : Settled) (hash : String) (h : Whole p.awaiting settled)
      (hhash : p.expectedSha256 = some hash) :
      Next s state p settled { p with awaiting := .digest }
  | renames (settled : Settled) (h : Whole p.awaiting settled) (hhash : p.expectedSha256 = none) :
      Next s state p settled { p with awaiting := .rename }
  | body (offset : ℕ) (h : p.awaiting = .prepare) :
      Next s state p (.response offset) { p with awaiting := .body }
  | verified (h : p.awaiting = .digest) : Next s state p .ok { p with awaiting := .rename }
  | registered (h : p.awaiting = .registration) : Next s state p .ok { p with awaiting := .returning }
  | retries (h : p.awaiting = .backoff) :
      Next s state p .ok { p with awaiting := .expectedHash (s.expectedHashes.get? p.id) }
  | waits (error : Option Thrown) : Next s state p (.thrown error) { p with awaiting := .backoff }
  | ends (settled : Settled) : Next s state p settled { p with awaiting := .ended }

/-- What a settled await changes: its own task, a hash that was looked up, and
the status of a download that it completes. -/
structure Resumed (s u : Downloads) (k : ℕ) (p : Point) (settled : Settled) (p' : Point) : Prop where
  points : points u = (DownloadSteps.points s).set k p'
  records : ∀ id, recordOf u id = recordOf s id
  hashes : ∀ id hash, u.expectedHashes.get? id = some hash →
    s.expectedHashes.get? id = some hash ∨ id = p.id ∧ settled = .manifest (some hash)
  completed : ∀ id, Completed u id → Completed s id ∨ id = p.id ∧ Completes p.awaiting settled

theorem points_suspend {s u : Downloads} {k : ℕ} {task : Task} (htasks : u.tasks = s.tasks)
    (htask : s.tasks[k]? = some task) (f : Task → Task) :
    points (u.suspend k f) = (points s).set k (Task.point (f task)) := by
  change (u.tasks.modify k f).map Task.point = (s.tasks.map Task.point).set k _
  rw [htasks]
  refine List.ext_getElem? fun i => ?_
  rw [List.getElem?_map, List.getElem?_modify, List.getElem?_set, List.getElem?_map]
  by_cases hik : k = i
  · subst hik
    have hlt : k < (s.tasks.map Task.point).length := by
      rw [List.length_map]
      exact (List.getElem?_eq_some_iff.mp htask).1
    rw [if_pos rfl, if_pos hlt, htask]
    exact congrArg (fun task => some (Task.point task)) (if_pos rfl)
  · rw [if_neg hik]
    simp [hik]

section Resume

variable {s : Downloads} {k : ℕ} {task : Task} {state : DownloadState}

/-- The task is moved on with its download's state as the frame allows. -/
theorem Resumed.suspend {u : Downloads} (htask : s.tasks[k]? = some task) (hframe : Frame s u)
    (htasks : u.tasks = s.tasks) (hhashes : u.expectedHashes = s.expectedHashes)
    (f : Task → Task) (settled : Settled) :
    Resumed s (u.suspend k f) k (Task.point task) settled (Task.point (f task)) where
  points := points_suspend htasks htask f
  records := hframe.records
  hashes _ _ h := .inl (hhashes ▸ h)
  completed id h := .inl (hframe.completed id h)

/-- The `finally` forgets the hash. -/
theorem Resumed.finish {u : Downloads} (htask : s.tasks[k]? = some task) (hframe : Frame s u)
    (htasks : u.tasks = s.tasks) (hhashes : u.expectedHashes = s.expectedHashes)
    (settled : Settled) :
    ∃ v, finish u k task.id = .pump v ∧
      Resumed s v k (Task.point task) settled { Task.point task with awaiting := .ended } := by
  refine ⟨_, rfl, points_suspend htasks htask _, hframe.records, ?_, fun id h =>
    .inl (hframe.completed id h)⟩
  intro id hash hhash
  change (u.expectedHashes.delete task.id).get? id = some hash at hhash
  rw [KeyedMap.get?_delete, hhashes] at hhash
  split at hhash
  · cases hhash
  · exact .inl hhash

theorem completed_markCompleted {s : Downloads} {id id' : String} (h : Completed (markCompleted s id) id') :
    Completed s id' ∨ id' = id := by
  by_cases hid : id' = id
  · exact .inr hid
  · unfold Completed markCompleted at h
    rw [Downloads.mutate, KeyedMap.get?_update, if_neg hid] at h
    exact .inl h

theorem Resumed.complete (htask : s.tasks[k]? = some task) {settled : Settled}
    (hcompletes : Completes task.awaiting settled) (next : Await) :
    Resumed s ((markCompleted s task.id).suspend k fun task => { task with awaiting := next }) k
      (Task.point task) settled { Task.point task with awaiting := next } where
  points := points_suspend rfl htask _
  records id := recordOf_mutate s task.id id fun _ => rfl
  hashes _ _ h := .inl h
  completed _ h := (completed_markCompleted h).imp_right fun hid => ⟨hid, hcompletes⟩

theorem completeDownload_resumed (htask : s.tasks[k]? = some task) {settled : Settled}
    (hcompletes : Completes task.awaiting settled) :
    ∃ u p, completeDownload s k task state = .quiet u ∧
      Next s state (Task.point task) settled p ∧ Resumed s u k (Task.point task) settled p := by
  unfold completeDownload
  dsimp only
  rw [← markCompleted]
  cases hnext : state.register && !bundleStillActive (markCompleted s task.id) state with
  | true =>
    rw [Bool.and_eq_true, Bool.not_eq_true'] at hnext
    exact ⟨_, _, rfl, .registers settled hcompletes hnext.2, .complete htask hcompletes .registration⟩
  | false => exact ⟨_, _, rfl, .returns settled hcompletes, .complete htask hcompletes .returning⟩

/-- A settled await moves its task to the next one, before the pump runs. -/
def Moves (s : Downloads) (k : ℕ) (p : Point) (state : DownloadState) (settled : Settled)
    (τ : Turn) : Prop :=
  ∃ u p', (τ = .quiet u ∨ τ = .pump u) ∧ Next s state p settled p' ∧ Resumed s u k p settled p'

theorem finish_moves (htask : s.tasks[k]? = some task) {u : Downloads} (hframe : Frame s u)
    (htasks : u.tasks = s.tasks) (hhashes : u.expectedHashes = s.expectedHashes)
    (settled : Settled) :
    Moves s k (Task.point task) state settled (finish u k task.id) := by
  obtain ⟨v, hv, hresumed⟩ := Resumed.finish htask hframe htasks hhashes settled
  exact ⟨v, _, .inr hv, .ends settled, hresumed⟩

theorem finishCancelled_moves (htask : s.tasks[k]? = some task) (settled : Settled) :
    Moves s k (Task.point task) state settled (finishCancelled s k task.id) := by
  have hcancelled : Frame s
      (s.mutate task.id fun state => { state with status := .cancelled, error := none }) :=
    Frame.mutate s task.id (fun _ => rfl) (by simp)
  exact finish_moves htask hcancelled rfl rfl settled

theorem suspend_moves (htask : s.tasks[k]? = some task) {u : Downloads} (hframe : Frame s u)
    (htasks : u.tasks = s.tasks) (hhashes : u.expectedHashes = s.expectedHashes) (f : Task → Task)
    {settled : Settled} (hnext : Next s state (Task.point task) settled (Task.point (f task))) :
    Moves s k (Task.point task) state settled (.quiet (u.suspend k f)) :=
  ⟨_, _, .inl rfl, hnext, .suspend htask hframe htasks hhashes f settled⟩

theorem mutated_moves (htask : s.tasks[k]? = some task) {f : DownloadState → DownloadState}
    {g : Task → Task} {settled : Settled}
    (hrecord : ∀ state, DownloadState.record (f state) = DownloadState.record state)
    (hstatus : ∀ state, (f state).status = .completed → state.status = .completed)
    (hnext : Next s state (Task.point task) settled (Task.point (g task))) :
    Moves s k (Task.point task) state settled (.quiet ((s.mutate task.id f).suspend k g)) :=
  suspend_moves htask (Frame.mutate s task.id hrecord hstatus) rfl rfl g hnext

theorem beginAttempt_moves (htask : s.tasks[k]? = some task) (hawaiting : task.awaiting = .backoff)
    (attempt : ℕ) :
    Moves s k (Task.point task) state .ok (beginAttempt s k task state attempt) := by
  unfold beginAttempt
  split
  · exact finishCancelled_moves htask .ok
  · refine mutated_moves htask ?_ ?_ ?_
    · exact fun _ => rfl
    · exact fun _ h => h
    · exact .retries hawaiting

theorem caught_moves (htask : s.tasks[k]? = some task) (error : Option Thrown) :
    Moves s k (Task.point task) state (.thrown error) (caught s k task state error) := by
  unfold caught
  dsimp only
  split
  · exact finishCancelled_moves htask _
  · split
    · refine mutated_moves htask ?_ ?_ ?_
      · exact fun _ => rfl
      · simp
      · exact .waits error
    · refine finish_moves htask (Frame.mutate s task.id ?_ ?_) rfl rfl _
      · exact fun _ => rfl
      · simp

theorem verifyOrRename_moves (htask : s.tasks[k]? = some task) {settled : Settled}
    (hwhole : Whole task.awaiting settled) :
    Moves s k (Task.point task) state settled (verifyOrRename s k task) := by
  unfold verifyOrRename
  split
  · rename_i hash hhash
    refine mutated_moves htask ?_ ?_ ?_
    · exact fun _ => rfl
    · simp
    · exact .digests settled hash hwhole hhash
  · rename_i hhash
    exact suspend_moves htask (.refl s) rfl rfl _ (.renames settled hwhole hhash)

theorem expectedHashFound_moves (htask : s.tasks[k]? = some task)
    {known : Option (Option String)} (hawaiting : task.awaiting = .expectedHash known)
    (manifest : Option (Option String)) :
    Moves s k (Task.point task) state (.manifest manifest)
      (expectedHashFound s k task known manifest) := by
  unfold expectedHashFound
  dsimp only
  split
  · rename_i hash
    exact suspend_moves htask (.refl s) rfl rfl _ (.hashKnown hash _ hawaiting)
  · rename_i hash
    refine ⟨_, _, .inl rfl, .hashFound hash hawaiting, points_suspend rfl htask _, fun _ => rfl, ?_,
      fun _ h => .inl h⟩
    intro id hash' hhash
    change (s.expectedHashes.set task.id hash).get? id = some hash' at hhash
    rw [KeyedMap.get?_set] at hhash
    split at hhash
    · rename_i hid
      obtain rfl := Option.some.inj hhash
      exact .inr ⟨hid, rfl⟩
    · exact .inl hhash
  · exact suspend_moves htask (.refl s) rfl rfl _ (.hashFailed hawaiting)

theorem completeDownload_moves (htask : s.tasks[k]? = some task) {settled : Settled}
    (hcompletes : Completes task.awaiting settled) :
    Moves s k (Task.point task) state settled (completeDownload s k task state) := by
  obtain ⟨u, p, hu, hnext, hresumed⟩ := completeDownload_resumed htask hcompletes
  exact ⟨u, p, .inl hu, hnext, hresumed⟩

theorem bodyStarts_moves (htask : s.tasks[k]? = some task) (hawaiting : task.awaiting = .prepare)
    (offset : ℕ) :
    Moves s k (Task.point task) state (.response offset) (bodyStarts s k task offset) := by
  refine mutated_moves htask ?_ ?_ ?_
  · exact fun _ => rfl
  · simp
  · exact .body offset hawaiting

theorem resume_moves (htask : s.tasks[k]? = some task) {settled : Settled} {τ : Turn}
    (h : resume s k task state settled = some τ) :
    Moves s k (Task.point task) state settled τ := by
  cases settled with
  | manifest hash =>
    simp only [resume] at h
    split at h
    · rename_i known hawaiting
      exact Option.some.inj h ▸ expectedHashFound_moves htask hawaiting hash
    · cases h
  | alreadyThere =>
    simp only [resume, Option.ite_none_right_eq_some, Option.some.injEq] at h
    exact h.2 ▸ completeDownload_moves htask (.inl ⟨h.1, rfl⟩)
  | partWhole =>
    simp only [resume, Option.ite_none_right_eq_some, Option.some.injEq] at h
    exact h.2 ▸ verifyOrRename_moves htask (.inl ⟨h.1, rfl⟩)
  | response offset =>
    simp only [resume, Option.ite_none_right_eq_some, Option.some.injEq] at h
    exact h.2 ▸ bodyStarts_moves htask h.1 offset
  | ok =>
    simp only [resume] at h
    split at h
    case h_1 hawaiting => exact Option.some.inj h ▸ verifyOrRename_moves htask (.inr ⟨hawaiting, rfl⟩)
    case h_2 hawaiting =>
      exact Option.some.inj h ▸ suspend_moves htask (.refl s) rfl rfl _ (.verified hawaiting)
    case h_3 hawaiting => exact Option.some.inj h ▸ completeDownload_moves htask (.inr ⟨hawaiting, rfl⟩)
    case h_4 hawaiting =>
      exact Option.some.inj h ▸ suspend_moves htask (.refl s) rfl rfl _ (.registered hawaiting)
    case h_5 => exact Option.some.inj h ▸ finish_moves htask (.refl s) rfl rfl _
    case h_6 hawaiting => exact Option.some.inj h ▸ beginAttempt_moves htask hawaiting _
    all_goals cases h
  | thrown error =>
    simp only [resume] at h
    split at h
    all_goals first
      | exact Option.some.inj h ▸ caught_moves htask error
      | cases h

end Resume

/-! ## Invariants of the tasks -/

/-- Each task has a state object and is as `good` says for it, and each hash in
the map is as `hashOk` says. -/
structure Sound (good : ℕ → Point → Record → Prop) (hashOk : Record → Option String → Prop)
    (s : Downloads) : Prop where
  tasks : ∀ k p, (points s)[k]? = some p → ∃ r, recordOf s p.id = some r ∧ good k p r
  hashes : ∀ id hash, s.expectedHashes.get? id = some hash →
    ∃ r, recordOf s id = some r ∧ hashOk r hash

section Sound

variable {cfg : Config} {good good' : ℕ → Point → Record → Prop}
  {hashOk : Record → Option String → Prop} {s t u : Downloads}

theorem Sound.mono (h : Sound good hashOk s)
    (himp : ∀ k p r, (points s)[k]? = some p → recordOf s p.id = some r → good k p r →
      good' k p r) : Sound good' hashOk s := by
  refine ⟨fun k p hp => ?_, h.hashes⟩
  obtain ⟨r, hr, hgood⟩ := h.tasks k p hp
  exact ⟨r, hr, himp k p r hp hr hgood⟩

theorem initial_sound : Sound good hashOk .initial where
  tasks k p hp := by simp [points, Downloads.initial] at hp
  hashes id hash h := by simp [Downloads.initial] at h

theorem Sound.asked (hs : Sound good hashOk s) (h : Asked s u none) : Sound good hashOk u where
  tasks k p hp := by
    rw [h.points] at hp
    obtain ⟨r, hr, hgood⟩ := hs.tasks k p hp
    exact ⟨r, (h.records p.id).trans hr, hgood⟩
  hashes id hash hhash := by
    rcases h.hashes id hash hhash with hold | ⟨r, hr⟩
    · obtain ⟨r, hr, hok⟩ := hs.hashes id hash hold
      exact ⟨r, (h.records id).trans hr, hok⟩
    · cases hr.1

/-- A download that is new has no task and no hash yet. -/
theorem Sound.asked_fresh (hs : Sound good hashOk s) {r : Record} {hash : Option String}
    (h : Asked s u (some (r, hash))) (hid : recordOf s r.id = none) (hok : hashOk r hash) :
    Sound good hashOk u := by
  have hrecords : ∀ id, (recordOf s id).isSome → recordOf u id = recordOf s id := by
    intro id hknown
    have hne : r.id ≠ id := by
      rintro rfl
      rw [hid] at hknown
      cases hknown
    exact (h.records id).trans (if_neg fun heq => hne (Option.some.inj heq))
  constructor
  · intro k p hp
    rw [h.points] at hp
    obtain ⟨r', hr', hgood⟩ := hs.tasks k p hp
    exact ⟨r', (hrecords p.id (hr' ▸ rfl)).trans hr', hgood⟩
  · intro id hash' hhash
    rcases h.hashes id hash' hhash with hold | ⟨r', hfresh, rfl⟩
    · obtain ⟨r', hr', hok'⟩ := hs.hashes id hash' hold
      exact ⟨r', (hrecords id (hr' ▸ rfl)).trans hr', hok'⟩
    · obtain ⟨rfl, rfl⟩ := Prod.mk.inj (Option.some.inj hfresh)
      exact ⟨r, (h.records r.id).trans (if_pos rfl), hok⟩

/-- What the pump starts is good from the hash that the map has for it. -/
def Launches (good : ℕ → Point → Record → Prop) (hashOk : Record → Option String → Prop) : Prop :=
  ∀ k id r known, (∀ hash, known = some hash → hashOk r hash) →
    good k ⟨id, none, .expectedHash known⟩ r

theorem Sound.pump (hs : Sound good hashOk s) (hlaunch : Launches good hashOk) :
    Sound good hashOk (pumpDownloadQueue cfg s) := by
  obtain ⟨launched, h⟩ := pumpLoop_pumped cfg s.queuedDownloadIds s
  constructor
  · intro k p hp
    rw [pumpDownloadQueue, h.points, List.getElem?_append] at hp
    split at hp
    · obtain ⟨r, hr, hgood⟩ := hs.tasks k p hp
      exact ⟨r, (h.frame.records p.id).trans hr, hgood⟩
    · obtain ⟨id, hid, rfl⟩ := List.mem_map.mp (List.mem_of_getElem? hp)
      obtain ⟨r, hr⟩ := Option.isSome_iff_exists.mp (h.known id hid)
      refine ⟨r, (h.frame.records id).trans hr, hlaunch k id r _ fun hash hhash => ?_⟩
      obtain ⟨r', hr', hok⟩ := hs.hashes id hash hhash
      exact Option.some.inj (hr.symm.trans hr') ▸ hok
  · intro id hash hhash
    rw [pumpDownloadQueue, h.hashes] at hhash
    obtain ⟨r, hr, hok⟩ := hs.hashes id hash hhash
    exact ⟨r, (h.frame.records id).trans hr, hok⟩

/-- A state as a stretch of code left it, or as the pump left it after that. -/
def Left (cfg : Config) (u t : Downloads) : Prop := t = u ∨ t = pumpDownloadQueue cfg u

theorem Sound.left (hlaunch : Launches good hashOk) (hs : Sound good hashOk u) (h : Left cfg u t) :
    Sound good hashOk t := by
  rcases h with rfl | rfl
  · exact hs
  · exact hs.pump hlaunch

theorem left_of_turn {τ : Turn} (hτ : τ = .quiet u ∨ τ = .pump u) : Left cfg u (τ.result cfg) := by
  rcases hτ with rfl | rfl
  · exact .inl rfl
  · exact .inr rfl

theorem Left.frame (h : Left cfg u t) : Frame u t := by
  rcases h with rfl | rfl
  · exact .refl _
  · obtain ⟨launched, hpumped⟩ := pumpLoop_pumped cfg u.queuedDownloadIds u
    exact hpumped.frame

/-- A settled await: the other tasks are good as before, and its own is good
where it goes next. -/
theorem Sound.resumed {k : ℕ} {p p' : Point} {settled : Settled} (hs : Sound good hashOk s)
    (h : Resumed s u k p settled p') {r : Record} (hp : recordOf s p.id = some r)
    (hid : p'.id = p.id)
    (hother : ∀ j q r, j ≠ k → (points s)[j]? = some q → recordOf s q.id = some r → good j q r →
      good' j q r)
    (hself : good' k p' r) (hfound : ∀ hash, settled = .manifest (some hash) → hashOk r hash) :
    Sound good' hashOk u := by
  constructor
  · intro j q hq
    rw [h.points, List.getElem?_set] at hq
    split at hq
    · rename_i hkj
      subst hkj
      split at hq
      · obtain rfl := Option.some.inj hq
        exact ⟨r, (h.records _).trans (hid ▸ hp), hself⟩
      · cases hq
    · rename_i hkj
      obtain ⟨r', hr', hgood⟩ := hs.tasks j q hq
      exact ⟨r', (h.records q.id).trans hr', hother j q r' (Ne.symm hkj) hq hr' hgood⟩
  · intro id hash hhash
    rcases h.hashes id hash hhash with hold | ⟨rfl, hsettled⟩
    · obtain ⟨r', hr', hok⟩ := hs.hashes id hash hold
      exact ⟨r', (h.records id).trans hr', hok⟩
    · exact ⟨r, (h.records p.id).trans hp, hfound hash hsettled⟩

/-- Only a completed download's registration is awaited. -/
theorem Next.registration {state : DownloadState} {p p' : Point} {settled : Settled}
    (h : Next s state p settled p') (hp : p'.awaiting = .registration) :
    Completes p.awaiting settled ∧ bundleStillActive (markCompleted s p.id) state = false := by
  cases h with
  | registers _ hcompletes hactive => exact ⟨hcompletes, hactive⟩
  | _ => cases hp

theorem Next.id_eq {state : DownloadState} {p p' : Point} {settled : Settled}
    (h : Next s state p settled p') : p'.id = p.id := by
  cases h <;> rfl

theorem Left.point (h : Left cfg u t) {k : ℕ} {p : Point} (hp : (points u)[k]? = some p) :
    (points t)[k]? = some p := by
  rcases h with rfl | rfl
  · exact hp
  · obtain ⟨launched, hpumped⟩ := pumpLoop_pumped cfg u.queuedDownloadIds u
    rw [pumpDownloadQueue, hpumped.points,
      List.getElem?_append_left (List.getElem?_eq_some_iff.mp hp).1]
    exact hp

theorem Resumed.point {k : ℕ} {p p' : Point} {settled : Settled} (h : Resumed s u k p settled p')
    (hp : (DownloadSteps.points s)[k]? = some p) : (DownloadSteps.points u)[k]? = some p' := by
  rw [h.points, List.getElem?_set_self (List.getElem?_eq_some_iff.mp hp).1]

theorem progress_resumed {k : ℕ} {settled : Settled}
    (hstep : step cfg s (.progress k settled) = some t) :
    ∃ state p p' u, (points s)[k]? = some p ∧ s.states.get? p.id = some state ∧
      Next s state p settled p' ∧ Resumed s u k p settled p' ∧ Left cfg u t := by
  obtain ⟨τ, hτ, rfl⟩ := Option.map_eq_some_iff.mp hstep
  simp only [turn] at hτ
  split at hτ
  · cases hτ
  · rename_i task htask
    split at hτ
    · cases hτ
    · rename_i state hstate
      obtain ⟨u, p', hu, hnext, hresumed⟩ := resume_moves htask hτ
      refine ⟨state, Task.point task, p', u, ?_, hstate, hnext, hresumed, left_of_turn hu⟩
      rw [points, List.getElem?_map, htask]
      rfl

/-- An ended task has nothing to wait for. -/
theorem progress_running {k : ℕ} {settled : Settled}
    (hstep : step cfg s (.progress k settled) = some t) {task : Task}
    (htask : s.tasks[k]? = some task) : task.awaiting ≠ .ended := by
  intro hended
  obtain ⟨τ, hτ, -⟩ := Option.map_eq_some_iff.mp hstep
  simp only [turn, htask] at hτ
  split at hτ
  · cases hτ
  · cases settled <;> simp [resume, hended] at hτ

theorem recordOf_of_state {id : String} {state : DownloadState} (h : s.states.get? id = some state) :
    recordOf s id = some (DownloadState.record state) := by
  rw [recordOf, h]
  rfl

/-- A step of the queue that settles the await of task `k`. -/
theorem Sound.progress {k : ℕ} {settled : Settled} (hs : Sound good hashOk s)
    (hlaunch : Launches good' hashOk) (hstep : step cfg s (.progress k settled) = some t)
    (hother : ∀ j q r, j ≠ k → (points s)[j]? = some q → recordOf s q.id = some r → good j q r →
      good' j q r)
    (hself : ∀ state p p', (points s)[k]? = some p → s.states.get? p.id = some state →
      Next s state p settled p' → (points t)[k]? = some p' →
      good k p (DownloadState.record state) → good' k p' (DownloadState.record state))
    (hfound : ∀ state p hash, (points s)[k]? = some p → s.states.get? p.id = some state →
      settled = .manifest (some hash) → hashOk (DownloadState.record state) hash) :
    Sound good' hashOk t := by
  obtain ⟨state, p, p', u, hp, hstate, hnext, hresumed, hleft⟩ := progress_resumed hstep
  have hr : recordOf s p.id = some (DownloadState.record state) := recordOf_of_state hstate
  obtain ⟨r, hr', hgood⟩ := hs.tasks k p hp
  obtain rfl : DownloadState.record state = r := Option.some.inj (hr.symm.trans hr')
  refine Sound.left hlaunch (hs.resumed hresumed hr hnext.id_eq hother ?_ ?_) hleft
  · exact hself state p p' hp hstate hnext (hleft.point (hresumed.point hp)) hgood
  · exact fun hash => hfound state p hash hp hstate

/-- A step of the queue completes no download but the one that it calls
`completeDownload` for. -/
theorem progress_completed {k : ℕ} {settled : Settled}
    (hstep : step cfg s (.progress k settled) = some t) {id : String} (h : Completed t id)
    (hs : ¬ Completed s id) :
    ∃ p, (points s)[k]? = some p ∧ p.id = id ∧ Completes p.awaiting settled := by
  obtain ⟨state, p, p', u, hp, -, -, hresumed, hleft⟩ := progress_resumed hstep
  obtain ⟨hid, hcompletes⟩ := (hresumed.completed id (hleft.frame.completed id h)).resolve_left hs
  exact ⟨p, hp, hid.symm, hcompletes⟩

theorem progress_recordOf {k : ℕ} {settled : Settled}
    (hstep : step cfg s (.progress k settled) = some t) (id : String) :
    recordOf t id = recordOf s id := by
  obtain ⟨state, p, p', u, -, -, -, hresumed, hleft⟩ := progress_resumed hstep
  exact (hleft.frame.records id).trans (hresumed.records id)

/-- A request of the operator or of a client. -/
inductive Request : Event → Prop where
  | start (repoId filePath : String) (files : List HuggingFaceFile) (register : Bool)
      (id : String) : Request (.start repoId filePath files register id)
  | retry (id : String) : Request (.retry id)
  | cancel (id : String) : Request (.cancel id)
  | remove (id : String) : Request (.remove id)

/-- The download that a request starts, with the hash in the listing. -/
def Starts (cfg : Config) (s : Downloads) (e : Event) (r : Record) (hash : Option String) : Prop :=
  recordOf s r.id = none ∧ ∃ files register file,
    e = .start r.repoId r.filePath files register r.id ∧
    files.find? (fun file => file.path = r.filePath) = some file ∧
    cfg.safeDestination r.repoId r.filePath = .ok r.destination ∧ hash = file.sha256

theorem request_asked {e : Event} (he : Request e) (hstep : step cfg s e = some t) :
    ∃ u fresh, Asked s u fresh ∧ Left cfg u t ∧
      ∀ r hash, fresh = some (r, hash) → Starts cfg s e r hash := by
  obtain ⟨τ, hτ, rfl⟩ := Option.map_eq_some_iff.mp hstep
  have hnothing : ∃ u fresh, Asked s u fresh ∧ Left cfg u s ∧
      ∀ r hash, fresh = some (r, hash) → Starts cfg s e r hash :=
    ⟨s, none, .frame (.refl s) rfl rfl, .inl rfl, nofun⟩
  cases he with
  | start repoId filePath files register id =>
    simp only [turn, Option.ite_none_right_eq_some, Option.some.injEq] at hτ
    obtain ⟨hfresh, rfl⟩ := hτ
    cases hanswer : startHuggingFaceDownload cfg s repoId filePath files register id with
    | error message => exact hnothing
    | ok τ =>
      obtain ⟨u, hu, hasked | ⟨file, destination, hfile, hdestination, hasked⟩⟩ :=
        start_asked hanswer
      · exact ⟨u, none, hasked, left_of_turn hu, nofun⟩
      · refine ⟨u, _, hasked, left_of_turn hu, fun r hash hnew => ?_⟩
        obtain ⟨rfl, rfl⟩ := Prod.mk.inj (Option.some.inj hnew)
        refine ⟨?_, files, register, file, rfl, hfile, hdestination, rfl⟩
        rw [recordOf, hfresh]
        rfl
  | retry id =>
    simp only [turn, Option.some.injEq] at hτ
    subst hτ
    cases hanswer : retryHuggingFaceDownload s id with
    | error message => exact hnothing
    | ok τ =>
      obtain ⟨u, hu, hasked⟩ := retry_asked hanswer
      exact ⟨u, none, hasked, left_of_turn hu, nofun⟩
  | cancel id =>
    simp only [turn, Option.some.injEq] at hτ
    subst hτ
    exact ⟨_, none, cancel_asked s id, .inl rfl, nofun⟩
  | remove id =>
    simp only [turn, Option.some.injEq] at hτ
    subst hτ
    exact ⟨_, none, remove_asked s id, .inl rfl, nofun⟩

theorem Sound.request {e : Event} (hs : Sound good hashOk s) (hlaunch : Launches good hashOk)
    (he : Request e) (hstep : step cfg s e = some t)
    (hstart : ∀ r hash, Starts cfg s e r hash → hashOk r hash) : Sound good hashOk t := by
  obtain ⟨u, fresh, hasked, hleft, hfresh⟩ := request_asked he hstep
  refine Sound.left hlaunch ?_ hleft
  cases fresh with
  | none => exact hs.asked hasked
  | some new => exact hs.asked_fresh hasked (hfresh _ _ rfl).1 (hstart _ _ (hfresh _ _ rfl))

theorem request_recordOf {e : Event} (he : Request e) (hstep : step cfg s e = some t) {id : String}
    {r : Record} (h : recordOf t id = some r) :
    recordOf s id = some r ∨ r.id = id ∧ ∃ hash, Starts cfg s e r hash := by
  obtain ⟨u, fresh, hasked, hleft, hfresh⟩ := request_asked he hstep
  rw [hleft.frame.records id, hasked.records id] at h
  split at h
  · rename_i hid
    cases fresh with
    | none => cases hid
    | some new =>
      obtain ⟨r', hash⟩ := new
      obtain rfl := Option.some.inj h
      exact .inr ⟨Option.some.inj hid, hash, hfresh r' hash rfl⟩
  · exact .inl h

/-! ## A new process -/

structure Restored (jobs : List DownloadState) (s : Downloads) : Prop where
  tasks : s.tasks = []
  hashes : s.expectedHashes = .empty
  records : ∀ id r, recordOf s id = some r → ∃ job ∈ jobs, job.id = id ∧ DownloadState.record job = r

theorem Restored.job {jobs : List DownloadState} (h : Restored jobs s) {job : DownloadState}
    (hjob : job ∈ jobs) : Restored jobs (restoreJob s job) := by
  have hset : ∀ state, DownloadState.record state = DownloadState.record job → ∀ id r,
      ((s.states.set job.id state).get? id).map DownloadState.record = some r →
      ∃ job ∈ jobs, job.id = id ∧ DownloadState.record job = r := by
    intro state hstate id r hr
    rw [KeyedMap.get?_set] at hr
    split at hr
    · rename_i hid
      obtain rfl := Option.some.inj hr
      exact ⟨job, hjob, hid.symm, hstate.symm⟩
    · exact h.records id r hr
  unfold restoreJob
  split
  · exact ⟨h.tasks, h.hashes, hset _ rfl⟩
  · exact ⟨h.tasks, h.hashes, hset _ rfl⟩

theorem restored_foldl {jobs : List DownloadState} (rest : List DownloadState)
    (hrest : ∀ job ∈ rest, job ∈ jobs) (h : Restored jobs s) :
    Restored jobs (rest.foldl restoreJob s) := by
  induction rest generalizing s with
  | nil => exact h
  | cons job rest ih =>
    exact ih (fun job' hjob' => hrest job' (List.mem_cons_of_mem _ hjob'))
      (h.job (hrest job List.mem_cons_self))

theorem restore_restored (cfg : Config) (jobs : List DownloadState) :
    ∃ u, Restored jobs u ∧
      Left cfg u ((restoreHuggingFaceDownloads .initial jobs).result cfg) := by
  have hrestored : Restored jobs ((jobs.filter wellNamed).foldl restoreJob .initial) := by
    refine restored_foldl _ (fun job hjob => List.mem_of_mem_filter hjob) ⟨rfl, rfl, ?_⟩
    intro id r hr
    cases hr
  refine ⟨_, hrestored, ?_⟩
  unfold restoreHuggingFaceDownloads
  dsimp only
  split
  · exact .inr rfl
  · exact .inl rfl

theorem Restored.sound {jobs : List DownloadState} (h : Restored jobs s) : Sound good hashOk s where
  tasks k p hp := by simp [points, h.tasks] at hp
  hashes id hash hhash := by simp [h.hashes] at hhash

/-! ## The ids -/

/-- The id under which a state object is kept is its own. -/
def Keyed (s : Downloads) : Prop := ∀ id r, recordOf s id = some r → r.id = id

theorem Keyed.request {e : Event} (hs : Keyed s) (he : Request e) (hstep : step cfg s e = some t) :
    Keyed t := by
  intro id r hr
  rcases request_recordOf he hstep hr with hold | ⟨hid, -⟩
  · exact hs id r hold
  · exact hid

theorem Keyed.progress {k : ℕ} {settled : Settled} (hs : Keyed s)
    (hstep : step cfg s (.progress k settled) = some t) : Keyed t :=
  fun id r hr => hs id r ((progress_recordOf hstep id).symm.trans hr)

theorem Restored.keyed {jobs : List DownloadState} (h : Restored jobs s) (hleft : Left cfg s t) :
    Keyed t := by
  intro id r hr
  obtain ⟨job, -, rfl, rfl⟩ := h.records id r ((hleft.frame.records id).symm.trans hr)
  rfl

end Sound

end ModelForge.DownloadSteps
