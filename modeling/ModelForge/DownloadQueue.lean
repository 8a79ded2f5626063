import ModelForge.KeyedMap

set_option autoImplicit false

/-!
# The Hugging Face download queue

The maps and the queue behind the gateway's downloads, and the functions that
act on them. The model runs from one `await` to the next: a `Turn` is what the
code does in between, and a task is where its `runDownload` call is suspended.
-/
namespace ModelForge.DownloadQueue

inductive DownloadStatus where
  | queued
  | downloading
  | verifying
  | completed
  | cancelled
  | failed
  deriving DecidableEq, Repr

/-- `["queued", "downloading", "verifying"].includes(status)` -/
def DownloadStatus.active : DownloadStatus → Bool
  | .queued | .downloading | .verifying => true
  | .completed | .cancelled | .failed => false

structure DownloadState where
  id : String
  repoId : String
  filePath : String
  destination : String
  status : DownloadStatus
  error : Option String
  register : Bool
  attempt : ℕ
  deriving DecidableEq, Repr

structure HuggingFaceFile where
  path : String
  sizeBytes : ℕ
  sha256 : Option String
  deriving DecidableEq, Repr

/-- What `runDownload` awaits. An `expectedHash` is known where the map has it
and is looked up in the manifest elsewhere; `prepare` is `transferOnce` up to
the response, and `returning` is its promise once it is settled. -/
inductive Await where
  | expectedHash (known : Option (Option String))
  | prepare
  | body
  | digest
  | rename
  | registration
  | returning
  | backoff
  | ended
  deriving DecidableEq, Repr

/-- A call of `runDownload`, with its own controller's signal. -/
structure Task where
  id : String
  attempt : ℕ
  expectedSha256 : Option String
  aborted : Bool
  awaiting : Await
  deriving DecidableEq, Repr

def Task.running (task : Task) : Bool := task.awaiting ≠ .ended

structure Config where
  hfMaxConcurrentDownloads : ℕ
  hfMaxDownloadGb : ℕ
  safeDestination : String → String → Except String String

def Config.maxConcurrent (cfg : Config) : ℕ := max 1 cfg.hfMaxConcurrentDownloads

def Config.maxBytes (cfg : Config) : ℕ := max 1 cfg.hfMaxDownloadGb * 1024 ^ 3

/-- `states` holds every state object ever made, under its id: a task keeps the
object it was given when `activeDownloads` has dropped it. A task's place in
`tasks` names its controller. -/
structure Downloads where
  states : KeyedMap String DownloadState
  activeDownloads : List String
  controllers : KeyedMap String ℕ
  expectedHashes : KeyedMap String (Option String)
  queuedDownloadIds : List String
  tasks : List Task
  deriving DecidableEq

def Downloads.initial : Downloads := ⟨.empty, [], .empty, .empty, [], []⟩

namespace Downloads

/-- `activeDownloads.get(id)` -/
def activeDownload? (s : Downloads) (id : String) : Option DownloadState :=
  if id ∈ s.activeDownloads then s.states.get? id else none

/-- `[...activeDownloads.values()]` -/
def jobs (s : Downloads) : List DownloadState := s.activeDownloads.filterMap s.states.get?

def mutate (s : Downloads) (id : String) (f : DownloadState → DownloadState) : Downloads :=
  { s with states := s.states.update id f }

def suspend (s : Downloads) (k : ℕ) (f : Task → Task) : Downloads :=
  { s with tasks := s.tasks.modify k f }

end Downloads

/-! ## The pump -/

/-- `runDownload` up to its first await: the pump has just seen the status
`queued` and made the controller, so the loop's first check passes. -/
def runDownload (s : Downloads) (id : String) : Downloads :=
  { s with
    states := s.states.update id fun state => { state with attempt := 1 }
    tasks := s.tasks ++ [⟨id, 1, none, false, .expectedHash (s.expectedHashes.get? id)⟩] }

def launch (s : Downloads) (id : String) : Downloads :=
  runDownload { s with controllers := s.controllers.set id s.tasks.length } id

def pumpLoop (cfg : Config) : List String → Downloads → Downloads
  | [], s => { s with queuedDownloadIds := [] }
  | id :: rest, s =>
    if s.controllers.size < cfg.maxConcurrent then
      match s.activeDownload? id with
      | none => pumpLoop cfg rest s
      | some state =>
        if state.status = .queued then pumpLoop cfg rest (launch s id) else pumpLoop cfg rest s
    else { s with queuedDownloadIds := id :: rest }

def pumpDownloadQueue (cfg : Config) (s : Downloads) : Downloads :=
  pumpLoop cfg s.queuedDownloadIds s

/-- What one stretch of code leaves: every call of `pumpDownloadQueue` is the
last thing that its stretch does to the maps. -/
inductive Turn where
  | quiet (s : Downloads)
  | pump (s : Downloads)

def Turn.result (cfg : Config) : Turn → Downloads
  | .quiet s => s
  | .pump s => pumpDownloadQueue cfg s

/-! ## The requests -/

def retryHuggingFaceDownload (s : Downloads) (id : String) : Except String Turn :=
  match s.activeDownload? id with
  | none => .error "Download not found"
  | some state =>
    if state.status.active then .ok (.quiet s)
    else
      let s := s.mutate id fun state => { state with status := .queued, error := none }
      .ok (.pump { s with queuedDownloadIds := s.queuedDownloadIds ++ [id] })

/-- `startHuggingFaceDownload` after its manifest has come; `id` is the
`randomUUID()` it draws. -/
def startHuggingFaceDownload (cfg : Config) (s : Downloads) (repoId filePath : String)
    (files : List HuggingFaceFile) (register : Bool) (id : String) : Except String Turn :=
  match files.find? fun file => file.path = filePath with
  | none => .error "GGUF file is not present in the repository manifest"
  | some trustedFile =>
    let same := s.jobs.filter fun job => job.repoId = repoId ∧ job.filePath = filePath
    if same.any fun job => job.status.active then .ok (.quiet s)
    else
      match same.find? fun job => job.status = .failed ∨ job.status = .cancelled with
      | some failed => retryHuggingFaceDownload s failed.id
      | none =>
        match cfg.safeDestination repoId filePath with
        | .error message => .error message
        | .ok destination =>
          if cfg.maxBytes < trustedFile.sizeBytes then
            .error "Selected file exceeds HF_MAX_DOWNLOAD_GB"
          else
            let state : DownloadState :=
              ⟨id, repoId, filePath, destination, .queued, none, register, 0⟩
            .ok (.pump { s with
              states := s.states.set id state
              activeDownloads := s.activeDownloads ++ [id]
              expectedHashes := s.expectedHashes.set id trustedFile.sha256
              queuedDownloadIds := s.queuedDownloadIds ++ [id] })

def abort (s : Downloads) (k : ℕ) : Downloads := s.suspend k fun task => { task with aborted := true }

def cancelHuggingFaceDownload (s : Downloads) (id : String) : Bool × Downloads :=
  match s.activeDownload? id with
  | none => (false, s)
  | some state =>
    if state.status.active then
      let s := s.mutate id fun state => { state with status := .cancelled }
      match s.controllers.get? id with
      | some k => (true, abort s k)
      | none => (true, { s with queuedDownloadIds := s.queuedDownloadIds.erase id })
    else (false, s)

def removeHuggingFaceDownload (s : Downloads) (id : String) : Bool × Downloads :=
  match s.activeDownload? id with
  | none => (false, s)
  | some state =>
    if state.status.active then (false, s)
    else (true, { s with activeDownloads := s.activeDownloads.erase id })

/-- A persisted job is one that names its id, repository and file. -/
def wellNamed (job : DownloadState) : Bool := job.id ≠ "" ∧ job.repoId ≠ "" ∧ job.filePath ≠ ""

def restoreJob (s : Downloads) (job : DownloadState) : Downloads :=
  if job.status.active then
    let next := { job with status := .queued, error := some "Resuming after gateway restart" }
    { s with
      states := s.states.set job.id next
      activeDownloads := s.activeDownloads ++ [job.id]
      queuedDownloadIds := s.queuedDownloadIds ++ [job.id] }
  else
    { s with
      states := s.states.set job.id job
      activeDownloads := s.activeDownloads ++ [job.id] }

def restoreHuggingFaceDownloads (s : Downloads) (jobs : List DownloadState) : Turn :=
  let named := jobs.filter wellNamed
  if named.any fun job => job.status.active then .pump (named.foldl restoreJob s)
  else .quiet (named.foldl restoreJob s)

/-! ## The running tasks -/

def MAX_DOWNLOAD_ATTEMPTS : ℕ := 8

/-- An error's message and its cause's, as far as each is an `Error`. -/
structure Thrown where
  message : String
  cause : String
  deriving DecidableEq, Repr

/-- `slice(0, units)`, which counts UTF-16 code units. -/
def takeUnits : ℕ → List Char → List Char
  | _, [] => []
  | units, c :: rest =>
    let width := if c.toNat < 0x10000 then 1 else 2
    if width ≤ units then c :: takeUnits (units - width) rest else []

def downloadErrorMessage : Option Thrown → String
  | none => "Download failed"
  | some error =>
    let combined := ": ".intercalate ([error.message, error.cause].filter fun text => text ≠ "")
    String.ofList (takeUnits 400 combined.toList)

def RETRYABLE_DOWNLOAD : List String :=
  ["terminated", "fetch failed", "network", "econnreset", "econnrefused", "etimedout", "eai_again",
    "epipe", "socket", "und_err", "body timeout", "headers timeout", "incomplete", "aborted",
    "other side closed", "reset"]

def isRetryableDownloadError (error : Option Thrown) : Bool :=
  RETRYABLE_DOWNLOAD.any fun word =>
    word.toList <:+: (downloadErrorMessage error).toList.map Char.toLower

def isShardTag : List Char → Bool
  | ['-', a, b, c, d, e, '-', o, f, '-', g, h, i, j, k] =>
    [a, b, c, d, e, g, h, i, j, k].all Char.isDigit && o.toLower = 'o' && f.toLower = 'f'
  | _ => false

/-- Drops the `-00001-of-00003` before the `.gguf` that ends the path. -/
def bundleIdentity (filePath : String) : String :=
  let path := filePath.toList
  let stem := path.take (path.length - 5)
  let extension := path.drop (path.length - 5)
  if extension.map Char.toLower = ".gguf".toList ∧ isShardTag (stem.drop (stem.length - 15)) then
    String.ofList (stem.take (stem.length - 15) ++ extension)
  else filePath

def downloadWasCancelled (state : DownloadState) (task : Task) : Bool :=
  task.aborted || state.status = .cancelled

/-- The `finally` of `runDownload`. -/
def finish (s : Downloads) (k : ℕ) (id : String) : Turn :=
  .pump
    { s.suspend k fun task => { task with awaiting := .ended } with
      controllers := s.controllers.delete id
      expectedHashes := s.expectedHashes.delete id }

def finishCancelled (s : Downloads) (k : ℕ) (id : String) : Turn :=
  finish (s.mutate id fun state => { state with status := .cancelled, error := none }) k id

/-- The head of the attempt loop. -/
def beginAttempt (s : Downloads) (k : ℕ) (task : Task) (state : DownloadState) (attempt : ℕ) :
    Turn :=
  if downloadWasCancelled state task then finishCancelled s k task.id
  else
    .quiet ((s.mutate task.id fun state => { state with attempt := attempt }).suspend k fun task =>
      { task with attempt := attempt, awaiting := .expectedHash (s.expectedHashes.get? task.id) })

/-- The `catch` of the attempt loop. -/
def caught (s : Downloads) (k : ℕ) (task : Task) (state : DownloadState) (error : Option Thrown) :
    Turn :=
  let message := downloadErrorMessage error
  if downloadWasCancelled state task then finishCancelled s k task.id
  else if task.attempt < MAX_DOWNLOAD_ATTEMPTS ∧ isRetryableDownloadError error then
    let text := "Connection dropped — retrying " ++ toString task.attempt ++ "/" ++
      toString MAX_DOWNLOAD_ATTEMPTS ++ ": " ++ message
    .quiet ((s.mutate task.id fun state => { state with status := .queued, error := some text }).suspend
      k fun task => { task with awaiting := .backoff })
  else
    finish (s.mutate task.id fun state => { state with status := .failed, error := some message })
      k task.id

def bundleStillActive (s : Downloads) (state : DownloadState) : Bool :=
  s.jobs.any fun job =>
    job.id ≠ state.id && job.repoId = state.repoId &&
      bundleIdentity job.filePath = bundleIdentity state.filePath && job.status.active

/-- `completeDownload` up to its first await. -/
def completeDownload (s : Downloads) (k : ℕ) (task : Task) (state : DownloadState) : Turn :=
  let s := s.mutate task.id fun state => { state with status := .completed, error := none }
  let next := if state.register && !bundleStillActive s state then .registration else .returning
  .quiet (s.suspend k fun task => { task with awaiting := next })

/-- The whole file is in the `.part`: it is verified where a hash is known. -/
def verifyOrRename (s : Downloads) (k : ℕ) (task : Task) : Turn :=
  match task.expectedSha256 with
  | some _ =>
    .quiet ((s.mutate task.id fun state => { state with status := .verifying }).suspend k fun task =>
      { task with awaiting := .digest })
  | none => .quiet (s.suspend k fun task => { task with awaiting := .rename })

def expectedHashFound (s : Downloads) (k : ℕ) (task : Task) (known manifest : Option (Option String)) :
    Turn :=
  let waits (hash : Option String) (task : Task) : Task :=
    { task with expectedSha256 := hash, awaiting := .prepare }
  match known, manifest with
  | some hash, _ => .quiet (s.suspend k (waits hash))
  | none, some hash =>
    .quiet ({ s with expectedHashes := s.expectedHashes.set task.id hash }.suspend k (waits hash))
  | none, none => .quiet (s.suspend k (waits none))

/-- `Resumed at ${Math.round(offset / 1024 ** 2)} MB`, from the second attempt on. -/
def bodyStarts (s : Downloads) (k : ℕ) (task : Task) (offset : ℕ) : Turn :=
  let resumed := "Resumed at " ++ toString ((offset + 2 ^ 19) / 2 ^ 20) ++ " MB"
  .quiet ((s.mutate task.id fun state =>
    { state with
      status := .downloading
      error := if 1 < state.attempt then some resumed else none }).suspend k fun task =>
        { task with awaiting := .body })

/-- How the awaited promise settles. Of the awaits before the response only the
last matters: the file is there, the `.part` is whole, or a body starts. -/
inductive Settled where
  | manifest (hash : Option (Option String))
  | alreadyThere
  | partWhole
  | response (offset : ℕ)
  | ok
  | thrown (error : Option Thrown)
  deriving DecidableEq, Repr

def resume (s : Downloads) (k : ℕ) (task : Task) (state : DownloadState) : Settled → Option Turn
  | .manifest hash =>
    match task.awaiting with
    | .expectedHash known => some (expectedHashFound s k task known hash)
    | _ => none
  | .alreadyThere => if task.awaiting = .prepare then some (completeDownload s k task state) else none
  | .partWhole => if task.awaiting = .prepare then some (verifyOrRename s k task) else none
  | .response offset => if task.awaiting = .prepare then some (bodyStarts s k task offset) else none
  | .ok =>
    match task.awaiting with
    | .body => some (verifyOrRename s k task)
    | .digest => some (.quiet (s.suspend k fun task => { task with awaiting := .rename }))
    | .rename => some (completeDownload s k task state)
    | .registration => some (.quiet (s.suspend k fun task => { task with awaiting := .returning }))
    | .returning => some (finish s k task.id)
    | .backoff => some (beginAttempt s k task state (task.attempt + 1))
    | .expectedHash _ | .prepare | .ended => none
  | .thrown error =>
    match task.awaiting with
    | .prepare | .body | .digest | .rename | .registration => some (caught s k task state error)
    | .expectedHash _ | .returning | .backoff | .ended => none

/-! ## The interleavings -/

inductive Event where
  | start (repoId filePath : String) (files : List HuggingFaceFile) (register : Bool) (id : String)
  | retry (id : String)
  | cancel (id : String)
  | remove (id : String)
  | restore (jobs : List DownloadState)
  | progress (k : ℕ) (settled : Settled)
  deriving DecidableEq, Repr

/-- A request that throws leaves the maps as they are. -/
def answered (s : Downloads) : Except String Turn → Turn
  | .error _ => .quiet s
  | .ok turn => turn

/-- A drawn UUID is new, and so are the ids of the persisted jobs. -/
def turn (cfg : Config) (s : Downloads) : Event → Option Turn
  | .start repoId filePath files register id =>
    if s.states.get? id = none then
      some (answered s (startHuggingFaceDownload cfg s repoId filePath files register id))
    else none
  | .retry id => some (answered s (retryHuggingFaceDownload s id))
  | .cancel id => some (.quiet (cancelHuggingFaceDownload s id).2)
  | .remove id => some (.quiet (removeHuggingFaceDownload s id).2)
  | .restore jobs =>
    if jobs.all (fun job => s.states.get? job.id = none) ∧ (jobs.map DownloadState.id).Nodup then
      some (restoreHuggingFaceDownloads s jobs)
    else none
  | .progress k settled =>
    match s.tasks[k]? with
    | none => none
    | some task =>
      match s.states.get? task.id with
      | none => none
      | some state => resume s k task state settled

def step (cfg : Config) (s : Downloads) (e : Event) : Option Downloads :=
  (turn cfg s e).map (Turn.result cfg)

end ModelForge.DownloadQueue
