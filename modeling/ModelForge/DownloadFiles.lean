import ModelForge.DownloadSteps
import ModelForge.RunInvariant

set_option autoImplicit false

/-!
# The files behind the download queue

`transferOnce` on the disk: each destination with the `.part` beside it, the
sizes it compares them with, and the requests it makes from them. What the
stats, the server and the disk answer is part of the event; what the code does
with it settles the await of the task in the queue.
-/
namespace ModelForge.DownloadFiles

open DownloadQueue hiding Event step
open DownloadSteps

abbrev Bytes := List UInt8

/-- A destination and its `.part`. A destination ends in `.gguf`, so it is no
other file's `.part`. -/
structure StoredFile where
  final : Option Bytes
  part : Option Bytes
  deriving DecidableEq

/-- Where `transferOnce` is from the expected hash to the end of the body. -/
inductive Transfer where
  | stats
  | request (offset : ℕ)
  | secondRequest
  | opening (offset : ℕ)
  | writing (offset downloadedThisRun : ℕ)
  deriving DecidableEq, Repr

/-- The repositories' file listings. -/
structure Hub where
  files : String → List HuggingFaceFile

def Hub.listed (hub : Hub) (repoId filePath : String) : Option HuggingFaceFile :=
  (hub.files repoId).find? fun file => file.path = filePath

def Hub.sha256 (hub : Hub) (repoId filePath : String) : Option String :=
  (hub.listed repoId filePath).bind HuggingFaceFile.sha256

def Hub.sizeBytes (hub : Hub) (repoId filePath : String) : ℕ :=
  ((hub.listed repoId filePath).map HuggingFaceFile.sizeBytes).getD 0

/-- `persisted` is what the timer wrote last to the jobs file. -/
structure Gateway where
  queue : Downloads
  totalBytes : KeyedMap String ℕ
  transfers : KeyedMap ℕ Transfer
  disk : KeyedMap String StoredFile
  persisted : List (DownloadState × ℕ)

namespace Gateway

def total (w : Gateway) (id : String) : ℕ := (w.totalBytes.get? id).getD 0

def transfer (w : Gateway) (k : ℕ) : Transfer := (w.transfers.get? k).getD .stats

def file (w : Gateway) (destination : String) : StoredFile :=
  (w.disk.get? destination).getD ⟨none, none⟩

def setFile (w : Gateway) (destination : String) (file : StoredFile) : Gateway :=
  { w with disk := w.disk.set destination file }

def setPart (w : Gateway) (destination : String) (part : Option Bytes) : Gateway :=
  w.setFile destination { w.file destination with part := part }

def setTransfer (w : Gateway) (k : ℕ) (transfer : Transfer) : Gateway :=
  { w with transfers := w.transfers.set k transfer }

/-- The gateway as it first starts, with what is on the disk already. -/
def initial (disk : KeyedMap String StoredFile) : Gateway := ⟨.initial, .empty, .empty, disk, []⟩

section Fields

variable (w : Gateway)

@[simp] theorem file_setTransfer (k : ℕ) (t : Transfer) (d : String) :
    (w.setTransfer k t).file d = w.file d := rfl

@[simp] theorem file_setFile_self (d : String) (f : StoredFile) : (w.setFile d f).file d = f := by
  simp [file, setFile]

theorem file_setFile_of_ne {d d' : String} (h : d' ≠ d) (f : StoredFile) :
    (w.setFile d f).file d' = w.file d' := by
  rw [file, setFile, KeyedMap.get?_set_of_ne h]
  rfl

@[simp] theorem file_setPart_self (d : String) (part : Option Bytes) :
    (w.setPart d part).file d = ⟨(w.file d).final, part⟩ := file_setFile_self w d _

@[simp] theorem transfer_setTransfer_self (k : ℕ) (t : Transfer) :
    (w.setTransfer k t).transfer k = t := by
  simp [transfer, setTransfer]

theorem transfer_setTransfer_of_ne {j k : ℕ} (h : j ≠ k) (t : Transfer) :
    (w.setTransfer k t).transfer j = w.transfer j := by
  rw [transfer, setTransfer, KeyedMap.get?_set_of_ne h]
  rfl

end Fields

end Gateway

/-! ## The stretches of `transferOnce` -/

inductive Stats where
  | alreadyThere
  | partWhole
  | partTooLong
  | request (offset : ℕ)
  deriving DecidableEq, Repr

/-- What the sizes of the destination and of the `.part` lead to. A size of 0
is falsy, as `totalBytes`. -/
def judge (totalBytes : ℕ) (existingFinal partialInfo : Option ℕ) : Stats :=
  if existingFinal.any fun size => totalBytes = 0 ∨ size = totalBytes then .alreadyThere
  else
    match partialInfo with
    | none => .request 0
    | some size =>
      if totalBytes ≠ 0 ∧ size = totalBytes then .partWhole
      else if totalBytes ≠ 0 ∧ totalBytes < size then .partTooLong
      else .request size

/-- `a || b || c` on sizes. -/
def firstTruthy (a b c : ℕ) : ℕ := if a ≠ 0 then a else if b ≠ 0 then b else c

/-- `actual.toLowerCase() === expected.toLowerCase()` -/
def SameDigest (actual expected : String) : Prop :=
  actual.toList.map Char.toLower = expected.toList.map Char.toLower

instance (actual expected : String) : Decidable (SameDigest actual expected) :=
  inferInstanceAs (Decidable (_ = _))

def incomplete (downloadedBytes totalBytes : ℕ) : Thrown :=
  ⟨"Download incomplete: received " ++ toString downloadedBytes ++ " of " ++ toString totalBytes ++
    " bytes", ""⟩

def verificationFailed : Thrown :=
  ⟨"SHA-256 verification failed; the partial file was retained for retry", ""⟩

/-- What comes of a task's await. A `stat` that fails reads as no file; a
`response` is any answer that `hubFetch` lets through. -/
inductive Moment where
  | hash (answered : Bool)
  | stats (seesFinal seesPart : Bool)
  | response (status rangeTotal responseLength : ℕ) (unlinked : Bool)
  | opened
  | chunk (bytes : Bytes)
  | bodyEnds
  | digest
  | renamed
  | ok
  | thrown (error : Option Thrown)
  deriving DecidableEq, Repr

inductive Event where
  | start (repoId filePath : String) (register : Bool) (id : String)
  | retry (id : String)
  | cancel (id : String)
  | remove (id : String)
  | persist
  | restart (readable : Bool)
  | progress (k : ℕ) (moment : Moment)
  deriving DecidableEq, Repr

variable (cfg : Config) (hub : Hub) (sha256 : Bytes → String)

/-- The queue takes a step of its own. -/
def queueStep (w : Gateway) (e : DownloadQueue.Event) : Option Gateway :=
  (DownloadQueue.step cfg w.queue e).map fun queue => { w with queue := queue }

def settle (w : Gateway) (k : ℕ) (settled : Settled) : Option Gateway :=
  queueStep cfg w (.progress k settled)

/-- The response that the body is read from. -/
def answered (w : Gateway) (k : ℕ) (id : String) (offset rangeTotal responseLength : ℕ) :
    Option Gateway :=
  let totalBytes := firstTruthy (w.total id) rangeTotal (offset + responseLength)
  settle cfg { w.setTransfer k (.opening offset) with totalBytes := w.totalBytes.set id totalBytes } k
    (.response offset)

/-- The `.part` is opened to append from an offset on, and truncated without one. -/
def openPart (offset : ℕ) (part : Option Bytes) : Option Bytes :=
  if 0 < offset then some (part.getD []) else some []

def progress (w : Gateway) (k : ℕ) (task : Task) (state : DownloadState) : Moment → Option Gateway
  | .hash found =>
    settle cfg { w with transfers := w.transfers.delete k } k
      (.manifest (if found then some (hub.sha256 state.repoId state.filePath) else none))
  | .stats seesFinal seesPart =>
    match task.awaiting, w.transfer k with
    | .prepare, .stats =>
      let file := w.file state.destination
      let existingFinal := if seesFinal then file.final.map List.length else none
      let partialInfo := if seesPart then file.part.map List.length else none
      match judge (w.total state.id) existingFinal partialInfo with
      | .alreadyThere => settle cfg w k .alreadyThere
      | .partWhole => settle cfg w k .partWhole
      | .partTooLong => some ((w.setPart state.destination none).setTransfer k (.request 0))
      | .request offset => some (w.setTransfer k (.request offset))
    | _, _ => none
  | .response status rangeTotal responseLength unlinked =>
    match task.awaiting, w.transfer k with
    | .prepare, .request offset =>
      if 0 < offset ∧ status ≠ 206 then
        let part := if unlinked then none else (w.file state.destination).part
        some ((w.setPart state.destination part).setTransfer k .secondRequest)
      else answered cfg w k state.id offset rangeTotal responseLength
    | .prepare, .secondRequest => answered cfg w k state.id 0 rangeTotal responseLength
    | _, _ => none
  | .opened =>
    match task.awaiting, w.transfer k with
    | .body, .opening offset =>
      let part := openPart offset (w.file state.destination).part
      some ((w.setPart state.destination part).setTransfer k (.writing offset 0))
    | _, _ => none
  | .chunk bytes =>
    match task.awaiting, w.transfer k with
    | .body, .writing offset downloadedThisRun =>
      let part := (w.file state.destination).part.map fun part => part ++ bytes
      some ((w.setPart state.destination part).setTransfer k
        (.writing offset (downloadedThisRun + bytes.length)))
    | _, _ => none
  | .bodyEnds =>
    match task.awaiting, w.transfer k with
    | .body, .writing offset downloadedThisRun =>
      let downloadedBytes := offset + downloadedThisRun
      if w.total state.id ≠ 0 ∧ downloadedBytes ≠ w.total state.id then
        settle cfg w k (.thrown (some (incomplete downloadedBytes (w.total state.id))))
      else settle cfg w k .ok
    | _, _ => none
  | .digest =>
    match task.awaiting, (w.file state.destination).part, task.expectedSha256 with
    | .digest, some part, some expected =>
      if SameDigest (sha256 part) expected then settle cfg w k .ok
      else settle cfg w k (.thrown (some verificationFailed))
    | _, _, _ => none
  | .renamed =>
    match task.awaiting, (w.file state.destination).part with
    | .rename, some part => settle cfg (w.setFile state.destination ⟨some part, none⟩) k .ok
    | _, _ => none
  | .ok =>
    match task.awaiting with
    | .registration | .returning | .backoff => settle cfg w k .ok
    | _ => none
  | .thrown error => settle cfg w k (.thrown error)

/-- A new process reads the jobs file: the maps are as it restores them, and
the disk is as it was left. -/
def restart (w : Gateway) (readable : Bool) : Gateway :=
  let jobs := if readable then w.persisted else []
  { queue := (restoreHuggingFaceDownloads .initial (jobs.map Prod.fst)).result cfg
    totalBytes := jobs.foldl (fun sizes job => sizes.set job.1.id job.2) .empty
    transfers := .empty
    disk := w.disk
    persisted := w.persisted }

def step (w : Gateway) : Event → Option Gateway
  | .start repoId filePath register id =>
    queueStep cfg { w with totalBytes := w.totalBytes.set id (hub.sizeBytes repoId filePath) }
      (.start repoId filePath (hub.files repoId) register id)
  | .retry id => queueStep cfg w (.retry id)
  | .cancel id => queueStep cfg w (.cancel id)
  | .remove id => queueStep cfg w (.remove id)
  | .persist => some { w with persisted := w.queue.jobs.map fun job => (job, w.total job.id) }
  | .restart readable => some (restart cfg w readable)
  | .progress k moment =>
    match w.queue.tasks[k]? with
    | none => none
    | some task =>
      match w.queue.states.get? task.id with
      | none => none
      | some state => progress cfg hub sha256 w k task state moment

/-! ## The persisted sizes -/

theorem get?_foldl_sizes (jobs : List (DownloadState × ℕ)) (sizes : KeyedMap String ℕ) (id : String) :
    (jobs.foldl (fun sizes job => sizes.set job.1.id job.2) sizes).get? id = sizes.get? id ∧
        (∀ job ∈ jobs, job.1.id ≠ id) ∨
      ∃ job ∈ jobs, job.1.id = id ∧
        (jobs.foldl (fun sizes job => sizes.set job.1.id job.2) sizes).get? id = some job.2 := by
  induction jobs generalizing sizes with
  | nil => exact .inl ⟨rfl, nofun⟩
  | cons head rest ih =>
    rw [List.foldl_cons]
    rcases ih (sizes.set head.1.id head.2) with ⟨hget, hnone⟩ | ⟨job, hjob, hid, hget⟩
    · by_cases hhead : head.1.id = id
      · refine .inr ⟨head, List.mem_cons_self, hhead, hget.trans ?_⟩
        rw [hhead, KeyedMap.get?_set_self]
      · refine .inl ⟨hget.trans (KeyedMap.get?_set_of_ne (Ne.symm hhead)), ?_⟩
        rintro job hjob
        rcases List.mem_cons.mp hjob with rfl | hrest
        · exact hhead
        · exact hnone job hrest
    · exact .inr ⟨job, List.mem_cons_of_mem _ hjob, hid, hget⟩

/-! ## What a moment does -/

/-- A moment changes the file of its task's destination and its task's transfer,
and settles the task's await or leaves it waiting. -/
inductive Effect (w : Gateway) (k : ℕ) (task : Task) (state : DownloadState) :
    Moment → Gateway → Option Settled → Prop where
  | hash (found : Bool) :
      Effect w k task state (.hash found) { w with transfers := w.transfers.delete k }
        (some (.manifest (if found then some (hub.sha256 state.repoId state.filePath) else none)))
  | alreadyThere (seesPart : Bool) (bytes : Bytes) (hawaiting : task.awaiting = .prepare)
      (hfinal : (w.file state.destination).final = some bytes)
      (hsize : w.total state.id = 0 ∨ bytes.length = w.total state.id) :
      Effect w k task state (.stats true seesPart) w (some .alreadyThere)
  | partWhole (seesFinal seesPart : Bool) (bytes : Bytes) (hawaiting : task.awaiting = .prepare)
      (hpart : (w.file state.destination).part = some bytes) (htotal : w.total state.id ≠ 0)
      (hsize : bytes.length = w.total state.id) :
      Effect w k task state (.stats seesFinal seesPart) w (some .partWhole)
  | partTooLong (seesFinal seesPart : Bool) (hawaiting : task.awaiting = .prepare) :
      Effect w k task state (.stats seesFinal seesPart)
        ((w.setPart state.destination none).setTransfer k (.request 0)) none
  | request (seesFinal seesPart : Bool) (offset : ℕ) (hawaiting : task.awaiting = .prepare)
      (hoffset : 0 < offset → ∃ bytes, (w.file state.destination).part = some bytes ∧
        bytes.length = offset) :
      Effect w k task state (.stats seesFinal seesPart) (w.setTransfer k (.request offset)) none
  | rerequest (status rangeTotal responseLength : ℕ) (unlinked : Bool)
      (hawaiting : task.awaiting = .prepare) :
      Effect w k task state (.response status rangeTotal responseLength unlinked)
        ((w.setPart state.destination
          (if unlinked then none else (w.file state.destination).part)).setTransfer k
            .secondRequest) none
  | answered (status rangeTotal responseLength : ℕ) (unlinked : Bool) (offset : ℕ)
      (hawaiting : task.awaiting = .prepare) (hoffset : w.transfer k = .request offset ∨ offset = 0) :
      Effect w k task state (.response status rangeTotal responseLength unlinked)
        { w.setTransfer k (.opening offset) with
          totalBytes := w.totalBytes.set state.id
            (firstTruthy (w.total state.id) rangeTotal (offset + responseLength)) }
        (some (.response offset))
  | opened (offset : ℕ) (hawaiting : task.awaiting = .body) (htransfer : w.transfer k = .opening offset) :
      Effect w k task state .opened
        ((w.setPart state.destination (openPart offset (w.file state.destination).part)).setTransfer k
          (.writing offset 0)) none
  | chunk (bytes : Bytes) (offset downloadedThisRun : ℕ) (hawaiting : task.awaiting = .body)
      (htransfer : w.transfer k = .writing offset downloadedThisRun) :
      Effect w k task state (.chunk bytes)
        ((w.setPart state.destination
          ((w.file state.destination).part.map fun part => part ++ bytes)).setTransfer k
            (.writing offset (downloadedThisRun + bytes.length))) none
  | bodyShort (error : Thrown) : Effect w k task state .bodyEnds w (some (.thrown (some error)))
  | bodyWhole (offset downloadedThisRun : ℕ) (hawaiting : task.awaiting = .body)
      (htransfer : w.transfer k = .writing offset downloadedThisRun)
      (hsize : w.total state.id = 0 ∨ offset + downloadedThisRun = w.total state.id) :
      Effect w k task state .bodyEnds w (some .ok)
  | verified (bytes : Bytes) (expected : String) (hawaiting : task.awaiting = .digest)
      (hpart : (w.file state.destination).part = some bytes)
      (hexpected : task.expectedSha256 = some expected) (hsame : SameDigest (sha256 bytes) expected) :
      Effect w k task state .digest w (some .ok)
  | unverified (error : Thrown) : Effect w k task state .digest w (some (.thrown (some error)))
  | renamed (bytes : Bytes) (hawaiting : task.awaiting = .rename)
      (hpart : (w.file state.destination).part = some bytes) :
      Effect w k task state .renamed (w.setFile state.destination ⟨some bytes, none⟩) (some .ok)
  | ok (hawaiting : task.awaiting = .registration ∨ task.awaiting = .returning ∨
      task.awaiting = .backoff) : Effect w k task state .ok w (some .ok)
  | thrown (error : Option Thrown) : Effect w k task state (.thrown error) w (some (.thrown error))

variable {cfg hub sha256}

/-- The await is settled from where the effect left it, if it is. -/
def Settles (cfg : Config) (w : Gateway) (k : ℕ) (w' : Gateway) : Option Settled → Prop
  | none => w' = w
  | some settled => settle cfg w k settled = some w'

section Effects

variable {w w' : Gateway} {k : ℕ} {task : Task} {state : DownloadState}

theorem judge_alreadyThere {total : ℕ} {final part : Option ℕ}
    (h : judge total final part = .alreadyThere) :
    ∃ size, final = some size ∧ (total = 0 ∨ size = total) := by
  unfold judge at h
  split at h
  · rename_i hfinal
    cases final with
    | none => cases hfinal
    | some size => exact ⟨size, rfl, of_decide_eq_true hfinal⟩
  · split at h
    · cases h
    · split at h
      · cases h
      · split at h <;> cases h

theorem judge_partWhole {total : ℕ} {final part : Option ℕ}
    (h : judge total final part = .partWhole) : total ≠ 0 ∧ part = some total := by
  unfold judge at h
  split at h
  · cases h
  · split at h
    · cases h
    · split at h
      · rename_i hwhole
        exact ⟨hwhole.1, congrArg some hwhole.2⟩
      · split at h <;> cases h

theorem judge_request {total offset : ℕ} {final part : Option ℕ}
    (h : judge total final part = .request offset) (hoffset : 0 < offset) : part = some offset := by
  unfold judge at h
  split at h
  · cases h
  · split at h
    · cases h
      exact absurd hoffset (Nat.lt_irrefl 0)
    · split at h
      · cases h
      · split at h
        · cases h
        · exact congrArg some (Stats.request.inj h)

/-- A size that a `stat` saw is the length of what is there. -/
theorem seen_size {seen : Bool} {bytes : Option Bytes} {size : ℕ}
    (h : (if seen then bytes.map List.length else none) = some size) :
    ∃ content, bytes = some content ∧ content.length = size := by
  split at h
  · exact Option.map_eq_some_iff.mp h
  · cases h

theorem progress_effect {moment : Moment}
    (h : progress cfg hub sha256 w k task state moment = some w') :
    ∃ w₁ settled, Effect hub sha256 w k task state moment w₁ settled ∧ Settles cfg w₁ k w' settled := by
  cases moment with
  | hash found => exact ⟨_, _, .hash found, h⟩
  | stats seesFinal seesPart =>
    simp only [progress] at h
    split at h
    · rename_i hawaiting _
      split at h
      · rename_i hjudge
        obtain ⟨size, hfinal, hsize⟩ := judge_alreadyThere hjudge
        obtain ⟨bytes, hbytes, rfl⟩ := seen_size hfinal
        cases seesFinal with
        | false => cases hfinal
        | true => exact ⟨_, _, .alreadyThere _ bytes hawaiting hbytes hsize, h⟩
      · rename_i hjudge
        obtain ⟨htotal, hpart⟩ := judge_partWhole hjudge
        obtain ⟨bytes, hbytes, hsize⟩ := seen_size hpart
        exact ⟨_, _, .partWhole _ _ bytes hawaiting hbytes htotal hsize, h⟩
      · exact ⟨_, _, .partTooLong _ _ hawaiting, (Option.some.inj h).symm⟩
      · rename_i offset hjudge
        refine ⟨_, _, .request _ _ offset hawaiting fun hoffset => ?_, (Option.some.inj h).symm⟩
        exact seen_size (judge_request hjudge hoffset)
    · cases h
  | response status rangeTotal responseLength unlinked =>
    simp only [progress] at h
    split at h
    · rename_i offset hawaiting htransfer
      split at h
      · exact ⟨_, _, .rerequest _ _ _ _ hawaiting, (Option.some.inj h).symm⟩
      · exact ⟨_, _, .answered _ _ _ _ offset hawaiting (.inl htransfer), h⟩
    · rename_i hawaiting _
      exact ⟨_, _, .answered _ _ _ _ 0 hawaiting (.inr rfl), h⟩
    · cases h
  | opened =>
    simp only [progress] at h
    split at h
    · rename_i offset hawaiting htransfer
      exact ⟨_, _, .opened offset hawaiting htransfer, (Option.some.inj h).symm⟩
    · cases h
  | chunk bytes =>
    simp only [progress] at h
    split at h
    · rename_i offset received hawaiting htransfer
      exact ⟨_, _, .chunk bytes offset received hawaiting htransfer, (Option.some.inj h).symm⟩
    · cases h
  | bodyEnds =>
    simp only [progress] at h
    split at h
    · rename_i offset received hawaiting htransfer
      split at h
      · exact ⟨_, _, .bodyShort _, h⟩
      · rename_i hsize
        refine ⟨_, _, .bodyWhole offset received hawaiting htransfer ?_, h⟩
        exact or_iff_not_imp_left.mpr fun htotal => not_not.mp fun hne => hsize ⟨htotal, hne⟩
    · cases h
  | digest =>
    simp only [progress] at h
    split at h
    · rename_i bytes expected hawaiting hpart hexpected
      split at h
      · rename_i hsame
        exact ⟨_, _, .verified bytes expected hawaiting hpart hexpected hsame, h⟩
      · exact ⟨_, _, .unverified _, h⟩
    · cases h
  | renamed =>
    simp only [progress] at h
    split at h
    · rename_i bytes hawaiting hpart
      exact ⟨_, _, .renamed bytes hawaiting hpart, h⟩
    · cases h
  | ok =>
    simp only [progress] at h
    split at h
    · rename_i hawaiting
      exact ⟨_, _, .ok (.inl hawaiting), h⟩
    · rename_i hawaiting
      exact ⟨_, _, .ok (.inr (.inl hawaiting)), h⟩
    · rename_i hawaiting
      exact ⟨_, _, .ok (.inr (.inr hawaiting)), h⟩
    · cases h
  | thrown error => exact ⟨_, _, .thrown error, h⟩

theorem settle_eq_some {settled : Settled} (h : settle cfg w k settled = some w') :
    ∃ queue, DownloadQueue.step cfg w.queue (.progress k settled) = some queue ∧
      w' = { w with queue := queue } := by
  obtain ⟨queue, hqueue, rfl⟩ := Option.map_eq_some_iff.mp h
  exact ⟨queue, hqueue, rfl⟩

/-- What a moment leaves alone: the queue, the other files, the other transfers
and, but for the sizes in a response, the sizes. -/
structure Local (w : Gateway) (k : ℕ) (state : DownloadState) (w₁ : Gateway) : Prop where
  queue : w₁.queue = w.queue
  persisted : w₁.persisted = w.persisted
  file : ∀ d, d ≠ state.destination → w₁.file d = w.file d
  transfer : ∀ j, j ≠ k → w₁.transfer j = w.transfer j
  total : ∀ id, w₁.total id = w.total id ∨ id = state.id ∧ ∃ rangeTotal length,
    w₁.total id = firstTruthy (w.total id) rangeTotal length

theorem Local.refl : Local w k state w :=
  ⟨rfl, rfl, fun _ _ => rfl, fun _ _ => rfl, fun _ => .inl rfl⟩

theorem Local.moved (f : StoredFile) (t : Transfer) :
    Local w k state ((w.setFile state.destination f).setTransfer k t) :=
  ⟨rfl, rfl, fun _ hd => Gateway.file_setFile_of_ne w hd f,
    fun _ hj => Gateway.transfer_setTransfer_of_ne _ hj t, fun _ => .inl rfl⟩

theorem Effect.isLocal {moment : Moment} {w₁ : Gateway} {settled : Option Settled}
    (h : Effect hub sha256 w k task state moment w₁ settled) : Local w k state w₁ := by
  cases h with
  | hash found =>
    refine ⟨rfl, rfl, fun _ _ => rfl, fun j hj => ?_, fun _ => .inl rfl⟩
    exact congrArg (Option.getD · _) (KeyedMap.get?_delete_of_ne hj)
  | partTooLong | rerequest | opened | chunk => exact .moved _ _
  | request =>
    exact ⟨rfl, rfl, fun _ _ => rfl, fun _ hj => Gateway.transfer_setTransfer_of_ne _ hj _,
      fun _ => .inl rfl⟩
  | answered status rangeTotal responseLength unlinked offset hawaiting hoffset =>
    refine ⟨rfl, rfl, fun _ _ => rfl, fun _ hj => Gateway.transfer_setTransfer_of_ne _ hj _,
      fun id => ?_⟩
    by_cases hid : id = state.id
    · subst hid
      refine .inr ⟨rfl, rangeTotal, offset + responseLength, ?_⟩
      simp [Gateway.total]
    · refine .inl ?_
      simp [Gateway.total, KeyedMap.get?_set_of_ne hid]
  | renamed bytes hawaiting hpart =>
    exact ⟨rfl, rfl, fun _ hd => Gateway.file_setFile_of_ne w hd _, fun _ _ => rfl,
      fun _ => .inl rfl⟩
  | alreadyThere | partWhole | bodyShort | bodyWhole | verified | unverified | ok | thrown =>
    exact .refl

/-! ### The moments that settle an await -/

variable {moment : Moment} {w₁ : Gateway} {settled : Option Settled}

theorem Effect.of_none (h : Effect hub sha256 w k task state moment w₁ settled)
    (hs : settled = none) : task.awaiting = .prepare ∨ task.awaiting = .body := by
  cases h with
  | partTooLong _ _ hawaiting | request _ _ _ hawaiting | rerequest _ _ _ _ hawaiting =>
    exact .inl hawaiting
  | opened _ hawaiting | chunk _ _ _ hawaiting => exact .inr hawaiting
  | _ => cases hs

theorem Effect.of_manifest (h : Effect hub sha256 w k task state moment w₁ settled)
    {found : Option (Option String)} (hs : settled = some (.manifest found)) :
    w₁.transfer k = .stats ∧ w₁.disk = w.disk ∧
      (found = none ∨ found = some (hub.sha256 state.repoId state.filePath)) := by
  cases h with
  | hash answered =>
    refine ⟨by simp [Gateway.transfer], rfl, ?_⟩
    obtain rfl := Settled.manifest.inj (Option.some.inj hs)
    cases answered with
    | true => exact .inr rfl
    | false => exact .inl rfl
  | _ => cases hs

theorem Effect.of_response (h : Effect hub sha256 w k task state moment w₁ settled) {offset : ℕ}
    (hs : settled = some (.response offset)) :
    w₁.transfer k = .opening offset ∧ w₁.disk = w.disk ∧ task.awaiting = .prepare ∧
      (w.transfer k = .request offset ∨ offset = 0) := by
  cases h with
  | answered _ _ _ _ requested hawaiting hoffset =>
    obtain rfl := Settled.response.inj (Option.some.inj hs)
    exact ⟨Gateway.transfer_setTransfer_self w k _, rfl, hawaiting, hoffset⟩
  | _ => cases hs

theorem Effect.of_alreadyThere (h : Effect hub sha256 w k task state moment w₁ settled)
    (hs : settled = some .alreadyThere) :
    w₁ = w ∧ (∃ seesPart, moment = .stats true seesPart) ∧ ∃ bytes,
      (w.file state.destination).final = some bytes ∧
        (w.total state.id = 0 ∨ bytes.length = w.total state.id) := by
  cases h with
  | alreadyThere seesPart bytes _ hfinal hsize => exact ⟨rfl, ⟨seesPart, rfl⟩, bytes, hfinal, hsize⟩
  | _ => cases hs

theorem Effect.of_partWhole (h : Effect hub sha256 w k task state moment w₁ settled)
    (hs : settled = some .partWhole) :
    w₁ = w ∧ ∃ bytes, (w.file state.destination).part = some bytes ∧
      bytes.length = w.total state.id := by
  cases h with
  | partWhole _ _ bytes _ hpart _ hsize => exact ⟨rfl, bytes, hpart, hsize⟩
  | _ => cases hs

theorem Effect.of_body (h : Effect hub sha256 w k task state moment w₁ settled)
    (hs : settled = some .ok) (hawaiting : task.awaiting = .body) :
    w₁ = w ∧ ∃ offset received, w.transfer k = .writing offset received ∧
      (w.total state.id = 0 ∨ offset + received = w.total state.id) := by
  cases h with
  | bodyWhole offset received _ htransfer hsize => exact ⟨rfl, offset, received, htransfer, hsize⟩
  | verified _ _ hdigest => rw [hawaiting] at hdigest; cases hdigest
  | renamed _ hrename => rw [hawaiting] at hrename; cases hrename
  | ok hok => rw [hawaiting] at hok; rcases hok with hok | hok | hok <;> cases hok
  | _ => cases hs

theorem Effect.of_digest (h : Effect hub sha256 w k task state moment w₁ settled)
    (hs : settled = some .ok) (hawaiting : task.awaiting = .digest) :
    w₁ = w ∧ ∃ bytes expected, (w.file state.destination).part = some bytes ∧
      task.expectedSha256 = some expected ∧ SameDigest (sha256 bytes) expected := by
  cases h with
  | verified bytes expected _ hpart hexpected hsame => exact ⟨rfl, bytes, expected, hpart, hexpected, hsame⟩
  | bodyWhole _ _ hbody => rw [hawaiting] at hbody; cases hbody
  | renamed _ hrename => rw [hawaiting] at hrename; cases hrename
  | ok hok => rw [hawaiting] at hok; rcases hok with hok | hok | hok <;> cases hok
  | _ => cases hs

theorem Effect.of_rename (h : Effect hub sha256 w k task state moment w₁ settled)
    (hs : settled = some .ok) (hawaiting : task.awaiting = .rename) :
    moment = .renamed ∧ ∃ bytes, (w.file state.destination).part = some bytes ∧
      w₁ = w.setFile state.destination ⟨some bytes, none⟩ := by
  cases h with
  | renamed bytes _ hpart => exact ⟨rfl, bytes, hpart, rfl⟩
  | bodyWhole _ _ hbody => rw [hawaiting] at hbody; cases hbody
  | verified _ _ hdigest => rw [hawaiting] at hdigest; cases hdigest
  | ok hok => rw [hawaiting] at hok; rcases hok with hok | hok | hok <;> cases hok
  | _ => cases hs

/-! ## The tasks of a destination -/

/-- The destination of task `k`, until it ends. -/
def executingAt (w : Gateway) (k : ℕ) : Option String :=
  (points w.queue)[k]?.bind fun p =>
    if p.awaiting = .ended then none else (recordOf w.queue p.id).map Record.destination

/-- At most one task of the destination is executing. -/
def Alone (destination : String) (w : Gateway) : Prop :=
  ∀ i < w.queue.tasks.length, ∀ j < w.queue.tasks.length,
    executingAt w i = some destination → executingAt w j = some destination → i = j

instance (destination : String) (w : Gateway) : Decidable (Alone destination w) :=
  inferInstanceAs (Decidable (∀ i < w.queue.tasks.length, ∀ j < w.queue.tasks.length,
    executingAt w i = some destination → executingAt w j = some destination → i = j))

theorem executingAt_of {p : Point} {r : Record} (hp : (points w.queue)[k]? = some p)
    (hr : recordOf w.queue p.id = some r) (hrun : p.awaiting ≠ .ended) :
    executingAt w k = some r.destination := by
  simp [executingAt, hp, hr, hrun]

theorem lt_of_point {p : Point} (hp : (points w.queue)[k]? = some p) : k < w.queue.tasks.length := by
  have h := (List.getElem?_eq_some_iff.mp hp).1
  rwa [points, List.length_map] at h

/-- The other tasks stand as they did: those of the same destination have ended. -/
theorem Local.other (hlocal : Local w k state w₁) {destination : String}
    (halone : Alone destination w) (hlt : k < w.queue.tasks.length)
    (hk : state.destination = destination → executingAt w k = some destination)
    {j : ℕ} {q : Point} {r : Record} (hjk : j ≠ k) (hq : (points w.queue)[j]? = some q)
    (hr : recordOf w.queue q.id = some r) (hd : r.destination = destination) :
    q.awaiting = .ended ∨
      w₁.file destination = w.file destination ∧ w₁.transfer j = w.transfer j := by
  by_cases hdest : state.destination = destination
  · refine .inl ?_
    by_contra hrun
    have hj : executingAt w j = some destination := hd ▸ executingAt_of hq hr hrun
    exact hjk (halone j (lt_of_point hq) k hlt hj (hk hdest))
  · exact .inr ⟨hlocal.file destination (Ne.symm hdest), hlocal.transfer j hjk⟩

/-- A step of a task, from the task and its state to what it settles. -/
theorem step_progress (hstep : step cfg hub sha256 w (.progress k moment) = some w') :
    ∃ task state w₁ settled, w.queue.tasks[k]? = some task ∧
      w.queue.states.get? task.id = some state ∧
      Effect hub sha256 w k task state moment w₁ settled ∧ Settles cfg w₁ k w' settled ∧
      task.awaiting ≠ .ended := by
  simp only [step] at hstep
  split at hstep
  · cases hstep
  rename_i task htask
  split at hstep
  · cases hstep
  rename_i state hstate
  obtain ⟨w₁, settled, heffect, hsettles⟩ := progress_effect hstep
  refine ⟨task, state, w₁, settled, htask, hstate, heffect, hsettles, ?_⟩
  cases settled with
  | none =>
    intro hended
    rcases heffect.of_none rfl with hawaiting | hawaiting <;>
      exact absurd (hended.symm.trans hawaiting) (by simp)
  | some settled =>
    obtain ⟨queue, hqueue, -⟩ := settle_eq_some hsettles
    exact progress_running hqueue (heffect.isLocal.queue ▸ htask)

theorem point_of_task (htask : w.queue.tasks[k]? = some task) :
    (points w.queue)[k]? = some (Task.point task) := by
  rw [points, List.getElem?_map, htask]
  rfl

end Effects

/-! ## The other steps -/

/-- What a request leaves: the downloads that are known keep their sizes, and a
new one has the size and the hash that the listing gives. -/
structure Requested (cfg : Config) (hub : Hub) (w : Gateway) (e : DownloadQueue.Event)
    (sizes : KeyedMap String ℕ) (queue : Downloads) : Prop where
  request : Request e
  step : DownloadQueue.step cfg w.queue e = some queue
  known : ∀ id, (recordOf w.queue id).isSome → sizes.get? id = w.totalBytes.get? id
  starts : ∀ r hash, Starts cfg w.queue e r hash → ∃ file,
    hub.listed r.repoId r.filePath = some file ∧
      cfg.safeDestination r.repoId r.filePath = .ok r.destination ∧
      hash = file.sha256 ∧ sizes.get? r.id = some file.sizeBytes

/-- What a step can be: of a task, a request, or of the jobs file. -/
inductive StepMove (cfg : Config) (hub : Hub) (sha256 : Bytes → String) (w : Gateway) :
    Event → Gateway → Prop
  | progress (k : ℕ) (moment : Moment) (w' : Gateway)
      (hstep : step cfg hub sha256 w (.progress k moment) = some w') :
      StepMove cfg hub sha256 w (.progress k moment) w'
  | request {e : Event} {e' : DownloadQueue.Event} {sizes : KeyedMap String ℕ} {queue : Downloads}
      (hother : ∀ k moment, e ≠ .progress k moment) (hrequested : Requested cfg hub w e' sizes queue) :
      StepMove cfg hub sha256 w e { w with totalBytes := sizes, queue := queue }
  | persist : StepMove cfg hub sha256 w .persist
      { w with persisted := w.queue.jobs.map fun job => (job, w.total job.id) }
  | restart (readable : Bool) :
      StepMove cfg hub sha256 w (.restart readable) (restart cfg w readable)

section Moves

variable {cfg : Config} {hub : Hub} {sha256 : Bytes → String} {w w' : Gateway}

/-- Only the new download's size is set. -/
theorem start_requested {repoId filePath id : String} {register : Bool} {queue : Downloads}
    (hstep : DownloadQueue.step cfg w.queue
      (.start repoId filePath (hub.files repoId) register id) = some queue) :
    Requested cfg hub w (.start repoId filePath (hub.files repoId) register id)
      (w.totalBytes.set id (hub.sizeBytes repoId filePath)) queue where
  request := .start ..
  step := hstep
  known id' hid := by
    obtain ⟨τ, hτ, -⟩ := Option.map_eq_some_iff.mp hstep
    simp only [turn, Option.ite_none_right_eq_some] at hτ
    refine KeyedMap.get?_set_of_ne ?_
    rintro rfl
    rw [recordOf, hτ.1] at hid
    cases hid
  starts := by
    rintro r hash ⟨-, files, register', file, hstart, hfile, hdestination, rfl⟩
    obtain ⟨rfl, rfl, rfl, rfl, rfl⟩ := DownloadQueue.Event.start.inj hstart
    have hlisted : hub.listed r.repoId r.filePath = some file := hfile
    refine ⟨file, hlisted, hdestination, rfl, ?_⟩
    rw [KeyedMap.get?_set_self, Hub.sizeBytes, hlisted]
    rfl

/-- A request that starts no download. -/
theorem asked_move {e : Event} {e' : DownloadQueue.Event} (he' : Request e')
    (hnew : ∀ repoId filePath files register id, e' ≠ .start repoId filePath files register id)
    (hother : ∀ k moment, e ≠ .progress k moment) (hstep : queueStep cfg w e' = some w') :
    StepMove cfg hub sha256 w e w' := by
  obtain ⟨queue, hqueue, rfl⟩ := Option.map_eq_some_iff.mp hstep
  refine .request hother ⟨he', hqueue, fun _ _ => rfl, ?_⟩
  rintro r hash ⟨-, files, register, file, hstart, -⟩
  exact absurd hstart (hnew _ _ _ _ _)

theorem step_moves {e : Event} (hstep : step cfg hub sha256 w e = some w') :
    StepMove cfg hub sha256 w e w' := by
  cases e with
  | progress k moment => exact .progress k moment w' hstep
  | start repoId filePath register id =>
    obtain ⟨queue, hqueue, rfl⟩ := Option.map_eq_some_iff.mp hstep
    exact .request nofun (start_requested hqueue)
  | retry id => exact asked_move (.retry id) nofun nofun hstep
  | cancel id => exact asked_move (.cancel id) nofun nofun hstep
  | remove id => exact asked_move (.remove id) nofun nofun hstep
  | persist =>
    obtain rfl := Option.some.inj hstep
    exact .persist
  | restart readable =>
    obtain rfl := Option.some.inj hstep
    exact .restart readable

end Moves

end ModelForge.DownloadFiles
