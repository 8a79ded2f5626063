import ModelForge.DownloadFiles

set_option autoImplicit false

/-!
# Attempts after a mismatch

The attempts of one download, each from its `stat`s to its outcome: the server
answers honestly, nothing is interrupted and the disk has room. What the first
attempt makes of the `.part` decides all of them.
-/
namespace ModelForge.TransferRecovery
open DownloadQueue (bundleStillActive completeDownload verifyOrRename bodyStarts Config DownloadState DownloadStatus Downloads Settled Task Thrown
  downloadErrorMessage isRetryableDownloadError resume turn MAX_DOWNLOAD_ATTEMPTS)
open DownloadFiles

/-- The headers of a response that say how long the file and the body are. -/
structure Headers where
  contentRange : Bool
  contentLength : Bool

/-- How the server answers in one attempt: a request for a range with 206 or with 200, and the
request that may follow without one. -/
structure Answer where
  partialContent : Bool
  headers : Headers
  second : Headers

/-- What an attempt reads and writes. -/
structure Download where
  file : StoredFile
  totalBytes : ℕ
  status : DownloadStatus
  error : Option String
  attempt : ℕ
  deriving DecidableEq

variable (sha256 : Bytes → String) (remote : Bytes) (expectedSha256 : Option String)

/-! ## One attempt -/

/-- The renamed `.part`, and `completeDownload` up to the registration. -/
def complete (part : Bytes) (d : Download) : Download × Option Thrown :=
  ({ d with file := ⟨some part, none⟩, status := .completed, error := none }, none)

def verifyAndRename (part : Bytes) (d : Download) : Download × Option Thrown :=
  match expectedSha256 with
  | some expected =>
    if SameDigest (sha256 part) expected then complete part d
    else ({ d with status := .verifying }, some verificationFailed)
  | none => complete part d

/-- What comes of a body that has all been read into the `.part`. -/
def bodyEnds (downloadedBytes : ℕ) (part : Bytes) (d : Download) : Download × Option Thrown :=
  let d := { d with file := { d.file with part := some part } }
  if d.totalBytes ≠ 0 ∧ downloadedBytes ≠ d.totalBytes then
    (d, some (incomplete downloadedBytes d.totalBytes))
  else verifyAndRename sha256 expectedSha256 part d

/-- The response of an honest server, from its headers to the end of its body. -/
def receive (headers : Headers) (offset : ℕ) (d : Download) : Download × Option Thrown :=
  let body := remote.drop offset
  let rangeTotal := if headers.contentRange then remote.length else 0
  let responseLength := if headers.contentLength then body.length else 0
  let resumed := "Resumed at " ++ toString ((offset + 2 ^ 19) / 2 ^ 20) ++ " MB"
  let part := (openPart offset d.file.part).getD [] ++ body
  bodyEnds sha256 expectedSha256 (offset + body.length) part
    { d with
      totalBytes := firstTruthy d.totalBytes rangeTotal (offset + responseLength)
      status := .downloading
      error := if 1 < d.attempt then some resumed else none }

def transferOnce (answer : Answer) (d : Download) : Download × Option Thrown :=
  match judge d.totalBytes (d.file.final.map List.length) (d.file.part.map List.length) with
  | .alreadyThere => ({ d with status := .completed, error := none }, none)
  | .partWhole => verifyAndRename sha256 expectedSha256 (d.file.part.getD []) d
  | .partTooLong =>
    receive sha256 remote expectedSha256 answer.headers 0
      { d with file := { d.file with part := none } }
  | .request offset =>
    if 0 < offset ∧ answer.partialContent = false then
      receive sha256 remote expectedSha256 answer.second 0
        { d with file := { d.file with part := none } }
    else receive sha256 remote expectedSha256 answer.headers offset d

/-- The `catch` of `runDownload`: a connection that dropped is tried again. -/
def caught (d : Download) (error : Thrown) : Download :=
  let message := downloadErrorMessage (some error)
  if d.attempt < MAX_DOWNLOAD_ATTEMPTS ∧ isRetryableDownloadError (some error) then
    let text := "Connection dropped — retrying " ++ toString d.attempt ++ "/" ++
      toString MAX_DOWNLOAD_ATTEMPTS ++ ": " ++ message
    { d with status := .queued, error := some text }
  else { d with status := .failed, error := some message }

def settled : Download × Option Thrown → Download
  | (d, none) => d
  | (d, some error) => caught d error

def runAttempt (answer : Answer) (d : Download) : Download :=
  settled (transferOnce sha256 remote expectedSha256 answer d)

/-- The loop's next turn, or the operator's retry of a download that has failed. -/
def again (d : Download) : Download :=
  if d.status = .failed then { d with status := .queued, error := none, attempt := 1 }
  else { d with attempt := d.attempt + 1 }

/-- The download after `n` further attempts; there is none after the one that completes it. -/
def attempts (answers : ℕ → Answer) (d : Download) : ℕ → Download
  | 0 => d
  | n + 1 =>
    let d := attempts answers d n
    if d.status = .completed then d
    else runAttempt sha256 remote expectedSha256 (answers n) (again d)

/-! ## What an attempt leaves -/

/-- The download is completed with the remote file at its destination. -/
def Recovered (d : Download) : Prop := d.status = .completed ∧ d.file.final = some remote

/-- The download keeps the bytes `bad`, in its `.part` or by a collision of digests. -/
structure Stuck (bad : Bytes) (d : Download) : Prop where
  wrong : bad ≠ remote
  nonempty : bad ≠ []
  kept : d.status = .completed ∧ d.file.final = some bad ∨
    d.status ≠ .completed ∧ d.file = ⟨none, some bad⟩ ∧ d.totalBytes = bad.length

/-- The `.part` is missing or a prefix of the remote file, or the attempt throws it away: one that
is too long, and one that the server is asked to continue and answers with 200. -/
def Recoverable (partialContent : Bool) (part : Option Bytes) : Prop :=
  ∀ bytes, part = some bytes → bytes <+: remote ∨ remote ≠ [] ∧ remote.length < bytes.length ∨
    partialContent = false ∧ bytes.length ≠ remote.length

variable {sha256 remote expectedSha256} {d : Download}

theorem recoverable_some {partialContent : Bool} {bytes : Bytes} :
    Recoverable remote partialContent (some bytes) ↔
      bytes <+: remote ∨ remote ≠ [] ∧ remote.length < bytes.length ∨
        partialContent = false ∧ bytes.length ≠ remote.length := by
  simp [Recoverable]

theorem caught_status (d : Download) (error : Thrown) : (caught d error).status ≠ .completed := by
  unfold caught
  dsimp only
  split <;> simp

theorem caught_file (d : Download) (error : Thrown) :
    (caught d error).file = d.file ∧ (caught d error).totalBytes = d.totalBytes := by
  unfold caught
  dsimp only
  split <;> exact ⟨rfl, rfl⟩

theorem recovered_verifyAndRename {expected : String} (h : SameDigest (sha256 remote) expected)
    (d : Download) :
    Recovered remote (settled (verifyAndRename sha256 (some expected) remote d)) := by
  rw [verifyAndRename]
  simp only [if_pos h]
  exact ⟨rfl, rfl⟩

theorem stuck_verifyAndRename {bad : Bytes} (hwrong : bad ≠ remote) (hnonempty : bad ≠ [])
    (hfile : d.file = ⟨none, some bad⟩) (hsize : d.totalBytes = bad.length) (expected : String) :
    Stuck remote bad (settled (verifyAndRename sha256 (some expected) bad d)) := by
  refine ⟨hwrong, hnonempty, ?_⟩
  rw [verifyAndRename]
  split
  · exact .inl ⟨rfl, rfl⟩
  · have hkept := caught_file { d with status := .verifying } verificationFailed
    exact .inr ⟨caught_status _ _, hkept.1.trans hfile, hkept.2.trans hsize⟩

/-- The size that the download ends up with is the one that is received. -/
theorem firstTruthy_received {offset : ℕ} (hoffset : remote = [] ∨ offset ≤ remote.length)
    (headers : Headers) :
    firstTruthy remote.length (if headers.contentRange then remote.length else 0)
      (offset + if headers.contentLength then (remote.drop offset).length else 0) =
        offset + (remote.drop offset).length := by
  unfold firstTruthy
  cases hoffset with
  | inl hempty =>
    subst hempty
    simp
  | inr hle =>
    rw [List.length_drop]
    by_cases hzero : remote.length = 0
    · have hoffset : offset = 0 := by omega
      simp [hzero, hoffset]
    · rw [if_pos hzero]
      omega

theorem receive_eq (sha256 : Bytes → String) (expectedSha256 : Option String)
    (hsize : d.totalBytes = remote.length) {offset : ℕ}
    (hoffset : remote = [] ∨ offset ≤ remote.length) (headers : Headers) :
    ∃ d' : Download, receive sha256 remote expectedSha256 headers offset d =
        verifyAndRename sha256 expectedSha256
          ((openPart offset d.file.part).getD [] ++ remote.drop offset) d' ∧
      d'.file = ⟨d.file.final, some ((openPart offset d.file.part).getD [] ++ remote.drop offset)⟩ ∧
      d'.totalBytes = offset + (remote.drop offset).length := by
  have htotal := firstTruthy_received hoffset headers
  simp only [receive, bodyEnds, hsize, htotal, ne_eq, not_true_eq_false, and_false, if_false]
  exact ⟨_, rfl, rfl, rfl⟩

theorem receive_fresh (hsize : d.totalBytes = remote.length) (headers : Headers)
    {expected : String} (h : SameDigest (sha256 remote) expected) :
    Recovered remote (settled (receive sha256 remote (some expected) headers 0 d)) := by
  obtain ⟨d', heq, _, _⟩ := receive_eq sha256 (some expected) hsize
    (.inr (Nat.zero_le _)) headers
  rw [heq]
  exact recovered_verifyAndRename h d'

/-- Under `cond` the download is recovered; without it, it keeps wrong bytes. -/
def Decided (remote : Bytes) (cond : Prop) (d : Download) : Prop :=
  (cond → Recovered remote d) ∧ (¬ cond → ∃ bad, Stuck remote bad d)

theorem Decided.of_true {cond : Prop} (hcond : cond) (h : Recovered remote d) :
    Decided remote cond d := ⟨fun _ => h, fun hnot => absurd hcond hnot⟩

/-- A `.part` that is continued becomes the remote file if it was a prefix of it. -/
theorem receive_resumed (hsize : d.totalBytes = remote.length) {bytes : Bytes} (hbytes : bytes ≠ [])
    (hfile : d.file = ⟨none, some bytes⟩) (hlength : remote = [] ∨ bytes.length ≤ remote.length)
    (headers : Headers) {expected : String} (h : SameDigest (sha256 remote) expected) :
    Decided remote (bytes <+: remote)
      (settled (receive sha256 remote (some expected) headers bytes.length d)) := by
  obtain ⟨d', heq, hfile', hsize'⟩ := receive_eq sha256 (some expected) hsize
    hlength headers
  have hopen : (openPart bytes.length d.file.part).getD [] = bytes := by
    rw [hfile, openPart, if_pos (List.length_pos_of_ne_nil hbytes)]
    rfl
  rw [hopen] at heq hfile'
  rw [heq]
  constructor
  · intro hprefix
    have hwhole : bytes ++ remote.drop bytes.length = remote := by
      obtain ⟨rest, rfl⟩ := hprefix
      rw [List.drop_left]
    rw [hwhole]
    exact recovered_verifyAndRename h d'
  · intro hprefix
    refine ⟨bytes ++ remote.drop bytes.length, stuck_verifyAndRename ?_ ?_ ?_ ?_ expected⟩
    · intro hwhole
      exact hprefix ⟨_, hwhole⟩
    · simp [hbytes]
    · rw [hfile', hfile]
    · rw [hsize', List.length_append]

/-- Nothing is requested for a `.part` of the full size: its digest alone decides. -/
theorem verify_whole (hsize : d.totalBytes = remote.length) {bytes : Bytes} (hbytes : bytes ≠ [])
    (hfile : d.file = ⟨none, some bytes⟩) (hlength : bytes.length = remote.length)
    {expected : String} (h : SameDigest (sha256 remote) expected) :
    Decided remote (bytes <+: remote)
      (settled (verifyAndRename sha256 (some expected) bytes d)) := by
  constructor
  · intro hprefix
    obtain rfl := hprefix.eq_of_length hlength
    exact recovered_verifyAndRename h d
  · intro hprefix
    have hne : bytes ≠ remote := by
      intro heq
      exact hprefix (heq ▸ List.prefix_refl bytes)
    exact ⟨bytes, stuck_verifyAndRename hne hbytes hfile (hsize.trans hlength.symm) expected⟩

/-- What an attempt comes to that finds no file at the destination. -/
theorem transferOnce_decided (hfinal : d.file.final = none) (hsize : d.totalBytes = remote.length)
    (answer : Answer) {expected : String} (h : SameDigest (sha256 remote) expected) :
    Decided remote (Recoverable remote answer.partialContent d.file.part)
      (settled (transferOnce sha256 remote (some expected) answer d)) := by
  cases hpart : d.file.part with
  | none =>
    have hrequest : transferOnce sha256 remote (some expected) answer d =
        receive sha256 remote (some expected) answer.headers 0 d := by
      simp [transferOnce, judge, hfinal, hpart]
    rw [hrequest]
    exact .of_true nofun (receive_fresh hsize answer.headers h)
  | some bytes =>
    have hfile : d.file = ⟨none, some bytes⟩ := by
      rw [← hfinal, ← hpart]
    have hjudge : judge d.totalBytes (d.file.final.map List.length) (d.file.part.map List.length) =
        if remote.length ≠ 0 ∧ bytes.length = remote.length then .partWhole
        else if remote.length ≠ 0 ∧ remote.length < bytes.length then .partTooLong
        else .request bytes.length := by
      rw [hfinal, hpart, hsize]
      rfl
    have hempty : bytes = [] ↔ bytes.length = 0 := List.length_eq_zero_iff.symm
    have hremote : remote = [] ↔ remote.length = 0 := List.length_eq_zero_iff.symm
    rw [transferOnce, hjudge, recoverable_some]
    by_cases hwhole : remote.length ≠ 0 ∧ bytes.length = remote.length
    · have honly : (bytes <+: remote ∨ remote ≠ [] ∧ remote.length < bytes.length ∨
          answer.partialContent = false ∧ bytes.length ≠ remote.length) ↔ bytes <+: remote := by
        apply or_iff_left
        omega
      rw [if_pos hwhole, hpart, honly]
      exact verify_whole hsize (by rw [ne_eq, hempty]; omega) hfile hwhole.2 h
    rw [if_neg hwhole]
    by_cases hlong : remote.length ≠ 0 ∧ remote.length < bytes.length
    · rw [if_pos hlong]
      have hremote : remote ≠ [] := by
        rw [ne_eq, hremote]
        exact hlong.1
      exact .of_true (.inr (.inl ⟨hremote, hlong.2⟩)) (receive_fresh hsize answer.headers h)
    rw [if_neg hlong]
    by_cases hagain : 0 < bytes.length ∧ answer.partialContent = false
    · simp only [if_pos hagain]
      have hlength : bytes.length ≠ remote.length := by omega
      exact .of_true (.inr (.inr ⟨hagain.2, hlength⟩)) (receive_fresh hsize answer.second h)
    simp only [if_neg hagain]
    by_cases hnone : bytes = []
    · subst hnone
      exact .of_true (.inl List.nil_prefix) (receive_fresh hsize answer.headers h)
    · have hpos : 0 < bytes.length := List.length_pos_of_ne_nil hnone
      have honly : (bytes <+: remote ∨ remote ≠ [] ∧ remote.length < bytes.length ∨
          answer.partialContent = false ∧ bytes.length ≠ remote.length) ↔ bytes <+: remote := by
        apply or_iff_left
        intro hother
        cases hother with
        | inl hlonger => exact hlong ⟨hremote.not.mp hlonger.1, hlonger.2⟩
        | inr hfalse => exact hagain ⟨hpos, hfalse.1⟩
      rw [honly]
      exact receive_resumed hsize hnone hfile (by rw [hremote]; omega) answer.headers h

/-! ## All attempts -/

theorem again_file (d : Download) :
    (again d).file = d.file ∧ (again d).totalBytes = d.totalBytes := by
  unfold again
  split <;> exact ⟨rfl, rfl⟩

/-- The same bytes are verified again. -/
theorem stuck_runAttempt {bad : Bytes} (h : Stuck remote bad d) (hstatus : d.status ≠ .completed)
    (answer : Answer) (expected : String) :
    Stuck remote bad (runAttempt sha256 remote (some expected) answer (again d)) := by
  have hkept : d.file = ⟨none, some bad⟩ ∧ d.totalBytes = bad.length := by
    cases h.kept with
    | inl h => exact absurd h.1 hstatus
    | inr h => exact h.2
  have hfile : (again d).file = ⟨none, some bad⟩ := (again_file d).1.trans hkept.1
  have hsize : (again d).totalBytes = bad.length := (again_file d).2.trans hkept.2
  have hpos : bad.length ≠ 0 := fun hzero => h.nonempty (List.length_eq_zero_iff.mp hzero)
  have hwhole : transferOnce sha256 remote (some expected) answer (again d) =
      verifyAndRename sha256 (some expected) bad (again d) := by
    simp [transferOnce, judge, hfile, hsize, hpos]
  rw [runAttempt, hwhole]
  exact stuck_verifyAndRename h.wrong h.nonempty hfile hsize expected

theorem attempts_decided (hfinal : d.file.final = none) (hsize : d.totalBytes = remote.length)
    (hstatus : d.status ≠ .completed) (answers : ℕ → Answer) {expected : String}
    (h : SameDigest (sha256 remote) expected) (n : ℕ) :
    Decided remote (Recoverable remote (answers 0).partialContent d.file.part)
      (attempts sha256 remote (some expected) answers d (n + 1)) := by
  induction n with
  | zero =>
    obtain ⟨hfile, htotal⟩ := again_file d
    have hfirst := transferOnce_decided (d := again d) (hfile ▸ hfinal) (htotal.trans hsize)
      (answers 0) h
    rw [hfile] at hfirst
    rw [attempts, attempts, if_neg hstatus]
    exact hfirst
  | succ n ih =>
    rw [attempts]
    constructor
    · intro hrecoverable
      have hrecovered := ih.1 hrecoverable
      rwa [if_pos hrecovered.1]
    · intro hnot
      obtain ⟨bad, hstuck⟩ := ih.2 hnot
      refine ⟨bad, ?_⟩
      split
      · exact hstuck
      · rename_i hopen
        exact stuck_runAttempt hstuck hopen (answers (n + 1)) expected

theorem Stuck.not_recovered {bad : Bytes} (h : Stuck remote bad d) : ¬ Recovered remote d := by
  intro hrecovered
  cases h.kept with
  | inl hkept => exact h.wrong (Option.some.inj (hkept.2.symm.trans hrecovered.2))
  | inr hkept => exact hkept.1 hrecovered.1

/-- However many attempts follow, the download is recovered if and only if its first one is. -/
theorem recovered_iff (hfinal : d.file.final = none) (hsize : d.totalBytes = remote.length)
    (hstatus : d.status ≠ .completed) (answers : ℕ → Answer) {expected : String}
    (h : SameDigest (sha256 remote) expected) (n : ℕ) :
    Recovered remote (attempts sha256 remote (some expected) answers d (n + 1)) ↔
      Recoverable remote (answers 0).partialContent d.file.part := by
  have hdecided := attempts_decided hfinal hsize hstatus answers h n
  constructor
  · intro hrecovered
    by_contra hnot
    obtain ⟨bad, hstuck⟩ := hdecided.2 hnot
    exact hstuck.not_recovered hrecovered
  · exact hdecided.1

def waiting (part : Option Bytes) (totalBytes : ℕ) : Download :=
  ⟨⟨none, part⟩, totalBytes, .failed, none, 1⟩

def ranges : Answer := ⟨true, ⟨true, true⟩, ⟨true, true⟩⟩

theorem recovered_of_prefix : Recovered [1, 2, 3]
    (attempts (fun bytes => toString bytes) [1, 2, 3] (some "[1, 2, 3]") (fun _ => ranges)
      (waiting (some [1, 2]) 3) 2) :=
  (recovered_iff rfl rfl (by decide) (fun _ => ranges) (by decide) 1).mpr
    (recoverable_some.mpr (.inl ⟨[3], rfl⟩))

/-- A corrupt `.part` of the full size is verified twice, and would be again. -/
theorem corrupt_part_kept : ¬ Recovered [1, 2, 3]
    (attempts (fun bytes => toString bytes) [1, 2, 3] (some "[1, 2, 3]") (fun _ => ranges)
      (waiting (some [1, 2, 4]) 3) 2) := by
  have hstatus : (attempts (fun bytes => toString bytes) [1, 2, 3] (some "[1, 2, 3]")
      (fun _ => ranges) (waiting (some [1, 2, 4]) 3) 2).status = .failed := by decide +kernel
  intro hrecovered
  rw [hrecovered.1] at hstatus
  contradiction

/-! ## The attempt among the queue's steps -/

section Steps

variable (cfg : Config) (hub : Hub)

/-- Task `k` works for a download, which the gateway has as `d`. -/
structure Stands (w : Gateway) (k : ℕ) (task : Task) (state : DownloadState) (d : Download) : Prop where
  tasks : w.queue.tasks[k]? = some task
  states : w.queue.states.get? task.id = some state
  named : state.id = task.id
  view : d = ⟨w.file state.destination, w.total state.id, state.status, state.error, state.attempt⟩

/-- The task's moments lead to the outcome of its attempt: to a completed download, or to a moment
that throws. -/
inductive Ends (sha256 : Bytes → String) (k : ℕ) : Gateway → Download × Option Thrown → Prop
  | completed {w : Gateway} {task : Task} {state : DownloadState} {d : Download}
      (h : Stands w k task state d)
      (hawaiting : task.awaiting = .registration ∨ task.awaiting = .returning) :
      Ends sha256 k w (d, none)
  | thrown {w : Gateway} {task : Task} {state : DownloadState} {d : Download} {error : Thrown}
      (h : Stands w k task state d) (moment : Moment)
      (hstep : step cfg hub sha256 w (.progress k moment) = settle cfg w k (.thrown (some error))) :
      Ends sha256 k w (d, some error)
  | moment {w w' : Gateway} {outcome : Download × Option Thrown} (moment : Moment)
      (hstep : step cfg hub sha256 w (.progress k moment) = some w')
      (h : Ends sha256 k w' outcome) : Ends sha256 k w outcome

variable {cfg hub} {sha256 : Bytes → String} {remote : Bytes} {w : Gateway} {k : ℕ} {task : Task}
  {state : DownloadState} {d : Download}

theorem Stands.progress_eq (h : Stands w k task state d) (moment : Moment) :
    step cfg hub sha256 w (.progress k moment) = progress cfg hub sha256 w k task state moment := by
  simp only [step, h.tasks, h.states]

theorem Stands.settle_eq (h : Stands w k task state d) {settled : Settled} {u : Downloads}
    (hresume : resume w.queue k task state settled = some (.quiet u)) :
    settle cfg w k settled = some { w with queue := u } := by
  simp only [settle, queueStep, DownloadQueue.step, turn, h.tasks, h.states, hresume]
  rfl

theorem Stands.setTransfer (h : Stands w k task state d) (t : Transfer) :
    Stands (w.setTransfer k t) k task state d := ⟨h.tasks, h.states, h.named, h.view⟩

theorem Stands.setFile (h : Stands w k task state d) (f : StoredFile) :
    Stands (w.setFile state.destination f) k task state { d with file := f } := by
  refine ⟨h.tasks, h.states, h.named, ?_⟩
  rw [h.view, Gateway.file_setFile_self]
  rfl

theorem Stands.setTotal (h : Stands w k task state d) (n : ℕ) :
    Stands { w with totalBytes := w.totalBytes.set state.id n } k task state
      { d with totalBytes := n } := by
  refine ⟨h.tasks, h.states, h.named, ?_⟩
  rw [h.view]
  simp [Gateway.total, Gateway.file]

/-- The task waits for something else. -/
theorem Stands.suspend (h : Stands w k task state d) (g : Task → Task) (hg : (g task).id = task.id) :
    Stands { w with queue := w.queue.suspend k g } k (g task) state d where
  tasks := by simp [Downloads.suspend, h.tasks]
  states := by
    rw [hg]
    exact h.states
  named := h.named.trans hg.symm
  view := h.view

/-- The task has changed its download's status, and waits for something else. -/
theorem Stands.mutate (h : Stands w k task state d) (f : DownloadState → DownloadState)
    (g : Task → Task) (hg : (g task).id = task.id)
    (hf : f state = { state with status := (f state).status, error := (f state).error }) :
    Stands { w with queue := (w.queue.mutate task.id f).suspend k g } k (g task) (f state)
      { d with status := (f state).status, error := (f state).error } where
  tasks := by simp [Downloads.suspend, Downloads.mutate, h.tasks]
  states := by
    rw [hg]
    simp [Downloads.suspend, Downloads.mutate, KeyedMap.get?_update, h.states]
  named := by rw [hf, hg, h.named]
  view := by
    rw [h.view, hf]
    rfl

theorem completeDownload_quiet (s : Downloads) (k : ℕ) (task : Task) (state : DownloadState) :
    ∃ next, (next = .registration ∨ next = .returning) ∧ completeDownload s k task state =
      .quiet ((s.mutate task.id fun state =>
        { state with status := .completed, error := none }).suspend k fun task =>
          { task with awaiting := next }) := by
  refine ⟨_, ?_, rfl⟩
  split
  · exact .inl rfl
  · exact .inr rfl

/-- The renamed file, and the completed download. -/
theorem ends_renamed (h : Stands w k task state d) (hawaiting : task.awaiting = .rename)
    {part : Bytes} (hpart : d.file.part = some part) :
    Ends cfg hub sha256 k w (complete part d) := by
  have hfile : (w.file state.destination).part = some part := by
    rw [← hpart, h.view]
  let w₁ := w.setFile state.destination ⟨some part, none⟩
  have h₁ : Stands w₁ k task state { d with file := ⟨some part, none⟩ } := h.setFile _
  have hstep : step cfg hub sha256 w (.progress k .renamed) = settle cfg w₁ k .ok := by
    rw [h.progress_eq]
    simp only [progress, hawaiting, hfile]
    rfl
  obtain ⟨next, hnext, hcomplete⟩ := completeDownload_quiet w₁.queue k task state
  have hresume : resume w₁.queue k task state .ok =
      some (completeDownload w₁.queue k task state) := by
    simp only [resume, hawaiting]
  rw [hcomplete] at hresume
  apply Ends.moment .renamed (hstep.trans (h₁.settle_eq hresume))
  exact .completed (h₁.mutate (fun state => { state with status := .completed, error := none })
    (fun task => { task with awaiting := next }) rfl rfl) hnext

/-- The digest that is compared, and what then becomes of the `.part`. -/
theorem ends_digest (h : Stands w k task state { d with status := .verifying })
    (hawaiting : task.awaiting = .digest) {expected : String}
    (hexpected : task.expectedSha256 = some expected) {part : Bytes}
    (hpart : d.file.part = some part) :
    Ends cfg hub sha256 k w (verifyAndRename sha256 (some expected) part d) := by
  have hfile : (w.file state.destination).part = some part := by
    rw [← hpart]
    exact congrArg (fun d : Download => d.file.part) h.view.symm
  have hstep : step cfg hub sha256 w (.progress k .digest) =
      if SameDigest (sha256 part) expected then settle cfg w k .ok
      else settle cfg w k (.thrown (some verificationFailed)) := by
    rw [h.progress_eq]
    simp only [progress, hawaiting, hfile, hexpected]
  unfold verifyAndRename
  split at hstep
  next hsame =>
    have hresume : resume w.queue k task state .ok =
        some (.quiet (w.queue.suspend k fun task => { task with awaiting := .rename })) := by
      simp only [resume, hawaiting]
    simp only [if_pos hsame]
    apply Ends.moment .digest (hstep.trans (h.settle_eq hresume))
    have h₁ := h.suspend (fun task => { task with awaiting := .rename }) rfl
    have hrenamed : Ends cfg hub sha256 k _ _ := ends_renamed h₁ rfl hpart
    exact hrenamed
  next hsame =>
    simp only [if_neg hsame]
    exact .thrown h .digest hstep

/-- The `.part` is whole: it is verified where a hash is known, and renamed. -/
theorem ends_verified (h : Stands w k task state d) {part : Bytes}
    (hpart : d.file.part = some part) {settled : Settled} {moment : Moment}
    (hmoment : progress cfg hub sha256 w k task state moment = settle cfg w k settled)
    (hresume : resume w.queue k task state settled = some (verifyOrRename w.queue k task)) :
    Ends cfg hub sha256 k w (verifyAndRename sha256 task.expectedSha256 part d) := by
  cases hexpected : task.expectedSha256 with
  | none =>
    have hquiet : resume w.queue k task state settled =
        some (.quiet (w.queue.suspend k fun task => { task with awaiting := .rename })) := by
      rw [hresume, verifyOrRename, hexpected]
    apply Ends.moment moment ((h.progress_eq moment).trans (hmoment.trans (h.settle_eq hquiet)))
    exact ends_renamed (h.suspend (fun task => { task with awaiting := .rename }) rfl) rfl hpart
  | some expected =>
    have hquiet : resume w.queue k task state settled = some (.quiet
        ((w.queue.mutate task.id fun state => { state with status := .verifying }).suspend k
          fun task => { task with awaiting := .digest })) := by
      rw [hresume, verifyOrRename, hexpected]
    apply Ends.moment moment ((h.progress_eq moment).trans (hmoment.trans (h.settle_eq hquiet)))
    have h₁ := h.mutate (fun state => { state with status := .verifying })
      (fun task => { task with awaiting := .digest }) rfl rfl
    have herror : state.error = d.error := by rw [h.view]
    rw [herror] at h₁
    exact ends_digest h₁ rfl hexpected hpart

theorem Stands.setPart (h : Stands w k task state d) (part : Option Bytes) (t : Transfer) :
    Stands ((w.setPart state.destination part).setTransfer k t) k task state
      { d with file := { d.file with part := part } } := by
  have hfile : d.file = w.file state.destination := by rw [h.view]
  rw [hfile]
  exact (h.setFile _).setTransfer t

/-- The end of the body. -/
theorem ends_written (h : Stands w k task state d) (hawaiting : task.awaiting = .body)
    {offset received : ℕ} (htransfer : w.transfer k = .writing offset received) {part : Bytes}
    (hpart : d.file.part = some part) :
    Ends cfg hub sha256 k w
      (if d.totalBytes ≠ 0 ∧ offset + received ≠ d.totalBytes then
        (d, some (incomplete (offset + received) d.totalBytes))
      else verifyAndRename sha256 task.expectedSha256 part d) := by
  have htotal : d.totalBytes = w.total state.id := by rw [h.view]
  have hprogress : progress cfg hub sha256 w k task state .bodyEnds =
      if d.totalBytes ≠ 0 ∧ offset + received ≠ d.totalBytes then
        settle cfg w k (.thrown (some (incomplete (offset + received) d.totalBytes)))
      else settle cfg w k .ok := by
    simp only [progress, hawaiting, htransfer, htotal]
  split at hprogress
  next hshort =>
    rw [if_pos hshort]
    exact .thrown h .bodyEnds ((h.progress_eq .bodyEnds).trans hprogress)
  next hwhole =>
    rw [if_neg hwhole]
    apply ends_verified h hpart hprogress
    simp only [resume, hawaiting]

/-- The body arrives in one piece. -/
theorem ends_chunk (h : Stands w k task state d) (hawaiting : task.awaiting = .body)
    {offset : ℕ} (htransfer : w.transfer k = .writing offset 0) {old : Bytes}
    (hold : d.file.part = some old) (body : Bytes) :
    Ends cfg hub sha256 k w
      (bodyEnds sha256 task.expectedSha256 (offset + body.length) (old ++ body) d) := by
  have hfile : (w.file state.destination).part = some old := by rw [← hold, h.view]
  have hstep : step cfg hub sha256 w (.progress k (.chunk body)) =
      some ((w.setPart state.destination (some (old ++ body))).setTransfer k
        (.writing offset body.length)) := by
    rw [h.progress_eq]
    simp only [progress, hawaiting, htransfer, hfile, Option.map_some, Nat.zero_add]
  exact .moment (.chunk body) hstep (ends_written (h.setPart _ _) hawaiting
    (Gateway.transfer_setTransfer_self _ k _) rfl)

/-- The body, once its stream is open. -/
theorem ends_body (h : Stands w k task state d) (hawaiting : task.awaiting = .body) {offset : ℕ}
    (htransfer : w.transfer k = .opening offset) (body : Bytes) :
    Ends cfg hub sha256 k w (bodyEnds sha256 task.expectedSha256 (offset + body.length)
      ((openPart offset d.file.part).getD [] ++ body) d) := by
  have hfile : w.file state.destination = d.file := by rw [h.view]
  have hopen : openPart offset d.file.part = some ((openPart offset d.file.part).getD []) := by
    unfold openPart
    split <;> rfl
  have hstep : step cfg hub sha256 w (.progress k .opened) =
      some ((w.setPart state.destination (openPart offset d.file.part)).setTransfer k
        (.writing offset 0)) := by
    rw [h.progress_eq]
    simp only [progress, hawaiting, htransfer, hfile]
  exact .moment .opened hstep (ends_chunk (h.setPart _ _) hawaiting
    (Gateway.transfer_setTransfer_self _ k _) hopen body)

/-- The response of the server, and the body that it announces. -/
theorem ends_received (h : Stands w k task state d) (hawaiting : task.awaiting = .prepare)
    {headers : Headers} {offset : ℕ} (moment : Moment)
    (hmoment : progress cfg hub sha256 w k task state moment =
      answered cfg w k state.id offset (if headers.contentRange then remote.length else 0)
        (if headers.contentLength then (remote.drop offset).length else 0)) :
    Ends cfg hub sha256 k w
      (receive sha256 remote task.expectedSha256 headers offset d) := by
  have htotal : d.totalBytes = w.total state.id := by rw [h.view]
  have hattempt : d.attempt = state.attempt := by rw [h.view]
  have h₁ := (h.setTransfer (.opening offset)).setTotal (firstTruthy d.totalBytes
    (if headers.contentRange then remote.length else 0)
    (offset + if headers.contentLength then (remote.drop offset).length else 0))
  have hstep := (h.progress_eq moment).trans hmoment
  rw [answered, ← htotal] at hstep
  have hresume : resume w.queue k task state (.response offset) =
      some (bodyStarts w.queue k task offset) := by
    simp only [resume, hawaiting, if_true]
  apply Ends.moment moment (hstep.trans (h₁.settle_eq hresume))
  have h₂ := h₁.mutate (fun state => { state with
      status := .downloading
      error := if 1 < state.attempt then
        some ("Resumed at " ++ toString ((offset + 2 ^ 19) / 2 ^ 20) ++ " MB") else none })
    (fun task => { task with awaiting := .body }) rfl rfl
  have hbody : Ends cfg hub sha256 k _ _ := ends_body h₂ rfl
    (Gateway.transfer_setTransfer_self w k (.opening offset)) (remote.drop offset)
  dsimp only at hbody
  rw [← hattempt] at hbody
  exact hbody

/-- A request without a range, whether it is the first one or follows an answer of 200. -/
theorem ends_fresh (h : Stands w k task state d) (hawaiting : task.awaiting = .prepare)
    (htransfer : w.transfer k = .request 0 ∨ w.transfer k = .secondRequest) (headers : Headers) :
    Ends cfg hub sha256 k w (receive sha256 remote task.expectedSha256 headers 0 d) := by
  apply ends_received h hawaiting (.response 200
    (if headers.contentRange then remote.length else 0)
    (if headers.contentLength then (remote.drop 0).length else 0) true)
  cases htransfer with
  | inl htransfer => simp only [progress, hawaiting, htransfer, Nat.lt_irrefl, false_and, if_false]
  | inr htransfer => simp only [progress, hawaiting, htransfer]

/-- The answer to a request for what the `.part` lacks. -/
theorem ends_requested (h : Stands w k task state d) (hawaiting : task.awaiting = .prepare)
    {offset : ℕ} (htransfer : w.transfer k = .request offset) (answer : Answer) :
    Ends cfg hub sha256 k w
      (if 0 < offset ∧ answer.partialContent = false then
        receive sha256 remote task.expectedSha256 answer.second 0
          { d with file := { d.file with part := none } }
      else receive sha256 remote task.expectedSha256 answer.headers offset d) := by
  split
  next hagain =>
    have hstep : step cfg hub sha256 w (.progress k (.response 200 0 0 true)) =
        some ((w.setPart state.destination none).setTransfer k .secondRequest) := by
      rw [h.progress_eq]
      simp only [progress, hawaiting, htransfer]
      rw [if_pos ⟨hagain.1, by decide⟩]
      rfl
    exact .moment _ hstep (ends_fresh (h.setPart none .secondRequest) hawaiting
      (.inr (Gateway.transfer_setTransfer_self _ k _)) answer.second)
  next hagain =>
    apply ends_received h hawaiting (.response (if answer.partialContent then 206 else 200)
      (if answer.headers.contentRange then remote.length else 0)
      (if answer.headers.contentLength then (remote.drop offset).length else 0) true)
    simp only [progress, hawaiting, htransfer]
    apply if_neg
    rintro ⟨hpos, hstatus⟩
    apply hagain
    refine ⟨hpos, ?_⟩
    cases hcontent : answer.partialContent with
    | false => rfl
    | true => simp [hcontent] at hstatus

/-- An attempt of the queue's task comes to what the uninterrupted attempt comes to. -/
theorem ends_transferOnce (h : Stands w k task state d) (hawaiting : task.awaiting = .prepare)
    (htransfer : w.transfer k = .stats) (answer : Answer) :
    Ends cfg hub sha256 k w (transferOnce sha256 remote task.expectedSha256 answer d) := by
  have hfile : w.file state.destination = d.file := by rw [h.view]
  have htotal : w.total state.id = d.totalBytes := by rw [h.view]
  -- the stats see both files
  have hstats : step cfg hub sha256 w (.progress k (.stats true true)) = _ := h.progress_eq _
  simp only [progress, hawaiting, htransfer, hfile, htotal, if_true] at hstats
  cases hjudge : judge d.totalBytes (d.file.final.map List.length)
      (d.file.part.map List.length) with
  | alreadyThere =>
    simp only [hjudge] at hstats
    simp only [transferOnce, hjudge]
    obtain ⟨next, hnext, hcomplete⟩ := completeDownload_quiet w.queue k task state
    have hresume : resume w.queue k task state .alreadyThere =
        some (completeDownload w.queue k task state) := by
      simp only [resume, hawaiting, if_true]
    rw [hcomplete] at hresume
    apply Ends.moment _ (hstats.trans (h.settle_eq hresume))
    exact .completed (h.mutate (fun state => { state with status := .completed, error := none })
      (fun task => { task with awaiting := next }) rfl rfl) hnext
  | partWhole =>
    simp only [hjudge] at hstats
    simp only [transferOnce, hjudge]
    have hpart : d.file.part = some (d.file.part.getD []) := by
      cases hnone : d.file.part with
      | some part => rfl
      | none =>
        simp only [judge, hnone, Option.map_none] at hjudge
        split at hjudge <;> cases hjudge
    apply ends_verified h hpart ((h.progress_eq _).symm.trans hstats)
    simp only [resume, hawaiting, if_true]
  | partTooLong =>
    simp only [hjudge] at hstats
    simp only [transferOnce, hjudge]
    exact .moment _ hstats (ends_fresh (h.setPart none (.request 0)) hawaiting
      (.inl (Gateway.transfer_setTransfer_self _ k _)) answer.headers)
  | request offset =>
    simp only [hjudge] at hstats
    simp only [transferOnce, hjudge]
    exact .moment _ hstats (ends_requested (h.setTransfer (.request offset)) hawaiting
      (Gateway.transfer_setTransfer_self _ k _) answer)

/-- The queue's `catch` leaves the status and the error that are left here. -/
theorem caught_queue (h : Stands w k task state d) (hattempt : task.attempt = state.attempt)
    (hrunning : DownloadQueue.downloadWasCancelled state task = false) (error : Thrown) :
    ∃ u : Downloads, (DownloadQueue.caught w.queue k task state (some error) = .quiet u ∨
        DownloadQueue.caught w.queue k task state (some error) = .pump u) ∧
      u.states.get? task.id =
        some { state with status := (caught d error).status, error := (caught d error).error } := by
  have hd : d.attempt = task.attempt := by rw [hattempt, h.view]
  have hstates (f : DownloadState → DownloadState) :
      (w.queue.mutate task.id f).states.get? task.id = some (f state) := by
    simp [Downloads.mutate, KeyedMap.get?_update, h.states]
  unfold DownloadQueue.caught caught
  rw [hrunning, hd]
  by_cases hretried : task.attempt < MAX_DOWNLOAD_ATTEMPTS ∧ isRetryableDownloadError (some error)
  · simp only [hretried, and_self, if_true]
    exact ⟨_, .inl rfl, hstates _⟩
  · simp only [hretried, if_false]
    exact ⟨_, .inr rfl, hstates _⟩

end Steps

end ModelForge.TransferRecovery
