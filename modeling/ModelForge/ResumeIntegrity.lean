import ModelForge.DownloadFiles

set_option autoImplicit false

/-!
# Interrupted and resumed transfers

One destination, one remote file. With an honest server, and one task at a time
for the destination, the `.part` never holds anything but a prefix of the remote
file, and what is renamed to the destination is all of it.
-/
namespace ModelForge.ResumeIntegrity

open DownloadQueue hiding Event step
open DownloadSteps DownloadFiles RunInvariant

/-- An honest server's body is the remote file from the offset on that was asked
for, and all of it where none was. -/
def HonestChunk (destination : String) (remote : Bytes) (w : Gateway) (k : ℕ) (bytes : Bytes) :
    Transfer → Prop
  | .writing offset received =>
    executingAt w k = some destination → bytes <+: (remote.drop offset).drop received
  | _ => True

def Honest (destination : String) (remote : Bytes) (w : Gateway) : Event → Prop
  | .progress k (.chunk bytes) => HonestChunk destination remote w k bytes (w.transfer k)
  | _ => True

instance (destination : String) (remote : Bytes) (w : Gateway) (e : Event) :
    Decidable (Honest destination remote w e) := by
  unfold Honest HonestChunk
  split
  · split <;> infer_instance
  · infer_instance

/-- The listing has the remote file's size. -/
def TrueSize (cfg : Config) (hub : Hub) (destination : String) (remote : Bytes) : Prop :=
  ∀ repoId filePath file, cfg.safeDestination repoId filePath = .ok destination →
    hub.listed repoId filePath = some file → file.sizeBytes = remote.length

/-- The `.part` is a prefix of the remote file, and a download that has just
completed has left all of it at the destination. -/
def Intact (destination : String) (remote : Bytes) (w : Gateway) (e : Event) (w' : Gateway) : Prop :=
  (∀ part, (w'.file destination).part = some part → part <+: remote) ∧
  ∀ (k : ℕ) (moment : Moment) (id : String) (r : Record), e = .progress k moment → recordOf w'.queue id = some r →
    r.destination = destination → Completed w'.queue id → ¬ Completed w.queue id →
    (w'.file destination).final = some remote

/-- A size as it is known for a download: a size of 0 may be replaced by what
the server says. -/
def Fits (remote : Bytes) (size : ℕ) : Prop := remote = [] ∨ size = remote.length

/-- Where a task is with the `.part` it works on. -/
def At (remote : Bytes) (part : Option Bytes) (transfer : Transfer) : Await → Prop
  | .prepare =>
    ∀ offset, transfer = .request offset → 0 < offset →
      ∃ bytes, part = some bytes ∧ bytes.length = offset
  | .body =>
    (∀ offset, transfer = .opening offset → 0 < offset →
      ∃ bytes, part = some bytes ∧ bytes.length = offset) ∧
    ∀ offset received, transfer = .writing offset received →
      ∃ bytes, part = some bytes ∧ bytes.length = offset + received
  | .digest | .rename => part = some remote
  | .expectedHash _ | .registration | .returning | .backoff | .ended => True

def Good (destination : String) (remote : Bytes) (w : Gateway) (k : ℕ) (p : Point) (r : Record) :
    Prop :=
  r.destination = destination → At remote (w.file destination).part (w.transfer k) p.awaiting

structure Inv (destination : String) (remote : Bytes) (w : Gateway) : Prop where
  part : ∀ part, (w.file destination).part = some part → part <+: remote
  final : ∀ bytes, (w.file destination).final = some bytes → bytes = remote
  sizes : ∀ id r, recordOf w.queue id = some r → r.destination = destination →
    Fits remote (w.total id)
  keyed : ∀ id r, recordOf w.queue id = some r → r.id = id
  persisted : ∀ job ∈ w.persisted, job.1.destination = destination → Fits remote job.2
  distinct : ∀ a ∈ w.persisted, ∀ b ∈ w.persisted, a.1.id = b.1.id → a = b
  tasks : Sound (Good destination remote w) (fun _ _ => True) w.queue

section Bytes

variable {remote part bytes : Bytes}

theorem whole_of_length (h : part <+: remote) (hlength : Fits remote part.length) : part = remote := by
  rcases hlength with rfl | hlength
  · exact List.prefix_nil.mp h
  · exact h.eq_of_length hlength

theorem whole_of_total (h : part <+: remote) {total : ℕ} (hfits : Fits remote total)
    (hsize : total = 0 ∨ part.length = total) : part = remote := by
  refine whole_of_length h ?_
  rcases hfits with hempty | hfits
  · exact .inl hempty
  · rcases hsize with hzero | hsize
    · refine .inl (List.length_eq_zero_iff.mp ?_)
      rw [← hfits, hzero]
    · exact .inr (hsize.trans hfits)

/-- The honest server's next bytes extend the prefix. -/
theorem append_prefix (h : part <+: remote) (hnext : bytes <+: remote.drop part.length) :
    part ++ bytes <+: remote := by
  obtain ⟨rest, rfl⟩ := h
  rw [List.drop_left] at hnext
  exact (List.prefix_append_right_inj part).mpr hnext

theorem fits_firstTruthy {total a b : ℕ} (h : Fits remote total) :
    Fits remote (firstTruthy total a b) := by
  rcases h with hempty | hlength
  · exact .inl hempty
  · by_cases hzero : total = 0
    · exact .inl (List.length_eq_zero_iff.mp (hlength.symm.trans hzero))
    · exact .inr ((if_pos hzero).trans hlength)

end Bytes

/-! ## One moment of a task -/

section Moment

variable {cfg : Config} {hub : Hub} {sha256 : Bytes → String} {destination : String} {remote : Bytes}
  {w w₁ : Gateway} {k : ℕ} {task : Task} {state : DownloadState} {moment : Moment}
  {settled : Option Settled}

theorem at_ended (part : Option Bytes) (transfer : Transfer) : At remote part transfer .ended := trivial

theorem good_other (halone : Alone destination w) (hlocal : Local w k state w₁)
    (hlt : k < w.queue.tasks.length)
    (hk : state.destination = destination → executingAt w k = some destination)
    (j : ℕ) (q : Point) (r : Record) (hjk : j ≠ k) (hq : (points w.queue)[j]? = some q)
    (hr : recordOf w.queue q.id = some r) (hgood : Good destination remote w j q r) :
    Good destination remote w₁ j q r := by
  intro hd
  rcases hlocal.other halone hlt hk hjk hq hr hd with hended | ⟨hfile, htransfer⟩
  · rw [hended]
    exact at_ended _ _
  · rw [hfile, htransfer]
    exact hgood hd

/-- The files after a moment of a task of the destination. -/
theorem effect_files (h : Effect hub sha256 w k task state moment w₁ settled)
    (hpart : ∀ part, (w.file state.destination).part = some part → part <+: remote)
    (hfinal : ∀ bytes, (w.file state.destination).final = some bytes → bytes = remote)
    (hat : At remote (w.file state.destination).part (w.transfer k) task.awaiting)
    (hhonest : ∀ bytes offset received, moment = .chunk bytes →
      w.transfer k = .writing offset received → bytes <+: (remote.drop offset).drop received) :
    (∀ part, (w₁.file state.destination).part = some part → part <+: remote) ∧
      ∀ bytes, (w₁.file state.destination).final = some bytes → bytes = remote := by
  cases h with
  | partTooLong => exact ⟨by simp, by simpa using hfinal⟩
  | rerequest status rangeTotal responseLength unlinked hawaiting =>
    refine ⟨fun part hpart' => ?_, by simpa using hfinal⟩
    cases unlinked with
    | true => simp at hpart'
    | false => exact hpart part (by simpa using hpart')
  | opened offset hawaiting htransfer =>
    refine ⟨fun part hpart' => ?_, by simpa using hfinal⟩
    simp only [Gateway.file_setTransfer, Gateway.file_setPart_self, openPart] at hpart'
    cases hold : (w.file state.destination).part with
    | none =>
      have hnil : part = [] := by
        split at hpart' <;> simpa [hold] using hpart'.symm
      exact hnil ▸ List.nil_prefix
    | some old =>
      split at hpart'
      · rw [hold] at hpart'
        exact Option.some.inj hpart' ▸ hpart old hold
      · exact Option.some.inj hpart' ▸ List.nil_prefix
  | chunk bytes offset received hawaiting htransfer =>
    refine ⟨fun part hpart' => ?_, by simpa using hfinal⟩
    rw [hawaiting] at hat
    obtain ⟨old, hold, hlength⟩ := hat.2 offset received htransfer
    simp only [Gateway.file_setTransfer, Gateway.file_setPart_self, hold, Option.map_some,
      Option.some.injEq] at hpart'
    have hnext := hhonest bytes offset received rfl htransfer
    rw [List.drop_drop, ← hlength] at hnext
    exact hpart' ▸ append_prefix (hpart old hold) hnext
  | renamed bytes hawaiting hbytes =>
    rw [hawaiting] at hat
    obtain rfl : bytes = remote := Option.some.inj (hbytes.symm.trans hat)
    exact ⟨by simp, by simp⟩
  | _ => exact ⟨hpart, hfinal⟩

/-- A task that waits on where it was. -/
theorem effect_stays (h : Effect hub sha256 w k task state moment w₁ none)
    (hat : At remote (w.file state.destination).part (w.transfer k) task.awaiting) :
    At remote (w₁.file state.destination).part (w₁.transfer k) task.awaiting := by
  cases h with
  | partTooLong _ _ hawaiting =>
    rw [hawaiting]
    intro offset htransfer hpos
    obtain rfl : 0 = offset := by simpa using htransfer
    exact absurd hpos (Nat.lt_irrefl 0)
  | request _ _ requested hawaiting hoffset =>
    rw [hawaiting]
    intro offset htransfer hpos
    obtain rfl : requested = offset := by simpa using htransfer
    exact hoffset hpos
  | rerequest _ _ _ _ hawaiting =>
    rw [hawaiting]
    intro offset htransfer
    simp at htransfer
  | opened requested hawaiting htransfer =>
    rw [hawaiting] at hat ⊢
    refine ⟨fun offset hopening => by simp at hopening, fun offset received hwriting => ?_⟩
    obtain ⟨rfl, rfl⟩ : requested = offset ∧ 0 = received := by simpa using hwriting
    simp only [Gateway.file_setTransfer, Gateway.file_setPart_self, openPart]
    by_cases hpos : 0 < requested
    · obtain ⟨bytes, hbytes, hlength⟩ := hat.1 requested htransfer hpos
      exact ⟨bytes, by rw [if_pos hpos, hbytes]; rfl, hlength⟩
    · exact ⟨[], if_neg hpos, by simp only [List.length_nil]; omega⟩
  | chunk bytes requested before hawaiting htransfer =>
    rw [hawaiting] at hat ⊢
    refine ⟨fun offset hopening => by simp at hopening, fun offset received hwriting => ?_⟩
    obtain ⟨rfl, rfl⟩ : requested = offset ∧ before + bytes.length = received := by
      simpa using hwriting
    obtain ⟨old, hold, hlength⟩ := hat.2 requested before htransfer
    refine ⟨old ++ bytes, ?_, ?_⟩
    · simp [hold]
    · rw [List.length_append, hlength]
      omega

/-- A task whose await is settled is where the next one needs it. -/
theorem effect_next {settled : Settled} {p' : Point}
    (h : Effect hub sha256 w k task state moment w₁ (some settled))
    (hnext : Next w.queue state (Task.point task) settled p')
    (hpart : ∀ part, (w.file state.destination).part = some part → part <+: remote)
    (hfits : Fits remote (w.total state.id))
    (hat : At remote (w.file state.destination).part (w.transfer k) task.awaiting) :
    At remote (w₁.file state.destination).part (w₁.transfer k) p'.awaiting := by
  have hstats : ∀ found, settled = .manifest found →
      At remote (w₁.file state.destination).part (w₁.transfer k) .prepare := by
    intro found hfound offset htransfer
    rw [(h.of_manifest (congrArg some hfound)).1] at htransfer
    cases htransfer
  have hwhole : Whole task.awaiting settled →
      (w₁.file state.destination).part = some remote := by
    rintro (⟨-, hpartWhole⟩ | ⟨hbody, hok⟩)
    · obtain ⟨rfl, bytes, hbytes, hsize⟩ := h.of_partWhole (congrArg some hpartWhole)
      rw [hbytes, whole_of_total (hpart bytes hbytes) hfits (.inr hsize)]
    · obtain ⟨rfl, offset, received, htransfer, hsize⟩ := h.of_body (congrArg some hok) hbody
      rw [hbody] at hat
      obtain ⟨bytes, hbytes, hlength⟩ := hat.2 offset received htransfer
      rw [hbytes, whole_of_total (hpart bytes hbytes) hfits (hlength ▸ hsize)]
  cases hnext with
  | hashKnown hash found => exact hstats found rfl
  | hashFound hash => exact hstats (some hash) rfl
  | hashFailed => exact hstats none rfl
  | registers | returns | registered | retries | waits | ends => trivial
  | digests _ _ h => exact hwhole h
  | renames _ h => exact hwhole h
  | body offset =>
    obtain ⟨hopening, hdisk, hawaiting, hrequested⟩ := h.of_response rfl
    rw [hawaiting] at hat
    refine ⟨fun opening htransfer hpos => ?_, fun _ _ htransfer => ?_⟩
    · rw [hopening] at htransfer
      obtain rfl := Transfer.opening.inj htransfer
      rcases hrequested with hrequest | rfl
      · rw [Gateway.file, hdisk]
        exact hat offset hrequest hpos
      · exact absurd hpos (Nat.lt_irrefl 0)
    · rw [hopening] at htransfer
      cases htransfer
  | verified hawaiting =>
    obtain ⟨rfl, -⟩ := h.of_digest rfl hawaiting
    have hdigest : task.awaiting = .digest := hawaiting
    rw [hdigest] at hat
    exact hat

/-- A download that completes leaves the whole remote file. -/
theorem effect_completes {settled : Settled}
    (h : Effect hub sha256 w k task state moment w₁ (some settled))
    (hcompletes : Completes task.awaiting settled)
    (hfinal : ∀ bytes, (w.file state.destination).final = some bytes → bytes = remote)
    (hat : At remote (w.file state.destination).part (w.transfer k) task.awaiting) :
    (w₁.file state.destination).final = some remote := by
  rcases hcompletes with ⟨-, hthere⟩ | ⟨hrename, hok⟩
  · obtain ⟨rfl, -, bytes, hbytes, -⟩ := h.of_alreadyThere (congrArg some hthere)
    rw [hbytes, hfinal bytes hbytes]
  · obtain ⟨-, bytes, hbytes, rfl⟩ := h.of_rename (congrArg some hok) hrename
    rw [hrename] at hat
    obtain rfl : bytes = remote := Option.some.inj (hbytes.symm.trans hat)
    rw [Gateway.file_setFile_self]

end Moment

/-! ## Every step -/

section Step

variable {cfg : Config} {hub : Hub} {sha256 : Bytes → String} {destination : String} {remote : Bytes}
  {w w' : Gateway}

theorem launches_good : Launches (Good destination remote w) fun _ _ => True :=
  fun _ _ _ _ _ _ => trivial

/-- A request of the operator or of a client touches no file. -/
theorem Inv.request (hsize : TrueSize cfg hub destination remote) (h : Inv destination remote w)
    {e : DownloadQueue.Event} {sizes : KeyedMap String ℕ} {queue : Downloads}
    (hrequested : Requested cfg hub w e sizes queue) :
    Inv destination remote { w with totalBytes := sizes, queue := queue } where
  part := h.part
  final := h.final
  sizes id r hr hd := by
    rcases request_recordOf hrequested.request hrequested.step hr with hold | ⟨rfl, hash, hnew⟩
    · have hsame := h.sizes id r hold hd
      rwa [Gateway.total, ← hrequested.known id (hold ▸ rfl)] at hsame
    · obtain ⟨file, hlisted, hdestination, -, hlength⟩ := hrequested.starts r hash hnew
      rw [Gateway.total, hlength, Option.getD_some]
      exact .inr (hsize r.repoId r.filePath file (hd ▸ hdestination) hlisted)
  keyed := Keyed.request h.keyed hrequested.request hrequested.step
  persisted := h.persisted
  distinct := h.distinct
  tasks := h.tasks.request launches_good hrequested.request hrequested.step fun _ _ _ => trivial

theorem Inv.persist (h : Inv destination remote w) :
    Inv destination remote
      { w with persisted := w.queue.jobs.map fun job => (job, w.total job.id) } := by
  have hjob : ∀ job ∈ w.queue.jobs, w.queue.states.get? job.id = some job := by
    intro job hmem
    obtain ⟨id, -, hget⟩ := List.mem_filterMap.mp hmem
    have hid := h.keyed id _ (recordOf_of_state hget)
    exact (congrArg w.queue.states.get? hid).trans hget
  refine ⟨h.part, h.final, h.sizes, h.keyed, ?_, ?_, h.tasks⟩
  · intro job hmem hd
    obtain ⟨job, hjobs, rfl⟩ := List.mem_map.mp hmem
    exact h.sizes job.id _ (recordOf_of_state (hjob job hjobs)) hd
  · intro a ha b hb hid
    obtain ⟨a, hajobs, rfl⟩ := List.mem_map.mp ha
    obtain ⟨b, hbjobs, rfl⟩ := List.mem_map.mp hb
    have hsame : a = b := Option.some.inj
      ((hjob a hajobs).symm.trans ((congrArg w.queue.states.get? hid).trans (hjob b hbjobs)))
    rw [hsame]

theorem Inv.restarted (h : Inv destination remote w) (readable : Bool) :
    Inv destination remote (restart cfg w readable) := by
  obtain ⟨u, hrestored, hleft⟩ := restore_restored cfg
    ((if readable then w.persisted else []).map Prod.fst)
  have hrecord : ∀ id r, recordOf (restart cfg w readable).queue id = some r →
      ∃ job ∈ (if readable then w.persisted else []), job.1.id = id ∧
        DownloadState.record job.1 = r := by
    intro id r hr
    obtain ⟨state, hstate, hid, hrecord⟩ :=
      hrestored.records id r ((hleft.frame.records id).symm.trans hr)
    obtain ⟨job, hjob, rfl⟩ := List.mem_map.mp hstate
    exact ⟨job, hjob, hid, hrecord⟩
  have hpersisted : ∀ job ∈ (if readable then w.persisted else []), job ∈ w.persisted := by
    intro job hjob
    split at hjob
    · exact hjob
    · cases hjob
  refine ⟨h.part, h.final, ?_, ?_, h.persisted, h.distinct, ?_⟩
  · intro id r hr hd
    obtain ⟨job, hjob, hid, rfl⟩ := hrecord id r hr
    rcases get?_foldl_sizes (if readable then w.persisted else []) .empty id with
      ⟨-, hnone⟩ | ⟨other, hother, hotherId, hget⟩
    · exact absurd hid (hnone job hjob)
    · obtain rfl := h.distinct job (hpersisted job hjob) other (hpersisted other hother)
        (hid.trans hotherId.symm)
      have htotal : (restart cfg w readable).total id = job.2 := congrArg (Option.getD · 0) hget
      rw [htotal]
      exact h.persisted job (hpersisted job hjob) hd
  · intro id r hr
    obtain ⟨job, -, hid, rfl⟩ := hrecord id r hr
    exact hid
  · exact Sound.left launches_good hrestored.sound hleft

section Progress

variable {w₁ : Gateway} {k : ℕ} {task : Task} {state : DownloadState} {moment : Moment}
  {settled : Option Settled}

theorem Inv.files (h : Inv destination remote w)
    (heffect : Effect hub sha256 w k task state moment w₁ settled)
    (hgood : Good destination remote w k (Task.point task) (DownloadState.record state))
    (hk : state.destination = destination → executingAt w k = some destination)
    (hhonest : Honest destination remote w (.progress k moment)) :
    (∀ part, (w₁.file destination).part = some part → part <+: remote) ∧
      ∀ bytes, (w₁.file destination).final = some bytes → bytes = remote := by
  by_cases hd : state.destination = destination
  · have hat := hgood hd
    subst hd
    refine effect_files heffect h.part h.final hat ?_
    rintro bytes offset received rfl htransfer
    simp only [Honest, htransfer, HonestChunk] at hhonest
    exact hhonest (hk rfl)
  · rw [heffect.isLocal.file destination (Ne.symm hd)]
    exact ⟨h.part, h.final⟩

theorem Inv.sizes_after (h : Inv destination remote w)
    (heffect : Effect hub sha256 w k task state moment w₁ settled) (id : String) (r : Record)
    (hr : recordOf w.queue id = some r) (hd : r.destination = destination) :
    Fits remote (w₁.total id) := by
  have hfits := h.sizes id r hr hd
  rcases heffect.isLocal.total id with hsame | ⟨-, rangeTotal, length, hanswered⟩
  · rwa [hsame]
  · rw [hanswered]
    exact fits_firstTruthy hfits

/-- A task that waits on. -/
theorem Inv.stays (h : Inv destination remote w)
    (heffect : Effect hub sha256 w k task state moment w₁ none)
    (hp : (points w.queue)[k]? = some (Task.point task))
    (hr : recordOf w.queue task.id = some (DownloadState.record state))
    (hother : ∀ j q r, j ≠ k → (points w.queue)[j]? = some q → recordOf w.queue q.id = some r →
      Good destination remote w j q r → Good destination remote w₁ j q r) :
    Sound (Good destination remote w₁) (fun _ _ => True) w₁.queue := by
  rw [heffect.isLocal.queue]
  refine h.tasks.mono fun j q r hq hqr hgood => ?_
  by_cases hjk : j = k
  · subst hjk
    obtain rfl := Option.some.inj (hp.symm.trans hq)
    obtain rfl := Option.some.inj (hr.symm.trans hqr)
    intro hd
    have hd : state.destination = destination := hd
    have hat := hgood hd
    subst hd
    exact effect_stays heffect hat
  · exact hother j q r hjk hq hqr hgood

/-- A task whose await is settled. -/
theorem Inv.moves (h : Inv destination remote w) {settled : Settled} {queue : Downloads}
    (heffect : Effect hub sha256 w k task state moment w₁ (some settled))
    (htask : w.queue.tasks[k]? = some task) (hstate : w.queue.states.get? task.id = some state)
    (hqueue : DownloadQueue.step cfg w.queue (.progress k settled) = some queue)
    (hother : ∀ j q r, j ≠ k → (points w.queue)[j]? = some q → recordOf w.queue q.id = some r →
      Good destination remote w j q r → Good destination remote w₁ j q r) :
    Sound (Good destination remote w₁) (fun _ _ => True) queue := by
  refine h.tasks.progress launches_good hqueue hother ?_ fun _ _ _ _ _ _ => trivial
  intro state' p p' hp hstate' hnext _ hgood hd
  have hpoint : (points w.queue)[k]? = some (Task.point task) := point_of_task htask
  obtain rfl := Option.some.inj (hpoint.symm.trans hp)
  obtain rfl := Option.some.inj (hstate.symm.trans hstate')
  have hd : state.destination = destination := hd
  have hat := hgood hd
  subst hd
  have hid : state.id = task.id := h.keyed task.id _ (recordOf_of_state hstate)
  refine effect_next heffect hnext h.part ?_ hat
  exact h.sizes state.id _ (hid ▸ recordOf_of_state hstate) rfl

theorem Inv.progress (h : Inv destination remote w) (halone : Alone destination w)
    (hhonest : Honest destination remote w (.progress k moment))
    (hstep : step cfg hub sha256 w (.progress k moment) = some w') :
    Intact destination remote w (.progress k moment) w' ∧ Inv destination remote w' := by
  obtain ⟨task, state, w₁, settled, htask, hstate, heffect, hsettles, hrunning⟩ :=
    step_progress hstep
  have hlocal : Local w k state w₁ := heffect.isLocal
  have hp : (points w.queue)[k]? = some (Task.point task) := point_of_task htask
  have hr : recordOf w.queue task.id = some (DownloadState.record state) := recordOf_of_state hstate
  obtain ⟨r, hr', hgood⟩ := h.tasks.tasks k _ hp
  obtain rfl : DownloadState.record state = r := Option.some.inj (hr.symm.trans hr')
  have hk : state.destination = destination → executingAt w k = some destination :=
    fun hd => hd ▸ executingAt_of hp hr hrunning
  have hother : ∀ j q r', j ≠ k → (points w.queue)[j]? = some q →
      recordOf w.queue q.id = some r' → Good destination remote w j q r' →
        Good destination remote w₁ j q r' := good_other halone hlocal (lt_of_point hp) hk
  have hfiles := h.files heffect hgood hk hhonest
  have hsizes := h.sizes_after heffect
  cases settled with
  | none =>
    obtain rfl : w' = w₁ := hsettles
    have hqueue : w'.queue = w.queue := hlocal.queue
    refine ⟨⟨hfiles.1, ?_⟩, hfiles.1, hfiles.2, hqueue ▸ hsizes, hqueue ▸ h.keyed,
      hlocal.persisted ▸ h.persisted, hlocal.persisted ▸ h.distinct, h.stays heffect hp hr hother⟩
    intro _ _ id _ _ _ _ hcompleted hbefore
    exact absurd (hqueue ▸ hcompleted) hbefore
  | some settled =>
    obtain ⟨queue, hqueue, rfl⟩ := settle_eq_some hsettles
    rw [hlocal.queue] at hqueue
    have hrecords := progress_recordOf hqueue
    have htasks := h.moves heffect htask hstate hqueue hother
    refine ⟨⟨hfiles.1, ?_⟩, hfiles.1, hfiles.2, ?_, ?_, hlocal.persisted ▸ h.persisted,
      hlocal.persisted ▸ h.distinct, htasks.mono fun _ _ _ _ _ hgood => hgood⟩
    · intro _ _ id r _ hid hd hcompleted hbefore
      obtain ⟨p, hpk, rfl, hcompletes⟩ := progress_completed hqueue hcompleted hbefore
      obtain rfl := Option.some.inj (hp.symm.trans hpk)
      obtain rfl := Option.some.inj (hr.symm.trans ((hrecords _).symm.trans hid))
      have hd : state.destination = destination := hd
      have hat := hgood hd
      subst hd
      have hwhole := effect_completes heffect hcompletes h.final hat
      exact hwhole
    · exact fun id r hid => hsizes id r ((hrecords id).symm.trans hid)
    · exact fun id r hid => h.keyed id r ((hrecords id).symm.trans hid)

end Progress

theorem Inv.step (hsize : TrueSize cfg hub destination remote) {e : Event}
    (h : Inv destination remote w) (halone : Alone destination w)
    (hhonest : Honest destination remote w e)
    (hstep : DownloadFiles.step cfg hub sha256 w e = some w') :
    Intact destination remote w e w' ∧ Inv destination remote w' := by
  cases step_moves hstep with
  | progress k moment _ hstep => exact h.progress halone hhonest hstep
  | request hother hrequested =>
    have hinv := h.request hsize hrequested
    refine ⟨⟨hinv.part, ?_⟩, hinv⟩
    intro k moment _ _ he
    exact absurd he (hother k moment)
  | persist => exact ⟨⟨h.part, nofun⟩, h.persist⟩
  | restart readable => exact ⟨⟨h.part, nofun⟩, h.restarted readable⟩

end Step

/-- The destination starts with neither file. -/
theorem initial_inv {destination : String} {remote : Bytes} {disk : KeyedMap String StoredFile}
    (hdisk : (disk.get? destination).getD ⟨none, none⟩ = ⟨none, none⟩) :
    Inv destination remote (.initial disk) where
  part := by simp [Gateway.file, Gateway.initial, hdisk]
  final := by simp [Gateway.file, Gateway.initial, hdisk]
  sizes := by simp [recordOf, Gateway.initial, Downloads.initial]
  keyed := by simp [recordOf, Gateway.initial, Downloads.initial]
  persisted := nofun
  distinct := nofun
  tasks := initial_sound

/-- However the attempts are interrupted and taken up again: while one task at a
time works for the destination and the server is honest, the `.part` is a prefix
of the remote file, and a completed download is all of it. -/
theorem resumed_transfer_intact (cfg : Config) (hub : Hub) (sha256 : Bytes → String)
    (destination : String) (remote : Bytes) (hsize : TrueSize cfg hub destination remote)
    (disk : KeyedMap String StoredFile)
    (hdisk : (disk.get? destination).getD ⟨none, none⟩ = ⟨none, none⟩) (events : List Event)
    (hruns : EveryStep (step cfg hub sha256)
      (fun w e _ => Alone destination w ∧ Honest destination remote w e) (.initial disk) events) :
    EveryStep (step cfg hub sha256) (Intact destination remote) (.initial disk) events := by
  refine everyStep_guarded (Inv destination remote) _ _ ?_ (initial_inv hdisk) hruns
  rintro w e w' h hstep ⟨halone, hhonest⟩
  exact h.step hsize halone hhonest hstep

def sampleConfig : Config :=
  ⟨2, 100, fun repoId filePath => .ok ("huggingface/" ++ repoId ++ "/" ++ filePath)⟩

def sampleHub : Hub := ⟨fun _ => [⟨"m.gguf", 3, none⟩]⟩

/-- The first attempt is cut off after a byte, and the second has the rest. -/
def resumedRun : List Event :=
  .start "org/repo" "m.gguf" true "a" ::
    [.hash true, .stats true true, .response 200 0 3 true, .opened, .chunk [1],
      .thrown (some ⟨"terminated", ""⟩), .ok, .hash true, .stats true true, .response 206 3 2 true,
      .opened, .chunk [2, 3], .bodyEnds, .renamed].map (Event.progress 0)

theorem resumed_run_intact :
    EveryStep (step sampleConfig sampleHub fun _ => "")
      (Intact "huggingface/org/repo/m.gguf" [1, 2, 3]) (.initial .empty) resumedRun := by
  have hsize : TrueSize sampleConfig sampleHub "huggingface/org/repo/m.gguf" [1, 2, 3] := by
    intro repoId filePath file _ hfile
    obtain rfl := List.mem_singleton.mp (List.mem_of_find?_eq_some hfile)
    rfl
  exact resumed_transfer_intact _ _ _ _ _ hsize .empty rfl resumedRun (by decide +kernel)

example : ((run (step sampleConfig sampleHub fun _ => "") (.initial .empty) resumedRun).map
    fun w => (w.file "huggingface/org/repo/m.gguf").final) = some (some [1, 2, 3]) := by
  decide +kernel

end ModelForge.ResumeIntegrity
