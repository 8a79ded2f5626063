import ModelForge.VoiceModels

set_option autoImplicit false

/-!
# Installs of speech models

`activeInstallId` keeps a second install out while one is under way, and every way out of
an install clears it.
-/
namespace ModelForge.InstallJobs
open EventStream (JsString js)
open JsonText (JsNumber)
open Participants (get_of_concat)
open ReservationCover (trim)
open RunInvariant (run run_invariant)
open RuntimeConfig VoiceModels

variable {readNumber : List Char → Option JsNumber} {env : VoiceEnv} {w v : World} {i id : ℕ} {task : Task} {e : Event}

/-! ## One install at a time -/

def jobAt (w : World) (i : ℕ) : Option ℕ := w.tasks[i]?.bind Task.job?

theorem jobAt_spawn (h : task.job? = none) : jobAt (w.spawn task) = jobAt w :=
  funext fun j => Participants.bind_concat h w.tasks j

theorem jobAt_put {next : Task} (htask : w.tasks[i]? = some task) (hjob : next.job? = task.job?) :
    jobAt (w.put i next) = jobAt w := by
  funext j
  simp only [jobAt, World.put, Participants.get_modify]
  split
  next hij => rw [← hij, htask, Option.map_some, Option.bind_some, Option.bind_some, hjob]
  · rfl

theorem jobAt_done (w : World) (i j : ℕ) : jobAt (w.put i .done) j = if i = j then none else jobAt w j := by
  simp only [jobAt, World.put, Participants.get_modify]
  split
  · cases w.tasks[j]? <;> rfl
  · rfl

/-- The job marked as active is the one in progress, and one task works on it. -/
structure Single (w : World) : Prop where
  active : ∀ id, w.activeInstallId = some id →
    (∃ i, jobAt w i = some id) ∧ ∃ job, w.jobs[id]? = some job ∧ job.InProgress
  worked : ∀ i id, jobAt w i = some id → w.activeInstallId = some id
  unique : ∀ i j id, jobAt w i = some id → jobAt w j = some id → i = j
  progress : ∀ id job, w.jobs[id]? = some job → job.InProgress → w.activeInstallId = some id

theorem Single.congr (h : Single w) (hjobs : v.jobs = w.jobs) (hactive : v.activeInstallId = w.activeInstallId)
    (hat : jobAt v = jobAt w) : Single v where
  active := by rw [hjobs, hactive, hat]; exact h.active
  worked := by rw [hactive, hat]; exact h.worked
  unique := by rw [hat]; exact h.unique
  progress := by rw [hjobs, hactive]; exact h.progress

theorem Single.idle (hactive : w.activeInstallId = none) (hat : ∀ i, jobAt w i = none)
    (hjobs : ∀ (id : ℕ) job, w.jobs[id]? = some job → ¬ job.InProgress) : Single w where
  active := fun _ hid => nomatch hactive.symm.trans hid
  worked := fun i _ hid => nomatch (hat i).symm.trans hid
  unique := fun i _ _ hid => nomatch (hat i).symm.trans hid
  progress := fun id job hjob hprogress => absurd hprogress (hjobs id job hjob)

theorem Single.ended (h : Single w) (hat : jobAt w i = some id) {status : JobStatus}
    (hfinal : status ≠ .queued ∧ status ≠ .downloading) (message : JsString) (error : Option JsString)
    (now : JsString) : Single ((w.finish id status message error now).put i .done) := by
  have hactive := h.worked i id hat
  refine .idle (if_pos hactive) (fun j => ?_) (fun k job hjob hprogress => ?_)
  · rw [jobAt_done]
    split
    · rfl
    next hij =>
      rw [Option.eq_none_iff_forall_ne_some]
      intro k hk
      have hk : jobAt w j = some k := hk
      obtain rfl := Option.some.inj (hactive.symm.trans (h.worked j k hk))
      exact hij (h.unique i j id hat hk)
  · rcases Participants.get_of_modify hjob with ⟨-, before, -, rfl⟩ | ⟨hne, hbefore⟩
    · rcases hprogress with hstatus | hstatus
      · exact hfinal.1 hstatus
      · exact hfinal.2 hstatus
    · exact hne (Option.some.inj (hactive.symm.trans (h.progress k job hbefore hprogress))).symm

theorem Single.resumed (h : Single w) (htask : w.tasks[i]? = some task) {failure : Option JsString} {now : JsString}
    (hres : Resumed w i task failure now v) : Single v := by
  have hat : jobAt w i = task.job? := by rw [jobAt, htask, Option.bind_some]
  cases hres with
  | kept cached next hjob _ _ =>
    rcases hjob with hjob | ⟨id, hjob, hnone⟩
    · exact h.congr rfl rfl (jobAt_put htask hjob)
    · obtain ⟨-, job, hsome, -⟩ := h.active id (h.worked i id (hat.trans hjob))
      cases hnone.symm.trans hsome
  | ended cached id status message error hjob hfinal =>
    have hcached : Single { w with cached := cached } := h.congr rfl rfl rfl
    exact hcached.ended (hat.trans hjob) hfinal message error now
  | opened writer config htask_eq _ =>
    subst htask_eq
    cases writer <;> exact h.congr rfl rfl (jobAt_put htask rfl)
  | wrote writer config htask_eq _ =>
    subst htask_eq
    cases writer <;> exact h.congr rfl rfl (jobAt_put htask rfl)

/-- Nothing is under way once the job that is marked as active is not in progress. -/
theorem Single.inactive (h : Single w)
    (hfree : ∀ job, getActiveVoiceModelInstall w = some job → ¬ job.InProgress) : w.activeInstallId = none := by
  rw [Option.eq_none_iff_forall_ne_some]
  intro id hid
  obtain ⟨-, job, hjob, hprogress⟩ := h.active id hid
  refine hfree job ?_ hprogress
  rw [getActiveVoiceModelInstall, hid, Option.bind_some, hjob]

theorem jobAt_of_spawn (h : jobAt (w.spawn task) i = some id) :
    jobAt w i = some id ∨ i = w.tasks.length ∧ task.job? = some id := by
  obtain ⟨t, ht, hid⟩ := Option.bind_eq_some_iff.mp h
  rcases get_of_concat ht with hold | ⟨hi, rfl⟩
  · exact .inl (Option.bind_eq_some_iff.mpr ⟨t, hold, hid⟩)
  · exact .inr ⟨hi, hid⟩

/-- Where no job is active, none is in progress and no task works on one. -/
theorem Single.free (h : Single w) (hactive : w.activeInstallId = none) :
    (∀ i, jobAt w i = none) ∧ ∀ (id : ℕ) job, w.jobs[id]? = some job → ¬ job.InProgress := by
  refine ⟨fun i => ?_, fun id job hjob hprogress => nomatch hactive.symm.trans (h.progress id job hjob hprogress)⟩
  rw [Option.eq_none_iff_forall_ne_some]
  exact fun id hid => nomatch hactive.symm.trans (h.worked i id hid)

theorem Single.begun (h : Single w) (hactive : w.activeInstallId = none) {job : VoiceModelJob}
    (hprogress : job.InProgress) (htask : task.job? = some w.jobs.length) :
    Single ({ w with jobs := w.jobs ++ [job], activeInstallId := some w.jobs.length }.spawn task) := by
  obtain ⟨hat, hjobs⟩ := h.free hactive
  have hworked : ∀ i id, jobAt ({ w with
      jobs := w.jobs ++ [job], activeInstallId := some w.jobs.length }.spawn task) i = some id →
        i = w.tasks.length ∧ some w.jobs.length = some id := by
    intro i id hid
    rcases jobAt_of_spawn hid with hold | ⟨hi, hnew⟩
    · cases (hat i).symm.trans hold
    · exact ⟨hi, htask.symm.trans hnew⟩
  constructor
  · intro id hid
    obtain rfl := Option.some.inj hid
    refine ⟨⟨w.tasks.length, ?_⟩, job, by simp [World.spawn], hprogress⟩
    rw [jobAt, World.spawn, List.getElem?_concat_length, Option.bind_some, htask]
  · exact fun i id hid => (hworked i id hid).2
  · exact fun i j id hi hj => (hworked i id hi).1.trans (hworked j id hj).1.symm
  · intro id other hother hin
    rcases get_of_concat hother with hold | ⟨hid, -⟩
    · exact absurd hin (hjobs id other hold)
    · exact congrArg some hid.symm

theorem Single.begin (h : Single w) (hactive : w.activeInstallId = none) (provider : SttProviderId) (model : JsString)
    (activates : Bool) (now : JsString) : Single (w.begin provider model activates now) := by
  unfold World.begin
  split
  · exact h.begun hactive (.inr rfl) rfl
  · obtain ⟨hat, hjobs⟩ := h.free hactive
    rw [World.succeed, List.getElem?_concat_length]
    refine .idle (if_pos rfl) hat fun id job hjob hprogress => ?_
    rcases Participants.get_of_modify hjob with ⟨-, before, -, rfl⟩ | ⟨hne, hbefore⟩
    · cases hprogress <;> contradiction
    · rcases get_of_concat hbefore with hold | ⟨hid, -⟩
      · exact hjobs id job hold hprogress
      · exact hne hid
  · exact h.begun hactive (.inr rfl) rfl

theorem Single.step (h : Single w) (hstep : VoiceModels.step readNumber env w e = some v) : Single v := by
  cases e with
  | install provider model activates now =>
    obtain rfl := Option.some.inj hstep
    cases hstart : startSttModelInstall w provider model activates now with
    | error _ => exact h
    | ok next =>
      obtain ⟨-, hfree, rfl⟩ := startSttModelInstall_ok hstart
      exact h.begin (h.inactive hfree) provider _ activates now
  | activate provider model now =>
    obtain rfl := Option.some.inj hstep
    cases hstart : VoiceModels.activate w provider model now with
    | error _ => exact h
    | ok next =>
      obtain ⟨-, rfl⟩ := activate_ok hstart
      exact h.congr rfl rfl (jobAt_spawn rfl)
  | transcribe => exact Option.some.inj hstep ▸ h.congr rfl rfl (jobAt_spawn rfl)
  | resume i failure now =>
    obtain ⟨task, htask, hstep⟩ := Option.bind_eq_some_iff.mp hstep
    exact h.resumed htask (VoiceModels.resumed hstep)
  | restart =>
    obtain rfl := Option.some.inj hstep
    exact .idle rfl (fun _ => rfl) fun _ _ hjob => nomatch hjob

theorem put_at (htask : w.tasks[i]? = some task) (next : Task) : (w.put i next).tasks[i]? = some next := by
  rw [World.put, Participants.get_modify, if_pos rfl, htask, Option.map_some]

theorem goes_on {failure : Option JsString} {now : JsString} (h : Single w) (htask : w.tasks[i]? = some task)
    (hid : task.job? = some id) (hres : Resumed w i task failure now v) :
    v.activeInstallId = none ∨ ∃ next, v.tasks[i]? = some next ∧ next.job? = some id ∧ next.left < task.left := by
  have hat : jobAt w i = some id := by rw [jobAt, htask, Option.bind_some, hid]
  have hactive := h.worked i id hat
  cases hres with
  | kept cached next hjob _ hless =>
    rcases hjob with hjob | ⟨j, hj, hnone⟩
    · exact .inr ⟨next, put_at htask next, hjob.trans hid, hless⟩
    · obtain rfl := Option.some.inj (hid.symm.trans hj)
      obtain ⟨-, job, hsome, -⟩ := h.active id hactive
      cases hnone.symm.trans hsome
  | ended cached j status message error hj hfinal =>
    obtain rfl := Option.some.inj (hid.symm.trans hj)
    exact .inl (if_pos hactive)
  | opened writer config task_eq _ =>
    subst task_eq
    refine .inr ⟨.writing writer config, put_at htask _, ?_, Nat.lt_succ_self 2⟩
    cases writer <;> exact hid
  | wrote writer config task_eq _ =>
    subst task_eq
    refine .inr ⟨.written writer, put_at htask _, ?_, Nat.lt_succ_self 1⟩
    cases writer <;> exact hid

end ModelForge.InstallJobs
