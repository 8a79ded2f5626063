import ModelForge.DownloadQueue
import ModelForge.RunInvariant

set_option autoImplicit false

/-!
# One task for each download

Which tasks are executing, what each stretch of code does to them, and when the
pump keeps them apart: `PumpClear` says that each download it launches has no
task of its own and none of its destination left.
-/
namespace ModelForge.DownloadRunners
open DownloadQueue RunInvariant

/-- Each task's download, and whether it is still executing. -/
def runners (s : Downloads) : List (String × Bool) := s.tasks.map fun task => (task.id, task.running)

def Runs (s : Downloads) (k : ℕ) (id : String) : Prop := (runners s)[k]? = some (id, true)

instance (s : Downloads) (k : ℕ) (id : String) : Decidable (Runs s k id) :=
  inferInstanceAs (Decidable ((runners s)[k]? = some (id, true)))

def runningTasks (s : Downloads) : ℕ := (runners s).countP Prod.snd

def destinationOf (s : Downloads) (id : String) : Option String :=
  (s.states.get? id).map DownloadState.destination

structure SingleRunner (cfg : Config) (s : Downloads) : Prop where
  perDownload : ∀ {i j : ℕ} {id : String}, Runs s i id → Runs s j id → i = j
  perDestination : ∀ {i j : ℕ} {id id' : String}, Runs s i id → Runs s j id' →
    destinationOf s id = destinationOf s id' → i = j
  ownController : ∀ (id : String) (k : ℕ), s.controllers.get? id = some k ↔ Runs s k id
  bounded : runningTasks s ≤ cfg.maxConcurrent

/-- No task of this download or of its destination is executing. -/
def Free (s : Downloads) (id : String) : Prop :=
  ∀ runner ∈ runners s, runner.2 = true →
    runner.1 ≠ id ∧ destinationOf s runner.1 ≠ destinationOf s id

/-- The pump finds each download that it launches from the queue free. -/
def PumpClear (cfg : Config) : List String → Downloads → Prop
  | [], _ => True
  | id :: rest, s =>
    s.controllers.size < cfg.maxConcurrent →
      match s.activeDownload? id with
      | none => PumpClear cfg rest s
      | some state =>
        if state.status = .queued then Free s id ∧ PumpClear cfg rest (launch s id)
        else PumpClear cfg rest s

def LaunchesFree (cfg : Config) (s : Downloads) (e : Event) : Prop :=
  ∀ u, turn cfg s e = some (.pump u) → PumpClear cfg u.queuedDownloadIds u

/-! ## What a stretch of code leaves as it is -/

structure SameRunners (s u : Downloads) : Prop where
  controllers : u.controllers = s.controllers
  runners : runners u = runners s
  destination : ∀ runner ∈ DownloadRunners.runners s,
    destinationOf u runner.1 = destinationOf s runner.1

/-- Every task's state object is there. -/
def Known (s : Downloads) : Prop := ∀ runner ∈ runners s, (destinationOf s runner.1).isSome

theorem SameRunners.refl (s : Downloads) : SameRunners s s := ⟨rfl, rfl, fun _ _ => rfl⟩

theorem SameRunners.trans {s u v : Downloads} (hsu : SameRunners s u) (huv : SameRunners u v) :
    SameRunners s v :=
  ⟨huv.controllers.trans hsu.controllers, huv.runners.trans hsu.runners, fun runner hr =>
    (huv.destination runner (hsu.runners ▸ hr)).trans (hsu.destination runner hr)⟩

theorem SameRunners.known {s u : Downloads} (h : SameRunners s u) (hs : Known s) : Known u := by
  intro runner hr
  rw [h.runners] at hr
  rw [h.destination runner hr]
  exact hs runner hr

theorem destinationOf_update {s : Downloads} {f : DownloadState → DownloadState}
    (hf : ∀ state, (f state).destination = state.destination) (id id' : String) :
    ((s.states.update id f).get? id').map DownloadState.destination = destinationOf s id' := by
  rw [KeyedMap.get?_update]
  by_cases h : id' = id
  · rw [if_pos h, Option.map_map]
    exact congrArg (fun g => Option.map g _) (funext hf)
  · rw [if_neg h]
    rfl

theorem SameRunners.mutate {s u : Downloads} (h : SameRunners s u) (id : String)
    {f : DownloadState → DownloadState}
    (hf : ∀ state, (f state).destination = state.destination) : SameRunners s (u.mutate id f) :=
  h.trans ⟨rfl, rfl, fun runner _ => destinationOf_update hf id runner.1⟩

theorem runners_suspend (s : Downloads) (k : ℕ) (f : Task → Task) :
    runners (s.suspend k f) =
      (s.tasks.modify k f).map fun task => (task.id, task.running) := rfl

theorem SameRunners.suspend {s u : Downloads} (h : SameRunners s u) {k : ℕ} {f : Task → Task}
    (hf : ∀ task, u.tasks[k]? = some task → (f task).id = task.id ∧ (f task).running = task.running) :
    SameRunners s (u.suspend k f) := by
  suffices hrunners : DownloadRunners.runners (u.suspend k f) = DownloadRunners.runners u by
    exact h.trans ⟨rfl, hrunners, fun _ _ => rfl⟩
  rw [runners_suspend]
  refine List.ext_getElem? fun i => ?_
  rw [DownloadRunners.runners, List.getElem?_map, List.getElem?_map, List.getElem?_modify]
  by_cases hik : k = i
  · subst hik
    cases htask : u.tasks[k]? with
    | none => simp
    | some task => simp [hf task htask]
  · simp [hik]

/-- A new state object is put under an id that no task has. -/
theorem SameRunners.set {s u : Downloads} (hs : Known s) (h : SameRunners s u) {id : String}
    (hid : s.states.get? id = none) (state : DownloadState) (active queue : List String)
    (hashes : KeyedMap String (Option String)) :
    SameRunners s { u with
      states := u.states.set id state
      activeDownloads := active
      queuedDownloadIds := queue
      expectedHashes := hashes } := by
  refine ⟨h.controllers, h.runners, fun runner hr => ?_⟩
  have hne : runner.1 ≠ id := by
    rintro rfl
    have := hs runner hr
    rw [destinationOf, hid] at this
    cases this
  rw [← h.destination runner hr]
  exact congrArg (Option.map _) (KeyedMap.get?_set_of_ne hne)

/-! ## What each stretch of code does to the tasks -/

/-- A stretch leaves the tasks executing as they were, or ends its own. -/
inductive TurnMove (s : Downloads) : Turn → Prop where
  | quiet {u : Downloads} (h : SameRunners s u) : TurnMove s (.quiet u)
  | pump {u : Downloads} (h : SameRunners s u) : TurnMove s (.pump u)
  | finish {u : Downloads} (h : SameRunners s u) (k : ℕ) (id : String) (hk : Runs s k id) :
      TurnMove s (finish u k id)

theorem retry_move (s : Downloads) (id : String) {τ : Turn}
    (h : retryHuggingFaceDownload s id = .ok τ) : TurnMove s τ := by
  unfold retryHuggingFaceDownload at h
  cases hjob : s.activeDownload? id with
  | none => simp [hjob] at h
  | some state =>
    simp only [hjob] at h
    by_cases hactive : state.status.active = true
    · rw [if_pos hactive] at h
      obtain rfl := Except.ok.inj h
      exact .quiet (.refl s)
    · rw [if_neg hactive] at h
      obtain rfl := Except.ok.inj h
      have hqueued : SameRunners s
          (s.mutate id fun state => { state with status := .queued, error := none }) :=
        (SameRunners.refl s).mutate id fun _ => rfl
      exact .pump (hqueued.trans ⟨rfl, rfl, fun _ _ => rfl⟩)

theorem start_move {cfg : Config} {s : Downloads} (hs : Known s) {id : String}
    (hid : s.states.get? id = none) {repoId filePath : String} {files : List HuggingFaceFile}
    {register : Bool} {τ : Turn}
    (h : startHuggingFaceDownload cfg s repoId filePath files register id = .ok τ) :
    TurnMove s τ := by
  unfold startHuggingFaceDownload at h
  split at h
  · cases h
  · dsimp only at h
    split at h
    · obtain rfl := Except.ok.inj h
      exact .quiet (.refl s)
    · split at h
      · exact retry_move s _ h
      · split at h
        · cases h
        · split at h
          · cases h
          · obtain rfl := Except.ok.inj h
            exact .pump ((SameRunners.refl s).set hs hid _ _ _ _)

theorem answered_move {s : Downloads} {answer : Except String Turn}
    (h : ∀ τ, answer = .ok τ → TurnMove s τ) : TurnMove s (answered s answer) := by
  cases answer with
  | error message => exact .quiet (.refl s)
  | ok τ => exact h τ rfl

theorem cancel_same (s : Downloads) (id : String) :
    SameRunners s (cancelHuggingFaceDownload s id).2 := by
  unfold cancelHuggingFaceDownload
  have hcancelled : SameRunners s
      (s.mutate id fun state => { state with status := .cancelled }) :=
    (SameRunners.refl s).mutate id fun _ => rfl
  split
  · exact .refl s
  · split
    · dsimp only
      split
      · exact hcancelled.suspend fun task _ => ⟨rfl, rfl⟩
      · exact hcancelled.trans ⟨rfl, rfl, fun _ _ => rfl⟩
    · exact .refl s

theorem remove_same (s : Downloads) (id : String) :
    SameRunners s (removeHuggingFaceDownload s id).2 := by
  unfold removeHuggingFaceDownload
  split
  · exact .refl s
  · split
    · exact .refl s
    · exact ⟨rfl, rfl, fun _ _ => rfl⟩

theorem restoreJob_same {s u : Downloads} (hs : Known s) (h : SameRunners s u) {job : DownloadState}
    (hid : s.states.get? job.id = none) : SameRunners s (restoreJob u job) := by
  unfold restoreJob
  split
  · exact h.set hs hid _ _ _ _
  · exact h.set hs hid _ _ _ _

theorem restore_same {s u : Downloads} (hs : Known s) (h : SameRunners s u)
    {jobs : List DownloadState} (hid : ∀ job ∈ jobs, s.states.get? job.id = none) :
    SameRunners s (jobs.foldl restoreJob u) := by
  induction jobs generalizing u with
  | nil => exact h
  | cons job rest ih =>
    exact ih (restoreJob_same hs h (hid job List.mem_cons_self))
      fun j hj => hid j (List.mem_cons_of_mem _ hj)

theorem restore_move {s : Downloads} (hs : Known s) {jobs : List DownloadState}
    (hid : ∀ job ∈ jobs, s.states.get? job.id = none) :
    TurnMove s (restoreHuggingFaceDownloads s jobs) := by
  have hsame : SameRunners s ((jobs.filter wellNamed).foldl restoreJob s) :=
    restore_same hs (.refl s) fun job hjob => hid job (List.mem_of_mem_filter hjob)
  unfold restoreHuggingFaceDownloads
  dsimp only
  split
  · exact .pump hsame
  · exact .quiet hsame

/-- Suspending an executing task again leaves it executing. -/
theorem SameRunners.await {s u : Downloads} (h : SameRunners s u) {k : ℕ} {task : Task}
    (htask : u.tasks[k]? = some task) (hrun : task.running = true) {f : Task → Task}
    (hid : (f task).id = task.id) (hnext : (f task).running = true) :
    SameRunners s (u.suspend k f) := by
  refine h.suspend fun other hother => ?_
  obtain rfl := Option.some.inj (htask.symm.trans hother)
  exact ⟨hid, hnext.trans hrun.symm⟩

section Resume

variable {s : Downloads} {k : ℕ} {task : Task} {state : DownloadState}

theorem mutated_await (htask : s.tasks[k]? = some task) (hrun : task.running = true)
    {f : DownloadState → DownloadState} {g : Task → Task}
    (hf : ∀ state, (f state).destination = state.destination)
    (hid : (g task).id = task.id) (hnext : (g task).running = true) :
    SameRunners s ((s.mutate task.id f).suspend k g) :=
  ((SameRunners.refl s).mutate task.id hf).await htask hrun hid hnext

theorem runs_of_task (htask : s.tasks[k]? = some task) (hrun : task.running = true) :
    Runs s k task.id := by
  rw [Runs, runners, List.getElem?_map, htask]
  exact congrArg (fun b => some (task.id, b)) hrun

theorem finish_move (htask : s.tasks[k]? = some task) (hrun : task.running = true)
    {u : Downloads} (h : SameRunners s u) : TurnMove s (finish u k task.id) :=
  .finish h k task.id (runs_of_task htask hrun)

theorem finishCancelled_move (htask : s.tasks[k]? = some task) (hrun : task.running = true) :
    TurnMove s (finishCancelled s k task.id) :=
  finish_move htask hrun ((SameRunners.refl s).mutate task.id fun _ => rfl)

theorem beginAttempt_move (htask : s.tasks[k]? = some task) (hrun : task.running = true)
    (attempt : ℕ) : TurnMove s (beginAttempt s k task state attempt) := by
  unfold beginAttempt
  split
  · exact finishCancelled_move htask hrun
  · exact .quiet (mutated_await htask hrun (fun _ => rfl) rfl rfl)

theorem caught_move (htask : s.tasks[k]? = some task) (hrun : task.running = true)
    (error : Option Thrown) : TurnMove s (caught s k task state error) := by
  unfold caught
  dsimp only
  split
  · exact finishCancelled_move htask hrun
  · split
    · exact .quiet (mutated_await htask hrun (fun _ => rfl) rfl rfl)
    · exact finish_move htask hrun ((SameRunners.refl s).mutate task.id fun _ => rfl)

theorem completeDownload_move (htask : s.tasks[k]? = some task) (hrun : task.running = true) :
    TurnMove s (completeDownload s k task state) := by
  unfold completeDownload
  dsimp only
  refine .quiet (mutated_await htask hrun (fun _ => rfl) rfl ?_)
  split <;> rfl

theorem verifyOrRename_move (htask : s.tasks[k]? = some task) (hrun : task.running = true) :
    TurnMove s (verifyOrRename s k task) := by
  unfold verifyOrRename
  split
  · exact .quiet (mutated_await htask hrun (fun _ => rfl) rfl rfl)
  · exact .quiet ((SameRunners.refl s).await htask hrun rfl rfl)

theorem expectedHashFound_move (htask : s.tasks[k]? = some task) (hrun : task.running = true)
    (known manifest : Option (Option String)) :
    TurnMove s (expectedHashFound s k task known manifest) := by
  unfold expectedHashFound
  dsimp only
  split
  · exact .quiet ((SameRunners.refl s).await htask hrun rfl rfl)
  · rename_i hash
    have hhash : SameRunners s { s with expectedHashes := s.expectedHashes.set task.id hash } :=
      ⟨rfl, rfl, fun _ _ => rfl⟩
    exact .quiet (hhash.await htask hrun rfl rfl)
  · exact .quiet ((SameRunners.refl s).await htask hrun rfl rfl)

theorem bodyStarts_move (htask : s.tasks[k]? = some task) (hrun : task.running = true)
    (offset : ℕ) : TurnMove s (bodyStarts s k task offset) :=
  .quiet (mutated_await htask hrun (fun _ => rfl) rfl rfl)

theorem resume_move (htask : s.tasks[k]? = some task) {settled : Settled} {τ : Turn}
    (h : resume s k task state settled = some τ) : TurnMove s τ := by
  have hrunning : ∀ {awaiting : Await}, task.awaiting = awaiting → awaiting ≠ .ended →
      task.running = true := fun haw hne => decide_eq_true (haw ▸ hne)
  cases settled with
  | manifest hash =>
    simp only [resume] at h
    split at h
    · rename_i known haw
      obtain rfl := Option.some.inj h
      exact expectedHashFound_move htask (hrunning haw nofun) known hash
    · cases h
  | alreadyThere =>
    simp only [resume, Option.ite_none_right_eq_some, Option.some.injEq] at h
    obtain ⟨haw, rfl⟩ := h
    exact completeDownload_move htask (hrunning haw nofun)
  | partWhole =>
    simp only [resume, Option.ite_none_right_eq_some, Option.some.injEq] at h
    obtain ⟨haw, rfl⟩ := h
    exact verifyOrRename_move htask (hrunning haw nofun)
  | response offset =>
    simp only [resume, Option.ite_none_right_eq_some, Option.some.injEq] at h
    obtain ⟨haw, rfl⟩ := h
    exact bodyStarts_move htask (hrunning haw nofun) offset
  | ok =>
    cases haw : task.awaiting <;> simp only [resume, haw, Option.some.injEq, reduceCtorEq] at h <;>
      subst h
    case body => exact verifyOrRename_move htask (hrunning haw nofun)
    case digest => exact .quiet ((SameRunners.refl s).await htask (hrunning haw nofun) rfl rfl)
    case rename => exact completeDownload_move htask (hrunning haw nofun)
    case registration =>
      exact .quiet ((SameRunners.refl s).await htask (hrunning haw nofun) rfl rfl)
    case returning => exact finish_move htask (hrunning haw nofun) (.refl s)
    case backoff => exact beginAttempt_move htask (hrunning haw nofun) _
  | thrown error =>
    cases haw : task.awaiting <;> simp only [resume, haw, Option.some.injEq, reduceCtorEq] at h <;>
      subst h <;> exact caught_move htask (hrunning haw nofun) error

end Resume

theorem turn_move {cfg : Config} {s : Downloads} (hs : Known s) {e : Event} {τ : Turn}
    (h : turn cfg s e = some τ) : TurnMove s τ := by
  cases e with
  | start repoId filePath files register id =>
    simp only [turn, Option.ite_none_right_eq_some, Option.some.injEq] at h
    obtain ⟨hid, rfl⟩ := h
    exact answered_move fun _ hτ => start_move hs hid hτ
  | retry id =>
    obtain rfl := Option.some.inj h
    exact answered_move fun _ hτ => retry_move s id hτ
  | cancel id =>
    obtain rfl := Option.some.inj h
    exact .quiet (cancel_same s id)
  | remove id =>
    obtain rfl := Option.some.inj h
    exact .quiet (remove_same s id)
  | restore jobs =>
    simp only [turn, Option.ite_none_right_eq_some, Option.some.injEq] at h
    obtain ⟨⟨hnew, -⟩, rfl⟩ := h
    exact restore_move hs fun job hjob => of_decide_eq_true (List.all_eq_true.mp hnew job hjob)
  | progress k settled =>
    simp only [turn] at h
    split at h
    · cases h
    · rename_i task htask
      split at h
      · cases h
      · exact resume_move htask h

/-! ## The pump -/

theorem runners_launch (s : Downloads) (id : String) :
    runners (launch s id) = runners s ++ [(id, true)] := List.map_append

theorem length_runners (s : Downloads) : (runners s).length = s.tasks.length := List.length_map _

theorem runs_launch {s : Downloads} {id id' : String} {k : ℕ} :
    Runs (launch s id) k id' ↔ Runs s k id' ∨ k = s.tasks.length ∧ id' = id := by
  unfold Runs
  rw [runners_launch, ← length_runners]
  rcases lt_trichotomy k (runners s).length with hk | rfl | hk
  · rw [List.getElem?_append_left hk]
    exact ⟨Or.inl, fun h => h.resolve_right fun h' => absurd h'.1 (Nat.ne_of_lt hk)⟩
  · rw [List.getElem?_concat_length, List.getElem?_eq_none (Nat.le_refl _)]
    simp [eq_comm]
  · rw [List.getElem?_eq_none (by simp; omega), List.getElem?_eq_none (Nat.le_of_lt hk)]
    simp [Nat.ne_of_gt hk]

theorem destinationOf_launch (s : Downloads) (id id' : String) :
    destinationOf (launch s id) id' = destinationOf s id' :=
  destinationOf_update (f := fun state => { state with attempt := 1 }) (fun _ => rfl) id id'

theorem runs_pumpLoop (cfg : Config) {k : ℕ} {id : String} (queue : List String) {s : Downloads}
    (h : Runs s k id) : Runs (pumpLoop cfg queue s) k id := by
  induction queue generalizing s with
  | nil => exact h
  | cons head rest ih =>
    unfold pumpLoop
    split
    · split
      · exact ih h
      · split
        · exact ih (runs_launch.mpr (.inl h))
        · exact ih h
    · exact h

theorem destinationOf_pumpLoop (cfg : Config) (id : String) (queue : List String) (s : Downloads) :
    destinationOf (pumpLoop cfg queue s) id = destinationOf s id := by
  induction queue generalizing s with
  | nil => rfl
  | cons head rest ih =>
    unfold pumpLoop
    split
    · split
      · exact ih s
      · split
        · exact (ih _).trans (destinationOf_launch s head id)
        · exact ih s
    · rfl

theorem free_iff {s : Downloads} {id : String} :
    Free s id ↔ ∀ k id', Runs s k id' → id' ≠ id ∧ destinationOf s id' ≠ destinationOf s id := by
  constructor
  · intro h k id' hk
    exact h (id', true) (List.mem_of_getElem? hk) rfl
  · rintro h ⟨id', b⟩ hr rfl
    obtain ⟨k, hk⟩ := List.mem_iff_getElem?.mp hr
    exact h k id' hk

/-- What the pump launches runs on, so two tasks that it should have kept apart
are still there when it returns. -/
theorem pumpClear_of_single {cfg : Config} (queue : List String) {s : Downloads}
    (h : SingleRunner cfg (pumpLoop cfg queue s)) : PumpClear cfg queue s := by
  induction queue generalizing s with
  | nil => trivial
  | cons id rest ih =>
    intro hroom
    rw [pumpLoop, if_pos hroom] at h
    cases hjob : s.activeDownload? id with
    | none =>
      simp only [hjob] at h
      exact ih h
    | some state =>
      simp only [hjob] at h
      by_cases hqueued : state.status = .queued
      · rw [if_pos hqueued] at h
        simp only [if_pos hqueued]
        refine ⟨free_iff.mpr fun k id' hk => ?_, ih h⟩
        have hnew : Runs (pumpLoop cfg rest (launch s id)) s.tasks.length id :=
          runs_pumpLoop cfg rest (runs_launch.mpr (.inr ⟨rfl, rfl⟩))
        have hold : Runs (pumpLoop cfg rest (launch s id)) k id' :=
          runs_pumpLoop cfg rest (runs_launch.mpr (.inl hk))
        have hlt : k < s.tasks.length := by
          rw [← length_runners]
          exact (List.getElem?_eq_some_iff.mp hk).1
        constructor
        · rintro rfl
          exact absurd (h.perDownload hold hnew) (Nat.ne_of_lt hlt)
        · intro hdest
          refine absurd (h.perDestination hold hnew ?_) (Nat.ne_of_lt hlt)
          rw [destinationOf_pumpLoop, destinationOf_pumpLoop, destinationOf_launch,
            destinationOf_launch, hdest]
      · rw [if_neg hqueued] at h
        simp only [if_neg hqueued]
        exact ih h

/-! ## The invariant -/

structure Inv (cfg : Config) (s : Downloads) : Prop where
  known : Known s
  ownController : ∀ (id : String) (k : ℕ), s.controllers.get? id = some k ↔ Runs s k id
  perDestination : ∀ {i j : ℕ} {id id' : String}, Runs s i id → Runs s j id' →
    destinationOf s id = destinationOf s id' → i = j
  counted : s.controllers.size = runningTasks s
  bounded : s.controllers.size ≤ cfg.maxConcurrent

variable {cfg : Config} {s : Downloads}

theorem Inv.single (h : Inv cfg s) : SingleRunner cfg s where
  perDownload hi hj :=
    Option.some.inj (((h.ownController _ _).mpr hi).symm.trans ((h.ownController _ _).mpr hj))
  perDestination := h.perDestination
  ownController := h.ownController
  bounded := h.counted ▸ h.bounded

theorem initial_inv (cfg : Config) : Inv cfg .initial where
  known := nofun
  ownController id k := by simp [Runs, runners, Downloads.initial]
  perDestination hi := by simp [Runs, runners, Downloads.initial] at hi
  counted := rfl
  bounded := Nat.zero_le _

theorem SameRunners.runs {u : Downloads} (h : SameRunners s u) {k : ℕ} {id : String} :
    Runs u k id ↔ Runs s k id := by
  unfold Runs
  rw [h.runners]

theorem Inv.same {u : Downloads} (hs : Inv cfg s) (h : SameRunners s u) : Inv cfg u where
  known := h.known hs.known
  ownController id k := by rw [h.controllers, h.runs, hs.ownController]
  perDestination hi hj hdest := by
    rw [h.runs] at hi hj
    refine hs.perDestination hi hj ?_
    rwa [h.destination _ (List.mem_of_getElem? hi), h.destination _ (List.mem_of_getElem? hj)]
      at hdest
  counted := by rw [h.controllers, hs.counted, runningTasks, runningTasks, h.runners]
  bounded := h.controllers ▸ hs.bounded

theorem Inv.launch {id : String} (hs : Inv cfg s) (hroom : s.controllers.size < cfg.maxConcurrent)
    (hknown : (destinationOf s id).isSome) (hfree : Free s id) : Inv cfg (launch s id) := by
  have habsent : s.controllers.get? id = none := by
    refine Option.eq_none_iff_forall_ne_some.mpr fun k hk => ?_
    exact (free_iff.mp hfree k id ((hs.ownController id k).mp hk)).1 rfl
  have hsize : (DownloadQueue.launch s id).controllers.size = s.controllers.size + 1 :=
    KeyedMap.size_set_of_absent habsent _
  refine ⟨?_, ?_, ?_, ?_, hsize ▸ hroom⟩
  · intro runner hr
    rw [destinationOf_launch]
    rw [runners_launch, List.mem_append, List.mem_singleton] at hr
    rcases hr with hr | rfl
    · exact hs.known runner hr
    · exact hknown
  · intro id' k
    rw [runs_launch, ← hs.ownController]
    have hget : (DownloadQueue.launch s id).controllers.get? id' =
        if id' = id then some s.tasks.length else s.controllers.get? id' := KeyedMap.get?_set _ _ _ _
    rw [hget]
    by_cases hid : id' = id
    · rw [if_pos hid, hid, habsent]
      simp [eq_comm]
    · rw [if_neg hid]
      simp [hid]
  · intro i j a b hi hj hdest
    rw [destinationOf_launch, destinationOf_launch] at hdest
    rcases runs_launch.mp hi with hold | ⟨rfl, rfl⟩ <;>
      rcases runs_launch.mp hj with hold' | ⟨rfl, rfl⟩
    · exact hs.perDestination hold hold' hdest
    · exact absurd hdest (free_iff.mp hfree i a hold).2
    · exact absurd hdest.symm (free_iff.mp hfree j b hold').2
    · rfl
  · rw [hsize, hs.counted, runningTasks, runningTasks, runners_launch, List.countP_append]
    rfl

theorem Inv.pumpLoop (queue : List String) (hs : Inv cfg s) (hclear : PumpClear cfg queue s) :
    Inv cfg (pumpLoop cfg queue s) := by
  induction queue generalizing s with
  | nil => exact hs.same ⟨rfl, rfl, fun _ _ => rfl⟩
  | cons id rest ih =>
    unfold DownloadQueue.pumpLoop
    split
    · rename_i hroom
      have hclear := hclear hroom
      split
      · rename_i hjob
        simp only [hjob] at hclear
        exact ih hs hclear
      · rename_i state hjob
        simp only [hjob] at hclear
        have hknown : (destinationOf s id).isSome := by
          rw [Downloads.activeDownload?, Option.ite_none_right_eq_some] at hjob
          rw [destinationOf, hjob.2]
          rfl
        split at hclear
        · rename_i hqueued
          rw [if_pos hqueued]
          exact ih (hs.launch hroom hknown hclear.1) hclear.2
        · rename_i hqueued
          rw [if_neg hqueued]
          exact ih hs hclear
    · exact hs.same ⟨rfl, rfl, fun _ _ => rfl⟩

/-! ## A task's end -/

def ended (s : Downloads) (k : ℕ) (id : String) : Downloads :=
  { s.suspend k fun task => { task with awaiting := .ended } with
    controllers := s.controllers.delete id
    expectedHashes := s.expectedHashes.delete id }

theorem runners_ended {k : ℕ} {id : String} (hk : Runs s k id) (id' : String) :
    runners (ended s k id') = (runners s).set k (id, false) := by
  have hlt : k < (runners s).length := (List.getElem?_eq_some_iff.mp hk).1
  change (s.tasks.modify k _).map _ = _
  refine List.ext_getElem? fun i => ?_
  rw [List.getElem?_map, List.getElem?_modify, List.getElem?_set]
  by_cases hik : k = i
  · subst hik
    rw [Runs, runners, List.getElem?_map, Option.map_eq_some_iff] at hk
    obtain ⟨task, htask, heq⟩ := hk
    rw [htask, ← (Prod.mk.inj heq).1]
    simp [hlt, Task.running]
  · rw [runners, List.getElem?_map]
    simp [hik]

theorem runs_ended {k : ℕ} {id : String} (hk : Runs s k id) (id' : String) {j : ℕ} {a : String} :
    Runs (ended s k id') j a ↔ Runs s j a ∧ j ≠ k := by
  have hlt : k < (runners s).length := (List.getElem?_eq_some_iff.mp hk).1
  rw [Runs, runners_ended hk, List.getElem?_set]
  by_cases hkj : k = j
  · subst hkj
    simp [hlt]
  · rw [if_neg hkj]
    exact ⟨fun h => ⟨h, Ne.symm hkj⟩, And.left⟩

theorem Inv.ended {k : ℕ} {id : String} (hs : Inv cfg s) (hk : Runs s k id) :
    Inv cfg (ended s k id) := by
  have hown : s.controllers.get? id = some k := (hs.ownController id k).mpr hk
  have hsize : (DownloadRunners.ended s k id).controllers.size + 1 = s.controllers.size :=
    KeyedMap.size_delete hown
  have hlt : k < (runners s).length := (List.getElem?_eq_some_iff.mp hk).1
  refine ⟨?_, ?_, ?_, ?_, ?_⟩
  · intro runner hr
    rw [runners_ended hk] at hr
    rcases List.mem_or_eq_of_mem_set hr with hr | rfl
    · exact hs.known runner hr
    · exact hs.known (id, true) (List.mem_of_getElem? hk)
  · intro id' j
    have hget : (DownloadRunners.ended s k id).controllers.get? id' =
        if id' = id then none else s.controllers.get? id' := KeyedMap.get?_delete _ _ _
    rw [hget, runs_ended hk]
    by_cases hid : id' = id
    · subst hid
      rw [if_pos rfl]
      exact ⟨nofun, fun h => absurd (hs.single.perDownload h.1 hk) h.2⟩
    · rw [if_neg hid, hs.ownController]
      refine ⟨fun h => ⟨h, ?_⟩, And.left⟩
      rintro rfl
      exact hid (Prod.mk.inj (Option.some.inj (h.symm.trans hk))).1
  · intro i j a b hi hj hdest
    exact hs.perDestination ((runs_ended hk id).mp hi).1 ((runs_ended hk id).mp hj).1 hdest
  · have hcount : runningTasks (DownloadRunners.ended s k id) + 1 = runningTasks s := by
      have hget : (runners s)[k] = (id, true) := (List.getElem?_eq_some_iff.mp hk).2
      have hpos : 0 < runningTasks s :=
        List.countP_pos_iff.mpr ⟨(id, true), List.mem_of_getElem? hk, rfl⟩
      rw [runningTasks, runners_ended hk, List.countP_set hlt, hget]
      simp only [runningTasks] at hpos ⊢
      simp
      omega
    have hcounted := hs.counted
    omega
  · have hbounded := hs.bounded
    omega

/-! ## Runs of the queue -/

theorem Inv.turn {e : Event} {τ : Turn} (hs : Inv cfg s) (hτ : turn cfg s e = some τ)
    (hclear : LaunchesFree cfg s e) : Inv cfg (τ.result cfg) := by
  cases turn_move hs.known hτ with
  | quiet h => exact hs.same h
  | pump h => exact (hs.same h).pumpLoop _ (hclear _ hτ)
  | @finish u h k id hk =>
    exact ((hs.same h).ended (h.runs.mpr hk)).pumpLoop _ (hclear _ hτ)

/-- In a run, one task at a time is executing for each download and for each
destination, holding the controller under its download's id, and no more than
the configured number are, exactly where the pump never launches a download
while a task of its own or of its destination is still executing. -/
theorem single_runner_iff (cfg : Config) (events : List Event) :
    EveryStep (step cfg) (fun _ _ t => SingleRunner cfg t) .initial events ↔
      EveryStep (step cfg) (fun s e _ => LaunchesFree cfg s e) .initial events := by
  refine everyStep_iff_guarded (Inv cfg) _ _ ?_ ?_ (initial_inv cfg) events
  · intro s e t hs ht hclear
    obtain ⟨τ, hτ, rfl⟩ := Option.map_eq_some_iff.mp ht
    have hinv := hs.turn hτ hclear
    exact ⟨hinv.single, hinv⟩
  · intro s e t hs ht hsingle u hu
    rw [step, hu] at ht
    obtain rfl := Option.some.inj ht
    exact pumpClear_of_single _ hsingle

def sampleConfig : Config :=
  ⟨2, 100, fun repoId filePath => .ok ("huggingface/" ++ repoId ++ "/" ++ filePath)⟩

/-- The download is cancelled and retried while its first task sleeps in its
back-off: the pump starts a second task beside it. -/
theorem retry_in_backoff_runs_twice :
    let events := [.start "org/repo" "m.gguf" [⟨"m.gguf", 1000, none⟩] true "a",
      .progress 0 (.manifest none), .progress 0 (.thrown (some ⟨"terminated", ""⟩)),
      .cancel "a"] ++ [.retry "a"]
    ¬ EveryStep (step sampleConfig) (fun _ _ t => SingleRunner sampleConfig t) .initial events := by
  intro events hsingle
  obtain ⟨u, hu, hfirst, hsecond⟩ : ∃ u, run (step sampleConfig) .initial events = some u ∧
      Runs u 0 "a" ∧ Runs u 1 "a" := ⟨_, rfl, by decide +kernel, by decide +kernel⟩
  obtain ⟨_, hlast⟩ := hsingle.last hu
  exact absurd (hlast.perDownload hfirst hsecond) (by decide)

end ModelForge.DownloadRunners
