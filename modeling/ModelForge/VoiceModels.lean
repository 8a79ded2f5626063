import ModelForge.Participants
import ModelForge.RunInvariant
import ModelForge.RuntimeConfig

set_option autoImplicit false

/-!
# Speech models

Installs, activations and transcriptions of one gateway side by side. Each goes from
await to await; what they share is the job of the install that is under way, the runtime
file and the cached provider.
-/
namespace ModelForge.VoiceModels
open EventStream (JsString js)
open JsonParse (skipSpace)
open JsonText (JsNumber)
open Participants (get_of_concat get_of_modify mem_of_modify)
open ReservationCover (trim)
open RunInvariant (run run_guarded run_invariant EveryStep)
open RuntimeConfig

/-! ## The catalogs -/

def WHISPER_MODEL_CATALOG : List JsString :=
  ["tiny", "base", "small", "medium", "large-v2", "large-v3", "distil-large-v3",
    "bengaliAI/tugstugi_bengaliai-regional-asr_whisper-medium"].map js

def NEMO_MODEL_CATALOG : List JsString := ["kazalbrur/bangla-stt-conformer-120m-dialects"].map js

def HF_SPACE_MODEL_CATALOG : List JsString := ["bengaliAI/regional_bengali-asr_tugstugi_whisper-medium"].map js

/-- The identifiers of a catalog. -/
def catalogForProvider : SttProviderId → List JsString
  | .nemo => NEMO_MODEL_CATALOG
  | .hfSpace => HF_SPACE_MODEL_CATALOG
  | .fasterWhisper => WHISPER_MODEL_CATALOG

def isAllowedModel (provider : SttProviderId) (model : JsString) : Bool := (catalogForProvider provider).contains model

/-! ## The jobs -/

inductive JobStatus where
  | queued
  | downloading
  | succeeded
  | failed
  deriving DecidableEq, Repr

structure VoiceModelJob where
  provider : SttProviderId
  model : JsString
  status : JobStatus
  activateOnSuccess : Bool
  message : Option JsString
  error : Option JsString
  startedAt : JsString
  finishedAt : Option JsString
  deriving DecidableEq

def VoiceModelJob.InProgress (job : VoiceModelJob) : Prop := job.status = .queued ∨ job.status = .downloading

instance (job : VoiceModelJob) : Decidable job.InProgress :=
  inferInstanceAs (Decidable (job.status = .queued ∨ job.status = .downloading))

/-- Who writes the runtime file. -/
inductive Writer where
  | install (job : ℕ)
  | activate
  deriving DecidableEq

/-- What a call or a job does next. A transcription notes the choice that was written last
when it read the file, and what it read. -/
inductive Task where
  | download (job : ℕ)
  | opening (writer : Writer) (config : VoiceRuntimeConfig)
  | writing (writer : Writer) (config : VoiceRuntimeConfig)
  | written (writer : Writer)
  | reading
  | resolved (latest read : Option VoiceRuntimeConfig)
  | transcribing (latest read : Option VoiceRuntimeConfig) (provider : SttProvider)
  | done
  deriving DecidableEq

/-- A job's id is its place in `jobs`; `latest` is the choice whose write was completed last. -/
structure World where
  file : Option (List Char)
  latest : Option VoiceRuntimeConfig
  jobs : List VoiceModelJob
  activeInstallId : Option ℕ
  cached : Option CachedProvider
  tasks : List Task
  deriving DecidableEq

def boot : World := ⟨none, none, [], none, none, []⟩

def getActiveVoiceModelInstall (w : World) : Option VoiceModelJob := w.activeInstallId.bind fun id => w.jobs[id]?

def named (provider : SttProviderId) (model : JsString) : JsString := provider.text ++ js ":" ++ model

def World.spawn (w : World) (task : Task) : World := { w with tasks := w.tasks ++ [task] }

def World.put (w : World) (i : ℕ) (task : Task) : World := { w with tasks := w.tasks.modify i fun _ => task }

/-- The end of a job, and of its `finally`. -/
def World.finish (w : World) (id : ℕ) (status : JobStatus) (message : JsString) (error : Option JsString)
    (now : JsString) : World :=
  { w with
    jobs := w.jobs.modify id fun job =>
      { job with status := status, message := some message, error := error, finishedAt := some now }
    activeInstallId := if w.activeInstallId = some id then none else w.activeInstallId }

def World.fail (w : World) (id : ℕ) (error now : JsString) : World := w.finish id .failed error (some error) now

def successMessage (job : VoiceModelJob) : JsString :=
  named job.provider job.model ++
    match job.provider, job.activateOnSuccess with
    | .hfSpace, true => js " connected and activated (remote Space — no local weights)"
    | .hfSpace, false => js " connected (not activated)"
    | _, true => js " installed and activated"
    | _, false => js " installed (not activated)"

def World.succeed (w : World) (id : ℕ) (now : JsString) : World :=
  match w.jobs[id]? with
  | some job => w.finish id .succeeded (successMessage job) none now
  | none => w

def startMessage (provider : SttProviderId) (model : JsString) : JsString :=
  match provider with
  | .hfSpace => js "Connecting Hugging Face Space " ++ model
  | .nemo => js "Downloading NeMo ASR " ++ model ++ js " (first run may take several minutes)"
  | .fasterWhisper => js "Downloading / warming Whisper " ++ model

/-- The job as its first await finds it: the code behind the return has run until then. -/
def startedJob (provider : SttProviderId) (model : JsString) (activateOnSuccess : Bool) (now : JsString) :
    VoiceModelJob where
  provider := provider
  model := model
  status := .downloading
  activateOnSuccess := activateOnSuccess
  message := some (startMessage provider model)
  error := none
  startedAt := now
  finishedAt := none

/-- A job is added and goes on to its first await. A remote space needs no download, and
without activation no await at all. -/
def World.begin (w : World) (provider : SttProviderId) (model : JsString) (activateOnSuccess : Bool) (now : JsString) :
    World :=
  let id := w.jobs.length
  let w := { w with
    jobs := w.jobs ++ [startedJob provider model activateOnSuccess now], activeInstallId := some id }
  match provider, activateOnSuccess with
  | .hfSpace, true => w.spawn (.opening (.install id) ⟨provider, model, now⟩)
  | .hfSpace, false => w.succeed id now
  | _, _ => w.spawn (.download id)

def startSttModelInstall (w : World) (provider : SttProviderId) (model : JsString) (activateOnSuccess : Bool)
    (now : JsString) : Except JsString World :=
  if isAllowedModel provider (trim model) = false then
    .error (js "Unsupported " ++ provider.text ++ js " model: " ++ trim model)
  else
    match (getActiveVoiceModelInstall w).filter fun job => job.InProgress with
    | some current => .error (js "Install already in progress for " ++ named current.provider current.model)
    | none => .ok (w.begin provider (trim model) activateOnSuccess now)

/-- The start of `POST /voice/models/activate`. -/
def activate (w : World) (provider : SttProviderId) (model : JsString) (now : JsString) : Except JsString World :=
  if trim model = [] then .error (js "model is required")
  else if isAllowedModel provider (trim model) = false then
    .error (js "Unsupported " ++ provider.text ++ js " model: " ++ trim model)
  else .ok (w.spawn (.opening .activate ⟨provider, trim model, now⟩))

/-! ## The steps -/

def Writer.failed (writer : Writer) (w : World) (error now : JsString) : World :=
  match writer with
  | .install id => w.fail id error now
  | .activate => w

variable (readNumber : List Char → Option JsNumber) (env : VoiceEnv)

/-- The python process of a job has come to its end. -/
def downloaded (w : World) (i id : ℕ) (now : JsString) : Option World :=
  w.jobs[id]?.map fun job =>
    if job.activateOnSuccess then w.put i (.opening (.install id) ⟨job.provider, job.model, now⟩)
    else (w.succeed id now).put i .done

/-- A task goes on; `failure` is the message of what its await throws. -/
def resume (w : World) (i : ℕ) (task : Task) (failure : Option JsString) (now : JsString) : Option World :=
  match task, failure with
  | .download id, none => downloaded w i id now
  | .download id, some e => some ((w.fail id e now).put i .done)
  | .opening writer config, none => some ({ w with file := some [] }.put i (.writing writer config))
  | .opening writer _, some e => some ((writer.failed w e now).put i .done)
  | .writing writer config, none =>
    some ({ w with file := some (overwrite (fileText config) (w.file.getD [])), latest := some config }.put i
      (.written writer))
  | .writing writer _, some e => some ((writer.failed w e now).put i .done)
  | .written (.install id), none => some (({ w with cached := none }.succeed id now).put i .done)
  | .written (.install id), some e => some ((w.fail id e now).put i .done)
  | .written .activate, _ => some ({ w with cached := none }.put i .done)
  | .reading, _ => some (w.put i (.resolved w.latest (readVoiceRuntimeConfig readNumber w.file)))
  | .resolved latest read, none =>
    let entry := createSttProvider w.cached (resolveVoiceEnv env read)
    some ({ w with cached := some entry }.put i (.transcribing latest read entry.provider))
  | .resolved _ _, some _ => some (w.put i .done)
  | .transcribing _ _ _, _ => none
  | .done, _ => none

inductive Event where
  | install (provider : SttProviderId) (model : JsString) (activateOnSuccess : Bool) (now : JsString)
  | activate (provider : SttProviderId) (model : JsString) (now : JsString)
  | transcribe
  | resume (i : ℕ) (failure : Option JsString) (now : JsString)
  | restart

/-- A request that throws leaves everything as it is. -/
def accepted (w : World) : Except JsString World → World
  | .ok next => next
  | .error _ => w

def step (w : World) : Event → Option World
  | .install provider model activateOnSuccess now =>
    some (accepted w (startSttModelInstall w provider model activateOnSuccess now))
  | .activate provider model now => some (accepted w (activate w provider model now))
  | .transcribe => some (w.spawn .reading)
  | .resume i failure now => w.tasks[i]?.bind fun task => resume readNumber env w i task failure now
  | .restart => some { w with jobs := [], activeInstallId := none, cached := none, tasks := [] }

/-! ## What is read and what is used -/

variable {readNumber env} {w v : World} {i id : ℕ} {task : Task} {e : Event}

/-- The file is missing, truncated, or starts with the text of the latest choice. -/
def FileOk (w : World) : Prop :=
  ∀ text, w.file = some text → text = [] ∨
    ∃ config tail, w.latest = some config ∧ Written config ∧ text = fileText config ++ tail

theorem FileOk.read (h : FileOk w) (readNumber : List Char → Option JsNumber) :
    readVoiceRuntimeConfig readNumber w.file = none ∨ readVoiceRuntimeConfig readNumber w.file = w.latest := by
  cases hfile : w.file with
  | none => exact .inl rfl
  | some text =>
    rcases h text hfile with rfl | ⟨config, tail, hlatest, hwritten, rfl⟩
    · exact .inl rfl
    · rw [readVoiceRuntimeConfig_fileText hwritten, hlatest]
      split
      · exact .inr rfl
      · exact .inl rfl

/-- A transcription runs with what it read, which is nothing or the latest choice. -/
def TaskOk (env : VoiceEnv) : Task → Prop
  | .opening _ config | .writing _ config => Written config
  | .resolved latest read => read = none ∨ read = latest
  | .transcribing latest read provider =>
    (read = none ∨ read = latest) ∧ provider = newSttProvider (resolveVoiceEnv env read)
  | _ => True

theorem written_of_allowed {provider : SttProviderId} {model : JsString} (h : isAllowedModel provider model = true)
    (now : JsString) : Written ⟨provider, model, now⟩ := by
  have hcatalogs : ∀ p : SttProviderId, ∀ m ∈ catalogForProvider p, m ≠ [] ∧ trim m = m := by
    intro p
    cases p <;> decide +kernel
  obtain ⟨hnamed, htrimmed⟩ := hcatalogs provider model (List.contains_iff_mem.mp h)
  exact ⟨hnamed, htrimmed⟩

structure Current (env : VoiceEnv) (w : World) : Prop where
  file : FileOk w
  cache : CacheOk env w.cached
  tasks : ∀ task ∈ w.tasks, TaskOk env task
  jobs : ∀ job ∈ w.jobs, isAllowedModel job.provider job.model = true

theorem current_boot : Current env boot where
  file := fun _ h => nomatch h
  cache := fun _ h => nomatch h
  tasks := fun _ h => nomatch h
  jobs := fun _ h => nomatch h

theorem Current.spawn (h : Current env w) (hok : TaskOk env task) : Current env (w.spawn task) :=
  { h with
    tasks := fun t ht => by
      rcases List.mem_append.mp ht with ht | ht
      · exact h.tasks t ht
      · exact List.mem_singleton.mp ht ▸ hok }

theorem Current.put (h : Current env w) (hok : TaskOk env task) : Current env (w.put i task) :=
  { h with
    tasks := fun t ht => by
      rcases mem_of_modify ht with ⟨-, -, rfl⟩ | ht
      · exact hok
      · exact h.tasks t ht }

theorem Current.finish (h : Current env w) (id : ℕ) (status : JobStatus) (message : JsString) (error : Option JsString)
    (now : JsString) : Current env (w.finish id status message error now) :=
  { h with
    jobs := fun job hjob => by
      rcases mem_of_modify hjob with ⟨before, hbefore, rfl⟩ | hjob
      · exact h.jobs before (List.mem_of_getElem? hbefore)
      · exact h.jobs job hjob }

theorem Current.succeed (h : Current env w) (id : ℕ) (now : JsString) : Current env (w.succeed id now) := by
  unfold World.succeed
  split
  · exact h.finish _ _ _ _ _
  · exact h

theorem Current.failed (h : Current env w) (writer : Writer) (error now : JsString) :
    Current env (writer.failed w error now) := by
  cases writer with
  | install id => exact h.finish _ _ _ _ _
  | activate => exact h

theorem Current.reset (h : Current env w) : Current env { w with cached := none } :=
  { h with cache := fun _ hmem => nomatch hmem }

theorem Current.truncate (h : Current env w) : Current env { w with file := some [] } :=
  { h with file := fun _ htext => .inl (Option.some.inj htext).symm }

theorem Current.overwrite (h : Current env w) {config : VoiceRuntimeConfig} (hwritten : Written config) :
    Current env { w with file := some (overwrite (fileText config) (w.file.getD [])), latest := some config } :=
  { h with file := fun _ htext => .inr ⟨config, _, rfl, hwritten, (Option.some.inj htext).symm⟩ }

theorem Current.resume (h : Current env w) (htask : w.tasks[i]? = some task) {failure : Option JsString}
    {now : JsString} (hstep : resume readNumber env w i task failure now = some v) : Current env v := by
  have hok := h.tasks task (List.mem_of_getElem? htask)
  unfold VoiceModels.resume at hstep
  split at hstep
  · obtain ⟨job, hjob, rfl⟩ := Option.map_eq_some_iff.mp hstep
    split
    · exact h.put (written_of_allowed (h.jobs job (List.mem_of_getElem? hjob)) now)
    · exact (h.succeed _ _).put trivial
  · exact Option.some.inj hstep ▸ (h.finish _ _ _ _ _).put trivial
  · exact Option.some.inj hstep ▸ h.truncate.put hok
  · exact Option.some.inj hstep ▸ (h.failed _ _ _).put trivial
  · exact Option.some.inj hstep ▸ (h.overwrite hok).put trivial
  · exact Option.some.inj hstep ▸ (h.failed _ _ _).put trivial
  · exact Option.some.inj hstep ▸ (h.reset.succeed _ _).put trivial
  · exact Option.some.inj hstep ▸ (h.finish _ _ _ _ _).put trivial
  · exact Option.some.inj hstep ▸ h.reset.put trivial
  · exact Option.some.inj hstep ▸ h.put (h.file.read readNumber)
  next latest read =>
    obtain rfl := Option.some.inj hstep
    have hentry := createSttProvider_eq h.cache (resolveActiveSttSelection env read).1
      (resolveActiveSttSelection env read).2
    have hcached : Current env { w with cached := some (createSttProvider w.cached (resolveVoiceEnv env read)) } :=
      { h with
        cache := fun entry hmem => by
          obtain rfl := Option.some.inj hmem
          exact ⟨_, _, hentry⟩ }
    exact hcached.put ⟨hok, congrArg CachedProvider.provider hentry⟩
  · exact Option.some.inj hstep ▸ h.put trivial
  · cases hstep
  · cases hstep

theorem startSttModelInstall_ok {provider : SttProviderId} {model now : JsString} {activates : Bool}
    (hstart : startSttModelInstall w provider model activates now = .ok v) :
    isAllowedModel provider (trim model) = true ∧
      (∀ job, getActiveVoiceModelInstall w = some job → ¬ job.InProgress) ∧
        v = w.begin provider (trim model) activates now := by
  unfold startSttModelInstall at hstart
  split at hstart
  · cases hstart
  next hallowed =>
    split at hstart
    · cases hstart
    next hnone =>
      refine ⟨by simpa using hallowed, fun job hjob hprogress => ?_, (Except.ok.inj hstart).symm⟩
      rw [hjob, Option.filter_some, if_pos (decide_eq_true hprogress)] at hnone
      cases hnone

theorem activate_ok {provider : SttProviderId} {model now : JsString}
    (hstart : activate w provider model now = .ok v) :
    isAllowedModel provider (trim model) = true ∧ v = w.spawn (.opening .activate ⟨provider, trim model, now⟩) := by
  unfold VoiceModels.activate at hstart
  split at hstart
  · cases hstart
  · split at hstart
    · cases hstart
    next hallowed => exact ⟨by simpa using hallowed, (Except.ok.inj hstart).symm⟩

theorem Current.begin (h : Current env w) {provider : SttProviderId} {model : JsString}
    (hallowed : isAllowedModel provider model = true) (activates : Bool) (now : JsString) :
    Current env (w.begin provider model activates now) := by
  have hadded : Current env { w with
      jobs := w.jobs ++ [startedJob provider model activates now], activeInstallId := some w.jobs.length } :=
    { h with
      jobs := fun job hjob => by
        rcases List.mem_append.mp hjob with hjob | hjob
        · exact h.jobs job hjob
        · obtain rfl := List.mem_singleton.mp hjob
          exact hallowed }
  unfold World.begin
  split
  · exact hadded.spawn (written_of_allowed hallowed now)
  · exact hadded.succeed _ _
  · exact hadded.spawn trivial

theorem Current.step (h : Current env w) (hstep : step readNumber env w e = some v) : Current env v := by
  cases e with
  | install provider model activates now =>
    obtain rfl := Option.some.inj hstep
    cases hstart : startSttModelInstall w provider model activates now with
    | error _ => exact h
    | ok next =>
      obtain ⟨hallowed, -, rfl⟩ := startSttModelInstall_ok hstart
      exact h.begin hallowed activates now
  | activate provider model now =>
    obtain rfl := Option.some.inj hstep
    cases hstart : VoiceModels.activate w provider model now with
    | error _ => exact h
    | ok next =>
      obtain ⟨hallowed, rfl⟩ := activate_ok hstart
      exact h.spawn (written_of_allowed hallowed now)
  | transcribe => exact Option.some.inj hstep ▸ h.spawn trivial
  | resume i failure now =>
    obtain ⟨task, htask, hstep⟩ := Option.bind_eq_some_iff.mp hstep
    exact h.resume htask hstep
  | restart =>
    exact Option.some.inj hstep ▸ { h with
      cache := fun _ hmem => nomatch hmem
      tasks := fun _ hmem => nomatch hmem
      jobs := fun _ hmem => nomatch hmem }

/-- However installs, activations, transcriptions and restarts are interleaved, and whichever
of them fail, a transcription runs with the provider of the environment's choice or of the
choice that was written last when it read the file, never with one cached for another. -/
theorem transcribed_by_current (readNumber : List Char → Option JsNumber) (env : VoiceEnv) {events : List Event}
    {w : World} (h : run (step readNumber env) boot events = some w) {latest read : Option VoiceRuntimeConfig}
    {provider : SttProvider} (htask : .transcribing latest read provider ∈ w.tasks) :
    (read = none ∨ read = latest) ∧ provider = newSttProvider (resolveVoiceEnv env read) :=
  (run_invariant (Current env) (fun _ _ _ hs hstep => hs.step hstep) current_boot h).tasks _ htask

def sampleEnv : VoiceEnv where
  STT_PROVIDER := .fasterWhisper
  STT_FASTER_WHISPER_MODEL := js "small"
  STT_FASTER_WHISPER_DEVICE := js "cpu"
  STT_FASTER_WHISPER_COMPUTE_TYPE := js "int8"
  STT_FASTER_WHISPER_BEAM_SIZE := js "5"
  STT_FASTER_WHISPER_BEST_OF := js "5"
  STT_FASTER_WHISPER_TEMPERATURE := js "0"
  STT_FASTER_WHISPER_NO_SPEECH_THRESHOLD := js "0.6"
  STT_PYTHON_BIN := js "python"
  STT_FASTER_WHISPER_SCRIPT := js "stt.py"
  STT_NEMO_MODEL := js ""
  STT_NEMO_DEVICE := js "cpu"
  STT_NEMO_SCRIPT := js "nemo.py"
  STT_HF_SPACE_ID := js ""
  STT_HF_SPACE_URL := js ""
  STT_HF_SPACE_FN_INDEX := js "0"
  HF_TOKEN := js ""

def conformer : JsString := js "kazalbrur/bangla-stt-conformer-120m-dialects"

/-- A transcription after an activation, with the provider of an earlier one in the cache. -/
theorem transcribed_by_activated : ∃ w latest read provider,
    run (step (fun _ => none) sampleEnv) boot
      [.transcribe, .resume 0 none [], .resume 0 none [], .activate .nemo conformer (js "now"),
        .resume 1 none [], .resume 1 none [], .transcribe, .resume 2 none [], .resume 2 none []] = some w ∧
      w.tasks[2]? = some (.transcribing latest read provider) ∧ (read = none ∨ read = latest) ∧
        provider = newSttProvider (resolveVoiceEnv sampleEnv read) := by
  have hlast : ((run (step (fun _ => none) sampleEnv) boot
      [.transcribe, .resume 0 none [], .resume 0 none [], .activate .nemo conformer (js "now"),
        .resume 1 none [], .resume 1 none [], .transcribe, .resume 2 none [], .resume 2 none []]).bind fun w =>
          w.tasks[2]?) = some (.transcribing (some ⟨.nemo, conformer, js "now"⟩)
            (some ⟨.nemo, conformer, js "now"⟩)
            (.nemo (js "python") (js "nemo.py") conformer (js "cpu"))) := by
    decide +kernel
  obtain ⟨w, hrun, htask⟩ := Option.bind_eq_some_iff.mp hlast
  exact ⟨w, _, _, _, hrun, htask, transcribed_by_current _ _ hrun (List.mem_of_getElem? htask)⟩

/-! ## What a task does when it goes on -/

/-- The job a task is at work on. -/
def Task.job? : Task → Option ℕ
  | .download id => some id
  | .opening (.install id) _ => some id
  | .writing (.install id) _ => some id
  | .written (.install id) => some id
  | _ => none

/-- How often a task goes on at most. -/
def Task.left : Task → ℕ
  | .download _ => 4
  | .opening _ _ => 3
  | .writing _ _ => 2
  | .written _ => 1
  | .reading => 2
  | .resolved _ _ => 1
  | .transcribing _ _ _ => 0
  | .done => 0

def Task.isOpening : Task → Bool
  | .opening _ _ => true
  | _ => false

def Task.isWriting : Task → Bool
  | .writing _ _ => true
  | _ => false

theorem left_pos (h : task.job? = some id) : 0 < task.left := by
  cases task <;> first | exact Nat.succ_pos _ | cases h

/-- It goes on with what it has, ends its job, truncates the file or writes it. -/
inductive Resumed (w : World) (i : ℕ) (task : Task) (failure : Option JsString) (now : JsString) : World → Prop where
  | kept (cached : Option CachedProvider) (next : Task)
      (job : next.job? = task.job? ∨ ∃ id, task.job? = some id ∧ w.jobs[id]? = none) (idle : next.isWriting = false)
      (less : next.left < task.left) : Resumed w i task failure now ({ w with cached := cached }.put i next)
  | ended (cached : Option CachedProvider) (id : ℕ) (status : JobStatus) (message : JsString)
      (error : Option JsString) (job : task.job? = some id) (final : status ≠ .queued ∧ status ≠ .downloading) :
      Resumed w i task failure now (({ w with cached := cached }.finish id status message error now).put i .done)
  | opened (writer : Writer) (config : VoiceRuntimeConfig) (task_eq : task = .opening writer config)
      (failure_eq : failure = none) :
      Resumed w i task failure now ({ w with file := some [] }.put i (.writing writer config))
  | wrote (writer : Writer) (config : VoiceRuntimeConfig) (task_eq : task = .writing writer config)
      (failure_eq : failure = none) :
      Resumed w i task failure now
        ({ w with file := some (overwrite (fileText config) (w.file.getD [])), latest := some config }.put i
          (.written writer))

theorem resumed_succeed {failure : Option JsString} {now : JsString} (cached : Option CachedProvider)
    (hjob : task.job? = some id) :
    Resumed w i task failure now (({ w with cached := cached }.succeed id now).put i .done) := by
  unfold World.succeed
  split
  · exact .ended cached id .succeeded _ _ hjob ⟨nofun, nofun⟩
  next hnone => exact .kept cached .done (.inr ⟨id, hjob, hnone⟩) rfl (left_pos hjob)

theorem resumed_failed {failure : Option JsString} {error now : JsString} {writer : Writer}
    (hinstall : ∀ id, writer = .install id → task.job? = some id) (hactivate : writer = .activate → task.job? = none)
    (hleft : 0 < task.left) : Resumed w i task failure now ((writer.failed w error now).put i .done) := by
  cases writer with
  | install id => exact .ended w.cached id .failed _ _ (hinstall id rfl) ⟨nofun, nofun⟩
  | activate => exact .kept w.cached .done (.inl (hactivate rfl).symm) rfl hleft

theorem resumed {failure : Option JsString} {now : JsString}
    (hstep : resume readNumber env w i task failure now = some v) : Resumed w i task failure now v := by
  unfold VoiceModels.resume at hstep
  split at hstep
  next id =>
    obtain ⟨job, -, rfl⟩ := Option.map_eq_some_iff.mp hstep
    split
    · exact .kept w.cached _ (.inl rfl) rfl (Nat.lt_succ_self _)
    · exact resumed_succeed w.cached rfl
  next id e => exact Option.some.inj hstep ▸ .ended w.cached id .failed _ _ rfl ⟨nofun, nofun⟩
  next writer config => exact Option.some.inj hstep ▸ .opened writer config rfl rfl
  next writer config e =>
    exact Option.some.inj hstep ▸
      resumed_failed (fun id h => by rw [h]; rfl) (fun h => by rw [h]; rfl) (Nat.succ_pos _)
  next writer config => exact Option.some.inj hstep ▸ .wrote writer config rfl rfl
  next writer config e =>
    exact Option.some.inj hstep ▸
      resumed_failed (fun id h => by rw [h]; rfl) (fun h => by rw [h]; rfl) (Nat.succ_pos _)
  next id => exact Option.some.inj hstep ▸ resumed_succeed none rfl
  next id e => exact Option.some.inj hstep ▸ .ended w.cached id .failed _ _ rfl ⟨nofun, nofun⟩
  next => exact Option.some.inj hstep ▸ .kept none .done (.inl rfl) rfl (Nat.lt_succ_self _)
  next => exact Option.some.inj hstep ▸ .kept w.cached _ (.inl rfl) rfl (Nat.lt_succ_self _)
  next latest read => exact Option.some.inj hstep ▸ .kept _ _ (.inl rfl) rfl (Nat.lt_succ_self _)
  next => exact Option.some.inj hstep ▸ .kept w.cached .done (.inl rfl) rfl (Nat.lt_succ_self _)
  · cases hstep
  · cases hstep

end ModelForge.VoiceModels
