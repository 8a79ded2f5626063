import ModelForge.VoiceModels

set_option autoImplicit false

/-!
# Writes of the runtime file

A choice that is written by itself is read back until the next write is opened. Two writes
at a time can leave a file that nobody can read.
-/
namespace ModelForge.RuntimeWrites
open EventStream (JsString js)
open JsonParse (skipSpace)
open JsonText (JsNumber)
open Participants (get_of_concat get_of_modify)
open ReservationCover (trim)
open RunInvariant (run run_guarded run_invariant EveryStep)
open RuntimeConfig VoiceModels

variable {readNumber : List Char → Option JsNumber} {env : VoiceEnv} {w v : World} {i id : ℕ} {task : Task} {e : Event}

/-! ## One write at a time -/

/-- The event truncates the file. -/
def opens (w : World) : Event → Bool
  | .resume i none _ => w.tasks[i]?.any Task.isOpening
  | _ => false

/-- No write is opened while another is under way. -/
def OpensAlone (w : World) (e : Event) (_ : World) : Prop := opens w e = true → w.tasks.any Task.isWriting = false

instance (w v : World) (e : Event) : Decidable (OpensAlone w e v) := inferInstanceAs (Decidable (_ → _))

/-- What the file holds: the latest choice in full, or nothing, as it does while it is written. -/
structure Whole (w : World) : Prop where
  file : w.file = some [] ∨ w.file = w.latest.map fileText
  open_empty : ∀ (i : ℕ) task, w.tasks[i]? = some task → task.isWriting = true → w.file = some []
  unique : ∀ (i j : ℕ) s t, w.tasks[i]? = some s → w.tasks[j]? = some t → s.isWriting = true → t.isWriting = true →
    i = j

theorem not_writing (h : w.tasks.any Task.isWriting = false) {j : ℕ} (htask : w.tasks[j]? = some task) :
    task.isWriting = false := by
  simpa using List.any_eq_false.mp h task (List.mem_of_getElem? htask)

/-- Whoever writes afterwards wrote before. -/
theorem Whole.congr (h : Whole w) (hfile : v.file = w.file) (hlatest : v.latest = w.latest)
    (htasks : ∀ (j : ℕ) t, v.tasks[j]? = some t → t.isWriting = true → w.tasks[j]? = some t) : Whole v where
  file := by rw [hfile, hlatest]; exact h.file
  open_empty := by rw [hfile]; exact fun j t ht hwriting => h.open_empty j t (htasks j t ht hwriting) hwriting
  unique := fun i j s t hs ht hsw htw => h.unique i j s t (htasks i s hs hsw) (htasks j t ht htw) hsw htw

theorem writing_of_spawn (hidle : task.isWriting = false) (j : ℕ) (t : Task)
    (ht : (w.spawn task).tasks[j]? = some t) (hwriting : t.isWriting = true) : w.tasks[j]? = some t := by
  rcases get_of_concat ht with hold | ⟨-, rfl⟩
  · exact hold
  · cases hidle.symm.trans hwriting

theorem writing_of_put (hidle : task.isWriting = false) (j : ℕ) (t : Task)
    (ht : (w.put i task).tasks[j]? = some t) (hwriting : t.isWriting = true) : w.tasks[j]? = some t := by
  rcases get_of_modify ht with ⟨-, -, -, rfl⟩ | ⟨-, hold⟩
  · cases hidle.symm.trans hwriting
  · exact hold

theorem Whole.begin (h : Whole w) (provider : SttProviderId) (model : JsString) (activates : Bool) (now : JsString) :
    Whole (w.begin provider model activates now) := by
  unfold World.begin
  split
  · exact h.congr rfl rfl (writing_of_spawn rfl)
  · rw [World.succeed, List.getElem?_concat_length]
    exact h.congr rfl rfl fun _ _ ht _ => ht
  · exact h.congr rfl rfl (writing_of_spawn rfl)

/-- The file holds the choice, and no write is under way. -/
structure Settled (config : VoiceRuntimeConfig) (w : World) : Prop where
  file : w.file = some (fileText config)
  idle : ∀ (i : ℕ) task, w.tasks[i]? = some task → task.isWriting = false

theorem settled_of_wrote (h : Whole w) {writer : Writer} {config : VoiceRuntimeConfig}
    (htask : w.tasks[i]? = some (.writing writer config)) :
    Settled config (World.put { w with
      file := some (overwrite (fileText config) (w.file.getD [])), latest := some config } i (.written writer)) where
  file := by
    change some (overwrite (fileText config) (w.file.getD [])) = some (fileText config)
    rw [h.open_empty i _ htask rfl, Option.getD_some, overwrite, List.drop_nil, List.append_nil]
  idle := by
    intro j t ht
    rcases get_of_modify ht with ⟨-, -, -, rfl⟩ | ⟨hji, hold⟩
    · rfl
    · cases hwriting : t.isWriting with
      | false => rfl
      | true => exact absurd (h.unique j i t _ hold htask hwriting rfl) hji

theorem Whole.resumed (h : Whole w) (htask : w.tasks[i]? = some task) {failure : Option JsString} {now : JsString}
    (hguard : OpensAlone w (.resume i failure now) v) (hres : Resumed w i task failure now v) : Whole v := by
  cases hres with
  | kept cached next _ hidle _ => exact h.congr rfl rfl (writing_of_put hidle)
  | ended cached id status message error _ _ => exact h.congr rfl rfl (writing_of_put rfl)
  | opened writer config task_eq failure_eq =>
    subst task_eq failure_eq
    have hnone := hguard (by rw [opens, htask]; rfl)
    have honly : ∀ (j : ℕ) t, ({ w with file := some [] }.put i (.writing writer config)).tasks[j]? = some t →
        t.isWriting = true → j = i := by
      intro j t ht hwriting
      rcases get_of_modify ht with ⟨hji, -⟩ | ⟨-, hold⟩
      · exact hji
      · cases (not_writing hnone hold).symm.trans hwriting
    exact ⟨.inl rfl, fun _ _ _ _ => rfl, fun j k s t hs ht hsw htw => (honly j s hs hsw).trans (honly k t ht htw).symm⟩
  | wrote writer config task_eq failure_eq =>
    subst task_eq
    obtain ⟨hfile, hidle⟩ := settled_of_wrote h htask
    refine ⟨.inr hfile, fun j t ht hwriting => ?_, fun j _ s _ hs _ hsw _ => ?_⟩
    · cases (hidle j t ht).symm.trans hwriting
    · cases (hidle j s hs).symm.trans hsw

theorem Whole.step (h : Whole w) (hstep : VoiceModels.step readNumber env w e = some v) (hguard : OpensAlone w e v) :
    Whole v := by
  cases e with
  | install provider model activates now =>
    obtain rfl := Option.some.inj hstep
    cases hstart : startSttModelInstall w provider model activates now with
    | error _ => exact h
    | ok next =>
      obtain ⟨-, -, rfl⟩ := startSttModelInstall_ok hstart
      exact h.begin provider _ activates now
  | activate provider model now =>
    obtain rfl := Option.some.inj hstep
    cases hstart : VoiceModels.activate w provider model now with
    | error _ => exact h
    | ok next =>
      obtain ⟨-, rfl⟩ := activate_ok hstart
      exact h.congr rfl rfl (writing_of_spawn rfl)
  | transcribe => exact Option.some.inj hstep ▸ h.congr rfl rfl (writing_of_spawn rfl)
  | resume i failure now =>
    obtain ⟨task, htask, hstep⟩ := Option.bind_eq_some_iff.mp hstep
    exact h.resumed htask hguard (VoiceModels.resumed hstep)
  | restart => exact Option.some.inj hstep ▸ h.congr rfl rfl fun _ _ ht _ => nomatch ht

theorem whole_boot : Whole boot where
  file := .inr rfl
  open_empty := fun _ _ ht => nomatch ht
  unique := fun _ _ _ _ ht => nomatch ht

theorem Settled.congr {config : VoiceRuntimeConfig} (h : Settled config w) (hfile : v.file = w.file)
    (htasks : ∀ (j : ℕ) t, v.tasks[j]? = some t → t.isWriting = true → w.tasks[j]? = some t) : Settled config v where
  file := hfile.trans h.file
  idle := by
    intro j t ht
    cases hwriting : t.isWriting with
    | false => rfl
    | true => exact hwriting.symm.trans (h.idle j t (htasks j t ht hwriting))

theorem Settled.step {config : VoiceRuntimeConfig} (h : Settled config w)
    (hstep : VoiceModels.step readNumber env w e = some v) (hquiet : opens w e = false) : Settled config v := by
  cases e with
  | install provider model activates now =>
    obtain rfl := Option.some.inj hstep
    cases hstart : startSttModelInstall w provider model activates now with
    | error _ => exact h
    | ok next =>
      obtain ⟨-, -, rfl⟩ := startSttModelInstall_ok hstart
      change Settled config (w.begin _ _ _ _)
      unfold World.begin
      split
      · exact h.congr rfl (writing_of_spawn rfl)
      · rw [World.succeed, List.getElem?_concat_length]
        exact h.congr rfl fun _ _ ht _ => ht
      · exact h.congr rfl (writing_of_spawn rfl)
  | activate provider model now =>
    obtain rfl := Option.some.inj hstep
    cases hstart : VoiceModels.activate w provider model now with
    | error _ => exact h
    | ok next =>
      obtain ⟨-, rfl⟩ := activate_ok hstart
      exact h.congr rfl (writing_of_spawn rfl)
  | transcribe => exact Option.some.inj hstep ▸ h.congr rfl (writing_of_spawn rfl)
  | resume i failure now =>
    obtain ⟨task, htask, hstep⟩ := Option.bind_eq_some_iff.mp hstep
    cases VoiceModels.resumed hstep with
    | kept cached next _ hidle _ => exact h.congr rfl (writing_of_put hidle)
    | ended cached id status message error _ _ => exact h.congr rfl (writing_of_put rfl)
    | opened writer config task_eq failure_eq =>
      subst task_eq failure_eq
      rw [opens, htask] at hquiet
      cases hquiet
    | wrote writer config task_eq _ =>
      subst task_eq
      cases h.idle i _ htask
  | restart => exact Option.some.inj hstep ▸ h.congr rfl fun _ _ ht _ => nomatch ht

/-- Where no two writes overlap, a choice whose write is completed is what every read finds
until the next write is opened, over restarts, failed jobs and transcriptions. -/
theorem completed_choice_is_read (readNumber : List Char → Option JsNumber) (env : VoiceEnv) {xs ys : List Event}
    {s t w : World} {i : ℕ} {writer : Writer} {config : VoiceRuntimeConfig} {now : JsString}
    (halone : EveryStep (VoiceModels.step readNumber env) OpensAlone boot xs)
    (hrun : run (VoiceModels.step readNumber env) boot xs = some s)
    (hwriting : s.tasks[i]? = some (.writing writer config))
    (hwritten : VoiceModels.step readNumber env s (.resume i none now) = some t)
    (hquiet : EveryStep (VoiceModels.step readNumber env) (fun s e _ => opens s e = false) t ys)
    (hrest : run (VoiceModels.step readNumber env) t ys = some w) :
    readVoiceRuntimeConfig readNumber w.file = some config ∧
      resolveVoiceEnv env (readVoiceRuntimeConfig readNumber w.file) = withSelection env config.provider config.model := by
  have hwhole : Whole s := run_guarded Whole OpensAlone (fun _ _ _ hs hstep hguard => hs.step hstep hguard) whole_boot
    halone hrun
  have hcurrent : Current env s := run_invariant (Current env) (fun _ _ _ hs hstep => hs.step hstep) current_boot hrun
  have hok : Written config := hcurrent.tasks _ (List.mem_of_getElem? hwriting)
  have hsettled : Settled config t := by
    have ht : resume readNumber env s i (.writing writer config) none now = some t := by
      rw [VoiceModels.step, hwriting, Option.bind_some] at hwritten
      exact hwritten
    obtain rfl := Option.some.inj ht
    exact settled_of_wrote hwhole hwriting
  have hlast : Settled config w := run_guarded (Settled config) (fun s e _ => opens s e = false)
    (fun _ _ _ hs hstep hguard => hs.step hstep hguard) hsettled hquiet hrest
  have hread : readVoiceRuntimeConfig readNumber w.file = some config := by
    have hfile : readVoiceRuntimeConfig readNumber (some (fileText config ++ [])) = _ :=
      readVoiceRuntimeConfig_fileText hok []
    rw [List.append_nil] at hfile
    rw [hlast.file, hfile]
    rfl
  refine ⟨hread, ?_⟩
  rw [hread, resolveVoiceEnv, resolveActiveSttSelection, Option.filter_some, if_pos (decide_eq_true hok.named)]

def activated (task : Task) : World := { boot with
  file := some (fileText ⟨.nemo, conformer, js "now"⟩), latest := some ⟨.nemo, conformer, js "now"⟩, tasks := [task] }

/-- A later activation cannot open the file, and the gateway is restarted. -/
theorem completed_choice_is_read_conformer : ∃ w,
    run (VoiceModels.step (fun _ => none) sampleEnv) (activated (.written .activate))
      [.activate .fasterWhisper (js "tiny") (js "later"), .resume 1 (some (js "EACCES")) [], .restart] = some w ∧
    readVoiceRuntimeConfig (fun _ => none) w.file = some ⟨.nemo, conformer, js "now"⟩ := by
  have hrun : run (VoiceModels.step (fun _ => none) sampleEnv) boot
      [.activate .nemo conformer (js "now"), .resume 0 none []] = some { boot with
        file := some [], tasks := [.writing .activate ⟨.nemo, conformer, js "now"⟩] } := by decide +kernel
  have hrest : run (VoiceModels.step (fun _ => none) sampleEnv) (activated (.written .activate))
      [.activate .fasterWhisper (js "tiny") (js "later"), .resume 1 (some (js "EACCES")) [], .restart] =
        some { activated .done with tasks := [] } := by decide +kernel
  have hwritten : VoiceModels.step (fun _ => none) sampleEnv { boot with
      file := some [], tasks := [.writing .activate ⟨.nemo, conformer, js "now"⟩] } (.resume 0 none []) =
        some (activated (.written .activate)) := by decide +kernel
  exact ⟨_, hrest, (completed_choice_is_read _ _ (by decide +kernel) hrun rfl hwritten (by decide +kernel) hrest).1⟩

/-! ## Two writes at a time -/

theorem skipSpace_brace (text : List Char) : skipSpace (text ++ ['\x7d', '\n']) ≠ [] := by
  intro h
  have hall := List.dropWhile_eq_nil_iff.mp h '\x7d' (by simp)
  exact absurd hall (by decide)

/-- What stands behind a shorter text that is written over a longer one is not blank. -/
theorem skipSpace_rest (config : VoiceRuntimeConfig) (n : ℕ) :
    skipSpace ((fileText config).drop n) = [] ↔ (fileText config).length ≤ n + 1 := by
  obtain ⟨text, htext⟩ : ∃ text, fileText config = text ++ ['\x7d', '\n'] :=
    ⟨'\x7b' :: (memberText "provider" config.provider.text ++ ',' :: (memberText "model" config.model ++
      ',' :: (memberText "updatedAt" config.updatedAt ++ ['\n']))), by simp [fileText]⟩
  rw [htext, List.length_append, List.length_cons, List.length_singleton]
  constructor
  · intro h
    by_contra hlong
    rw [List.drop_append_of_le_length (by omega)] at h
    exact skipSpace_brace _ h
  · intro h
    obtain ⟨m, rfl⟩ : ∃ m, n = text.length + (m + 1) := ⟨n - (text.length + 1), by omega⟩
    rw [List.drop_length_add_append, List.drop_succ_cons]
    cases m with
    | zero => rfl
    | succ m => rw [List.drop_succ_cons, List.drop_nil]; rfl

theorem activate_allowed {provider : SttProviderId} {model : JsString}
    (h : isAllowedModel provider (trim model) = true) (now : JsString) :
    activate w provider model now = .ok (w.spawn (.opening .activate ⟨provider, trim model, now⟩)) := by
  rw [VoiceModels.activate, if_neg (written_of_allowed h now).named, if_neg (by simp [h])]

/-- Two tasks beside what else goes on. -/
def beside (w : World) (file : Option (List Char)) (latest : Option VoiceRuntimeConfig) (x y : Task) : World :=
  { w with file := file, latest := latest, tasks := w.tasks ++ [x, y] }

theorem modify_first (xs : List Task) (x y z : Task) :
    (xs ++ [x, y]).modify xs.length (fun _ => z) = xs ++ [z, y] := by
  induction xs with
  | nil => rfl
  | cons a xs ih => exact congrArg (List.cons a) ih

theorem modify_second (xs : List Task) (x y z : Task) :
    (xs ++ [x, y]).modify (xs.length + 1) (fun _ => z) = xs ++ [x, z] := by
  induction xs with
  | nil => rfl
  | cons a xs ih => exact congrArg (List.cons a) ih

theorem put_first (w : World) (file : Option (List Char)) (latest : Option VoiceRuntimeConfig) (x y z : Task) :
    (beside w file latest x y).put w.tasks.length z = beside w file latest z y :=
  congrArg (fun tasks => { w with file := file, latest := latest, tasks := tasks }) (modify_first w.tasks x y z)

theorem put_second (w : World) (file : Option (List Char)) (latest : Option VoiceRuntimeConfig) (x y z : Task) :
    (beside w file latest x y).put (w.tasks.length + 1) z = beside w file latest x z :=
  congrArg (fun tasks => { w with file := file, latest := latest, tasks := tasks }) (modify_second w.tasks x y z)

theorem step_first {file : Option (List Char)} {latest : Option VoiceRuntimeConfig} {x y : Task}
    (failure : Option JsString) (now : JsString) :
    VoiceModels.step readNumber env (beside w file latest x y) (.resume w.tasks.length failure now) =
      VoiceModels.resume readNumber env (beside w file latest x y) w.tasks.length x failure now := by
  rw [VoiceModels.step, beside, List.getElem?_append_right (Nat.le_refl _), Nat.sub_self]
  rfl

theorem step_second {file : Option (List Char)} {latest : Option VoiceRuntimeConfig} {x y : Task}
    (failure : Option JsString) (now : JsString) :
    VoiceModels.step readNumber env (beside w file latest x y) (.resume (w.tasks.length + 1) failure now) =
      VoiceModels.resume readNumber env (beside w file latest x y) (w.tasks.length + 1) y failure now := by
  rw [VoiceModels.step, beside, List.getElem?_append_right (Nat.le_add_right _ 1), Nat.add_sub_cancel_left]
  rfl

theorem activate_both {p q : SttProviderId} {m n : JsString} (hm : isAllowedModel p (trim m) = true)
    (hn : isAllowedModel q (trim n) = true) (now later : JsString) :
    run (VoiceModels.step readNumber env) w [.activate p m now, .activate q n later] =
      some (beside w w.file w.latest (.opening .activate ⟨p, trim m, now⟩) (.opening .activate ⟨q, trim n, later⟩)) := by
  rw [RunInvariant.run_cons, VoiceModels.step, activate_allowed hm, accepted, Option.bind_some, RunInvariant.run_cons,
    VoiceModels.step, activate_allowed hn, accepted, Option.bind_some]
  simp [World.spawn, beside]

/-- Two activations that are both let in and whose writes overlap: the second choice is read
if its text covers the first up to the line break, and otherwise neither is. -/
theorem overlapping_writes_read (readNumber : List Char → Option JsNumber) (env : VoiceEnv) (w : World)
    {p q : SttProviderId} {m n : JsString} (hm : isAllowedModel p (trim m) = true)
    (hn : isAllowedModel q (trim n) = true) (now later : JsString) : ∃ v,
    run (VoiceModels.step readNumber env) w ([.activate p m now, .activate q n later] ++
      [.resume w.tasks.length none now, .resume (w.tasks.length + 1) none now, .resume w.tasks.length none now,
        .resume (w.tasks.length + 1) none now]) = some v ∧
    readVoiceRuntimeConfig readNumber v.file =
      if (fileText ⟨p, trim m, now⟩).length ≤ (fileText ⟨q, trim n, later⟩).length + 1 then some ⟨q, trim n, later⟩
      else none := by
  let first : VoiceRuntimeConfig := ⟨p, trim m, now⟩
  let second : VoiceRuntimeConfig := ⟨q, trim n, later⟩
  have hopen : VoiceModels.step readNumber env
      (beside w w.file w.latest (.opening .activate first) (.opening .activate second))
      (.resume w.tasks.length none now) =
        some (beside w (some []) w.latest (.writing .activate first) (.opening .activate second)) :=
    (step_first none now).trans (congrArg some (put_first w (some []) w.latest (.opening .activate first) _ _))
  have hopen' : VoiceModels.step readNumber env
      (beside w (some []) w.latest (.writing .activate first) (.opening .activate second))
      (.resume (w.tasks.length + 1) none now) =
        some (beside w (some []) w.latest (.writing .activate first) (.writing .activate second)) :=
    (step_second none now).trans (congrArg some (put_second w (some []) w.latest _ (.opening .activate second) _))
  have hwrite : VoiceModels.step readNumber env
      (beside w (some []) w.latest (.writing .activate first) (.writing .activate second))
      (.resume w.tasks.length none now) =
        some (beside w (some (fileText first)) (some first) (.written .activate) (.writing .activate second)) := by
    refine (step_first none now).trans (congrArg some ((put_first w (some (overwrite (fileText first) [])) (some first)
      (.writing .activate first) _ _).trans ?_))
    rw [overwrite, List.drop_nil, List.append_nil]
  have hwrite' : VoiceModels.step readNumber env
      (beside w (some (fileText first)) (some first) (.written .activate) (.writing .activate second))
      (.resume (w.tasks.length + 1) none now) =
        some (beside w (some (overwrite (fileText second) (fileText first))) (some second) (.written .activate)
          (.written .activate)) :=
    (step_second none now).trans (congrArg some (put_second w (some (overwrite (fileText second) (fileText first)))
      (some second) _ (.writing .activate second) _))
  refine ⟨beside w (some (overwrite (fileText second) (fileText first))) (some second) (.written .activate)
    (.written .activate), ?_, ?_⟩
  · rw [RunInvariant.run_append, activate_both hm hn, Option.bind_some, RunInvariant.run_cons, hopen, Option.bind_some,
      RunInvariant.run_cons, hopen', Option.bind_some, RunInvariant.run_cons, hwrite, Option.bind_some,
      RunInvariant.run_cons, hwrite', Option.bind_some, RunInvariant.run_nil]
  · change readVoiceRuntimeConfig readNumber (some (fileText second ++ _)) = _
    rw [readVoiceRuntimeConfig_fileText (written_of_allowed hn later)]
    exact if_congr (skipSpace_rest _ _) rfl rfl

/-- A conformer's name is longer than that of a small model, whose activation leaves its tail. -/
theorem overlapping_writes_read_conformer : ∃ v,
    run (VoiceModels.step (fun _ => none) sampleEnv) boot ([.activate .nemo conformer (js "now"),
      .activate .fasterWhisper (js "tiny") (js "now")] ++ [.resume 0 none (js "now"), .resume 1 none (js "now"),
        .resume 0 none (js "now"), .resume 1 none (js "now")]) = some v ∧
    readVoiceRuntimeConfig (fun _ => none) v.file = none := by
  obtain ⟨v, hv, hread⟩ := overlapping_writes_read (fun _ => none) sampleEnv boot (p := .nemo) (m := conformer)
    (q := .fasterWhisper) (n := js "tiny") (by decide +kernel) (by decide +kernel) (js "now") (js "now")
  exact ⟨v, hv, hread.trans (if_neg (by decide +kernel))⟩

end ModelForge.RuntimeWrites
