import ModelForge.KeyedMap
import ModelForge.PermitWindow
import ModelForge.RunInvariant
import ModelForge.Participants

set_option autoImplicit false

/-!
# Continuous batching

`BatchCoordinator::submit` puts a request into the queue of its model's
scheduler, which it creates when there is none; the scheduler hands each request
to a task of its own. Sections under the mutex, and the operations of channels
and semaphores, are single steps.
-/
namespace ModelForge.BatchCoordinator
open RunInvariant PermitWindow Participants

structure LimitsConfig where
  enable_continuous_batching : Bool
  batch_max_sequences : ℕ

def LimitsConfig.max_sequences (limits : LimitsConfig) : ℕ := max limits.batch_max_sequences 1

/-- The parameters of a generation go with the request; the model decides its way. -/
structure GenerateParams where
  model_id : String

def CAPACITY : ℕ := 128

/-- More permits a semaphore does not take: `new` panics. -/
def MAX_PERMITS : ℕ := (2 ^ 64 - 1) / 8

/-! ## State -/

inductive Loop where
  | spawned
  /-- In `rx.recv()`. -/
  | receiving
  /-- In `acquire_owned()`, for this request. -/
  | acquiring (request : ℕ)
  | stopped
  deriving DecidableEq, Repr

def Loop.pending : Loop → List ℕ
  | .acquiring request => [request]
  | _ => []

/-- `run_scheduler` with its channel. Requests are named by their `submit` calls. -/
structure Scheduler (max_sequences : ℕ) where
  model_id : String
  queue : List ℕ
  loop : Loop
  gate : Window ℕ max_sequences
  /-- What was sent to the channel, in its order. -/
  entered : List ℕ

def Scheduler.new (max_sequences : ℕ) (model_id : String) : Scheduler max_sequences :=
  ⟨model_id, [], .spawned, .empty max_sequences, []⟩

inductive Progress where
  | locking
  /-- In `sender.send(req)`, with a sender of this scheduler. -/
  | sending (scheduler : ℕ)
  | sent (scheduler : ℕ)
  /-- The scheduler had stopped. -/
  | fellBack
  /-- Batching is off; a task of the call's own generates. -/
  | direct
  /-- The client went away and the future was dropped. -/
  | dropped
  deriving DecidableEq, Repr

structure Call where
  params : GenerateParams
  progress : Progress

structure Coordinator (max_sequences : ℕ) where
  /-- The map under the mutex: whose channel the model's sender sends to. -/
  schedulers : KeyedMap String ℕ
  spawned : List (Scheduler max_sequences)
  calls : List Call

def new (limits : LimitsConfig) : Coordinator limits.max_sequences := ⟨.empty, [], []⟩

/-! ## Steps -/

inductive Event where
  | submit (params : GenerateParams)
  /-- The section of the `i`th call under the mutex. -/
  | lock (i : ℕ)
  | send (i : ℕ)
  | drop (i : ℕ)
  | start (k : ℕ)
  | recv (k : ℕ)
  | acquire (k : ℕ)
  | stop (k : ℕ)
  /-- A step of the `j`th task of the `k`th scheduler. -/
  | task (k j : ℕ)

section Steps

variable {max_sequences : ℕ}

def Coordinator.setProgress (c : Coordinator max_sequences) (i : ℕ) (progress : Progress) :
    Coordinator max_sequences :=
  { c with calls := c.calls.modify i fun call => { call with progress := progress } }

def Coordinator.setScheduler (c : Coordinator max_sequences) (k : ℕ) (a : Scheduler max_sequences) :
    Coordinator max_sequences :=
  { c with spawned := c.spawned.set k a }

/-- The sender that `submit` gets under the mutex. -/
def getOrCreate (c : Coordinator max_sequences) (i : ℕ) (model_id : String) : Coordinator max_sequences :=
  match c.schedulers.get? model_id with
  | some k => c.setProgress i (.sending k)
  | none =>
    { c with
      schedulers := c.schedulers.set model_id c.spawned.length
      spawned := c.spawned ++ [Scheduler.new max_sequences model_id] }.setProgress i (.sending c.spawned.length)

/-- `None` from `recv()` takes a channel without senders. -/
def Coordinator.hasSender (c : Coordinator max_sequences) (k : ℕ) : Bool :=
  k ∈ c.schedulers.values || c.calls.any fun call => call.progress = .sending k

def Scheduler.start (a : Scheduler max_sequences) : Option (Scheduler max_sequences) :=
  if a.loop = .spawned then
    some { a with loop := if max_sequences ≤ MAX_PERMITS then .receiving else .stopped }
  else none

def Scheduler.recv (a : Scheduler max_sequences) : Option (Scheduler max_sequences) :=
  match a.loop, a.queue with
  | .receiving, request :: rest => some { a with queue := rest, loop := .acquiring request }
  | _, _ => none

def Scheduler.acquire (a : Scheduler max_sequences) : Option (Scheduler max_sequences) :=
  match a.loop with
  | .acquiring request => (a.gate.spawn request).map fun gate => { a with loop := .receiving, gate := gate }
  | _ => none

def Scheduler.stop (a : Scheduler max_sequences) : Option (Scheduler max_sequences) :=
  if a.loop = .receiving ∧ a.queue = [] then some { a with loop := .stopped } else none

def Scheduler.task (a : Scheduler max_sequences) (j : ℕ) : Option (Scheduler max_sequences) :=
  (a.gate.advance j).map fun gate => { a with gate := gate }

/-- A send that there is room for; a full channel is waited for. -/
def Scheduler.send (a : Scheduler max_sequences) (i : ℕ) : Option (Scheduler max_sequences) :=
  if a.queue.length < CAPACITY then
    some { a with queue := a.queue ++ [i], entered := a.entered ++ [i] }
  else none

def Coordinator.onScheduler (c : Coordinator max_sequences) (k : ℕ)
    (f : Scheduler max_sequences → Option (Scheduler max_sequences)) : Option (Coordinator max_sequences) :=
  c.spawned[k]?.bind fun a => (f a).map (c.setScheduler k)

end Steps

def step (limits : LimitsConfig) (c : Coordinator limits.max_sequences) :
    Event → Option (Coordinator limits.max_sequences)
  | .submit params =>
    let progress := if limits.enable_continuous_batching then .locking else .direct
    some { c with calls := c.calls ++ [⟨params, progress⟩] }
  | .lock i =>
    c.calls[i]?.bind fun call =>
      if call.progress = .locking then some (getOrCreate c i call.params.model_id) else none
  | .send i =>
    c.calls[i]?.bind fun call =>
      match call.progress with
      | .sending k =>
        c.spawned[k]?.bind fun a =>
          if a.loop = .stopped then some (c.setProgress i .fellBack)
          else (a.send i).map fun a => (c.setScheduler k a).setProgress i (.sent k)
      | _ => none
  | .drop i =>
    c.calls[i]?.bind fun call =>
      match call.progress with
      | .locking | .sending _ => some (c.setProgress i .dropped)
      | _ => none
  | .start k => c.onScheduler k Scheduler.start
  | .recv k => c.onScheduler k Scheduler.recv
  | .acquire k => c.onScheduler k Scheduler.acquire
  | .stop k => if c.hasSender k then none else c.onScheduler k Scheduler.stop
  | .task k j => c.onScheduler k fun a => a.task j

/-! ## What holds in every state -/

variable {limits : LimitsConfig} {max_sequences : ℕ} {c c' : Coordinator max_sequences}
  {a a' : Scheduler max_sequences} {i k : ℕ} {call : Call} {calls calls' : List Call}

/-- A scheduler hands on what was sent to it, in the order in which it was sent. -/
structure SchedulerOk (calls : List Call) (k : ℕ) (a : Scheduler max_sequences) : Prop where
  queued : a.gate.handed ++ a.loop.pending ++ a.queue = a.entered
  nodup : a.entered.Nodup
  sent : ∀ i ∈ a.entered, ∃ call, calls[i]? = some call ∧ call.progress = .sent k ∧
    call.params.model_id = a.model_id
  ordered : a.gate.Ordered

structure Inv (c : Coordinator max_sequences) : Prop where
  mapped : ∀ (k : ℕ) (a : Scheduler max_sequences), c.spawned[k]? = some a → c.schedulers.get? a.model_id = some k
  known : ∀ model_id k, c.schedulers.get? model_id = some k →
    ∃ a, c.spawned[k]? = some a ∧ a.model_id = model_id
  sending : ∀ (i : ℕ) (call : Call) k, c.calls[i]? = some call → call.progress = .sending k →
    ∃ a, c.spawned[k]? = some a ∧ a.model_id = call.params.model_id
  each : ∀ (k : ℕ) (a : Scheduler max_sequences), c.spawned[k]? = some a → SchedulerOk c.calls k a

theorem inv_new : Inv (new limits) := by
  constructor
  · intro k a h
    simp [new] at h
  · intro model_id k h
    simp [new] at h
  · intro i call k h
    simp [new] at h
  · intro k a h
    simp [new] at h

theorem SchedulerOk.keep (h : SchedulerOk calls k a)
    (hcalls : ∀ (i : ℕ) (call : Call), calls[i]? = some call → call.progress = .sent k →
      calls'[i]? = some call) :
    SchedulerOk calls' k a := by
  refine ⟨h.queued, h.nodup, ?_, h.ordered⟩
  intro i hi
  obtain ⟨call, hcall, hprogress, hmodel⟩ := h.sent i hi
  exact ⟨call, hcalls i call hcall hprogress, hprogress, hmodel⟩

theorem schedulerOk_new (calls : List Call) (k : ℕ) (model_id : String) :
    SchedulerOk calls k (Scheduler.new max_sequences model_id) :=
  ⟨rfl, List.nodup_nil, fun _ h => absurd h List.not_mem_nil, Window.ordered_empty⟩

/-! ### A scheduler's own steps -/

theorem handed_notMem (h : SchedulerOk calls k a) {request : ℕ} (hloop : a.loop = .acquiring request) :
    request ∉ a.gate.handed := by
  have hnodup := h.nodup
  rw [← h.queued, hloop, Loop.pending, List.append_assoc, List.nodup_append] at hnodup
  intro hmem
  exact hnodup.2.2 request hmem request (by simp) rfl

theorem SchedulerOk.start (h : SchedulerOk calls k a) (hstep : a.start = some a') :
    SchedulerOk calls k a' ∧ a'.model_id = a.model_id := by
  unfold Scheduler.start at hstep
  split at hstep
  · rename_i hloop
    obtain rfl := Option.some.inj hstep
    refine ⟨⟨?_, h.nodup, h.sent, h.ordered⟩, rfl⟩
    rw [← h.queued, hloop]
    by_cases hpermits : max_sequences ≤ MAX_PERMITS
    · simp [hpermits, Loop.pending]
    · simp [hpermits, Loop.pending]
  · cases hstep

theorem SchedulerOk.recv (h : SchedulerOk calls k a) (hstep : a.recv = some a') :
    SchedulerOk calls k a' ∧ a'.model_id = a.model_id := by
  unfold Scheduler.recv at hstep
  split at hstep
  · rename_i request rest hloop hqueue
    obtain rfl := Option.some.inj hstep
    refine ⟨⟨?_, h.nodup, h.sent, h.ordered⟩, rfl⟩
    rw [← h.queued, hloop, hqueue]
    simp [Loop.pending]
  · cases hstep

theorem SchedulerOk.acquire (h : SchedulerOk calls k a) (hstep : a.acquire = some a') :
    SchedulerOk calls k a' ∧ a'.model_id = a.model_id := by
  unfold Scheduler.acquire at hstep
  split at hstep
  · rename_i request hloop
    obtain ⟨gate, hgate, rfl⟩ := Option.map_eq_some_iff.mp hstep
    refine ⟨⟨?_, h.nodup, h.sent, h.ordered.spawn (handed_notMem h hloop) hgate⟩, rfl⟩
    rw [← h.queued, hloop, Window.handed_spawn hgate]
    simp [Loop.pending]
  · cases hstep

theorem SchedulerOk.stop (h : SchedulerOk calls k a) (hstep : a.stop = some a') :
    SchedulerOk calls k a' ∧ a'.model_id = a.model_id := by
  unfold Scheduler.stop at hstep
  split at hstep
  · rename_i hidle
    obtain rfl := Option.some.inj hstep
    refine ⟨⟨?_, h.nodup, h.sent, h.ordered⟩, rfl⟩
    rw [← h.queued, hidle.1]
    rfl
  · cases hstep

theorem SchedulerOk.task (h : SchedulerOk calls k a) {j : ℕ} (hstep : a.task j = some a') :
    SchedulerOk calls k a' ∧ a'.model_id = a.model_id := by
  obtain ⟨gate, hgate, rfl⟩ := Option.map_eq_some_iff.mp hstep
  refine ⟨⟨?_, h.nodup, h.sent, h.ordered.advance hgate⟩, rfl⟩
  rw [← h.queued, Window.handed_advance hgate]

theorem SchedulerOk.send (h : SchedulerOk calls k a) (hstep : a.send i = some a') (hi : i ∉ a.entered)
    (hcall : ∃ call, calls[i]? = some call ∧ call.progress = .sent k ∧ call.params.model_id = a.model_id) :
    SchedulerOk calls k a' ∧ a'.model_id = a.model_id := by
  unfold Scheduler.send at hstep
  split at hstep
  · obtain rfl := Option.some.inj hstep
    refine ⟨⟨?_, ?_, ?_, h.ordered⟩, rfl⟩
    · rw [← h.queued, List.append_assoc _ a.queue]
    · have hconcat := h.nodup.concat hi
      rwa [List.concat_eq_append] at hconcat
    · intro j hj
      rw [List.mem_append, List.mem_singleton] at hj
      cases hj with
      | inl hj => exact h.sent j hj
      | inr hj => exact hj ▸ hcall
  · cases hstep

/-! ### The coordinator -/

theorem Inv.setScheduler (h : Inv c) (hk : c.spawned[k]? = some a) (hmodel : a'.model_id = a.model_id)
    (hok : SchedulerOk c.calls k a') : Inv (c.setScheduler k a') := by
  have hlt : k < c.spawned.length := (List.getElem?_eq_some_iff.mp hk).choose
  have hget : ∀ l, (c.setScheduler k a').spawned[l]? = if k = l then some a' else c.spawned[l]? := by
    intro l
    rw [Coordinator.setScheduler, List.getElem?_set]
    by_cases hkl : k = l
    · subst hkl
      simp [hlt]
    · simp [hkl]
  have hfind : ∀ (l : ℕ) (b : Scheduler max_sequences), c.spawned[l]? = some b →
      ∃ b', (c.setScheduler k a').spawned[l]? = some b' ∧ b'.model_id = b.model_id := by
    intro l b hb
    rw [hget]
    split
    · rename_i hkl
      subst hkl
      obtain rfl := Option.some.inj (hk.symm.trans hb)
      exact ⟨a', rfl, hmodel⟩
    · exact ⟨b, hb, rfl⟩
  constructor
  · intro l b hb
    rw [hget] at hb
    split at hb
    · rename_i hkl
      obtain rfl := Option.some.inj hb
      rw [hmodel, ← hkl]
      exact h.mapped k a hk
    · exact h.mapped l b hb
  · intro model_id l hl
    obtain ⟨b, hb, hname⟩ := h.known model_id l hl
    obtain ⟨b', hb', hname'⟩ := hfind l b hb
    exact ⟨b', hb', hname'.trans hname⟩
  · intro j call l hcall hprogress
    obtain ⟨b, hb, hname⟩ := h.sending j call l hcall hprogress
    obtain ⟨b', hb', hname'⟩ := hfind l b hb
    exact ⟨b', hb', hname'.trans hname⟩
  · intro l b hb
    rw [hget] at hb
    split at hb
    · rename_i hkl
      obtain rfl := Option.some.inj hb
      exact hkl ▸ hok
    · exact h.each l b hb

theorem getElem?_setProgress (c : Coordinator max_sequences) (i : ℕ) (progress : Progress) (j : ℕ) :
    (c.setProgress i progress).calls[j]? =
      if i = j then c.calls[j]?.map fun call => { call with progress := progress } else c.calls[j]? :=
  get_modify ..

theorem Inv.setProgress (h : Inv c) (hi : c.calls[i]? = some call) (hsent : ∀ k, call.progress ≠ .sent k)
    {progress : Progress}
    (hsending : ∀ k, progress = .sending k → ∃ a, c.spawned[k]? = some a ∧ a.model_id = call.params.model_id) :
    Inv (c.setProgress i progress) := by
  refine ⟨h.mapped, h.known, ?_, ?_⟩
  · intro j call' k hcall' hprogress
    rw [getElem?_setProgress] at hcall'
    split at hcall'
    · rename_i hij
      rw [← hij, hi] at hcall'
      obtain rfl := Option.some.inj hcall'
      exact hsending k hprogress
    · exact h.sending j call' k hcall' hprogress
  · intro k a ha
    apply (h.each k a ha).keep
    intro j call' hcall' hprogress
    rw [getElem?_setProgress]
    split
    · rename_i hij
      rw [← hij, hi] at hcall'
      obtain rfl := Option.some.inj hcall'
      exact absurd hprogress (hsent k)
    · exact hcall'

theorem Inv.addScheduler (h : Inv c) {model_id : String} (hnone : c.schedulers.get? model_id = none) :
    Inv { c with
      schedulers := c.schedulers.set model_id c.spawned.length
      spawned := c.spawned ++ [Scheduler.new max_sequences model_id] } := by
  have hold : ∀ (k : ℕ) (a : Scheduler max_sequences), c.spawned[k]? = some a →
      (c.spawned ++ [Scheduler.new max_sequences model_id])[k]? = some a := by
    intro k a ha
    exact get_append ha _
  have hget : ∀ name, (c.schedulers.set model_id c.spawned.length).get? name =
      if name = model_id then some c.spawned.length else c.schedulers.get? name := by
    intro name
    exact KeyedMap.get?_set _ _ _ _
  constructor
  · intro k a ha
    rw [hget]
    rcases get_of_concat ha with hk | ⟨rfl, rfl⟩
    · have hmapped := h.mapped k a hk
      have hne : a.model_id ≠ model_id := by
        intro heq
        rw [heq, hnone] at hmapped
        cases hmapped
      rw [if_neg hne]
      exact hmapped
    · exact if_pos rfl
  · intro name k hk
    rw [hget] at hk
    split at hk
    · rename_i hname
      obtain rfl := Option.some.inj hk
      exact ⟨_, List.getElem?_concat_length, hname.symm⟩
    · obtain ⟨a, ha, hmodel⟩ := h.known name k hk
      exact ⟨a, hold k a ha, hmodel⟩
  · intro i call k hcall hprogress
    obtain ⟨a, ha, hmodel⟩ := h.sending i call k hcall hprogress
    exact ⟨a, hold k a ha, hmodel⟩
  · intro k a ha
    rcases get_of_concat ha with hk | ⟨rfl, rfl⟩
    · exact h.each k a hk
    · exact schedulerOk_new _ _ _

theorem Inv.submit (h : Inv c) {params : GenerateParams} {progress : Progress}
    (hsending : ∀ k, progress ≠ .sending k) : Inv { c with calls := c.calls ++ [⟨params, progress⟩] } := by
  refine ⟨h.mapped, h.known, ?_, ?_⟩
  · intro i call k hcall hprogress
    rcases get_of_concat hcall with hold | ⟨-, rfl⟩
    · exact h.sending i call k hold hprogress
    · exact absurd hprogress (hsending k)
  · intro k a ha
    apply (h.each k a ha).keep
    intro i call hcall _
    exact get_append hcall _

theorem Inv.getOrCreate (h : Inv c) (hi : c.calls[i]? = some call) (hlocking : call.progress = .locking) :
    Inv (getOrCreate c i call.params.model_id) := by
  have hsent : ∀ k, call.progress ≠ .sent k := by simp [hlocking]
  unfold BatchCoordinator.getOrCreate
  split
  · rename_i k hk
    apply h.setProgress hi hsent
    intro l hl
    obtain rfl := Progress.sending.inj hl
    exact h.known _ _ hk
  · rename_i hnone
    apply (h.addScheduler hnone).setProgress hi hsent
    intro l hl
    obtain rfl := Progress.sending.inj hl
    exact ⟨_, List.getElem?_concat_length, rfl⟩

theorem Inv.onScheduler (h : Inv c) {f : Scheduler max_sequences → Option (Scheduler max_sequences)}
    (hf : ∀ a a', SchedulerOk c.calls k a → f a = some a' →
      SchedulerOk c.calls k a' ∧ a'.model_id = a.model_id)
    (hstep : c.onScheduler k f = some c') : Inv c' := by
  obtain ⟨a, ha, hstep⟩ := Option.bind_eq_some_iff.mp hstep
  obtain ⟨a', ha', rfl⟩ := Option.map_eq_some_iff.mp hstep
  obtain ⟨hok, hmodel⟩ := hf a a' (h.each k a ha) ha'
  exact h.setScheduler ha hmodel hok

/-- A request that is sent goes behind the ones that were sent before it. -/
theorem Inv.send (h : Inv c) (hi : c.calls[i]? = some call) (hsending : call.progress = .sending k)
    (hk : c.spawned[k]? = some a) (hstep : a.send i = some a') :
    Inv ((c.setScheduler k a').setProgress i (.sent k)) := by
  obtain ⟨b, hb, hmodel⟩ := h.sending i call k hi hsending
  obtain rfl := Option.some.inj (hk.symm.trans hb)
  have hnotSent : ∀ k, call.progress ≠ .sent k := by simp [hsending]
  have hmarked : Inv (c.setProgress i (.sent k)) := h.setProgress hi hnotSent (by simp)
  have hfresh : i ∉ a.entered := by
    intro hmem
    obtain ⟨call', hcall', hprogress, -⟩ := (h.each k a hk).sent i hmem
    obtain rfl := Option.some.inj (hi.symm.trans hcall')
    exact hnotSent k hprogress
  have hcall : (c.setProgress i (.sent k)).calls[i]? = some { call with progress := .sent k } := by
    rw [getElem?_setProgress, if_pos rfl, hi]
    rfl
  obtain ⟨hok, hname⟩ := (hmarked.each k a hk).send hstep hfresh ⟨_, hcall, rfl, hmodel.symm⟩
  exact hmarked.setScheduler hk hname hok

theorem inv_step {limits : LimitsConfig} {c c' : Coordinator limits.max_sequences} (e : Event) (h : Inv c)
    (hstep : step limits c e = some c') : Inv c' := by
  cases e with
  | submit params =>
    obtain rfl := Option.some.inj hstep
    apply h.submit
    intro k
    split <;> simp
  | lock i =>
    obtain ⟨call, hcall, hstep⟩ := Option.bind_eq_some_iff.mp hstep
    split at hstep
    · rename_i hlocking
      obtain rfl := Option.some.inj hstep
      exact h.getOrCreate hcall hlocking
    · cases hstep
  | send i =>
    obtain ⟨call, hcall, hstep⟩ := Option.bind_eq_some_iff.mp hstep
    split at hstep
    · rename_i k hsending
      obtain ⟨a, ha, hstep⟩ := Option.bind_eq_some_iff.mp hstep
      split at hstep
      · obtain rfl := Option.some.inj hstep
        exact h.setProgress hcall (by simp [hsending]) (by simp)
      · obtain ⟨a', ha', rfl⟩ := Option.map_eq_some_iff.mp hstep
        exact h.send hcall hsending ha ha'
    · cases hstep
  | drop i =>
    obtain ⟨call, hcall, hstep⟩ := Option.bind_eq_some_iff.mp hstep
    split at hstep
    · rename_i hlocking
      obtain rfl := Option.some.inj hstep
      exact h.setProgress hcall (by simp [hlocking]) (by simp)
    · rename_i k hsending
      obtain rfl := Option.some.inj hstep
      exact h.setProgress hcall (by simp [hsending]) (by simp)
    · cases hstep
  | start k => exact h.onScheduler (fun _ _ hok => hok.start) hstep
  | recv k => exact h.onScheduler (fun _ _ hok => hok.recv) hstep
  | acquire k => exact h.onScheduler (fun _ _ hok => hok.acquire) hstep
  | stop k =>
    rw [step] at hstep
    split at hstep
    · cases hstep
    · exact h.onScheduler (fun _ _ hok => hok.stop) hstep
  | task k j => exact h.onScheduler (fun _ _ hok => hok.task) hstep

theorem inv_run {limits : LimitsConfig} {c : Coordinator limits.max_sequences} {events : List Event}
    (h : run (step limits) (new limits) events = some c) : Inv c :=
  run_invariant Inv (fun _ e _ hc hstep => inv_step e hc hstep) inv_new h

/-- The map keeps a sender of every scheduler, so `recv()` never returns `None`. -/
theorem Inv.hasSender (h : Inv c) (hk : c.spawned[k]? = some a) : c.hasSender k = true := by
  have hvalue : k ∈ c.schedulers.values := KeyedMap.mem_values.mpr ⟨a.model_id, h.mapped k a hk⟩
  rw [Coordinator.hasSender, decide_eq_true hvalue, Bool.true_or]

/-! ## Scheduling -/

/-- There is one scheduler a model; it hands what was sent to it to tasks in the
order of the queue, each request once, at most so many calls run at once, and a
call is overtaken by fewer than that many. -/
theorem scheduling_bounds (limits : LimitsConfig) (events : List Event)
    (c : Coordinator limits.max_sequences) (h : run (step limits) (new limits) events = some c) :
    (∀ (k l : ℕ) (a b : Scheduler limits.max_sequences), c.spawned[k]? = some a → c.spawned[l]? = some b →
      a.model_id = b.model_id → k = l) ∧
    (∀ (k l : ℕ) (a b : Scheduler limits.max_sequences) (i : ℕ), c.spawned[k]? = some a →
      c.spawned[l]? = some b → i ∈ a.entered → i ∈ b.entered → k = l) ∧
    ∀ (k : ℕ) (a : Scheduler limits.max_sequences), c.spawned[k]? = some a →
      (∀ i ∈ a.entered, ∃ call, c.calls[i]? = some call ∧ call.params.model_id = a.model_id) ∧
      a.gate.handed <+: a.entered ∧ a.entered.Nodup ∧
      (∀ i ∈ a.gate.begun, i ∈ a.gate.handed) ∧ a.gate.begun.Nodup ∧
      a.gate.running ≤ max limits.batch_max_sequences 1 ∧
      ∀ i ∈ a.gate.begun, ((earlier a.entered i).filter fun j => j ∉ earlier a.gate.begun i).length <
        max limits.batch_max_sequences 1 := by
  have hinv := inv_run h
  refine ⟨?_, ?_, ?_⟩
  · intro k l a b ha hb hmodel
    have hk := hinv.mapped k a ha
    rw [hmodel, hinv.mapped l b hb] at hk
    exact (Option.some.inj hk).symm
  · intro k l a b i ha hb hia hib
    obtain ⟨call, hcall, hk, -⟩ := (hinv.each k a ha).sent i hia
    obtain ⟨call', hcall', hl, -⟩ := (hinv.each l b hb).sent i hib
    obtain rfl := Option.some.inj (hcall.symm.trans hcall')
    exact Progress.sent.inj (hk.symm.trans hl)
  · intro k a ha
    have hok := hinv.each k a ha
    have hprefix : a.gate.handed <+: a.entered :=
      ⟨a.loop.pending ++ a.queue, by rw [← List.append_assoc, hok.queued]⟩
    refine ⟨?_, hprefix, hok.nodup, hok.ordered.begun_handed, hok.ordered.begun_nodup,
      a.gate.running_le, ?_⟩
    · intro i hi
      obtain ⟨call, hcall, -, hmodel⟩ := hok.sent i hi
      exact ⟨call, hcall, hmodel⟩
    · intro i hi
      obtain ⟨rest, hrest⟩ := hprefix
      rw [← hrest, earlier_append (hok.ordered.begun_handed i hi)]
      exact hok.ordered.overtaken i hi

section Sample

def sampleParams : GenerateParams := ⟨"echo"⟩

def sampleAlone : List Event := [.submit sampleParams, .lock 0, .send 0, .start 0, .recv 0, .acquire 0, .task 0 0]

/-- Two requests, of which the second's task runs first. -/
def sampleTwo : List Event :=
  [.submit sampleParams, .submit sampleParams, .lock 0, .lock 1, .send 0, .send 1, .start 0, .recv 0,
    .acquire 0, .recv 0, .acquire 0, .task 0 1, .task 0 0]

def scheduled (limits : LimitsConfig) (events : List Event) : Option (Scheduler limits.max_sequences) :=
  (run (step limits) (new limits) events).bind fun c => c.spawned[0]?

theorem scheduled_eq_some {limits : LimitsConfig} {events : List Event} {a : Scheduler limits.max_sequences}
    (h : scheduled limits events = some a) :
    ∃ c, run (step limits) (new limits) events = some c ∧ c.spawned[0]? = some a :=
  Option.bind_eq_some_iff.mp h

/-- A limit of none runs one call, and in a window of two the second request's
call may begin first. -/
theorem scheduling_differs :
    (∃ (c : Coordinator _) (a : Scheduler _), run (step ⟨true, 0⟩) (new ⟨true, 0⟩) sampleAlone = some c ∧
      c.spawned[0]? = some a ∧ 0 < a.gate.running) ∧
    ∃ (c : Coordinator _) (a : Scheduler _), run (step ⟨true, 2⟩) (new ⟨true, 2⟩) sampleTwo = some c ∧
      c.spawned[0]? = some a ∧ a.entered = [0, 1] ∧ a.gate.begun = [1, 0] := by
  have halone : (scheduled ⟨true, 0⟩ sampleAlone).map (fun a => a.gate.running) = some 1 := by decide
  have htwo : (scheduled ⟨true, 2⟩ sampleTwo).map (fun a => (a.entered, a.gate.begun)) =
      some ([0, 1], [1, 0]) := by decide
  obtain ⟨a, ha, hrunning⟩ := Option.map_eq_some_iff.mp halone
  obtain ⟨b, hb, hlists⟩ := Option.map_eq_some_iff.mp htwo
  obtain ⟨c, hc, hfirst⟩ := scheduled_eq_some ha
  obtain ⟨d, hd, hsecond⟩ := scheduled_eq_some hb
  obtain ⟨hentered, hbegun⟩ := Prod.mk.inj hlists
  refine ⟨⟨c, a, hc, hfirst, ?_⟩, d, b, hd, hsecond, hentered, hbegun⟩
  omega

theorem scheduling_bounds_two : ∃ (c : Coordinator _) (a : Scheduler _),
    run (step ⟨true, 2⟩) (new ⟨true, 2⟩) sampleTwo = some c ∧ c.spawned[0]? = some a ∧
      a.gate.running ≤ 2 := by
  have htwo : (scheduled ⟨true, 2⟩ sampleTwo).isSome = true := by decide
  obtain ⟨a, ha⟩ := Option.isSome_iff_exists.mp htwo
  obtain ⟨c, hc, hfirst⟩ := scheduled_eq_some ha
  have hbounds := scheduling_bounds ⟨true, 2⟩ sampleTwo c hc
  exact ⟨c, a, hc, hfirst, (hbounds.2.2 0 a hfirst).2.2.2.2.2.1⟩

end Sample

end ModelForge.BatchCoordinator
