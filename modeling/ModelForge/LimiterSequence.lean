import ModelForge.RateLimit
import ModelForge.HolderCount
import ModelForge.RunInvariant
import ModelForge.Participants

set_option autoImplicit false

/-!
# Sequences of requests of one key

A sequence passes through the limiter whatever headers its requests carry. Which
requests are admitted is the same under all headers exactly when the sequence
leaves room for each of its requests.
-/
namespace ModelForge.LimiterSequence
open RunInvariant RateLimit HolderCount Participants

/-- A store with its limits, and what a finished response does to it. -/
structure Limiter (σ : Type) where
  init : σ
  limit : ℤ → Auth → σ → Admission × σ
  release : ℤ → String → σ → σ

/-- After so many milliseconds a request comes, or the `i`-th response finishes. -/
inductive Event where
  | request (elapsed : ℕ)
  | finish (elapsed i : ℕ)
  deriving DecidableEq, Repr

/-! ## What happens without a look at the headers -/

structure Arrival where
  start : ℤ
  finished : Bool
  deriving DecidableEq, Repr

structure Trace where
  now : ℤ
  arrivals : List Arrival
  deriving DecidableEq, Repr

def Arrival.finish (a : Arrival) : Arrival := { a with finished := true }

def Trace.next (t : Trace) : Event → Trace
  | .request elapsed => ⟨t.now + elapsed, t.arrivals ++ [⟨t.now + elapsed, false⟩]⟩
  | .finish elapsed i => ⟨t.now + elapsed, t.arrivals.modify i Arrival.finish⟩

/-- Of a time and the start of a request: whether they fall in one rate window,
and whether the request, unfinished, still counts. -/
structure Windows where
  inWindow : ℤ → ℤ → Bool
  lasts : ℤ → ℤ → Bool

def Trace.inWindow (W : Windows) (t : Trace) (now : ℤ) : ℕ :=
  t.arrivals.countP fun a => W.inWindow now a.start

def Trace.unfinished (W : Windows) (t : Trace) (now : ℤ) : ℕ :=
  t.arrivals.countP fun a => a.finished = false ∧ W.lasts now a.start

/-- The earlier requests leave room for this one under both limits. -/
def HasRoom (W : Windows) (auth : Auth) (t : Trace) : Event → Prop
  | .request elapsed =>
    t.inWindow W (t.now + elapsed) < auth.rpm ∧ t.unfinished W (t.now + elapsed) < auth.maxConcurrent
  | .finish _ _ => True

instance (W : Windows) (auth : Auth) (t : Trace) : (e : Event) → Decidable (HasRoom W auth t e)
  | .request _ => inferInstanceAs (Decidable (_ ∧ _))
  | .finish _ _ => isTrue trivial

/-- The sequence leaves room for each of its requests. -/
def Roomy (W : Windows) (auth : Auth) (t : Trace) (events : List Event) : Prop :=
  EveryStep (fun t e => some (Trace.next t e)) (fun t e _ => HasRoom W auth t e) t events

instance (W : Windows) (auth : Auth) (t : Trace) (events : List Event) : Decidable (Roomy W auth t events) :=
  inferInstanceAs (Decidable (EveryStep _ _ _ _))

/-! ## The middleware -/

structure Handled where
  arrival : Arrival
  admission : Admission
  deriving DecidableEq, Repr

structure World (σ : Type) where
  now : ℤ
  store : σ
  requests : List Handled

def Handled.finish (r : Handled) : Handled := { r with arrival := r.arrival.finish }

/-- The response holds a slot that its end gives back. -/
def Handled.holds (r : Handled) : Bool := r.admission = .admitted ∧ r.arrival.finished = false

variable {σ : Type}

/-- `headers i` are the headers of the `i`-th request. -/
def step (L : Limiter σ) (auth : Auth) (headers : ℕ → Headers) (w : World σ) : Event → World σ
  | .request elapsed =>
    let now := w.now + elapsed
    let out := rateLimitMiddleware (L.limit now) (some auth) (headers w.requests.length) w.store
    ⟨now, out.2, w.requests ++ [⟨⟨now, false⟩, out.1⟩]⟩
  | .finish elapsed i =>
    let now := w.now + elapsed
    { now
      store := if (w.requests[i]?).any Handled.holds then L.release now auth.apiKeyId w.store else w.store
      requests := w.requests.modify i Handled.finish }

def start (L : Limiter σ) (now : ℤ) : World σ := ⟨now, L.init, []⟩

def runSequence (L : Limiter σ) (auth : Auth) (headers : ℕ → Headers) (now : ℤ) (events : List Event) :
    World σ :=
  events.foldl (step L auth headers) (start L now)

/-- Which requests go on to the route. -/
def admissions (L : Limiter σ) (auth : Auth) (headers : ℕ → Headers) (now : ℤ) (events : List Event) :
    List Bool :=
  (runSequence L auth headers now events).requests.map fun r => r.admission.passes

def World.trace (w : World σ) : Trace := ⟨w.now, w.requests.map Handled.arrival⟩

variable {L : Limiter σ} {W : Windows} {auth : Auth} {headers headers' : ℕ → Headers} {w : World σ}
  {now : ℤ} {events : List Event}

theorem step_child {elapsed : ℕ} (h : isOrchestrationChild (headers w.requests.length) = true) :
    step L auth headers w (.request elapsed) =
      ⟨w.now + elapsed, w.store, w.requests ++ [⟨⟨w.now + elapsed, false⟩, .bypassed⟩]⟩ := by
  simp only [step, rateLimitMiddleware, if_pos h]

theorem step_limited {elapsed : ℕ} (h : ¬ isOrchestrationChild (headers w.requests.length) = true) :
    step L auth headers w (.request elapsed) =
      ⟨w.now + elapsed, (L.limit (w.now + elapsed) auth w.store).2,
        w.requests ++ [⟨⟨w.now + elapsed, false⟩, (L.limit (w.now + elapsed) auth w.store).1⟩]⟩ := by
  simp only [step, rateLimitMiddleware, if_neg h]

theorem map_modify {α β : Type} (f : α → α) (g : α → β) (f' : β → β) (h : ∀ a, g (f a) = f' (g a))
    (l : List α) (i : ℕ) : (l.modify i f).map g = (l.map g).modify i f' := by
  refine List.ext_getElem? fun n => ?_
  rw [List.getElem?_map, List.getElem?_modify, List.getElem?_modify, List.getElem?_map]
  by_cases hn : i = n <;> cases l[n]? <;> simp [hn, h]

theorem trace_step (e : Event) : (step L auth headers w e).trace = w.trace.next e := by
  cases e with
  | request elapsed => simp [step, World.trace, Trace.next]
  | finish elapsed i =>
    simp only [step, World.trace, Trace.next,
      map_modify Handled.finish Handled.arrival Arrival.finish fun _ => rfl]

theorem trace_foldl : (events.foldl (step L auth headers) w).trace = events.foldl Trace.next w.trace := by
  induction events generalizing w with
  | nil => rfl
  | cons e rest ih => rw [List.foldl_cons, ih, trace_step, List.foldl_cons]

/-! ## Only the orchestration header is read -/

theorem step_congr (h : ∀ i, isOrchestrationChild (headers i) = isOrchestrationChild (headers' i)) :
    step L auth headers = step L auth headers' := by
  funext w e
  cases e with
  | request elapsed => simp only [step, rateLimitMiddleware, h]
  | finish elapsed i => rfl

theorem admissions_congr (h : ∀ i, isOrchestrationChild (headers i) = isOrchestrationChild (headers' i)) :
    admissions L auth headers now events = admissions L auth headers' now events := by
  rw [admissions, runSequence, step_congr h]
  rfl

/-! ## Sequences that pass whole -/

def AllPass (w : World σ) : Prop := ∀ r ∈ w.requests, r.admission.passes = true

theorem admissions_step (e : Event) :
    w.requests.map Handled.admission <+: (step L auth headers w e).requests.map Handled.admission := by
  cases e with
  | request elapsed =>
    rw [step, List.map_append]
    exact List.prefix_append _ _
  | finish elapsed i =>
    rw [step, map_modify Handled.finish Handled.admission id fun _ => rfl, List.modify_id]

theorem AllPass.of_foldl (h : AllPass (events.foldl (step L auth headers) w)) : AllPass w := by
  induction events generalizing w with
  | nil => exact h
  | cons e rest ih =>
    intro r hr
    have hstep : AllPass (step L auth headers w e) := ih h
    have hkept : w.requests.map Handled.admission <+:
        (step L auth headers w e).requests.map Handled.admission := admissions_step e
    obtain ⟨r', hr', hadmission⟩ := List.mem_map.mp (hkept.subset (List.mem_map_of_mem hr))
    exact hadmission ▸ hstep r' hr'

theorem length_admissions :
    (admissions L auth headers now events).length = (events.foldl Trace.next ⟨now, []⟩).arrivals.length := by
  have htrace : (events.foldl (step L auth headers) (start L now)).trace =
      events.foldl Trace.next (start L now).trace := trace_foldl
  have harrivals := congrArg (fun t => t.arrivals.length) htrace
  simpa [admissions, runSequence, World.trace, start] using harrivals

theorem admissions_eq_replicate :
    admissions L auth headers now events =
        List.replicate (events.foldl Trace.next ⟨now, []⟩).arrivals.length true ↔
      AllPass (runSequence L auth headers now events) := by
  rw [List.eq_replicate_iff, and_iff_right length_admissions]
  simp only [admissions, List.mem_map, forall_exists_index, and_imp, forall_apply_eq_imp_iff₂, AllPass]

/-- Headers under which the request bypasses the limiter, or does not. -/
def childHeaders (child : Bool) : Headers := fun name =>
  if child = true ∧ name = "x-modelforge-orchestration" then some "voice-analyze" else none

theorem isOrchestrationChild_childHeaders (child : Bool) :
    isOrchestrationChild (childHeaders child) = child := by
  cases child <;> decide

theorem AllPass.append (hpass : AllPass w) {admission : Admission} (hadmission : admission.passes = true)
    (now : ℤ) (store : σ) (arrival : Arrival) :
    AllPass (⟨now, store, w.requests ++ [⟨arrival, admission⟩]⟩ : World σ) := by
  intro r hr
  rcases List.mem_append.mp hr with hold | hnew
  · exact hpass r hold
  · obtain rfl := List.mem_singleton.mp hnew
    exact hadmission

theorem allPass_finish (hpass : AllPass w) (elapsed i : ℕ) :
    AllPass (step L auth headers w (.finish elapsed i)) := by
  exact forall_modify hpass fun _ hadmission => hadmission

theorem allPass_children (events : List Event) (hw : AllPass w) :
    AllPass (events.foldl (step L auth fun _ => childHeaders true) w) := by
  induction events generalizing w with
  | nil => exact hw
  | cons e rest ih =>
    cases e with
    | request elapsed => exact ih (hw.append rfl _ _ _)
    | finish elapsed i => exact ih (allPass_finish hw elapsed i)

/-- The headers do not matter exactly when everything passes under all of them:
a sequence of children does. -/
theorem same_iff_allPass (now : ℤ) (events : List Event) :
    (∀ headers headers', admissions L auth headers now events = admissions L auth headers' now events) ↔
      ∀ headers, AllPass (runSequence L auth headers now events) := by
  have hchildren : AllPass (runSequence L auth (fun _ => childHeaders true) now events) :=
    allPass_children events fun r hr => by cases hr
  constructor
  · intro h headers
    exact admissions_eq_replicate.mp ((h headers _).trans (admissions_eq_replicate.mpr hchildren))
  · intro h headers headers'
    exact (admissions_eq_replicate.mpr (h headers)).trans (admissions_eq_replicate.mpr (h headers')).symm

end ModelForge.LimiterSequence
