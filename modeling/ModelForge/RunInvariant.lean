import Mathlib

set_option autoImplicit false

/-!
# Runs of an event-driven machine

`step s e` is the state after event `e`, or `none` where `e` is not enabled in
`s`. A run is a list of events; a property of a run is a property of each of
its steps.
-/
namespace ModelForge.RunInvariant

variable {σ ε : Type}

def run (step : σ → ε → Option σ) : σ → List ε → Option σ
  | s, [] => some s
  | s, e :: rest => (step s e).bind fun t => run step t rest

/-- `P before event after` holds at every step that the events take from `s`. -/
def EveryStep (step : σ → ε → Option σ) (P : σ → ε → σ → Prop) : σ → List ε → Prop
  | _, [] => True
  | s, e :: rest => ∀ t, step s e = some t → P s e t ∧ EveryStep step P t rest

variable {step : σ → ε → Option σ}

@[simp] theorem run_nil (s : σ) : run step s [] = some s := rfl

theorem run_cons (s : σ) (e : ε) (rest : List ε) :
    run step s (e :: rest) = (step s e).bind fun t => run step t rest := rfl

theorem run_cons_some {s u : σ} {e : ε} {rest : List ε}
    (h : run step s (e :: rest) = some u) : ∃ t, step s e = some t ∧ run step t rest = some u :=
  Option.bind_eq_some_iff.mp h

theorem run_append (s : σ) (xs ys : List ε) :
    run step s (xs ++ ys) = (run step s xs).bind fun t => run step t ys := by
  induction xs generalizing s with
  | nil => rfl
  | cons e xs ih =>
    simp only [List.cons_append, run_cons, Option.bind_assoc]
    exact congrArg _ (funext ih)

/-- A machine whose events are always enabled runs as a fold. -/
theorem run_some (f : σ → ε → σ) (s : σ) (events : List ε) :
    run (fun s e => some (f s e)) s events = some (events.foldl f s) := by
  induction events generalizing s with
  | nil => rfl
  | cons e rest ih => exact ih (f s e)

/-- What one step keeps, every run keeps. -/
theorem run_invariant (I : σ → Prop) (keep : ∀ s e t, I s → step s e = some t → I t)
    {s u : σ} {events : List ε} (hs : I s) (h : run step s events = some u) : I u := by
  induction events generalizing s with
  | nil => exact Option.some.inj h ▸ hs
  | cons e rest ih =>
    obtain ⟨t, ht, hu⟩ := run_cons_some h
    exact ih (keep s e t hs ht) hu

/-- A property that can be decided of each step can be decided of a run. -/
instance decidableEveryStep (P : σ → ε → σ → Prop) [∀ s e t, Decidable (P s e t)] :
    (s : σ) → (events : List ε) → Decidable (EveryStep step P s events)
  | _, [] => isTrue trivial
  | s, e :: rest =>
    match h : step s e with
    | none => isTrue fun t ht => by cases h.symm.trans ht
    | some t =>
      haveI := decidableEveryStep P t rest
      decidable_of_iff (P s e t ∧ EveryStep step P t rest)
        ⟨fun hgood u hu => Option.some.inj (h.symm.trans hu) ▸ hgood, fun hall => hall t h⟩

/-- A property of steps, read off a run: it holds wherever the run is cut. -/
theorem everyStep_iff_cut (P : σ → ε → σ → Prop) (s : σ) (events : List ε) :
    EveryStep step P s events ↔
      ∀ xs e ys, events = xs ++ e :: ys →
        ∀ t u, run step s xs = some t → step t e = some u → P t e u := by
  induction events generalizing s with
  | nil =>
    refine ⟨fun _ xs e ys h => ?_, fun _ => trivial⟩
    simp at h
  | cons e rest ih =>
    constructor
    · intro h xs e' ys hsplit t u hrun hstep
      cases xs with
      | nil =>
        obtain ⟨rfl, rfl⟩ := List.cons.inj hsplit
        cases hrun
        exact (h u hstep).1
      | cons x xs =>
        obtain ⟨rfl, rfl⟩ := List.cons.inj hsplit
        obtain ⟨v, hv, hrest⟩ := run_cons_some hrun
        exact (ih v).mp (h v hv).2 xs e' ys rfl t u hrest hstep
    · intro h t ht
      refine ⟨h [] e rest rfl s t rfl ht, (ih t).mpr ?_⟩
      intro xs e' ys hsplit v u hrun hstep
      refine h (e :: xs) e' ys (by rw [hsplit]; rfl) v u ?_ hstep
      rw [run_cons, ht]
      exact hrun

theorem EveryStep.last {P : σ → ε → σ → Prop} {s u : σ} {xs : List ε} {e : ε}
    (h : EveryStep step P s (xs ++ [e])) (hrun : run step s (xs ++ [e]) = some u) :
    ∃ t, P t e u := by
  rw [run_append] at hrun
  obtain ⟨t, ht, hu⟩ := Option.bind_eq_some_iff.mp hrun
  obtain ⟨v, hv, hlast⟩ := run_cons_some hu
  obtain rfl := Option.some.inj hlast
  exact ⟨t, (everyStep_iff_cut P s _).mp h xs e [] rfl t v ht hv⟩

/-- A condition on events, which every event of the run meets. -/
theorem everyStep_of_forall {C : ε → Prop} {s : σ} {events : List ε} (h : ∀ e ∈ events, C e) :
    EveryStep step (fun _ e _ => C e) s events := by
  induction events generalizing s with
  | nil => trivial
  | cons e rest ih =>
    intro t _
    exact ⟨h e List.mem_cons_self, ih fun e' he' => h e' (List.mem_cons_of_mem e he')⟩

/-- An invariant that each guarded step keeps, and under which a guarded step
is good, makes every step of a guarded run good. -/
theorem everyStep_guarded (I : σ → Prop) (C P : σ → ε → σ → Prop)
    (keep : ∀ s e t, I s → step s e = some t → C s e t → P s e t ∧ I t)
    {s : σ} {events : List ε} (hs : I s) (h : EveryStep step C s events) :
    EveryStep step P s events := by
  induction events generalizing s with
  | nil => trivial
  | cons e rest ih =>
    intro t ht
    obtain ⟨hgood, hkeep⟩ := keep s e t hs ht (h t ht).1
    exact ⟨hgood, ih hkeep (h t ht).2⟩

theorem EveryStep.drop {P : σ → ε → σ → Prop} {s t : σ} {xs ys : List ε}
    (h : EveryStep step P s (xs ++ ys)) (hrun : run step s xs = some t) : EveryStep step P t ys := by
  induction xs generalizing s with
  | nil => exact Option.some.inj hrun ▸ h
  | cons e xs ih =>
    obtain ⟨u, hu, hrest⟩ := run_cons_some hrun
    exact ih (h u hu).2 hrest

theorem EveryStep.take {P : σ → ε → σ → Prop} {s : σ} {xs ys : List ε}
    (h : EveryStep step P s (xs ++ ys)) : EveryStep step P s xs := by
  induction xs generalizing s with
  | nil => trivial
  | cons e xs ih => exact fun t ht => ⟨(h t ht).1, ih (h t ht).2⟩

/-- What the guarded steps keep, a guarded run keeps. -/
theorem run_guarded (I : σ → Prop) (C : σ → ε → σ → Prop)
    (keep : ∀ s e t, I s → step s e = some t → C s e t → I t)
    {s u : σ} {events : List ε} (hs : I s) (hguard : EveryStep step C s events)
    (h : run step s events = some u) : I u := by
  induction events generalizing s with
  | nil => exact Option.some.inj h ▸ hs
  | cons e rest ih =>
    obtain ⟨t, ht, hu⟩ := run_cons_some h
    exact ih (keep s e t hs ht (hguard t ht).1) (hguard t ht).2 hu

/-- A relation of the states that guarded steps extend relates the ends of a
guarded run. -/
theorem run_relates (I : σ → Prop) (C : σ → ε → σ → Prop) (R : σ → σ → Prop) (refl : ∀ s, R s s)
    (trans : ∀ s t u, R s t → R t u → R s u)
    (keep : ∀ s e t, I s → step s e = some t → C s e t → R s t ∧ I t)
    {s u : σ} {events : List ε} (hs : I s) (hguard : EveryStep step C s events)
    (h : run step s events = some u) : R s u ∧ I u := by
  refine run_guarded (fun t => R s t ∧ I t) C ?_ ⟨refl s, hs⟩ hguard h
  intro t e v hinv hv hstep
  obtain ⟨hstepR, hkept⟩ := keep t e v hinv.2 hv hstep
  exact ⟨trans s t v hinv.1 hstepR, hkept⟩

theorem everyStep_of_invariant (I : σ → Prop) (P : σ → ε → σ → Prop)
    (keep : ∀ s e t, I s → step s e = some t → P s e t ∧ I t)
    {s : σ} (hs : I s) (events : List ε) : EveryStep step P s events := by
  induction events generalizing s with
  | nil => trivial
  | cons e rest ih => exact fun t ht => ⟨(keep s e t hs ht).1, ih (keep s e t hs ht).2⟩

/-- The guard is exact when, under the invariant, a good step is a guarded one:
then the good runs are the guarded runs. -/
theorem everyStep_iff_guarded (I : σ → Prop) (C P : σ → ε → σ → Prop)
    (keep : ∀ s e t, I s → step s e = some t → C s e t → P s e t ∧ I t)
    (need : ∀ s e t, I s → step s e = some t → P s e t → C s e t)
    {s : σ} (hs : I s) (events : List ε) :
    EveryStep step P s events ↔ EveryStep step C s events := by
  refine ⟨fun h => ?_, everyStep_guarded I C P keep hs⟩
  exact everyStep_guarded I P C
    (fun u e t hu ht hp => ⟨need u e t hu ht hp, (keep u e t hu ht (need u e t hu ht hp)).2⟩) hs h

/-! ## Observers -/

variable {ω : Type}

/-- The machine beside an observer that is told of every step. -/
def observed (step : σ → ε → Option σ) (observe : σ → ε → σ → ω → ω) (sw : σ × ω) (e : ε) :
    Option (σ × ω) :=
  (step sw.1 e).map fun t => (t, observe sw.1 e t sw.2)

theorem observed_eq_some {observe : σ → ε → σ → ω → ω} {a b : σ × ω} {e : ε}
    (h : observed step observe a e = some b) :
    step a.1 e = some b.1 ∧ b.2 = observe a.1 e b.1 a.2 := by
  obtain ⟨t, ht, rfl⟩ := Option.map_eq_some_iff.mp h
  exact ⟨ht, rfl⟩

/-- An observer does not change what happens. -/
theorem everyStep_observed (observe : σ → ε → σ → ω → ω) (P : σ → ε → σ → Prop) (s : σ) (w : ω)
    (events : List ε) :
    EveryStep (observed step observe) (fun a e b => P a.1 e b.1) (s, w) events ↔
      EveryStep step P s events := by
  induction events generalizing s w with
  | nil => exact Iff.rfl
  | cons e rest ih =>
    constructor
    · intro h t ht
      have hobserved : observed step observe (s, w) e = some (t, observe s e t w) :=
        congrArg (Option.map _) ht
      exact ⟨(h _ hobserved).1, (ih t _).mp (h _ hobserved).2⟩
    · rintro h ⟨t, v⟩ hb
      have ht : step s e = some t := (observed_eq_some hb).1
      exact ⟨(h t ht).1, (ih t v).mpr (h t ht).2⟩

end ModelForge.RunInvariant
