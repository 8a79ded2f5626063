import ModelForge.LimiterSequence

set_option autoImplicit false

/-!
# Room for every request

A limiter whose answers are told by two meters, the requests of the rate window
and those under way, passes a sequence under all headers exactly when it is roomy.
-/
namespace ModelForge.LimiterRoom
open RunInvariant RateLimit HolderCount LimiterSequence Participants

variable {σ : Type}

/-- A reading of the store at a time: an admitted request raises it by at most
one while it counts, and by one where the reading has not dropped meanwhile. -/
structure Meter (L : Limiter σ) (auth : Auth) (Ok : ℤ → σ → Prop) (counts : ℤ → ℤ → Bool)
    (read : ℤ → σ → ℤ) : Prop where
  init : ∀ now, read now L.init = 0
  enter_le : ∀ {now now' s}, Ok now s → now ≤ now' → (L.limit now auth s).1 = .admitted →
    read now' (L.limit now auth s).2 ≤ max 0 (read now' s) + if counts now' now then 1 else 0
  enter_eq : ∀ {now now' s}, Ok now s → now ≤ now' → (L.limit now auth s).1 = .admitted →
    counts now' now = true → read now s = read now' s →
      read now' (L.limit now auth s).2 = read now' s + 1
  counts_between : ∀ {now now' start}, counts now' start = true → start ≤ now → now ≤ now' →
    counts now start = true

structure Metered (L : Limiter σ) (W : Windows) (auth : Auth) (Ok : ℤ → σ → Prop)
    (rate conc : ℤ → σ → ℤ) : Prop where
  rateMeter : Meter L auth Ok W.inWindow rate
  concMeter : Meter L auth Ok W.lasts conc
  ok_init : ∀ now, Ok now L.init
  ok_later : ∀ {now now' s}, Ok now s → now ≤ now' → Ok now' s
  ok_limit : ∀ {now s}, Ok now s → (L.limit now auth s).1 = .admitted → Ok now (L.limit now auth s).2
  ok_release : ∀ {now s}, Ok now s → Ok now (L.release now auth.apiKeyId s)
  rate_release : ∀ now now' s, rate now' (L.release now auth.apiKeyId s) = rate now' s
  conc_release : ∀ {now now' s}, Ok now s → now ≤ now' →
    conc now' (L.release now auth.apiKeyId s) ≤ max 0 (conc now' s - 1)
  admitted_iff : ∀ now s, (L.limit now auth s).1 = .admitted ↔
    rate now s < auth.rpm ∧ conc now s < auth.maxConcurrent
  not_bypassed : ∀ now s, (L.limit now auth s).1 ≠ .bypassed

variable {L : Limiter σ} {W : Windows} {auth : Auth} {Ok : ℤ → σ → Prop} {rate conc : ℤ → σ → ℤ}
  {headers : ℕ → Headers} {w : World σ} {now : ℤ} {e : Event} {events : List Event}

theorem Metered.admitted_of_passes (hm : Metered L W auth Ok rate conc) {s : σ}
    (h : (L.limit now auth s).1.passes = true) : (L.limit now auth s).1 = .admitted := by
  have hnot := hm.not_bypassed now s
  revert h hnot
  cases (L.limit now auth s).1 with
  | bypassed => exact fun _ h => absurd rfl h
  | admitted => exact fun _ _ => rfl
  | rejected response => exact fun h _ => by cases h

/-! ## A roomy sequence passes -/

/-- The response holds a slot that still counts at this time. -/
def lasting (W : Windows) (now : ℤ) (r : Handled) : Option Unit :=
  if r.holds = true ∧ W.lasts now r.arrival.start = true then some () else none

structure Bounded (W : Windows) (Ok : ℤ → σ → Prop) (rate conc : ℤ → σ → ℤ) (w : World σ) : Prop where
  ok : Ok w.now w.store
  rate_le : ∀ now, w.now ≤ now → rate now w.store ≤ w.trace.inWindow W now
  conc_le : ∀ now, w.now ≤ now → conc now w.store ≤ holders (lasting W now) w.requests ()

theorem holders_lasting_le (now : ℤ) : holders (lasting W now) w.requests () ≤ w.trace.unfinished W now := by
  rw [Trace.unfinished, World.trace, List.countP_map]
  refine List.countP_mono_left fun r _ hr => ?_
  have hcounts : r.holds = true ∧ W.lasts now r.arrival.start = true := by
    by_contra hno
    simp [lasting, hno] at hr
  have hholds : r.admission = .admitted ∧ r.arrival.finished = false := of_decide_eq_true hcounts.1
  exact decide_eq_true ⟨hholds.2, hcounts.2⟩

theorem bounded_start (hm : Metered L W auth Ok rate conc) : Bounded W Ok rate conc (start L now) where
  ok := hm.ok_init now
  rate_le now' _ := (hm.rateMeter.init now').le.trans (Int.natCast_nonneg _)
  conc_le now' _ := (hm.concMeter.init now').le.trans (Int.natCast_nonneg _)

theorem inWindow_request (t : Trace) (elapsed : ℕ) (now' : ℤ) :
    (t.next (.request elapsed)).inWindow W now' =
      t.inWindow W now' + if W.inWindow now' (t.now + elapsed) then 1 else 0 := by
  simp [Trace.next, Trace.inWindow, List.countP_append, List.countP_cons]

theorem inWindow_finish (t : Trace) (elapsed i : ℕ) (now' : ℤ) :
    (t.next (.finish elapsed i)).inWindow W now' = t.inWindow W now' := by
  have hstart : ∀ l : List Arrival, (l.countP fun a => W.inWindow now' a.start) =
      (l.map Arrival.start).countP (W.inWindow now') := fun l => by
    rw [List.countP_map]
    rfl
  rw [Trace.inWindow, Trace.inWindow, Trace.next, hstart, hstart,
    map_modify Arrival.finish Arrival.start id fun _ => rfl, List.modify_id]

theorem child_bounded (hm : Metered L W auth Ok rate conc) (hb : Bounded W Ok rate conc w) {elapsed : ℕ}
    (hchild : isOrchestrationChild (headers w.requests.length) = true) (hpass : AllPass w) :
    AllPass (step L auth headers w (.request elapsed)) ∧
      Bounded W Ok rate conc (step L auth headers w (.request elapsed)) := by
  have hnow : w.now ≤ w.now + elapsed := by omega
  have hwindow : ∀ now', (step L auth headers w (.request elapsed)).trace.inWindow W now' =
      w.trace.inWindow W now' + if W.inWindow now' (w.now + elapsed) then 1 else 0 := fun now' => by
    rw [trace_step, inWindow_request]
    rfl
  rw [step_child hchild] at hwindow ⊢
  refine ⟨hpass.append rfl _ _ _, hm.ok_later hb.ok hnow, fun now' hle => ?_, fun now' hle => ?_⟩
  · have hrate := hb.rate_le now' (hnow.trans hle)
    rw [hwindow]
    push_cast
    split <;> omega
  · have hmore : holders (lasting W now') w.requests () ≤ holders (lasting W now')
        (w.requests ++ [⟨⟨w.now + elapsed, false⟩, .bypassed⟩]) () := by
      rw [holders_append]
      exact Nat.le_add_right _ _
    exact (hb.conc_le now' (hnow.trans hle)).trans (Int.ofNat_le.mpr hmore)

/-- A request that goes through the limiter finds the room that the trace leaves. -/
theorem admitted_of_room (hm : Metered L W auth Ok rate conc) (hb : Bounded W Ok rate conc w) {elapsed : ℕ}
    (hroom : HasRoom W auth w.trace (.request elapsed)) :
    (L.limit (w.now + elapsed) auth w.store).1 = .admitted := by
  have hnow : w.now ≤ w.now + elapsed := by omega
  have hlasting : holders (lasting W (w.now + elapsed)) w.requests () ≤
      w.trace.unfinished W (w.now + elapsed) := holders_lasting_le _
  refine (hm.admitted_iff _ _).mpr ⟨?_, ?_⟩
  · exact (hb.rate_le _ hnow).trans_lt hroom.1
  · exact ((hb.conc_le _ hnow).trans (Int.ofNat_le.mpr hlasting)).trans_lt hroom.2

theorem limited_bounded (hm : Metered L W auth Ok rate conc) (hb : Bounded W Ok rate conc w) {elapsed : ℕ}
    (hchild : ¬ isOrchestrationChild (headers w.requests.length) = true)
    (hadmitted : (L.limit (w.now + elapsed) auth w.store).1 = .admitted) (hpass : AllPass w) :
    AllPass (step L auth headers w (.request elapsed)) ∧
      Bounded W Ok rate conc (step L auth headers w (.request elapsed)) := by
  have hnow : w.now ≤ w.now + elapsed := by omega
  have hok : Ok (w.now + elapsed) w.store := hm.ok_later hb.ok hnow
  have hwindow : ∀ now', (step L auth headers w (.request elapsed)).trace.inWindow W now' =
      w.trace.inWindow W now' + if W.inWindow now' (w.now + elapsed) then 1 else 0 := fun now' => by
    rw [trace_step, inWindow_request]
    rfl
  rw [step_limited hchild, hadmitted] at hwindow ⊢
  refine ⟨hpass.append rfl _ _ _, hm.ok_limit hok hadmitted, fun now' hle => ?_, fun now' hle => ?_⟩
  · have hrate := hb.rate_le now' (hnow.trans hle)
    have henter := hm.rateMeter.enter_le hok hle hadmitted
    rw [hwindow]
    by_cases hin : W.inWindow now' (w.now + elapsed) = true
    · rw [if_pos hin] at henter ⊢
      push_cast
      omega
    · rw [if_neg hin] at henter ⊢
      dsimp only
      omega
  · have hconc := hb.conc_le now' (hnow.trans hle)
    have henter := hm.concMeter.enter_le hok hle hadmitted
    have hone : holders (lasting W now') [⟨⟨w.now + elapsed, false⟩, .admitted⟩] () =
        if W.lasts now' (w.now + elapsed) = true then 1 else 0 := by
      rw [holders_singleton]
      by_cases hlasts : W.lasts now' (w.now + elapsed) = true <;>
        simp [lasting, Handled.holds, hlasts]
    change _ ≤ (holders (lasting W now') (w.requests ++ [_]) () : ℤ)
    rw [holders_append, hone]
    by_cases hlasts : W.lasts now' (w.now + elapsed) = true
    · rw [if_pos hlasts] at henter ⊢
      push_cast
      omega
    · rw [if_neg hlasts] at henter ⊢
      dsimp only
      omega

/-- A request with room passes under any headers, and keeps the bounds. -/
theorem request_bounded (hm : Metered L W auth Ok rate conc) (hb : Bounded W Ok rate conc w) {elapsed : ℕ}
    (hroom : HasRoom W auth w.trace (.request elapsed)) (hpass : AllPass w) :
    AllPass (step L auth headers w (.request elapsed)) ∧
      Bounded W Ok rate conc (step L auth headers w (.request elapsed)) := by
  by_cases hchild : isOrchestrationChild (headers w.requests.length) = true
  · exact child_bounded hm hb hchild hpass
  · exact limited_bounded hm hb hchild (admitted_of_room hm hb hroom) hpass

/-- The end of a response keeps the bounds. -/
theorem finish_bounded (hm : Metered L W auth Ok rate conc) (hb : Bounded W Ok rate conc w) (elapsed i : ℕ) :
    Bounded W Ok rate conc (step L auth headers w (.finish elapsed i)) := by
  have hnow : w.now ≤ w.now + elapsed := by omega
  have hok : Ok (w.now + elapsed) w.store := hm.ok_later hb.ok hnow
  have hwindow : ∀ now', Trace.inWindow W (step L auth headers w (.finish elapsed i)).trace now' =
      w.trace.inWindow W now' := by
    intro now'
    rw [trace_step, inWindow_finish]
  cases hr : w.requests[i]? with
  | none =>
    have hsame : w.requests.modify i Handled.finish = w.requests :=
      List.modify_eq_self (List.getElem?_eq_none_iff.mp hr)
    have hstore : (step L auth headers w (.finish elapsed i)).store = w.store := by
      simp only [step, hr, Option.any_none, Bool.false_eq_true, if_false]
    refine ⟨hstore ▸ hok, fun now' hle => ?_, fun now' hle => ?_⟩
    · rw [hwindow, hstore]
      exact hb.rate_le now' (hnow.trans hle)
    · rw [hstore]
      change conc now' w.store ≤ (holders (lasting W now') (w.requests.modify i Handled.finish) () : ℤ)
      rw [hsame]
      exact hb.conc_le now' (hnow.trans hle)
  | some r =>
    have hcount : ∀ now', holders (lasting W now') (w.requests.modify i Handled.finish) () +
        (if lasting W now' r = some () then 1 else 0) = holders (lasting W now') w.requests () := by
      intro now'
      have hmodify := holders_modify (lasting W now') hr Handled.finish ()
      have hgone : lasting W now' r.finish = none := by
        simp [lasting, Handled.finish, Handled.holds, Arrival.finish]
      simpa [hgone] using hmodify
    by_cases hholds : r.holds = true
    · have hstore : (step L auth headers w (.finish elapsed i)).store =
          L.release (w.now + elapsed) auth.apiKeyId w.store := by
        simp only [step, hr, Option.any_some, hholds, if_true]
      refine ⟨hstore ▸ hm.ok_release hok, fun now' hle => ?_, fun now' hle => ?_⟩
      · rw [hwindow, hstore, hm.rate_release]
        exact hb.rate_le now' (hnow.trans hle)
      · rw [hstore]
        change _ ≤ (holders (lasting W now') (w.requests.modify i Handled.finish) () : ℤ)
        have hrelease := hm.conc_release hok hle
        have hconc := hb.conc_le now' (hnow.trans hle)
        have hmodify := hcount now'
        split at hmodify <;> omega
    · have hstore : (step L auth headers w (.finish elapsed i)).store = w.store := by
        simp only [step, hr, Option.any_some, hholds, Bool.false_eq_true, if_false]
      refine ⟨hstore ▸ hok, fun now' hle => ?_, fun now' hle => ?_⟩
      · rw [hwindow, hstore]
        exact hb.rate_le now' (hnow.trans hle)
      · rw [hstore]
        change _ ≤ (holders (lasting W now') (w.requests.modify i Handled.finish) () : ℤ)
        have hnone : lasting W now' r = none := if_neg fun hall => hholds hall.1
        have hmodify := hcount now'
        rw [hnone, if_neg (by decide), add_zero] at hmodify
        rw [hmodify]
        exact hb.conc_le now' (hnow.trans hle)

theorem roomy_passes (hm : Metered L W auth Ok rate conc) (hb : Bounded W Ok rate conc w) (hpass : AllPass w)
    (h : Roomy W auth w.trace events) : AllPass (events.foldl (step L auth headers) w) := by
  induction events generalizing w with
  | nil => exact hpass
  | cons e rest ih =>
    obtain ⟨hroom, hnext⟩ := h _ rfl
    have hrest : Roomy W auth (step L auth headers w e).trace rest := by
      rw [trace_step]
      exact hnext
    cases e with
    | request elapsed =>
      have hstep : AllPass (step L auth headers w (.request elapsed)) ∧
          Bounded W Ok rate conc (step L auth headers w (.request elapsed)) :=
        request_bounded hm hb hroom hpass
      exact ih hstep.2 hstep.1 hrest
    | finish elapsed i => exact ih (finish_bounded hm hb elapsed i) (allPass_finish hpass elapsed i) hrest

/-! ## The headers that fill the limiter -/

/-- A later state of the trace: time has passed and nothing is undone. -/
structure Grows (t t' : Trace) : Prop where
  now_le : t.now ≤ t'.now
  arrival : ∀ (i : ℕ) (a : Arrival), t.arrivals[i]? = some a →
    ∃ a', t'.arrivals[i]? = some a' ∧ a'.start = a.start ∧ (a.finished = true → a'.finished = true)

theorem Grows.refl (t : Trace) : Grows t t := ⟨le_rfl, fun _ a h => ⟨a, h, rfl, id⟩⟩

theorem Grows.trans {t t' t'' : Trace} (h : Grows t t') (h' : Grows t' t'') : Grows t t'' := by
  refine ⟨h.now_le.trans h'.now_le, fun i a ha => ?_⟩
  obtain ⟨mid, hmid, hstart, hfinished⟩ := h.arrival i a ha
  obtain ⟨last, hlast, hstart', hfinished'⟩ := h'.arrival i mid hmid
  exact ⟨last, hlast, hstart'.trans hstart, fun hf => hfinished' (hfinished hf)⟩

theorem grows_next (t : Trace) (e : Event) : Grows t (t.next e) := by
  cases e with
  | request elapsed =>
    exact ⟨Int.le.intro elapsed rfl, fun i a ha => ⟨a, get_append ha _, rfl, id⟩⟩
  | finish elapsed i =>
    refine ⟨Int.le.intro elapsed rfl, fun n a ha => ?_⟩
    simp only [Trace.next, List.getElem?_modify, ha, Option.map_eq_map, Option.map_some,
      Option.some.injEq]
    refine ⟨_, rfl, ?_, ?_⟩
    · split <;> rfl
    · intro hf
      split
      · rfl
      · exact hf

theorem grows_foldl (events : List Event) (t : Trace) : Grows t (events.foldl Trace.next t) := by
  induction events generalizing t with
  | nil => exact .refl t
  | cons e rest ih => exact (grows_next t e).trans (ih (t.next e))

theorem countP_range_getElem? {α : Type} (p : α → Bool) (l : List α) :
    ((List.range l.length).countP fun i => (l[i]?).any p) = l.countP p := by
  induction l using List.reverseRecOn with
  | nil => rfl
  | append_singleton l a ih =>
    rw [List.length_append, List.length_singleton, List.range_succ, List.countP_append, List.countP_append,
      ← ih]
    congr 1
    · refine List.countP_congr fun i hi => ?_
      rw [List.getElem?_append_left (List.mem_range.mp hi)]
    · simp

/-- The chosen requests are those of the final trace that `p` picks. -/
def chosen (T : Trace) (p : Arrival → Bool) (i : ℕ) : Bool := (T.arrivals[i]?).any p

/-- The chosen requests and the one after the trace pass through the limiter. -/
def chosenHeaders (T : Trace) (p : Arrival → Bool) (i : ℕ) : Headers :=
  childHeaders (decide (i ≠ T.arrivals.length) && !chosen T p i)

/-- The meter reads the chosen requests, at any time up to the horizon. -/
structure Reads (Ok : ℤ → σ → Prop) (read : ℤ → σ → ℤ) (T : Trace) (p : Arrival → Bool) (horizon : ℤ)
    (w : World σ) : Prop where
  ok : Ok w.now w.store
  reads : ∀ now, w.now ≤ now → now ≤ horizon →
    read now w.store = (List.range w.requests.length).countP (chosen T p)
  admitted : ∀ (i : ℕ) (r : Handled), w.requests[i]? = some r → r.admission = .admitted →
    chosen T p i = true

section
variable {T : Trace} {p : Arrival → Bool} {horizon : ℤ} {counts : ℤ → ℤ → Bool} {read : ℤ → σ → ℤ}

theorem Reads.admitted_append (hr : Reads Ok read T p horizon w) {r : Handled}
    (hnew : r.admission = .admitted → chosen T p w.requests.length = true) (i : ℕ) (q : Handled)
    (hq : (w.requests ++ [r])[i]? = some q) (hadmitted : q.admission = .admitted) : chosen T p i = true := by
  rcases get_of_concat hq with hold | ⟨rfl, rfl⟩
  · exact hr.admitted i q hold hadmitted
  · exact hnew hadmitted

theorem request_reads (hm : Metered L W auth Ok rate conc) (meter : Meter L auth Ok counts read)
    (hp : ∀ a, p a = true → counts horizon a.start = true)
    (hr : Reads Ok read T p horizon w) {elapsed : ℕ} (hlater : w.now + elapsed ≤ horizon)
    (hgrows : Grows (w.trace.next (.request elapsed)) T)
    (hpass : AllPass (step L auth (chosenHeaders T p) w (.request elapsed))) :
    Reads Ok read T p horizon (step L auth (chosenHeaders T p) w (.request elapsed)) := by
  have hnow : w.now ≤ w.now + elapsed := by omega
  have hok : Ok (w.now + elapsed) w.store := hm.ok_later hr.ok hnow
  obtain ⟨a, ha, hstart, -⟩ := hgrows.arrival w.requests.length ⟨w.now + elapsed, false⟩ (by
    simp [Trace.next, World.trace])
  have hindex : w.requests.length ≠ T.arrivals.length := by
    obtain ⟨hlt, -⟩ := List.getElem?_eq_some_iff.mp ha
    exact hlt.ne
  have hlength : ∀ r : Handled, (w.requests ++ [r]).length = w.requests.length + 1 := fun _ => by simp
  by_cases hchosen : chosen T p w.requests.length = true
  · have hchild : ¬ isOrchestrationChild (chosenHeaders T p w.requests.length) = true := by
      rw [chosenHeaders, isOrchestrationChild_childHeaders, hchosen]
      simp
    rw [step_limited hchild] at hpass ⊢
    have hadmitted : (L.limit (w.now + elapsed) auth w.store).1 = .admitted :=
      hm.admitted_of_passes (hpass _ (List.mem_append_right _ (List.mem_singleton_self _)))
    have hcounts : counts horizon (w.now + elapsed) = true := by
      have hpicked : p a = true := by
        rw [chosen, ha] at hchosen
        exact hchosen
      have hcounts := hp a hpicked
      rw [hstart] at hcounts
      exact hcounts
    refine ⟨hm.ok_limit hok hadmitted, fun now' hle hto => ?_, hr.admitted_append fun _ => hchosen⟩
    dsimp only at hle ⊢
    have hbefore := hr.reads (w.now + elapsed) hnow hlater
    have hthen := hr.reads now' (hnow.trans hle) hto
    rw [meter.enter_eq hok hle hadmitted (meter.counts_between hcounts hle hto)
      (hbefore.trans hthen.symm), hthen, hlength, List.range_succ, List.countP_append]
    simp [hchosen]
  · have hchild : isOrchestrationChild (chosenHeaders T p w.requests.length) = true := by
      rw [chosenHeaders, isOrchestrationChild_childHeaders, Bool.eq_false_iff.mpr hchosen]
      simp [hindex]
    rw [step_child hchild]
    refine ⟨hok, fun now' hle hto => ?_, hr.admitted_append fun h => by cases h⟩
    dsimp only at hle ⊢
    rw [hr.reads now' (hnow.trans hle) hto, hlength, List.range_succ, List.countP_append]
    simp [hchosen]

theorem finish_reads (hm : Metered L W auth Ok rate conc)
    (hkeeps : (∀ now now' s, read now' (L.release now auth.apiKeyId s) = read now' s) ∨
      ∀ a, p a = true → a.finished = false)
    (hr : Reads Ok read T p horizon w) {elapsed i : ℕ}
    (hgrows : Grows (w.trace.next (.finish elapsed i)) T) :
    Reads Ok read T p horizon (step L auth (chosenHeaders T p) w (.finish elapsed i)) := by
  have hnow : w.now ≤ w.now + elapsed := by omega
  have hok : Ok (w.now + elapsed) w.store := hm.ok_later hr.ok hnow
  have hlength : (w.requests.modify i Handled.finish).length = w.requests.length := List.length_modify ..
  have hadmitted : ∀ (n : ℕ) (q : Handled), (w.requests.modify i Handled.finish)[n]? = some q →
      q.admission = .admitted → chosen T p n = true := by
    intro n q hq hq'
    rcases get_of_modify hq with ⟨rfl, q₀, hq₀, rfl⟩ | ⟨-, hold⟩
    · exact hr.admitted n q₀ hq₀ hq'
    · exact hr.admitted n q hold hq'
  by_cases hholds : (w.requests[i]?).any Handled.holds = true
  · have hstep : step L auth (chosenHeaders T p) w (.finish elapsed i) =
        ⟨w.now + elapsed, L.release (w.now + elapsed) auth.apiKeyId w.store,
          w.requests.modify i Handled.finish⟩ := by
      simp only [step, if_pos hholds]
    rw [hstep]
    refine ⟨hm.ok_release hok, fun now' hle hto => ?_, hadmitted⟩
    dsimp only at hle ⊢
    rcases hkeeps with hread | hunfinished
    · rw [hread, hlength]
      exact hr.reads now' (hnow.trans hle) hto
    · -- a chosen request does not finish before the horizon
      obtain ⟨r, hget, hr'⟩ := Option.any_eq_true _ _ |>.mp hholds
      have hr'' : r.admission = .admitted ∧ r.arrival.finished = false := of_decide_eq_true hr'
      have hchosen := hr.admitted i r hget hr''.1
      obtain ⟨a, ha, -, hfinished⟩ := hgrows.arrival i r.arrival.finish (by
        simp [Trace.next, World.trace, hget])
      rw [chosen, ha] at hchosen
      cases (hfinished rfl).symm.trans (hunfinished a hchosen)
  · have hstep : step L auth (chosenHeaders T p) w (.finish elapsed i) =
        ⟨w.now + elapsed, w.store, w.requests.modify i Handled.finish⟩ := by
      simp only [step, if_neg hholds]
    rw [hstep]
    refine ⟨hok, fun now' hle hto => ?_, hadmitted⟩
    dsimp only at hle ⊢
    rw [hlength]
    exact hr.reads now' (hnow.trans hle) hto

/-- Where everything passes, the meter reads the chosen requests all along. -/
theorem sequence_reads (hm : Metered L W auth Ok rate conc) (meter : Meter L auth Ok counts read)
    (hp : ∀ a, p a = true → counts horizon a.start = true)
    (hkeeps : (∀ now now' s, read now' (L.release now auth.apiKeyId s) = read now' s) ∨
      ∀ a, p a = true → a.finished = false)
    (hT : events.foldl Trace.next w.trace = T) (hlater : T.now ≤ horizon)
    (hpass : AllPass (events.foldl (step L auth (chosenHeaders T p)) w))
    (hr : Reads Ok read T p horizon w) :
    Reads Ok read T p horizon (events.foldl (step L auth (chosenHeaders T p)) w) := by
  induction events generalizing w with
  | nil => exact hr
  | cons e rest ih =>
    have hgrows : Grows (w.trace.next e) T := hT ▸ grows_foldl rest _
    have hrest : AllPass (rest.foldl (step L auth (chosenHeaders T p))
        (step L auth (chosenHeaders T p) w e)) := hpass
    refine ih ?_ hpass ?_
    · rw [trace_step]
      exact hT
    · cases e with
      | request elapsed =>
        exact request_reads hm meter hp hr (hgrows.now_le.trans hlater) hgrows hrest.of_foldl
      | finish elapsed i => exact finish_reads hm hkeeps hr hgrows

/-- The request after the trace is measured against all the chosen ones. -/
theorem chosen_before (hm : Metered L W auth Ok rate conc) (meter : Meter L auth Ok counts read)
    {before : List Event} {elapsed : ℕ} (hT : before.foldl Trace.next ⟨now, []⟩ = T)
    (hp : ∀ a, p a = true → counts (T.now + elapsed) a.start = true)
    (hkeeps : (∀ now now' s, read now' (L.release now auth.apiKeyId s) = read now' s) ∨
      ∀ a, p a = true → a.finished = false)
    (hpass : AllPass (runSequence L auth (chosenHeaders T p) now (before ++ [.request elapsed]))) :
    ∃ s, read (T.now + elapsed) s = T.arrivals.countP p ∧
      rate (T.now + elapsed) s < auth.rpm ∧ conc (T.now + elapsed) s < auth.maxConcurrent := by
  have hlater : T.now ≤ T.now + elapsed := by omega
  have hinit : Reads Ok read T p (T.now + elapsed) (start L now) :=
    ⟨hm.ok_init now, fun now' _ _ => meter.init now', fun i r h => by cases h⟩
  have hfold : runSequence L auth (chosenHeaders T p) now (before ++ [.request elapsed]) =
      step L auth (chosenHeaders T p) (runSequence L auth (chosenHeaders T p) now before)
        (.request elapsed) := by
    simp only [runSequence, List.foldl_append, List.foldl_cons, List.foldl_nil]
  rw [hfold] at hpass
  have hlastPass : AllPass ([.request elapsed].foldl (step L auth (chosenHeaders T p))
      (runSequence L auth (chosenHeaders T p) now before)) := hpass
  have hbefore : AllPass (runSequence L auth (chosenHeaders T p) now before) := hlastPass.of_foldl
  have hreads : Reads Ok read T p (T.now + elapsed) (runSequence L auth (chosenHeaders T p) now before) :=
    sequence_reads hm meter hp hkeeps hT hlater hbefore hinit
  have htrace : (runSequence L auth (chosenHeaders T p) now before).trace = T := trace_foldl.trans hT
  generalize runSequence L auth (chosenHeaders T p) now before = w at hpass hreads htrace
  have hnow : w.now = T.now := congrArg Trace.now htrace
  have hlength : w.requests.length = T.arrivals.length := by
    rw [← htrace]
    simp [World.trace]
  have hchild : ¬ isOrchestrationChild (chosenHeaders T p w.requests.length) = true := by
    rw [chosenHeaders, isOrchestrationChild_childHeaders, hlength]
    simp
  have hread := hreads.reads (T.now + elapsed) (by omega) le_rfl
  rw [hlength] at hread
  refine ⟨w.store, hread.trans (congrArg Nat.cast (countP_range_getElem? p T.arrivals)), ?_⟩
  refine (hm.admitted_iff _ _).mp ?_
  rw [step_limited hchild, hnow] at hpass
  exact hm.admitted_of_passes (hpass _ (List.mem_append_right _ (List.mem_singleton_self _)))

end

/-- Headers do not matter to a sequence exactly when it is roomy. -/
theorem same_iff_roomy (hm : Metered L W auth Ok rate conc) (now : ℤ) (events : List Event) :
    (∀ headers headers', admissions L auth headers now events = admissions L auth headers' now events) ↔
      Roomy W auth ⟨now, []⟩ events := by
  rw [same_iff_allPass]
  constructor
  · intro hpass
    refine (everyStep_iff_cut _ _ _).mpr fun before e after hsplit t u ht _ => ?_
    rw [run_some] at ht
    have hT := Option.some.inj ht
    cases e with
    | finish elapsed i => trivial
    | request elapsed =>
      have hcut : ∀ headers, AllPass (runSequence L auth headers now (before ++ [.request elapsed])) := by
        intro headers
        have hall := hpass headers
        rw [hsplit, List.append_cons, runSequence, List.foldl_append] at hall
        exact hall.of_foldl
      constructor
      · obtain ⟨s, hread, hrate, -⟩ := chosen_before hm hm.rateMeter hT
          (p := fun a => W.inWindow (t.now + elapsed) a.start) (fun _ h => h) (.inl hm.rate_release)
          (hcut _)
        exact hread ▸ hrate
      · obtain ⟨s, hread, -, hconc⟩ := chosen_before hm hm.concMeter hT
          (p := fun a => a.finished = false ∧ W.lasts (t.now + elapsed) a.start)
          (fun _ h => (of_decide_eq_true h).2) (.inr fun _ h => (of_decide_eq_true h).1) (hcut _)
        exact hread ▸ hconc
  · intro hroomy headers
    exact roomy_passes hm (bounded_start hm) (fun r hr => by cases hr) hroomy

end ModelForge.LimiterRoom
