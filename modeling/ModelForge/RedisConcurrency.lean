import ModelForge.RateLimit
import ModelForge.HolderCount
import ModelForge.RunInvariant

set_option autoImplicit false

/-!
# The concurrency limiter on Redis

The requests of one key, each between its commands, and the time. The counter
expires a fixed time after it was last at one, whoever still counts on it.
-/
namespace ModelForge.RedisConcurrency
open RunInvariant RateLimit HolderCount

/-- Where a request that passed the rate check is. -/
inductive Phase where
  /-- `INCR` has answered 1 and `EXPIRE` is to come. -/
  | expiring
  /-- Over the limit, `DECR` is to come. -/
  | declining
  | admitted
  /-- The response has finished, `DECR` is under way. -/
  | releasing
  | done
  deriving DecidableEq, Repr

structure World where
  now : ℤ
  conc : Option RedisEntry
  requests : List Phase
  deriving DecidableEq, Repr

def start (now : ℤ) : World := ⟨now, none, []⟩

inductive Event where
  | tick (now : ℤ)
  | incr
  | expire (i : ℕ)
  | finish (i : ℕ)
  | decr (i : ℕ)
  deriving DecidableEq, Repr

/-- What follows an `INCR` that answered `current`. -/
def decided (maxConcurrent current : ℤ) : Phase :=
  if maxConcurrent < current then .declining else .admitted

def World.moved (w : World) (i : ℕ) (phase : Phase) : World :=
  { w with requests := w.requests.modify i fun _ => phase }

def step (maxConcurrent : ℤ) (w : World) : Event → Option World
  | .tick now => if w.now ≤ now then some { w with now } else none
  | .incr =>
    let entry := incrBy w.now 1 w.conc
    let phase := if entry.value = 1 then .expiring else decided maxConcurrent entry.value
    some { w with conc := some entry, requests := w.requests ++ [phase] }
  | .expire i =>
    if w.requests[i]? = some .expiring then
      some { w.moved i (decided maxConcurrent 1) with conc := pexpire w.now concTtlMs w.conc }
    else none
  | .finish i =>
    if w.requests[i]? = some .admitted then some (w.moved i .releasing) else none
  | .decr i =>
    if w.requests[i]? = some .declining ∨ w.requests[i]? = some .releasing then
      some { w.moved i .done with conc := some (incrBy w.now (-1) w.conc) }
    else none

/-- Without interruption the commands of a request are those of `redisLimit`. -/
theorem uninterrupted (maxConcurrent : ℤ) (w : World) (apiKeyId : String) (r : Redis)
    (hr : r (.conc apiKeyId) = w.conc) :
    ∃ events w', run (step maxConcurrent) w (.incr :: events) = some w' ∧
      w'.conc = (incrExpiring w.now concTtlMs (.conc apiKeyId) r).2 (.conc apiKeyId) ∧
      w'.requests = w.requests ++
        [decided maxConcurrent (incrExpiring w.now concTtlMs (.conc apiKeyId) r).1] := by
  simp only [incrExpiring, Function.update_self, hr]
  by_cases hone : (incrBy w.now 1 w.conc).value = 1
  · have hmodify : ∀ p q : Phase, (w.requests ++ [p]).modify w.requests.length (fun _ => q) =
        w.requests ++ [q] := fun p q => by
      rw [List.modify_eq_take_cons_drop (by simp)]
      simp
    refine ⟨[.expire w.requests.length],
      { w with
        conc := pexpire w.now concTtlMs (some (incrBy w.now 1 w.conc))
        requests := w.requests ++ [decided maxConcurrent 1] }, ?_, ?_, ?_⟩
    · simp [run, step, hone, World.moved, hmodify]
    · simp only [if_pos hone]
    · simp only [hone]
  · refine ⟨[], _, rfl, ?_, ?_⟩
    · simp only [if_neg hone]
    · simp only [if_neg hone]

/-! ## The law and its condition -/

/-- The requests admitted and not yet finished. -/
def World.live (w : World) : ℕ := w.requests.countP fun p => p = .admitted

def Safe (maxConcurrent : ℤ) (w : World) : Prop :=
  w.live ≤ maxConcurrent ∧ 0 ≤ readCounter w.now w.conc

/-- The key does not expire while a request is between its `INCR` and its `DECR`. -/
def KeyOutlives (w : World) : Event → Prop
  | .tick now => (∃ p ∈ w.requests, p ≠ .done) → readEntry now w.conc = readEntry w.now w.conc
  | _ => True

instance (w : World) : (e : Event) → Decidable (KeyOutlives w e)
  | .tick now =>
    inferInstanceAs (Decidable ((∃ p ∈ w.requests, p ≠ .done) → readEntry now w.conc = readEntry w.now w.conc))
  | .incr | .expire _ | .finish _ | .decr _ => isTrue trivial

variable {maxConcurrent : ℤ} {w w' : World} {e : Event} {i : ℕ}

/-! ## The invariant -/

/-- The request counts on the key. -/
def inFlight (p : Phase) : Option Unit := if p = .done then none else some ()

/-- The request is admitted, or will be. -/
def slot (maxConcurrent : ℤ) (p : Phase) : Option Unit :=
  if p = .admitted ∨ p = .expiring ∧ 1 ≤ maxConcurrent then some () else none

structure Inv (maxConcurrent : ℤ) (w : World) : Prop where
  counted : readCounter w.now w.conc = holders inFlight w.requests ()
  within : holders (slot maxConcurrent) w.requests () ≤ maxConcurrent

theorem slots_le_inFlight (ps : List Phase) :
    holders (slot maxConcurrent) ps () ≤ holders inFlight ps () := by
  refine List.countP_mono_left fun p _ hp => ?_
  have hslot : p = .admitted ∨ p = .expiring ∧ 1 ≤ maxConcurrent := by
    by_contra hno
    simp [slot, hno] at hp
  rcases hslot with rfl | ⟨rfl, -⟩ <;> rfl

theorem live_le_slots (w : World) : w.live ≤ holders (slot maxConcurrent) w.requests () := by
  refine List.countP_mono_left fun p _ hp => ?_
  obtain rfl := of_decide_eq_true hp
  rfl

theorem Inv.safe (h : Inv maxConcurrent w) : Safe maxConcurrent w := by
  refine ⟨?_, h.counted ▸ Int.natCast_nonneg _⟩
  have hlive : w.live ≤ holders (slot maxConcurrent) w.requests () := live_le_slots w
  have hwithin := h.within
  omega

theorem inv_start (now : ℤ) (h : 0 ≤ maxConcurrent) : Inv maxConcurrent (start now) := ⟨rfl, h⟩

theorem holders_moved {p : Phase} (hp : w.requests[i]? = some p) (held : Phase → Option Unit) (q : Phase) :
    holders held (w.moved i q).requests () + (if held p = some () then 1 else 0) =
      holders held w.requests () + if held q = some () then 1 else 0 :=
  holders_modify held hp (fun _ => q) ()

theorem slot_expiring : slot maxConcurrent .expiring = if maxConcurrent < 1 then none else some () := by
  unfold slot
  by_cases hlimit : 1 ≤ maxConcurrent
  · rw [if_pos (.inr ⟨rfl, hlimit⟩), if_neg (not_lt.mpr hlimit)]
  · have hno : ¬ (Phase.expiring = .admitted ∨ Phase.expiring = .expiring ∧ 1 ≤ maxConcurrent) := by
      rintro (hphase | ⟨-, hle⟩)
      · cases hphase
      · exact hlimit hle
    rw [if_neg hno, if_pos (not_le.mp hlimit)]

/-- What a decision on `current` counts: nothing over the limit, else a slot. -/
theorem slot_decided (current : ℤ) :
    slot maxConcurrent (decided maxConcurrent current) = if maxConcurrent < current then none else some () := by
  unfold decided
  by_cases hover : maxConcurrent < current
  · rw [if_pos hover, if_pos hover]
    rfl
  · rw [if_neg hover, if_neg hover]
    rfl

theorem inFlight_decided (current : ℤ) : inFlight (decided maxConcurrent current) = some () := by
  unfold decided
  split <;> rfl

/-! ## What a step keeps -/

theorem tick_keeps {now : ℤ} (hi : Inv maxConcurrent w) (h : step maxConcurrent w (.tick now) = some w')
    (hkey : KeyOutlives w (.tick now)) : Inv maxConcurrent w' := by
  simp only [step] at h
  split at h
  · rename_i hle
    obtain rfl := Option.some.inj h
    refine ⟨?_, hi.within⟩
    have hcounted := hi.counted
    have hlater : readEntry now w.conc = readEntry w.now w.conc ∨ readEntry now w.conc = none :=
      readEntry_later hle
    rcases hlater with hsame | hexpired
    · simpa only [readCounter, hsame] using hcounted
    · by_cases hbusy : ∃ p ∈ w.requests, p ≠ .done
      · have hsame := hkey hbusy
        simpa only [readCounter, hsame] using hcounted
      · have hidle : holders inFlight w.requests () = 0 := by
          refine List.countP_eq_zero.mpr fun p hp hcount => hbusy ⟨p, hp, ?_⟩
          rintro rfl
          simp [inFlight] at hcount
        change readCounter now w.conc = holders inFlight w.requests ()
        rw [hidle, readCounter, hexpired]
        rfl
  · cases h

theorem incr_keeps (hi : Inv maxConcurrent w) (h : step maxConcurrent w .incr = some w') :
    Inv maxConcurrent w' := by
  obtain rfl := Option.some.inj h
  have hcounted := hi.counted
  have hslots : holders (slot maxConcurrent) w.requests () ≤ holders inFlight w.requests () :=
    slots_le_inFlight _
  have hwithin := hi.within
  have hvalue : (incrBy w.now 1 w.conc).value = holders inFlight w.requests () + 1 := by
    rw [incrBy_value, hcounted]
  constructor
  · have hnew : inFlight
        (if (incrBy w.now 1 w.conc).value = 1 then .expiring
          else decided maxConcurrent (incrBy w.now 1 w.conc).value) = some () := by
      split
      · rfl
      · exact inFlight_decided _
    dsimp only
    rw [readCounter_incrBy, hcounted, holders_append, holders_singleton, hnew, if_pos rfl]
    exact (Nat.cast_succ _).symm
  · -- the new request takes a slot exactly when `INCR` answered at most the limit
    have hnew : slot maxConcurrent
          (if (incrBy w.now 1 w.conc).value = 1 then .expiring
            else decided maxConcurrent (incrBy w.now 1 w.conc).value) =
        if maxConcurrent < (incrBy w.now 1 w.conc).value then none else some () := by
      split
      · rename_i hone
        rw [slot_expiring, hone]
      · exact slot_decided _
    dsimp only
    rw [holders_append, holders_singleton, hnew]
    by_cases hover : maxConcurrent < (incrBy w.now 1 w.conc).value
    · rw [if_pos hover, if_neg (by decide)]
      exact hwithin
    · rw [if_neg hover, if_pos rfl]
      omega

theorem expire_keeps (hi : Inv maxConcurrent w) (h : step maxConcurrent w (.expire i) = some w') :
    Inv maxConcurrent w' := by
  simp only [step] at h
  split at h
  · rename_i hphase
    obtain rfl := Option.some.inj h
    have hcounted := hi.counted
    have hwithin := hi.within
    have hflight := holders_moved hphase inFlight (decided maxConcurrent 1)
    have hslot := holders_moved hphase (slot maxConcurrent) (decided maxConcurrent 1)
    rw [inFlight_decided] at hflight
    rw [slot_decided, slot_expiring] at hslot
    constructor
    · have hkept : readCounter w.now (pexpire w.now concTtlMs w.conc) = readCounter w.now w.conc :=
        readCounter_pexpire (by decide)
      change readCounter w.now (pexpire w.now concTtlMs w.conc) = _
      rw [hkept, hcounted]
      exact congrArg Nat.cast (Nat.add_right_cancel hflight).symm
    · change (holders (slot maxConcurrent) (w.moved i _).requests () : ℤ) ≤ _
      rw [Nat.add_right_cancel hslot]
      exact hwithin
  · cases h

theorem finish_keeps (hi : Inv maxConcurrent w) (h : step maxConcurrent w (.finish i) = some w') :
    Inv maxConcurrent w' := by
  simp only [step] at h
  split at h
  · rename_i hphase
    obtain rfl := Option.some.inj h
    have hwithin := hi.within
    have hflight : holders inFlight (w.moved i .releasing).requests () + 1 =
        holders inFlight w.requests () + 1 := holders_moved hphase inFlight .releasing
    have hslot : holders (slot maxConcurrent) (w.moved i .releasing).requests () + 1 =
        holders (slot maxConcurrent) w.requests () + 0 :=
      holders_moved hphase (slot maxConcurrent) .releasing
    exact ⟨hi.counted.trans (congrArg Nat.cast (Nat.add_right_cancel hflight).symm), by omega⟩
  · cases h

theorem decr_keeps (hi : Inv maxConcurrent w) (h : step maxConcurrent w (.decr i) = some w') :
    Inv maxConcurrent w' := by
  simp only [step] at h
  split at h
  · rename_i hphase
    obtain rfl := Option.some.inj h
    have hcounted := hi.counted
    have hwithin := hi.within
    have hmoved : ∀ p, w.requests[i]? = some p → inFlight p = some () →
        slot maxConcurrent p = none → holders inFlight (w.moved i .done).requests () + 1 =
          holders inFlight w.requests () ∧ holders (slot maxConcurrent) (w.moved i .done).requests () =
          holders (slot maxConcurrent) w.requests () := by
      intro p hp hflight hslot
      have hcount := holders_moved hp inFlight .done
      have hslots := holders_moved hp (slot maxConcurrent) .done
      rw [hflight] at hcount
      rw [hslot] at hslots
      exact ⟨hcount, hslots⟩
    have hcounts : holders inFlight (w.moved i .done).requests () + 1 =
          holders inFlight w.requests () ∧ holders (slot maxConcurrent) (w.moved i .done).requests () =
          holders (slot maxConcurrent) w.requests () := by
      rcases hphase with hphase | hphase
      · exact hmoved _ hphase rfl rfl
      · exact hmoved _ hphase rfl rfl
    constructor
    · change readCounter w.now (some (incrBy w.now (-1) w.conc)) =
        (holders inFlight (w.moved i .done).requests () : ℤ)
      rw [readCounter_incrBy, hcounted]
      omega
    · dsimp only
      rw [hcounts.2]
      exact hwithin
  · cases h

theorem step_keeps (hi : Inv maxConcurrent w) (h : step maxConcurrent w e = some w')
    (hkey : KeyOutlives w e) : Inv maxConcurrent w' := by
  cases e with
  | tick now => exact tick_keeps hi h hkey
  | incr => exact incr_keeps hi h
  | expire i => exact expire_keeps hi h
  | finish i => exact finish_keeps hi h
  | decr i => exact decr_keeps hi h

/-- While the key outlives the requests that count on it, no more than the limit
are admitted and the counter is not negative. -/
theorem limit_kept (now maxConcurrent : ℤ) (hlimit : 0 ≤ maxConcurrent) (events : List Event)
    (hkey : EveryStep (step maxConcurrent) (fun w e _ => KeyOutlives w e) (start now) events)
    (h : run (step maxConcurrent) (start now) events = some w) : Safe maxConcurrent w :=
  (run_guarded (Inv maxConcurrent) (fun w e _ => KeyOutlives w e)
    (fun _ _ _ hs ht hguard => step_keeps hs ht hguard) (inv_start now hlimit) hkey h).safe

/-- Two requests within the limit of two, a third over it, and both finish. -/
def sampleRun : List Event :=
  [.incr, .expire 0, .incr, .tick 1000, .incr, .decr 2, .finish 0, .decr 0, .finish 1, .decr 1,
    .tick 120000, .incr]

theorem limit_kept_sample : ∃ w, run (step 2) (start 0) sampleRun = some w ∧ Safe 2 w :=
  ⟨_, rfl, limit_kept 0 2 (by decide) sampleRun (by decide) rfl⟩

/-- The first request runs for two minutes: the key expires, a second request is
admitted beside it, and when both have finished the counter is at -1. -/
theorem key_expires_under_request :
    (¬ ∀ events w, run (step 1) (start 0) events = some w → w.live ≤ 1) ∧
      ¬ ∀ events w, run (step 1) (start 0) events = some w → 0 ≤ readCounter w.now w.conc := by
  constructor
  · intro h
    have hlive := h [.incr, .expire 0, .tick 120000, .incr, .expire 1] _ rfl
    exact absurd hlive (by decide)
  · intro h
    have hcounter := h [.incr, .expire 0, .tick 120000, .incr, .expire 1, .finish 0, .decr 0, .finish 1,
      .decr 1] _ rfl
    exact absurd hcounter (by decide)

end ModelForge.RedisConcurrency
