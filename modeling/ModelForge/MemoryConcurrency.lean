import ModelForge.RateLimit
import ModelForge.HolderCount
import ModelForge.RunInvariant
import ModelForge.Participants

set_option autoImplicit false

/-!
# The concurrency limiter in memory

Any number of keys, each with its limit. An admitted response gives its slot back
at the first of its `finish` and `close` events.
-/
namespace ModelForge.MemoryConcurrency
open RunInvariant RateLimit HolderCount Participants

structure Response where
  apiKeyId : String
  admission : Admission
  /-- The flag of `release`. -/
  released : Bool
  finished : Bool
  closed : Bool
  deriving DecidableEq, Repr

structure World where
  memory : Memory
  responses : List Response

def start : World := ⟨.empty, []⟩

inductive Event where
  | request (now : ℤ) (auth : Auth) (headers : Headers)
  | finish (i : ℕ)
  | close (i : ℕ)

/-- The listener of an admitted response; the others have none. -/
def release (r : Response) (m : Memory) : Response × Memory :=
  if r.admission = .admitted ∧ r.released = false then
    ({ r with released := true }, memoryReleaseConc r.apiKeyId m)
  else (r, m)

def fire (w : World) (i : ℕ) (r : Response) : World :=
  let released := release r w.memory
  { memory := released.2, responses := w.responses.modify i fun _ => released.1 }

/-- Each event of a response comes at most once. -/
def step (limit : String → ℤ) (w : World) : Event → Option World
  | .request now auth headers =>
    if auth.maxConcurrent = limit auth.apiKeyId then
      let out := rateLimitMiddleware (memoryLimit now) (some auth) headers w.memory
      some
        { memory := out.2
          responses := w.responses ++ [⟨auth.apiKeyId, out.1, false, false, false⟩] }
    else none
  | .finish i =>
    match w.responses[i]? with
    | some r => if r.finished then none else some (fire w i { r with finished := true })
    | none => none
  | .close i =>
    match w.responses[i]? with
    | some r => if r.closed then none else some (fire w i { r with closed := true })
    | none => none

/-- The key on which an admitted response counts until it finishes or closes. -/
def held (r : Response) : Option String :=
  if r.admission = .admitted ∧ r.finished = false ∧ r.closed = false then some r.apiKeyId else none

/-- The requests of the key admitted by the limiter and neither finished nor closed. -/
def active (w : World) (apiKeyId : String) : ℕ := holders held w.responses apiKeyId

/-! ## The counters -/

def counter (m : Memory) (apiKeyId : String) : ℤ := (m.memoryConc.get? (concKey apiKeyId)).getD 0

variable {limit : String → ℤ} {m : Memory} {w w' : World} {e : Event} {k j : String} {i : ℕ}

theorem get?_set_concKey (conc : KeyedMap String ℤ) (count : ℤ) :
    (conc.set (concKey k) count).get? (concKey j) = if k = j then some count else conc.get? (concKey j) := by
  rw [KeyedMap.get?_set]
  by_cases hkj : k = j
  · rw [if_pos hkj, if_pos (congrArg concKey hkj.symm)]
  · rw [if_neg hkj, if_neg fun h => hkj (concKey_injective h).symm]

theorem get?_delete_concKey (conc : KeyedMap String ℤ) :
    (conc.delete (concKey k)).get? (concKey j) = if k = j then none else conc.get? (concKey j) := by
  rw [KeyedMap.get?_delete]
  by_cases hkj : k = j
  · rw [if_pos hkj, if_pos (congrArg concKey hkj.symm)]
  · rw [if_neg hkj, if_neg fun h => hkj (concKey_injective h).symm]

theorem memoryIncrRpm_conc (now : ℤ) (apiKeyId : String) (m : Memory) :
    (memoryIncrRpm now apiKeyId m).2.memoryConc = m.memoryConc := by
  unfold memoryIncrRpm
  dsimp only
  split
  · rfl
  · split <;> rfl

theorem memoryAcquireConc_refused {maxConcurrent : ℤ} (h : maxConcurrent ≤ counter m k) :
    memoryAcquireConc k maxConcurrent m = (false, m) := if_pos h

theorem memoryAcquireConc_granted {maxConcurrent : ℤ} (h : counter m k < maxConcurrent) :
    (memoryAcquireConc k maxConcurrent m).1 = true ∧
      counter (memoryAcquireConc k maxConcurrent m).2 j = counter m j + if k = j then 1 else 0 := by
  have hgrant : memoryAcquireConc k maxConcurrent m =
      (true, { m with memoryConc := m.memoryConc.set (concKey k) (counter m k + 1) }) :=
    if_neg (not_le.mpr h)
  rw [hgrant]
  refine ⟨rfl, ?_⟩
  rw [counter, get?_set_concKey]
  by_cases hkj : k = j
  · subst hkj
    rw [if_pos rfl, if_pos rfl]
    rfl
  · rw [if_neg hkj, if_neg hkj, add_zero]
    rfl

theorem counter_memoryReleaseConc (h : 0 < counter m k) :
    counter (memoryReleaseConc k m) j = counter m j - if k = j then 1 else 0 := by
  unfold memoryReleaseConc
  dsimp only
  cases hcount : m.memoryConc.get? (concKey k) with
  | none =>
    rw [counter, hcount] at h
    exact absurd h (lt_irrefl 0)
  | some current =>
    have hcurrent : counter m k = current := by rw [counter, hcount, Option.getD_some]
    have hmax : max 0 (current - 1) = current - 1 := max_eq_right (by omega)
    dsimp only
    rw [hmax]
    by_cases hkj : k = j
    · subst hkj
      rw [if_pos rfl, hcurrent]
      by_cases hzero : current - 1 = 0
      · rw [if_pos hzero, counter, get?_delete_concKey, if_pos rfl, hzero]
        rfl
      · rw [if_neg hzero, counter, get?_set_concKey, if_pos rfl]
        rfl
    · rw [if_neg hkj, sub_zero]
      by_cases hzero : current - 1 = 0
      · rw [if_pos hzero, counter, get?_delete_concKey, if_neg hkj]
        rfl
      · rw [if_neg hzero, counter, get?_set_concKey, if_neg hkj]
        rfl

/-! ## The invariant -/

structure Inv (limit : String → ℤ) (w : World) : Prop where
  released : ∀ (n : ℕ) (r : Response), w.responses[n]? = some r → r.admission = .admitted →
    r.released = (r.finished || r.closed)
  counted : ∀ k, counter w.memory k = active w k
  within : ∀ k, active w k ≤ limit k

theorem inv_start (h : ∀ k, 1 ≤ limit k) : Inv limit start where
  released _ _ h := by cases h
  counted _ := rfl
  within k := zero_le_one.trans (h k)

/-! ## Requests -/

/-- What the limiter answers, and what it does to the counters. -/
inductive Limited (auth : Auth) (m : Memory) : Admission × Memory → Prop where
  | passed (admission : Admission) (m' : Memory) (other : admission ≠ .admitted)
      (same : m'.memoryConc = m.memoryConc) : Limited auth m (admission, m')
  | admitted (m' : Memory) (room : counter m auth.apiKeyId < auth.maxConcurrent)
      (counted : ∀ j, counter m' j = counter m j + if auth.apiKeyId = j then 1 else 0) :
      Limited auth m (.admitted, m')

theorem rateLimitMiddleware_limited (now : ℤ) (auth : Auth) (headers : Headers) (m : Memory) :
    Limited auth m (rateLimitMiddleware (memoryLimit now) (some auth) headers m) := by
  unfold rateLimitMiddleware memoryLimit
  dsimp only
  have hconc := memoryIncrRpm_conc now auth.apiKeyId m
  generalize memoryIncrRpm now auth.apiKeyId m = counted at hconc ⊢
  split
  · exact .passed _ _ (by decide) rfl
  · split
    · exact .passed _ _ (fun h => by cases h) hconc
    · have hcounter : ∀ j, counter counted.2 j = counter m j := fun j => by
        simp only [counter, hconc]
      by_cases hroom : counter counted.2 auth.apiKeyId < auth.maxConcurrent
      · rw [if_pos (memoryAcquireConc_granted (j := auth.apiKeyId) hroom).1]
        refine .admitted _ (hcounter _ ▸ hroom) fun j => ?_
        rw [(memoryAcquireConc_granted hroom).2, hcounter]
      · rw [memoryAcquireConc_refused (not_lt.mp hroom)]
        exact .passed _ _ (fun h => by cases h) hconc

theorem active_request (m' : Memory) (r : Response) :
    active { memory := m', responses := w.responses ++ [r] } k =
      active w k + if held r = some k then 1 else 0 := by
  simp only [active, holders_append, holders_singleton]

theorem active_passed {admission : Admission} (m' : Memory) (apiKeyId : String) (other : admission ≠ .admitted) :
    active { memory := m', responses := w.responses ++ [⟨apiKeyId, admission, false, false, false⟩] } k =
      active w k := by
  have hheld : held ⟨apiKeyId, admission, false, false, false⟩ = none := if_neg fun hall => other hall.1
  rw [active_request, hheld, if_neg (fun h => by cases h), add_zero]

theorem active_admitted (m' : Memory) (apiKeyId : String) :
    active { memory := m', responses := w.responses ++ [⟨apiKeyId, .admitted, false, false, false⟩] } k =
      active w k + if apiKeyId = k then 1 else 0 := by
  have hheld : held ⟨apiKeyId, .admitted, false, false, false⟩ = some apiKeyId := if_pos ⟨rfl, rfl, rfl⟩
  rw [active_request, hheld]
  simp only [Option.some.injEq]

theorem request_keeps {now : ℤ} {auth : Auth} {headers : Headers} (hi : Inv limit w)
    (h : step limit w (.request now auth headers) = some w') : Inv limit w' := by
  simp only [step] at h
  split at h
  · rename_i hlimit
    obtain rfl := Option.some.inj h
    have hlimited := rateLimitMiddleware_limited now auth headers w.memory
    generalize rateLimitMiddleware (memoryLimit now) (some auth) headers w.memory = out at hlimited ⊢
    have hreleased : ∀ (n : ℕ) (r : Response),
        (w.responses ++ [⟨auth.apiKeyId, out.1, false, false, false⟩])[n]? = some r →
        r.admission = .admitted → r.released = (r.finished || r.closed) := by
      intro n r hr hadmitted
      rcases List.mem_append.mp (List.mem_of_getElem? hr) with hold | hnew
      · obtain ⟨n', hn'⟩ := List.mem_iff_getElem?.mp hold
        exact hi.released n' r hn' hadmitted
      · obtain rfl := List.mem_singleton.mp hnew
        rfl
    cases hlimited with
    | passed admission m' other same =>
      refine ⟨hreleased, fun k => ?_, fun k => ?_⟩
      · rw [active_passed m' auth.apiKeyId other, ← hi.counted k]
        simp only [counter, same]
      · rw [active_passed m' auth.apiKeyId other]
        exact hi.within k
    | admitted m' room counted =>
      refine ⟨hreleased, fun k => ?_, fun k => ?_⟩
      · rw [active_admitted, counted k, hi.counted k]
        push_cast
        rfl
      · rw [active_admitted]
        have hwithin := hi.within k
        by_cases hk : auth.apiKeyId = k
        · subst hk
          rw [hi.counted, hlimit] at room
          rw [if_pos rfl]
          push_cast
          omega
        · rw [if_neg hk]
          exact hwithin
  · cases h

/-! ## Events of a response -/

theorem active_fire {r r' : Response} (hr : w.responses[i]? = some r) :
    active (fire w i r') k + (if held r = some k then 1 else 0) =
      active w k + if held (release r' w.memory).1 = some k then 1 else 0 :=
  holders_modify held hr (fun _ => (release r' w.memory).1) k

theorem held_finished {r : Response} (h : (r.finished || r.closed) = true) : held r = none := by
  refine if_neg ?_
  rintro ⟨-, hfinished, hclosed⟩
  rw [hfinished, hclosed] at h
  cases h

theorem fire_released {r' : Response} (hi : Inv limit w)
    (hnew : (release r' w.memory).1.admission = .admitted →
      (release r' w.memory).1.released =
        ((release r' w.memory).1.finished || (release r' w.memory).1.closed)) :
    ∀ (n : ℕ) (q : Response), (fire w i r').responses[n]? = some q → q.admission = .admitted →
      q.released = (q.finished || q.closed) := by
  intro n q hq hadmitted
  have hget : (w.responses.modify i fun _ => (release r' w.memory).1)[n]? = some q := hq
  rcases get_of_modify hget with ⟨-, -, -, rfl⟩ | ⟨-, hq'⟩
  · exact hnew hadmitted
  · exact hi.released n q hq' hadmitted

/-- The response fires an event: `r'` is `r` with the event noted. -/
theorem fire_keeps {r r' : Response} (hi : Inv limit w) (hr : w.responses[i]? = some r)
    (hkey : r'.apiKeyId = r.apiKeyId) (hadmission : r'.admission = r.admission)
    (hreleased : r'.released = r.released) (hfired : (r'.finished || r'.closed) = true) :
    Inv limit (fire w i r') := by
  have hgone : held (release r' w.memory).1 = none := by
    refine held_finished ?_
    unfold release
    split <;> exact hfired
  have hactive : ∀ k, active (fire w i r') k + (if held r = some k then 1 else 0) = active w k := by
    intro k
    rw [active_fire hr, hgone]
    rfl
  refine ⟨fire_released hi fun hadmitted => ?_, fun k => ?_, fun k => ?_⟩
  · unfold release at hadmitted ⊢
    by_cases hfirst : r'.admission = .admitted ∧ r'.released = false
    · simp only [if_pos hfirst, hfired]
    · simp only [if_neg hfirst] at hadmitted ⊢
      rw [hfired]
      by_contra hno
      exact hfirst ⟨hadmitted, Bool.eq_false_iff.mpr hno⟩
  · have hcount := hactive k
    by_cases hfirst : r'.admission = .admitted ∧ r'.released = false
    · -- the first event of an admitted response: it gives its slot back
      have hopen : (r.finished || r.closed) = false := by
        rw [← hi.released i r hr (hadmission ▸ hfirst.1), ← hreleased]
        exact hfirst.2
      obtain ⟨hfinished, hclosed⟩ := Bool.or_eq_false_iff.mp hopen
      have hheld : held r = some r.apiKeyId := if_pos ⟨hadmission ▸ hfirst.1, hfinished, hclosed⟩
      have hmemory : (fire w i r').memory = memoryReleaseConc r.apiKeyId w.memory := by
        simp only [fire, release, if_pos hfirst, hkey]
      have hpos : 0 < counter w.memory r.apiKeyId := by
        rw [hi.counted]
        exact_mod_cast holders_pos held hr hheld
      rw [hmemory, counter_memoryReleaseConc hpos, hi.counted]
      simp only [hheld, Option.some.injEq] at hcount
      by_cases hk : r.apiKeyId = k
      · rw [if_pos hk] at hcount ⊢
        omega
      · rw [if_neg hk] at hcount ⊢
        omega
    · have hheld : held r = none := by
        by_cases hadmitted : r.admission = .admitted
        · refine held_finished ?_
          rw [← hi.released i r hr hadmitted, ← hreleased]
          by_contra hno
          exact hfirst ⟨hadmission.trans hadmitted, Bool.eq_false_iff.mpr hno⟩
        · exact if_neg fun hall => hadmitted hall.1
      have hmemory : (fire w i r').memory = w.memory := by
        simp only [fire, release, if_neg hfirst]
      rw [hheld] at hcount
      rw [hmemory, hi.counted, ← hcount]
      rfl
  · have hcount := hactive k
    have hwithin := hi.within k
    omega

theorem step_keeps (hi : Inv limit w) (h : step limit w e = some w') : Inv limit w' := by
  cases e with
  | request now auth headers => exact request_keeps hi h
  | finish i =>
    simp only [step] at h
    split at h
    · rename_i r hr
      split at h
      · cases h
      · obtain rfl := Option.some.inj h
        exact fire_keeps hi hr rfl rfl rfl rfl
    · cases h
  | close i =>
    simp only [step] at h
    split at h
    · rename_i r hr
      split at h
      · cases h
      · obtain rfl := Option.some.inj h
        exact fire_keeps hi hr rfl rfl rfl (Bool.or_true _)
    · cases h

def sampleLimit (apiKeyId : String) : ℤ := if apiKeyId = "a" then 1 else 2

def sampleRequest (apiKeyId : String) : Event :=
  .request 0 ⟨apiKeyId, 60, sampleLimit apiKeyId⟩ fun _ => none

/-- The second request of `a` is refused; the first finishes and then closes. -/
def sampleRun : List Event :=
  [sampleRequest "a", sampleRequest "b", sampleRequest "a", .finish 0, sampleRequest "b", .close 0,
    sampleRequest "a"]

end ModelForge.MemoryConcurrency
