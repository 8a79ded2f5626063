import ModelForge.WindowCount
import ModelForge.LimiterHeaders
import ModelForge.Participants

set_option autoImplicit false

/-!
# Requests in a minute

The requests of all keys come to the rate check of either middleware, in memory
and on Redis. The limit is a bound for each window; an interval of a minute meets
two of them.
-/
namespace ModelForge.RpmBound
open RateLimit LimiterHeaders WindowCount MemoryConcurrency Participants

/-- The limits of a key, the same for all its requests. -/
structure Limits where
  requestsPerMinute : ℤ
  maxConcurrent : ℤ
  deriving DecidableEq, Repr

def auth (limits : String → Limits) (apiKeyId : String) : Auth :=
  ⟨apiKeyId, (limits apiKeyId).requestsPerMinute, (limits apiKeyId).maxConcurrent⟩

/-- A request that got past the rate check. -/
structure Passed where
  apiKeyId : String
  time : ℤ
  deriving DecidableEq, Repr

def times (apiKeyId : String) (passed : List Passed) : List ℤ :=
  (passed.filter fun r => r.apiKeyId = apiKeyId).map Passed.time

/-- How many requests of the key got past the check from `t` on, for a minute. -/
def inMinute (apiKeyId : String) (t : ℤ) (passed : List Passed) : ℕ :=
  (times apiKeyId passed).countP fun time => t ≤ time ∧ time < t + windowMs

theorem inInterval_eq (t : ℤ) (points : List Point) :
    inInterval windowMs t points =
      (points.map Prod.fst).countP fun time => t ≤ time ∧ time < t + windowMs := by
  rw [List.countP_map]
  rfl

/-! ## In memory -/

/-- Neither refused by the rate check nor around it. -/
def pastCheck (auth : Auth) : Admission → Bool
  | .admitted => true
  | .bypassed => false
  | .rejected response => response = tooManyConcurrent auth.maxConcurrent

structure MemoryWorld where
  now : ℤ
  memory : Memory
  passed : List Passed

/-- A request through `rateLimitMiddleware` or `rateLimitRpmMiddleware`, and the
end of a response that gives a slot back. -/
inductive MemoryEvent where
  | request (elapsed : ℕ) (apiKeyId : String) (headers : Headers)
  | upload (elapsed : ℕ) (apiKeyId : String)
  | release (apiKeyId : String)

def memoryStep (limits : String → Limits) (w : MemoryWorld) : MemoryEvent → MemoryWorld
  | .request elapsed apiKeyId headers =>
    let now := w.now + elapsed
    let out := rateLimitMiddleware (memoryLimit now) (some (auth limits apiKeyId)) headers w.memory
    ⟨now, out.2, w.passed ++ if pastCheck (auth limits apiKeyId) out.1 then [⟨apiKeyId, now⟩] else []⟩
  | .upload elapsed apiKeyId =>
    let now := w.now + elapsed
    let out := rateLimitRpmMiddleware (memoryIncrRpm now) (some (auth limits apiKeyId)) w.memory
    ⟨now, out.2, w.passed ++ if out.1 = none then [⟨apiKeyId, now⟩] else []⟩
  | .release apiKeyId => { w with memory := memoryReleaseConc apiKeyId w.memory }

def memoryStart (now : ℤ) : MemoryWorld := ⟨now, .empty, []⟩

section
variable {limits : String → Limits} {w : MemoryWorld} {e : MemoryEvent} {now : ℤ} {id apiKeyId : String}
  {m : Memory}

theorem memoryAcquireConc_rpm (maxConcurrent : ℤ) (m : Memory) :
    (memoryAcquireConc apiKeyId maxConcurrent m).2.memoryRpm = m.memoryRpm := by
  unfold memoryAcquireConc
  dsimp only
  split <;> rfl

theorem memoryLimit_rpm (auth : Auth) (m : Memory) :
    (memoryLimit now auth m).2.memoryRpm = (memoryIncrRpm now auth.apiKeyId m).2.memoryRpm := by
  unfold memoryLimit
  dsimp only
  split_ifs <;> simp only [memoryAcquireConc_rpm]

theorem pastCheck_memoryLimit (auth : Auth) (m : Memory) :
    pastCheck auth (memoryLimit now auth m).1 =
      decide (memoryRate auth.apiKeyId now m + 1 ≤ auth.rpm) := by
  have hdiffer : tooManyPerMinute auth.rpm ≠ tooManyConcurrent auth.maxConcurrent := by
    intro h
    have := congrArg Rejection.retryAfter h
    simp [tooManyPerMinute, tooManyConcurrent] at this
  unfold memoryLimit
  dsimp only
  rw [memoryIncrRpm_count]
  by_cases hover : auth.rpm < memoryRate auth.apiKeyId now m + 1
  · simp [hover, pastCheck, hdiffer]
    omega
  · rw [if_neg hover]
    have hunder : memoryRate auth.apiKeyId now m + 1 ≤ auth.rpm := not_lt.mp hover
    split_ifs <;> simp [pastCheck, hunder]

/-- What a step does to the buckets and to the requests past the check. -/
inductive MemoryMove (limits : String → Limits) (w w' : MemoryWorld) : Prop where
  | aside (same : w'.memory.memoryRpm = w.memory.memoryRpm) (none : w'.passed = w.passed)
  | counted (apiKeyId : String)
      (bucket : w'.memory.memoryRpm = (memoryIncrRpm w'.now apiKeyId w.memory).2.memoryRpm)
      (passed : w'.passed = w.passed ++
        if memoryRate apiKeyId w'.now w.memory + 1 ≤ (auth limits apiKeyId).rpm then [⟨apiKeyId, w'.now⟩]
        else [])

theorem memoryStep_move : MemoryMove limits w (memoryStep limits w e) ∧
    w.now ≤ (memoryStep limits w e).now := by
  cases e with
  | request elapsed apiKeyId headers =>
    refine ⟨?_, by simp [memoryStep]⟩
    by_cases hchild : isOrchestrationChild headers = true
    · apply MemoryMove.aside <;> simp [memoryStep, rateLimitMiddleware, hchild, pastCheck]
    · apply MemoryMove.counted apiKeyId
      · simp only [memoryStep, rateLimitMiddleware, if_neg hchild, memoryLimit_rpm]
        rfl
      · simp only [memoryStep, rateLimitMiddleware, if_neg hchild, pastCheck_memoryLimit,
          decide_eq_true_eq]
        rfl
  | upload elapsed apiKeyId =>
    refine ⟨?_, by simp [memoryStep]⟩
    apply MemoryMove.counted apiKeyId
    · rfl
    · simp only [memoryStep, rateLimitRpmMiddleware, memoryIncrRpm_count]
      by_cases hover : (auth limits apiKeyId).rpm < memoryRate apiKeyId (w.now + elapsed) w.memory + 1
      · have hnot := not_le.mpr hover
        simp only [auth] at hover hnot ⊢
        simp [hover, hnot]
      · have hle := not_lt.mp hover
        simp only [auth] at hover hle ⊢
        simp [hover, hle]
  | release apiKeyId =>
    refine ⟨.aside memoryReleaseConc_rpm rfl, le_rfl⟩

theorem memoryIncrRpm_other (h : id ≠ apiKeyId) :
    (memoryIncrRpm now apiKeyId m).2.memoryRpm.get? (rlKey id) = m.memoryRpm.get? (rlKey id) := by
  have hkey : rlKey id ≠ rlKey apiKeyId := fun heq => h (rlKey_injective heq)
  unfold memoryIncrRpm
  dsimp only
  split
  · exact KeyedMap.get?_set_of_ne hkey
  · split
    · exact KeyedMap.get?_set_of_ne hkey
    · rw [KeyedMap.get?_update, if_neg hkey]

/-- The bucket's window is the last one, and its count covers the points in it. -/
def OnBucket (now : ℤ) (bucket : Option CounterBucket) (points : List Point) : Prop :=
  match bucket with
  | none => points = []
  | some b => b.resetAt ≤ now + windowMs ∧ (inWindow (b.resetAt - windowMs) points : ℤ) ≤ b.count ∧
      ∀ a ∈ points, a.2 = b.resetAt - windowMs ∨ a.2 + windowMs ≤ b.resetAt - windowMs

/-- Counting a request keeps the windows, and makes room for it where it passes. -/
theorem onBucket_counted {now now' rpm : ℤ} {bucket : Option CounterBucket} {points : List Point}
    (hpoints : Windowed windowMs rpm.toNat points) (hon : OnBucket now bucket points) (hle : now ≤ now')
    (hrpm : 1 ≤ rpm) :
    ∃ points', points'.map Prod.fst = points.map Prod.fst ++
        (if bucketCount now' bucket + 1 ≤ rpm then [now'] else []) ∧
      Windowed windowMs rpm.toNat points' ∧ OnBucket now' (some (countedBucket now' bucket)) points' := by
  have hms : windowMs = 60000 := rfl
  -- the window that the request falls in, and how many points are in it
  have hnext : ∃ b, countedBucket now' bucket = b ∧ b.count = bucketCount now' bucket + 1 ∧
      b.resetAt - windowMs ≤ now' ∧ now' < b.resetAt ∧
      (inWindow (b.resetAt - windowMs) points : ℤ) ≤ bucketCount now' bucket ∧
      ∀ a ∈ points, a.2 = b.resetAt - windowMs ∨ a.2 + windowMs ≤ b.resetAt - windowMs := by
    refine ⟨_, rfl, ?_⟩
    cases bucket with
    | none =>
      have hnil : points = [] := hon
      subst hnil
      simp only [countedBucket, bucketCount, inWindow, List.countP_nil, List.not_mem_nil]
      refine ⟨rfl, by omega, by omega, by omega, fun _ hfalse => hfalse.elim⟩
    | some b =>
      obtain ⟨hreset, hcount, hlast⟩ := hon
      by_cases hover : b.resetAt ≤ now'
      · have hbefore : ∀ a ∈ points, a.2 + windowMs ≤ now' := by
          intro a ha
          have := hlast a ha
          omega
        have hempty : inWindow (now' + windowMs - windowMs) points = 0 := by
          apply inWindow_eq_zero
          intro a ha
          have := hbefore a ha
          omega
        simp only [countedBucket, bucketCount, if_pos hover, hempty]
        refine ⟨rfl, by omega, by omega, by simp, ?_⟩
        intro a ha
        have := hbefore a ha
        omega
      · simp only [countedBucket, bucketCount, if_neg hover]
        exact ⟨trivial, by omega, by omega, hcount, hlast⟩
  obtain ⟨b, hb, hcount, hstart, hend, hroom, hlast⟩ := hnext
  rw [hb]
  by_cases hpass : bucketCount now' bucket + 1 ≤ rpm
  · refine ⟨points ++ [(now', b.resetAt - windowMs)], ?_, ?_, ?_, ?_, ?_⟩
    · rw [if_pos hpass, List.map_append]
      rfl
    · apply hpoints.push hstart (by omega)
      · intro a ha
        have := hlast a ha
        omega
      · omega
    · omega
    · rw [inWindow_append, if_pos rfl]
      push_cast
      omega
    · intro a ha
      rcases List.mem_append.mp ha with ha | ha
      · exact hlast a ha
      · exact .inl (List.mem_singleton.mp ha ▸ rfl)
  · refine ⟨points, ?_, hpoints, by omega, by omega, hlast⟩
    rw [if_neg hpass, List.append_nil]

/-- The key's requests past the check lie in windows, the last of them the bucket's. -/
def MemoryInv (limits : String → Limits) (id : String) (w : MemoryWorld) : Prop :=
  ∃ points, points.map Prod.fst = times id w.passed ∧
    Windowed windowMs (auth limits id).rpm.toNat points ∧
    OnBucket w.now (w.memory.memoryRpm.get? (rlKey id)) points

theorem onBucket_later {now now' : ℤ} {bucket : Option CounterBucket} {points : List Point}
    (h : OnBucket now bucket points) (hle : now ≤ now') : OnBucket now' bucket points := by
  cases bucket with
  | none => exact h
  | some b => exact ⟨h.1.trans (by omega), h.2⟩

theorem memoryInv_step (h : MemoryInv limits id w) : MemoryInv limits id (memoryStep limits w e) := by
  obtain ⟨points, htimes, hpoints, hon⟩ := h
  obtain ⟨hmove, hle⟩ := @memoryStep_move limits w e
  generalize memoryStep limits w e = w' at hmove hle ⊢
  cases hmove with
  | aside same none =>
    refine ⟨points, by rw [none, htimes], hpoints, ?_⟩
    rw [same]
    exact onBucket_later hon hle
  | counted apiKeyId bucket passed =>
    by_cases hid : id = apiKeyId
    · subst hid
      have hrpm : 1 ≤ (auth limits id).rpm := le_max_left _ _
      obtain ⟨points', htimes', hpoints', hon'⟩ := onBucket_counted hpoints hon hle hrpm
      refine ⟨points', ?_, hpoints', ?_⟩
      · rw [htimes', htimes, passed, times, times, List.filter_append, List.map_append]
        congr 1
        unfold memoryRate
        split_ifs <;> simp
      · rw [bucket, memoryIncrRpm_bucket]
        exact hon'
    · refine ⟨points, ?_, hpoints, ?_⟩
      · rw [htimes, passed, times, times, List.filter_append, List.map_append]
        have hother : ¬ apiKeyId = id := fun heq => hid heq.symm
        split_ifs <;> simp [hother]
      · rw [bucket, memoryIncrRpm_other hid]
        exact onBucket_later hon hle

theorem memoryInv_run (now : ℤ) (events : List MemoryEvent) :
    MemoryInv limits id (events.foldl (memoryStep limits) (memoryStart now)) := by
  have hstart : MemoryInv limits id (memoryStart now) := ⟨[], rfl, windowed_nil, rfl⟩
  generalize memoryStart now = w at hstart
  induction events generalizing w with
  | nil => exact hstart
  | cons e rest ih => exact ih (memoryStep limits w e) (memoryInv_step hstart)

end

/-! ## Redis -/

/-- A request whose `INCR` has answered; where it answered 1, `PEXPIRE` comes
before the request goes on. -/
structure Counted where
  apiKeyId : String
  time : ℤ
  count : ℤ
  expiring : Bool
  deriving DecidableEq, Repr

structure RedisWorld where
  now : ℤ
  redis : Redis
  requests : List Counted

/-- The two commands of the rate check, the first at the time that the request
reads from the clock, and any command on a concurrency counter. -/
inductive RedisEvent where
  | incr (elapsed : ℕ) (apiKeyId : String)
  | pexpire (elapsed i : ℕ)
  | conc (elapsed : ℕ) (apiKeyId : String) (entry : Option RedisEntry)

def bucketKey (apiKeyId : String) (time : ℤ) : RedisKey := .rl apiKeyId (time / windowMs)

def Counted.expired (r : Counted) : Counted := { r with expiring := false }

def redisStep (w : RedisWorld) : RedisEvent → RedisWorld
  | .incr elapsed apiKeyId =>
    let now := w.now + elapsed
    let entry := incrBy now 1 (w.redis (bucketKey apiKeyId now))
    ⟨now, Function.update w.redis (bucketKey apiKeyId now) (some entry),
      w.requests ++ [⟨apiKeyId, now, entry.value, entry.value = 1⟩]⟩
  | .pexpire elapsed i =>
    let now := w.now + elapsed
    match w.requests[i]? with
    | some r =>
      if r.expiring then
        let key := bucketKey r.apiKeyId r.time
        ⟨now, Function.update w.redis key (pexpire now windowMs (w.redis key)),
          w.requests.modify i Counted.expired⟩
      else { w with now }
    | none => { w with now }
  | .conc elapsed apiKeyId entry =>
    ⟨w.now + elapsed, Function.update w.redis (.conc apiKeyId) entry, w.requests⟩

def redisStart (now : ℤ) : RedisWorld := ⟨now, fun _ => none, []⟩

/-- Through the commands of the check, and not over the limit. -/
def Counted.passes (limits : String → Limits) (r : Counted) : Bool :=
  !r.expiring && decide (r.count ≤ (auth limits r.apiKeyId).rpm)

def RedisWorld.passed (limits : String → Limits) (w : RedisWorld) : List Passed :=
  (w.requests.filter (Counted.passes limits)).map fun r => ⟨r.apiKeyId, r.time⟩

/-- Without interruption the commands of a request are those of `incrExpiring`. -/
theorem uninterrupted (w : RedisWorld) (apiKeyId : String) (elapsed : ℕ) :
    ∃ (events : List RedisEvent) (w' : RedisWorld),
      events.foldl redisStep (redisStep w (.incr elapsed apiKeyId)) = w' ∧
      w'.redis =
        (incrExpiring (w.now + elapsed) windowMs (bucketKey apiKeyId (w.now + elapsed)) w.redis).2 ∧
      w'.requests = w.requests ++ [⟨apiKeyId, w.now + elapsed,
        (incrExpiring (w.now + elapsed) windowMs (bucketKey apiKeyId (w.now + elapsed)) w.redis).1,
        false⟩] := by
  simp only [incrExpiring]
  by_cases hone : (incrBy (w.now + elapsed) 1 (w.redis (bucketKey apiKeyId (w.now + elapsed)))).value = 1
  · refine ⟨[.pexpire 0 w.requests.length], _, rfl, ?_, ?_⟩
    · simp [redisStep, hone]
    · have hmodify : ∀ r : Counted, (w.requests ++ [r]).modify w.requests.length Counted.expired =
          w.requests ++ [r.expired] := by
        intro r
        rw [List.modify_eq_take_cons_drop (by simp)]
        simp
      simp [redisStep, hone, hmodify, Counted.expired]
  · refine ⟨[], _, rfl, ?_, ?_⟩
    · simp [redisStep, hone]
    · simp [redisStep, hone]

section
variable {limits : String → Limits} {w : RedisWorld} {id : String} {e : RedisEvent}

/-- A request of the key within the limit, in the minute of the clock. -/
def point (limits : String → Limits) (id : String) (r : Counted) : Option Point :=
  if r.apiKeyId = id ∧ r.count ≤ (auth limits id).rpm then
    some (r.time, r.time / windowMs * windowMs)
  else none

def points (limits : String → Limits) (id : String) (requests : List Counted) : List Point :=
  requests.filterMap (point limits id)

/-- No counter of the key expires in its own minute. -/
structure Lasting (id : String) (r : Redis) : Prop where
  lasts : ∀ bucket e t, r (.rl id bucket) = some e → e.expiresAt = some t →
    (bucket + 1) * windowMs ≤ t
  nonneg : ∀ bucket e, r (.rl id bucket) = some e → 0 ≤ e.value

structure RedisInv (limits : String → Limits) (id : String) (w : RedisWorld) : Prop where
  windowed : Windowed windowMs (auth limits id).rpm.toNat (points limits id w.requests)
  past : ∀ r ∈ w.requests, r.time ≤ w.now
  lasting : Lasting id w.redis
  counted : (inWindow (w.now / windowMs * windowMs) (points limits id w.requests) : ℤ) ≤
    readCounter w.now (w.redis (bucketKey id w.now))

theorem mem_points {requests : List Counted} {a : Point} (h : a ∈ points limits id requests) :
    ∃ r ∈ requests, a = (r.time, r.time / windowMs * windowMs) := by
  obtain ⟨r, hr, hpoint⟩ := List.mem_filterMap.mp h
  unfold point at hpoint
  split_ifs at hpoint
  exact ⟨r, hr, (Option.some.inj hpoint).symm⟩

theorem points_append (requests : List Counted) (r : Counted) :
    points limits id (requests ++ [r]) = points limits id requests ++ (point limits id r).toList := by
  rw [points, List.filterMap_append]
  cases h : point limits id r <;> simp [points, h]

theorem filterMap_modify {α β : Type} (f : α → Option β) (g : α → α) (h : ∀ a, f (g a) = f a)
    (l : List α) (i : ℕ) : (l.modify i g).filterMap f = l.filterMap f := by
  induction l generalizing i with
  | nil => simp
  | cons a l ih =>
    cases i with
    | zero => simp [List.filterMap_cons, h]
    | succ i => simp [List.filterMap_cons, ih]

theorem time_of_mem_modify {requests : List Counted} {i : ℕ} {r : Counted}
    (h : r ∈ requests.modify i Counted.expired) : ∃ r' ∈ requests, r'.time = r.time := by
  rcases mem_of_modify h with ⟨r', hr', rfl⟩ | hold
  · exact ⟨r', List.mem_of_getElem? hr', rfl⟩
  · exact ⟨r, hold, rfl⟩

theorem incrBy_expiresAt {now delta t : ℤ} {entry : Option RedisEntry}
    (h : (incrBy now delta entry).expiresAt = some t) :
    ∃ e, entry = some e ∧ e.expiresAt = some t := by
  unfold incrBy at h
  cases hread : readEntry now entry with
  | none =>
    rw [hread] at h
    cases h
  | some e =>
    rw [hread] at h
    exact ⟨e, (Option.filter_eq_some_iff.mp hread).1, h⟩

theorem Lasting.readCounter {r : Redis} (h : Lasting id r) (now bucket : ℤ) :
    0 ≤ readCounter now (r (.rl id bucket)) := by
  unfold RateLimit.readCounter
  cases hread : readEntry now (r (.rl id bucket)) with
  | none => exact le_rfl
  | some e => exact h.nonneg bucket e (Option.filter_eq_some_iff.mp hread).1

/-- A command on one key keeps the counters lasting if it keeps that key's. -/
theorem Lasting.update {r : Redis} (h : Lasting id r) {key : RedisKey} {entry : Option RedisEntry}
    (hkey : ∀ bucket e, key = .rl id bucket → entry = some e →
      (∀ t, e.expiresAt = some t → (bucket + 1) * windowMs ≤ t) ∧ 0 ≤ e.value) :
    Lasting id (Function.update r key entry) where
  lasts bucket e t he ht := by
    by_cases hsame : RedisKey.rl id bucket = key
    · rw [hsame, Function.update_self] at he
      exact (hkey bucket e hsame.symm he).1 t ht
    · rw [Function.update_of_ne hsame] at he
      exact h.lasts bucket e t he ht
  nonneg bucket e he := by
    by_cases hsame : RedisKey.rl id bucket = key
    · rw [hsame, Function.update_self] at he
      exact (hkey bucket e hsame.symm he).2
    · rw [Function.update_of_ne hsame] at he
      exact h.nonneg bucket e he

theorem Lasting.incr {r : Redis} (h : Lasting id r) (key : RedisKey) (now : ℤ) :
    Lasting id (Function.update r key (some (incrBy now 1 (r key)))) := by
  apply h.update
  intro bucket e hkey he
  obtain rfl := Option.some.inj he
  subst hkey
  constructor
  · intro t ht
    obtain ⟨e, hentry, hexpires⟩ := incrBy_expiresAt ht
    exact h.lasts bucket e t hentry hexpires
  · rw [incrBy_value]
    have hread := h.readCounter now bucket
    omega

/-- `PEXPIRE` comes after the `INCR`, so its minute ends after the counter's. -/
theorem Lasting.pexpire {r : Redis} (h : Lasting id r) (apiKeyId : String) {time now : ℤ}
    (hle : time ≤ now) :
    Lasting id (Function.update r (bucketKey apiKeyId time)
      (pexpire now windowMs (r (bucketKey apiKeyId time)))) := by
  apply h.update
  intro bucket e hkey he
  obtain ⟨e', hread, rfl⟩ := Option.map_eq_some_iff.mp he
  have hentry : r (bucketKey apiKeyId time) = some e' := (Option.filter_eq_some_iff.mp hread).1
  obtain ⟨rfl, hbucket⟩ := RedisKey.rl.inj hkey
  constructor
  · intro t ht
    have ht' : now + windowMs = t := Option.some.inj ht
    have hms : windowMs = 60000 := rfl
    rw [hms] at hbucket ht' ⊢
    omega
  · exact h.nonneg (time / windowMs) e' hentry

/-- In its minute a counter reads as before, and a new minute has no requests yet. -/
theorem redisInv_later (h : RedisInv limits id w) {now : ℤ} (hle : w.now ≤ now) :
    RedisInv limits id { w with now } where
  windowed := h.windowed
  past r hr := (h.past r hr).trans hle
  lasting := h.lasting
  counted := by
    have hms : windowMs = 60000 := rfl
    by_cases hsame : now / windowMs = w.now / windowMs
    · have hread : readCounter now (w.redis (bucketKey id w.now)) =
          readCounter w.now (w.redis (bucketKey id w.now)) := by
        cases hentry : w.redis (bucketKey id w.now) with
        | none => rfl
        | some e =>
          have hlive : ∀ t, e.expiresAt = some t → now < t ∧ w.now < t := by
            intro t ht
            have hend := h.lasting.lasts _ e t hentry ht
            rw [hms] at hend hsame
            omega
          have hlater : e.live now = true := by
            simp only [RedisEntry.live, Option.all_eq_true, decide_eq_true_eq]
            exact fun t ht => (hlive t ht).1
          have hbefore : e.live w.now = true := live_mono hle hlater
          rw [readCounter_live hlater, readCounter_live hbefore]
      have hkey : bucketKey id now = bucketKey id w.now := by rw [bucketKey, bucketKey, hsame]
      simp only [hsame, hkey, hread]
      exact h.counted
    · have hempty : inWindow (now / windowMs * windowMs) (points limits id w.requests) = 0 := by
        apply inWindow_eq_zero
        intro a ha
        obtain ⟨r, hr, rfl⟩ := mem_points ha
        have hpast := h.past r hr
        rw [hms] at hsame ⊢
        simp only
        omega
      simp only [hempty]
      exact h.lasting.readCounter now _

theorem redisInv_incr (h : RedisInv limits id w) (apiKeyId : String) :
    RedisInv limits id (redisStep w (.incr 0 apiKeyId)) := by
  have hms : windowMs = 60000 := rfl
  have hnow : w.now + ((0 : ℕ) : ℤ) = w.now := by simp
  have hlasting := h.lasting.incr (bucketKey apiKeyId w.now) w.now
  have hvalue := @incrBy_value w.now (w.redis (bucketKey apiKeyId w.now)) 1
  have hcounted := h.counted
  simp only [redisStep, hnow]
  generalize hentry : incrBy w.now 1 (w.redis (bucketKey apiKeyId w.now)) = entry at hlasting hvalue ⊢
  have hpast : ∀ r ∈ w.requests ++ [⟨apiKeyId, w.now, entry.value, entry.value = 1⟩], r.time ≤ w.now := by
    intro r hr
    rcases List.mem_append.mp hr with hr | hr
    · exact h.past r hr
    · rw [List.mem_singleton.mp hr]
  have hpoints := @points_append limits id w.requests ⟨apiKeyId, w.now, entry.value, entry.value = 1⟩
  by_cases hid : apiKeyId = id
  · subst hid
    have hread : readCounter w.now (some entry) = entry.value := by
      rw [← hentry]
      exact readCounter_live (live_incrBy 1)
    by_cases hpass : entry.value ≤ (auth limits apiKeyId).rpm
    · simp only [point, hpass, and_true, if_true, Option.toList_some] at hpoints
      refine ⟨?_, hpast, hlasting, ?_⟩
      · rw [hpoints]
        apply h.windowed.push
        · rw [hms]
          omega
        · rw [hms]
          omega
        · intro a ha
          obtain ⟨r, -, rfl⟩ := mem_points ha
          rw [hms]
          simp only
          omega
        · omega
      · simp only [hpoints, Function.update_self, hread]
        rw [inWindow_append, if_pos rfl]
        push_cast
        omega
    · simp only [point, hpass, and_false, if_false, Option.toList_none, List.append_nil] at hpoints
      refine ⟨hpoints ▸ h.windowed, hpast, hlasting, ?_⟩
      simp only [hpoints, Function.update_self, hread]
      omega
  · simp only [point, hid, false_and, if_false, Option.toList_none, List.append_nil] at hpoints
    refine ⟨hpoints ▸ h.windowed, hpast, hlasting, ?_⟩
    have hkey : bucketKey id w.now ≠ bucketKey apiKeyId w.now := by
      intro heq
      exact hid (RedisKey.rl.inj heq).1.symm
    simp only [hpoints, Function.update_of_ne hkey]
    exact hcounted

theorem redisInv_pexpire (h : RedisInv limits id w) (i : ℕ) :
    RedisInv limits id (redisStep w (.pexpire 0 i)) := by
  have hnow : w.now + ((0 : ℕ) : ℤ) = w.now := by simp
  simp only [redisStep, hnow]
  cases hr : w.requests[i]? with
  | none => exact h
  | some r =>
    have htime := h.past r (List.mem_of_getElem? hr)
    have hpoints : points limits id (w.requests.modify i Counted.expired) = points limits id w.requests :=
      filterMap_modify (point limits id) Counted.expired (fun _ => rfl) w.requests i
    simp only
    split_ifs
    · refine ⟨?_, ?_, h.lasting.pexpire r.apiKeyId htime, ?_⟩
      · rw [hpoints]
        exact h.windowed
      · intro r' hr'
        obtain ⟨old, hold, heq⟩ := time_of_mem_modify hr'
        exact heq ▸ h.past old hold
      · simp only [hpoints]
        by_cases hkey : bucketKey id w.now = bucketKey r.apiKeyId r.time
        · rw [hkey, Function.update_self, readCounter_pexpire (by decide), ← hkey]
          exact h.counted
        · rw [Function.update_of_ne hkey]
          exact h.counted
    · exact h

theorem redisInv_step (h : RedisInv limits id w) : RedisInv limits id (redisStep w e) := by
  have hlater : ∀ elapsed : ℕ, RedisInv limits id { w with now := w.now + elapsed } := by
    intro elapsed
    exact redisInv_later h (by omega)
  cases e with
  | incr elapsed apiKeyId =>
    have hkeep := redisInv_incr (hlater elapsed) apiKeyId
    simpa [redisStep] using hkeep
  | pexpire elapsed i =>
    have hkeep := redisInv_pexpire (hlater elapsed) i
    simpa [redisStep] using hkeep
  | conc elapsed apiKeyId entry =>
    have hnow := hlater elapsed
    refine ⟨hnow.windowed, hnow.past, hnow.lasting.update nofun, ?_⟩
    have hkey : bucketKey id (w.now + elapsed) ≠ .conc apiKeyId := nofun
    simp only [redisStep, Function.update_of_ne hkey]
    exact hnow.counted

theorem redisInv_run (now : ℤ) (events : List RedisEvent) :
    RedisInv limits id (events.foldl redisStep (redisStart now)) := by
  have hstart : RedisInv limits id (redisStart now) := by
    refine ⟨windowed_nil, nofun, ⟨nofun, nofun⟩, ?_⟩
    exact le_of_eq rfl
  generalize redisStart now = w at hstart
  induction events generalizing w with
  | nil => exact hstart
  | cons e rest ih => exact ih (w := redisStep w e) (redisInv_step hstart)

theorem points_times (requests : List Counted) : (points limits id requests).map Prod.fst =
    (requests.filter fun r => r.apiKeyId = id ∧ r.count ≤ (auth limits id).rpm).map Counted.time := by
  induction requests with
  | nil => rfl
  | cons c rest ih =>
    rw [points] at ih ⊢
    by_cases hpoint : c.apiKeyId = id ∧ c.count ≤ (auth limits id).rpm
    · have hsome : point limits id c = some (c.time, c.time / windowMs * windowMs) := if_pos hpoint
      rw [List.filterMap_cons_some hsome, List.filter_cons_of_pos (by simpa using hpoint), List.map_cons,
        List.map_cons, ih]
    · have hnone : point limits id c = none := if_neg hpoint
      rw [List.filterMap_cons_none hnone, List.filter_cons_of_neg (by simpa using hpoint), ih]

theorem times_passed (requests : List Counted) (now : ℤ) (r : Redis) :
    (times id (RedisWorld.passed limits ⟨now, r, requests⟩)).Sublist
      ((points limits id requests).map Prod.fst) := by
  have hleft : times id (RedisWorld.passed limits ⟨now, r, requests⟩) =
      (requests.filter fun r => r.apiKeyId = id && r.passes limits).map Counted.time := by
    simp only [times, RedisWorld.passed, List.filter_map, List.map_map, List.filter_filter]
    rfl
  rw [hleft, points_times]
  apply List.Sublist.map
  apply List.monotone_filter_right
  intro c hc
  simp only [Counted.passes, Bool.and_eq_true, decide_eq_true_eq] at hc ⊢
  obtain ⟨rfl, -, hcount⟩ := hc
  exact ⟨rfl, hcount⟩

end

/-- Whatever the order of requests and commands, and through either middleware:
at most twice the limit gets past the rate check in any minute. -/
theorem rpm_bound (limits : String → Limits) (apiKeyId : String) (now t : ℤ) :
    (∀ events : List MemoryEvent,
      (inMinute apiKeyId t (events.foldl (memoryStep limits) (memoryStart now)).passed : ℤ) ≤
        2 * (auth limits apiKeyId).rpm) ∧
    ∀ events : List RedisEvent,
      (inMinute apiKeyId t ((events.foldl redisStep (redisStart now)).passed limits) : ℤ) ≤
        2 * (auth limits apiKeyId).rpm := by
  have hrpm : 1 ≤ (auth limits apiKeyId).rpm := le_max_left _ _
  constructor
  · intro events
    obtain ⟨points, htimes, hpoints, -⟩ := @memoryInv_run limits apiKeyId now events
    have hbound := hpoints.inInterval_le t
    rw [inInterval_eq, htimes] at hbound
    unfold inMinute
    omega
  · intro events
    have hinv := @redisInv_run limits apiKeyId now events
    have hbound := hinv.windowed.inInterval_le t
    rw [inInterval_eq] at hbound
    have hpassed := @times_passed limits apiKeyId
      (events.foldl redisStep (redisStart now)).requests 0 (fun _ => none)
    have hsub := hpassed.countP_le (p := fun time => t ≤ time ∧ time < t + windowMs)
    change inMinute apiKeyId t ((events.foldl redisStep (redisStart now)).passed limits) ≤ _ at hsub
    omega

end ModelForge.RpmBound
