import ModelForge.KeyedMap

set_option autoImplicit false

/-!
# The rate limiter

`rateLimitMiddleware` and `rateLimitRpmMiddleware` over their two stores: the maps
of the process, and Redis, whose keys expire.
-/
namespace ModelForge.RateLimit

/-- Lower-case names, as Node delivers them. -/
abbrev Headers := String → Option String

def isOrchestrationChild (headers : Headers) : Bool :=
  headers "x-modelforge-orchestration" = some "voice-analyze"

structure Auth where
  apiKeyId : String
  requestsPerMinute : ℤ
  maxConcurrent : ℤ
  deriving DecidableEq, Repr

structure Rejection where
  status : ℕ
  type : String
  message : String
  retryAfter : Option String
  deriving DecidableEq, Repr

def unauthenticated : Rejection := ⟨401, "authentication_error", "Unauthenticated", none⟩

def tooManyPerMinute (rpm : ℤ) : Rejection :=
  ⟨429, "rate_limit_exceeded", s!"Limit {rpm} requests/minute", some "60"⟩

def tooManyConcurrent (maxConcurrent : ℤ) : Rejection :=
  ⟨429, "rate_limit_exceeded", s!"Max concurrent {maxConcurrent}", none⟩

/-- `admitted` takes a slot; `bypassed` goes on without one. -/
inductive Admission where
  | bypassed
  | admitted
  | rejected (response : Rejection)
  deriving DecidableEq, Repr

/-- The middleware calls `next`. -/
def Admission.passes : Admission → Bool
  | .bypassed | .admitted => true
  | .rejected _ => false

def windowMs : ℤ := 60000

def Auth.rpm (auth : Auth) : ℤ := max 1 auth.requestsPerMinute

/-- The middleware over a store with the limits of one of the two paths. -/
def rateLimitMiddleware {σ : Type} (limit : Auth → σ → Admission × σ) (auth : Option Auth)
    (headers : Headers) (store : σ) : Admission × σ :=
  match auth with
  | none => (.rejected unauthenticated, store)
  | some auth => if isOrchestrationChild headers then (.bypassed, store) else limit auth store

/-- The middleware that counts the request in its minute and takes no slot: the
refusal, if there is one. -/
def rateLimitRpmMiddleware {σ : Type} (incrRpm : String → σ → ℤ × σ) (auth : Option Auth) (store : σ) :
    Option Rejection × σ :=
  match auth with
  | none => (some unauthenticated, store)
  | some auth =>
    let counted := incrRpm auth.apiKeyId store
    (if auth.rpm < counted.1 then some (tooManyPerMinute auth.rpm) else none, counted.2)

/-! ## In memory -/

structure CounterBucket where
  count : ℤ
  resetAt : ℤ
  deriving DecidableEq, Repr

structure Memory where
  memoryRpm : KeyedMap String CounterBucket
  memoryConc : KeyedMap String ℤ

def Memory.empty : Memory := ⟨.empty, .empty⟩

def rlKey (apiKeyId : String) : String := "rl:" ++ apiKeyId

def concKey (apiKeyId : String) : String := "conc:" ++ apiKeyId

theorem rlKey_injective {a b : String} (h : rlKey a = rlKey b) : a = b :=
  (String.append_right_inj _).mp h

theorem concKey_injective {a b : String} (h : concKey a = concKey b) : a = b :=
  (String.append_right_inj _).mp h

def memoryIncrRpm (now : ℤ) (apiKeyId : String) (m : Memory) : ℤ × Memory :=
  let key := rlKey apiKeyId
  let fresh := (1, { m with memoryRpm := m.memoryRpm.set key ⟨1, now + windowMs⟩ })
  match m.memoryRpm.get? key with
  | none => fresh
  | some current =>
    if current.resetAt ≤ now then fresh
    else
      (current.count + 1,
        { m with memoryRpm := m.memoryRpm.update key fun b => { b with count := b.count + 1 } })

def memoryAcquireConc (apiKeyId : String) (maxConcurrent : ℤ) (m : Memory) : Bool × Memory :=
  let key := concKey apiKeyId
  let current := (m.memoryConc.get? key).getD 0
  if maxConcurrent ≤ current then (false, m)
  else (true, { m with memoryConc := m.memoryConc.set key (current + 1) })

def memoryReleaseConc (apiKeyId : String) (m : Memory) : Memory :=
  let key := concKey apiKeyId
  match m.memoryConc.get? key with
  | none => m
  | some current =>
    let count := max 0 (current - 1)
    if count = 0 then { m with memoryConc := m.memoryConc.delete key }
    else { m with memoryConc := m.memoryConc.set key count }

def memoryLimit (now : ℤ) (auth : Auth) (m : Memory) : Admission × Memory :=
  let counted := memoryIncrRpm now auth.apiKeyId m
  if auth.rpm < counted.1 then (.rejected (tooManyPerMinute auth.rpm), counted.2)
  else
    let acquired := memoryAcquireConc auth.apiKeyId auth.maxConcurrent counted.2
    if acquired.1 then (.admitted, acquired.2)
    else (.rejected (tooManyConcurrent auth.maxConcurrent), acquired.2)

/-! ## Redis -/

structure RedisEntry where
  value : ℤ
  expiresAt : Option ℤ
  deriving DecidableEq, Repr

/-- An expired key reads as absent. -/
def RedisEntry.live (now : ℤ) (entry : RedisEntry) : Bool := entry.expiresAt.all fun t => now < t

def readEntry (now : ℤ) (entry : Option RedisEntry) : Option RedisEntry :=
  entry.filter (RedisEntry.live now)

/-- `INCRBY`: an absent key counts as 0, a present one keeps its expiry. -/
def incrBy (now delta : ℤ) (entry : Option RedisEntry) : RedisEntry :=
  match readEntry now entry with
  | some e => { e with value := e.value + delta }
  | none => ⟨delta, none⟩

def pexpire (now ms : ℤ) (entry : Option RedisEntry) : Option RedisEntry :=
  (readEntry now entry).map fun e => { e with expiresAt := some (now + ms) }

/-- The number that a client reads. -/
def readCounter (now : ℤ) (entry : Option RedisEntry) : ℤ :=
  ((readEntry now entry).map RedisEntry.value).getD 0

section
variable {now now' : ℤ} {entry : Option RedisEntry}

theorem readEntry_live {e : RedisEntry} (h : e.live now = true) : readEntry now (some e) = some e :=
  if_pos h

theorem readEntry_expired {e : RedisEntry} (h : ¬ e.live now = true) : readEntry now (some e) = none :=
  if_neg h

theorem live_of_readEntry {e : RedisEntry} (h : readEntry now entry = some e) : e.live now = true :=
  (Option.filter_eq_some_iff.mp h).2

theorem readCounter_live {e : RedisEntry} (h : e.live now = true) : readCounter now (some e) = e.value := by
  rw [readCounter, readEntry_live h]
  rfl

theorem readCounter_expired {e : RedisEntry} (h : ¬ e.live now = true) : readCounter now (some e) = 0 := by
  rw [readCounter, readEntry_expired h]
  rfl

theorem live_mono {e : RedisEntry} (hle : now ≤ now') (h : e.live now' = true) : e.live now = true := by
  simp only [RedisEntry.live, Option.all_eq_true, decide_eq_true_eq] at h ⊢
  exact fun t ht => hle.trans_lt (h t ht)

theorem incrBy_value (delta : ℤ) : (incrBy now delta entry).value = readCounter now entry + delta := by
  unfold readCounter incrBy
  cases readEntry now entry with
  | none => simp
  | some e => simp

theorem live_incrBy (delta : ℤ) : (incrBy now delta entry).live now = true := by
  unfold incrBy
  cases h : readEntry now entry with
  | none => rfl
  | some e =>
    have hlive : e.live now = true := live_of_readEntry h
    exact hlive

theorem readCounter_incrBy (delta : ℤ) :
    readCounter now (some (incrBy now delta entry)) = readCounter now entry + delta := by
  rw [← incrBy_value, readCounter_live (live_incrBy delta)]

theorem readCounter_pexpire {ms : ℤ} (hms : 0 < ms) :
    readCounter now (pexpire now ms entry) = readCounter now entry := by
  unfold readCounter pexpire
  cases readEntry now entry with
  | none => rfl
  | some e =>
    have hlive : RedisEntry.live now { e with expiresAt := some (now + ms) } = true :=
      decide_eq_true (by omega)
    rw [Option.map_some, readEntry_live hlive]
    rfl

/-- In time a key stays as it is or expires. -/
theorem readEntry_later (h : now ≤ now') :
    readEntry now' entry = readEntry now entry ∨ readEntry now' entry = none := by
  cases entry with
  | none => exact .inr rfl
  | some e =>
    by_cases hlive : e.live now' = true
    · exact .inl ((readEntry_live hlive).trans (readEntry_live (live_mono h hlive)).symm)
    · exact .inr (readEntry_expired hlive)

end

/-- The keys `rl:id:bucket` and `conc:id`. -/
inductive RedisKey where
  | rl (apiKeyId : String) (bucket : ℤ)
  | conc (apiKeyId : String)
  deriving DecidableEq, Repr

abbrev Redis := RedisKey → Option RedisEntry

def concTtlMs : ℤ := 120000

/-- `INCR`, and the expiry for the key that it created. -/
def incrExpiring (now ttlMs : ℤ) (key : RedisKey) (r : Redis) : ℤ × Redis :=
  let entry := incrBy now 1 (r key)
  (entry.value,
    Function.update r key (if entry.value = 1 then pexpire now ttlMs (some entry) else some entry))

def decr (now : ℤ) (key : RedisKey) (r : Redis) : Redis :=
  Function.update r key (some (incrBy now (-1) (r key)))

def redisLimit (now : ℤ) (auth : Auth) (r : Redis) : Admission × Redis :=
  let counted := incrExpiring now windowMs (.rl auth.apiKeyId (now / windowMs)) r
  if auth.rpm < counted.1 then (.rejected (tooManyPerMinute auth.rpm), counted.2)
  else
    let current := incrExpiring now concTtlMs (.conc auth.apiKeyId) counted.2
    if auth.maxConcurrent < current.1 then
      (.rejected (tooManyConcurrent auth.maxConcurrent), decr now (.conc auth.apiKeyId) current.2)
    else (.admitted, current.2)

end ModelForge.RateLimit
