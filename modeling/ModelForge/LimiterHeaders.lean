import ModelForge.LimiterRoom
import ModelForge.MemoryConcurrency

set_option autoImplicit false

/-!
# The limiter and the orchestration header

Both stores of the limiter are metered, so a sequence of requests is admitted the
same under all headers exactly when it stays within the limits without any.
-/
namespace ModelForge.LimiterHeaders
open RateLimit LimiterSequence LimiterRoom
open MemoryConcurrency (counter memoryIncrRpm_conc memoryAcquireConc_granted memoryAcquireConc_refused
  counter_memoryReleaseConc)

/-! ## In memory -/

def memoryLimiter : Limiter Memory := ⟨.empty, memoryLimit, fun _ apiKeyId m => memoryReleaseConc apiKeyId m⟩

/-- A window may begin with any request and lasts a minute; an unfinished request
counts as long as it lasts. -/
def memoryWindows : Windows := ⟨fun now start => now < start + windowMs, fun _ _ => true⟩

def bucketCount (now : ℤ) (bucket : Option CounterBucket) : ℤ :=
  match bucket with
  | some b => if b.resetAt ≤ now then 0 else b.count
  | none => 0

def countedBucket (now : ℤ) (bucket : Option CounterBucket) : CounterBucket :=
  match bucket with
  | some b => if b.resetAt ≤ now then ⟨1, now + windowMs⟩ else { b with count := b.count + 1 }
  | none => ⟨1, now + windowMs⟩

def memoryRate (apiKeyId : String) (now : ℤ) (m : Memory) : ℤ :=
  bucketCount now (m.memoryRpm.get? (rlKey apiKeyId))

def MemoryOk (apiKeyId : String) (now : ℤ) (m : Memory) : Prop :=
  ∀ b, m.memoryRpm.get? (rlKey apiKeyId) = some b → 1 ≤ b.count ∧ b.resetAt ≤ now + windowMs

section
variable {now now' : ℤ} {auth : Auth} {m : Memory} {bucket : Option CounterBucket} {apiKeyId : String}

theorem memoryIncrRpm_count : (memoryIncrRpm now apiKeyId m).1 = memoryRate apiKeyId now m + 1 := by
  unfold memoryIncrRpm memoryRate bucketCount
  dsimp only
  cases m.memoryRpm.get? (rlKey apiKeyId) with
  | none => rfl
  | some b =>
    dsimp only
    split <;> rfl

theorem memoryIncrRpm_bucket : (memoryIncrRpm now apiKeyId m).2.memoryRpm.get? (rlKey apiKeyId) =
    some (countedBucket now (m.memoryRpm.get? (rlKey apiKeyId))) := by
  unfold memoryIncrRpm countedBucket
  dsimp only
  cases hbucket : m.memoryRpm.get? (rlKey apiKeyId) with
  | none => exact KeyedMap.get?_set_self m.memoryRpm (rlKey apiKeyId) _
  | some b =>
    by_cases hreset : b.resetAt ≤ now
    · simp only [if_pos hreset]
      exact KeyedMap.get?_set_self m.memoryRpm (rlKey apiKeyId) _
    · simp only [if_neg hreset]
      rw [KeyedMap.get?_update, if_pos rfl, hbucket]
      rfl

theorem memoryLimit_admitted_iff : (memoryLimit now auth m).1 = .admitted ↔
    memoryRate auth.apiKeyId now m < auth.rpm ∧ counter m auth.apiKeyId < auth.maxConcurrent := by
  have hcounter : counter (memoryIncrRpm now auth.apiKeyId m).2 auth.apiKeyId = counter m auth.apiKeyId := by
    simp only [counter, memoryIncrRpm_conc]
  unfold memoryLimit
  dsimp only
  rw [memoryIncrRpm_count, ← hcounter]
  by_cases hrate : auth.rpm < memoryRate auth.apiKeyId now m + 1
  · rw [if_pos hrate]
    refine iff_of_false (fun h => by cases h) fun h => ?_
    omega
  · rw [if_neg hrate]
    by_cases hconc : counter (memoryIncrRpm now auth.apiKeyId m).2 auth.apiKeyId < auth.maxConcurrent
    · rw [if_pos (memoryAcquireConc_granted (j := auth.apiKeyId) hconc).1]
      exact iff_of_true rfl ⟨by omega, hconc⟩
    · rw [memoryAcquireConc_refused (not_lt.mp hconc)]
      exact iff_of_false (fun h => by cases h) fun h => hconc h.2

theorem memoryLimit_admitted (h : (memoryLimit now auth m).1 = .admitted) :
    (memoryLimit now auth m).2.memoryRpm.get? (rlKey auth.apiKeyId) =
        some (countedBucket now (m.memoryRpm.get? (rlKey auth.apiKeyId))) ∧
      counter (memoryLimit now auth m).2 auth.apiKeyId = counter m auth.apiKeyId + 1 := by
  obtain ⟨hrate, hconc⟩ := memoryLimit_admitted_iff.mp h
  have hcounter : counter (memoryIncrRpm now auth.apiKeyId m).2 auth.apiKeyId = counter m auth.apiKeyId := by
    simp only [counter, memoryIncrRpm_conc]
  have hgranted := memoryAcquireConc_granted (j := auth.apiKeyId) (hcounter ▸ hconc)
  have hsnd : (memoryLimit now auth m).2 =
      (memoryAcquireConc auth.apiKeyId auth.maxConcurrent (memoryIncrRpm now auth.apiKeyId m).2).2 := by
    have hunder : ¬ auth.rpm < (memoryIncrRpm now auth.apiKeyId m).1 := by
      rw [memoryIncrRpm_count]
      omega
    simp only [memoryLimit, if_neg hunder, if_pos hgranted.1]
  have hrpm : (memoryAcquireConc auth.apiKeyId auth.maxConcurrent
      (memoryIncrRpm now auth.apiKeyId m).2).2.memoryRpm = (memoryIncrRpm now auth.apiKeyId m).2.memoryRpm := by
    unfold memoryAcquireConc
    dsimp only
    split <;> rfl
  rw [hsnd, hrpm]
  refine ⟨memoryIncrRpm_bucket, ?_⟩
  rw [hgranted.2, if_pos rfl, hcounter]

theorem memoryReleaseConc_rpm : (memoryReleaseConc apiKeyId m).memoryRpm = m.memoryRpm := by
  unfold memoryReleaseConc
  dsimp only
  split
  · rfl
  · split <;> rfl

theorem memoryReleaseConc_le : counter (memoryReleaseConc apiKeyId m) apiKeyId ≤ max 0 (counter m apiKeyId - 1) := by
  by_cases hpos : 0 < counter m apiKeyId
  · rw [counter_memoryReleaseConc hpos, if_pos rfl]
    exact le_max_right _ _
  · refine le_max_of_le_left ?_
    unfold memoryReleaseConc
    dsimp only
    split
    · exact not_lt.mp hpos
    · rename_i current hcurrent
      have hvalue : counter m apiKeyId = current := by rw [counter, hcurrent, Option.getD_some]
      have hzero : max 0 (current - 1) = 0 := max_eq_left (by omega)
      rw [if_pos hzero, counter, KeyedMap.get?_delete_self]
      rfl

/-- A request begins a window, or counts in the one that lasts. -/
theorem countedBucket_cases (now : ℤ) (bucket : Option CounterBucket) :
    (countedBucket now bucket = ⟨1, now + windowMs⟩ ∧ ∀ now', now ≤ now' → bucketCount now' bucket = 0) ∨
      ∃ b, bucket = some b ∧ ¬ b.resetAt ≤ now ∧ countedBucket now bucket = { b with count := b.count + 1 } := by
  cases bucket with
  | none => exact .inl ⟨rfl, fun _ _ => rfl⟩
  | some b =>
    by_cases hreset : b.resetAt ≤ now
    · exact .inl ⟨if_pos hreset, fun now' hle => if_pos (hreset.trans hle)⟩
    · exact .inr ⟨b, rfl, hreset, if_neg hreset⟩

theorem bucketCount_counted_le (hle : now ≤ now')
    (hok : ∀ b, bucket = some b → 1 ≤ b.count ∧ b.resetAt ≤ now + windowMs) :
    bucketCount now' (some (countedBucket now bucket)) ≤
      max 0 (bucketCount now' bucket) + if decide (now' < now + windowMs) = true then 1 else 0 := by
  simp only [decide_eq_true_eq]
  rcases countedBucket_cases now bucket with ⟨hfresh, hzero⟩ | ⟨b, rfl, -, hcounted⟩
  · rw [hfresh, hzero now' hle]
    dsimp only [bucketCount]
    by_cases hwindow : now' < now + windowMs
    · rw [if_neg (not_le.mpr hwindow), if_pos hwindow]
      decide
    · rw [if_pos (not_lt.mp hwindow), if_neg hwindow]
      decide
  · have hb := hok b rfl
    rw [hcounted]
    dsimp only [bucketCount]
    by_cases hlater : b.resetAt ≤ now'
    · rw [if_pos hlater]
      split <;> omega
    · rw [if_neg hlater, if_neg hlater, if_pos (by omega)]
      omega

theorem bucketCount_counted_eq (hle : now ≤ now') (hwindow : now' < now + windowMs)
    (hok : ∀ b, bucket = some b → 1 ≤ b.count ∧ b.resetAt ≤ now + windowMs)
    (hsame : bucketCount now bucket = bucketCount now' bucket) :
    bucketCount now' (some (countedBucket now bucket)) = bucketCount now' bucket + 1 := by
  rcases countedBucket_cases now bucket with ⟨hfresh, hzero⟩ | ⟨b, rfl, hreset, hcounted⟩
  · rw [hfresh, hzero now' hle]
    exact if_neg (not_le.mpr hwindow)
  · have hb := hok b rfl
    rw [hcounted]
    dsimp only [bucketCount] at hsame ⊢
    rw [if_neg hreset] at hsame
    have hlater : ¬ b.resetAt ≤ now' := by
      intro hlater
      rw [if_pos hlater] at hsame
      omega
    rw [if_neg hlater, if_neg hlater]

theorem memory_metered (auth : Auth) : Metered memoryLimiter memoryWindows auth (MemoryOk auth.apiKeyId)
    (memoryRate auth.apiKeyId) (fun _ m => counter m auth.apiKeyId) where
  rateMeter :=
    { init := fun _ => rfl
      enter_le := by
        intro now now' m hok hle hadmitted
        have hbucket := (memoryLimit_admitted hadmitted).1
        simp only [memoryLimiter, memoryRate, hbucket]
        exact bucketCount_counted_le hle hok
      enter_eq := by
        intro now now' m hok hle hadmitted hcounts hsame
        have hbucket := (memoryLimit_admitted hadmitted).1
        simp only [memoryLimiter, memoryRate, hbucket]
        exact bucketCount_counted_eq hle (of_decide_eq_true hcounts) hok hsame
      counts_between := by
        intro now now' start hcounts _ hle
        have hwindow : now' < start + windowMs := of_decide_eq_true hcounts
        exact decide_eq_true (hle.trans_lt hwindow) }
  concMeter :=
    { init := fun _ => rfl
      enter_le := by
        intro now now' m _ _ hadmitted
        have hcounter := (memoryLimit_admitted hadmitted).2
        have hlast : counter m auth.apiKeyId + 1 ≤ max 0 (counter m auth.apiKeyId) + 1 := by omega
        exact hcounter.trans_le hlast
      enter_eq := fun _ _ hadmitted _ _ => (memoryLimit_admitted hadmitted).2
      counts_between := fun _ _ _ => rfl }
  ok_init _ b hb := by cases hb
  ok_later hok hle b hb := ⟨(hok b hb).1, (hok b hb).2.trans (by omega)⟩
  ok_limit := by
    intro now m hok hadmitted b hb
    rw [memoryLimiter, (memoryLimit_admitted hadmitted).1] at hb
    obtain rfl := Option.some.inj hb
    unfold countedBucket
    split
    · rename_i old hold
      have hbefore := hok old hold
      split
      · exact ⟨le_rfl, le_rfl⟩
      · exact ⟨by dsimp only; omega, hbefore.2⟩
    · exact ⟨le_rfl, le_rfl⟩
  ok_release := by
    intro now m hok b hb
    refine hok b ?_
    rw [memoryLimiter, memoryReleaseConc_rpm] at hb
    exact hb
  rate_release _ _ m := by simp only [memoryLimiter, memoryRate, memoryReleaseConc_rpm]
  conc_release _ _ := memoryReleaseConc_le
  admitted_iff _ _ := memoryLimit_admitted_iff
  not_bypassed now m h := by
    simp only [memoryLimiter, memoryLimit] at h
    split at h
    · cases h
    · split at h <;> cases h

end

/-! ## Redis -/

def redisLimiter : Limiter Redis :=
  ⟨fun _ => none, redisLimit, fun now apiKeyId r => decr now (.conc apiKeyId) r⟩

/-- The minutes are those of the clock; an unfinished request counts for the time
that its key lives. -/
def redisWindows : Windows :=
  ⟨fun now start => start / windowMs = now / windowMs, fun now start => now < start + concTtlMs⟩

def redisRate (apiKeyId : String) (now : ℤ) (r : Redis) : ℤ :=
  readCounter now (r (.rl apiKeyId (now / windowMs)))

def redisConc (apiKeyId : String) (now : ℤ) (r : Redis) : ℤ := readCounter now (r (.conc apiKeyId))

/-- A counter above 0 expires in time. -/
def Expiring (now ttlMs : ℤ) (entry : Option RedisEntry) : Prop :=
  ∀ e, entry = some e → 0 < e.value → ∃ t, e.expiresAt = some t ∧ t ≤ now + ttlMs

def RedisOk (apiKeyId : String) (now : ℤ) (r : Redis) : Prop := Expiring now concTtlMs (r (.conc apiKeyId))

/-- The key after `incrExpiring`. -/
def bumped (now ttlMs : ℤ) (entry : Option RedisEntry) : Option RedisEntry :=
  if (incrBy now 1 entry).value = 1 then pexpire now ttlMs (some (incrBy now 1 entry))
  else some (incrBy now 1 entry)

section
variable {now now' ttlMs : ℤ} {auth : Auth} {r : Redis} {entry : Option RedisEntry} {apiKeyId : String}

theorem incrExpiring_count (key : RedisKey) :
    (incrExpiring now ttlMs key r).1 = readCounter now (r key) + 1 := incrBy_value 1

theorem incrExpiring_key (key : RedisKey) :
    (incrExpiring now ttlMs key r).2 = Function.update r key (bumped now ttlMs (r key)) := rfl

theorem incrExpiring_conc (bucket : ℤ) :
    (incrExpiring now ttlMs (.rl apiKeyId bucket) r).2 (.conc apiKeyId) = r (.conc apiKeyId) := by
  rw [incrExpiring_key, Function.update_of_ne]
  exact fun h => by cases h

theorem redis_release : redisLimiter.release now apiKeyId r =
    Function.update r (.conc apiKeyId) (some (incrBy now (-1) (r (.conc apiKeyId)))) := rfl

/-- The increment creates the key, or starts its time again from 0, or keeps it. -/
theorem bumped_cases (now ttlMs : ℤ) (entry : Option RedisEntry) :
    (bumped now ttlMs entry = some ⟨1, some (now + ttlMs)⟩ ∧ readCounter now entry = 0) ∨
      ∃ e, entry = some e ∧ e.live now = true ∧ e.value ≠ 0 ∧
        bumped now ttlMs entry = some { e with value := e.value + 1 } := by
  have hvalue : (incrBy now 1 entry).value = readCounter now entry + 1 := incrBy_value 1
  by_cases hone : (incrBy now 1 entry).value = 1
  · left
    have hentry : readEntry now (some (incrBy now 1 entry)) = some (incrBy now 1 entry) :=
      readEntry_live (live_incrBy 1)
    rw [bumped, if_pos hone, pexpire, hentry, Option.map_some, hone]
    exact ⟨rfl, by omega⟩
  · right
    rw [bumped, if_neg hone]
    cases entry with
    | none => exact absurd rfl hone
    | some e =>
      by_cases hlive : e.live now = true
      · rw [readCounter_live hlive] at hvalue
        refine ⟨e, rfl, hlive, by omega, ?_⟩
        rw [incrBy, readEntry_live hlive]
      · rw [readCounter_expired hlive] at hvalue
        exact absurd hvalue hone

/-- What a later reading of the key sees. -/
theorem readCounter_bumped (now now' ttlMs : ℤ) (entry : Option RedisEntry) :
    (readCounter now entry = 0 ∧
        readCounter now' (bumped now ttlMs entry) = if now' < now + ttlMs then 1 else 0) ∨
      ∃ e, entry = some e ∧ e.value ≠ 0 ∧ readCounter now entry = e.value ∧
        readCounter now' entry = (if e.live now' = true then e.value else 0) ∧
        readCounter now' (bumped now ttlMs entry) = if e.live now' = true then e.value + 1 else 0 := by
  rcases bumped_cases now ttlMs entry with ⟨hnew, hzero⟩ | ⟨e, rfl, hlive, hvalue, hkept⟩
  · refine .inl ⟨hzero, ?_⟩
    rw [hnew]
    by_cases hlasts : now' < now + ttlMs
    · have hnewLive : RedisEntry.live now' ⟨1, some (now + ttlMs)⟩ = true := decide_eq_true hlasts
      rw [readCounter_live hnewLive, if_pos hlasts]
    · have hexpired : ¬ RedisEntry.live now' ⟨1, some (now + ttlMs)⟩ = true :=
        fun h => hlasts (of_decide_eq_true h)
      rw [readCounter_expired hexpired, if_neg hlasts]
  · refine .inr ⟨e, rfl, hvalue, readCounter_live hlive, ?_⟩
    rw [hkept]
    by_cases hlater : e.live now' = true
    · have hlater' : RedisEntry.live now' { e with value := e.value + 1 } = true := hlater
      rw [readCounter_live hlater', readCounter_live hlater, if_pos hlater, if_pos hlater]
      exact ⟨rfl, rfl⟩
    · have hlater' : ¬ RedisEntry.live now' { e with value := e.value + 1 } = true := hlater
      rw [readCounter_expired hlater', readCounter_expired hlater, if_neg hlater, if_neg hlater]
      exact ⟨rfl, rfl⟩

theorem readCounter_bumped_le (hok : Expiring now ttlMs entry) :
    readCounter now' (bumped now ttlMs entry) ≤
      max 0 (readCounter now' entry) + if now' < now + ttlMs then 1 else 0 := by
  rcases readCounter_bumped now now' ttlMs entry with ⟨-, hnew⟩ | ⟨e, rfl, hvalue, -, hbefore, hafter⟩
  · rw [hnew]
    split <;> omega
  · rw [hbefore, hafter]
    by_cases hlater : e.live now' = true
    · rw [if_pos hlater, if_pos hlater]
      by_cases hpos : 0 < e.value
      · obtain ⟨t, ht, hbound⟩ := hok e rfl hpos
        have hlasts : now' < t := by
          simpa [RedisEntry.live, ht] using hlater
        rw [if_pos (hlasts.trans_le hbound)]
        omega
      · split <;> omega
    · rw [if_neg hlater, if_neg hlater]
      split <;> omega

/-- Within the window of a bucket its count rises by at most one, expiry or not. -/
theorem readCounter_bumped_succ_le :
    readCounter now' (bumped now ttlMs entry) ≤ max 0 (readCounter now' entry) + 1 := by
  rcases readCounter_bumped now now' ttlMs entry with ⟨-, hnew⟩ | ⟨e, rfl, -, -, hbefore, hafter⟩
  · rw [hnew]
    split <;> omega
  · rw [hbefore, hafter]
    split <;> omega

theorem readCounter_bumped_eq (hlasts : now' < now + ttlMs)
    (hsame : readCounter now entry = readCounter now' entry) :
    readCounter now' (bumped now ttlMs entry) = readCounter now' entry + 1 := by
  rcases readCounter_bumped now now' ttlMs entry with ⟨hzero, hnew⟩ | ⟨e, rfl, hvalue, hnow, hbefore, hafter⟩
  · rw [hnew, if_pos hlasts, ← hsame, hzero]
    rfl
  · have hlater : e.live now' = true := by
      by_contra hexpired
      rw [hnow, hbefore, if_neg hexpired] at hsame
      exact hvalue hsame
    rw [hbefore, hafter, if_pos hlater, if_pos hlater]

theorem expiring_bumped (hok : Expiring now ttlMs entry) : Expiring now ttlMs (bumped now ttlMs entry) := by
  intro e' he' hpos
  rcases bumped_cases now ttlMs entry with ⟨hnew, -⟩ | ⟨e, rfl, -, hvalue, hkept⟩
  · obtain rfl := Option.some.inj (hnew.symm.trans he')
    exact ⟨_, rfl, le_rfl⟩
  · obtain rfl := Option.some.inj (hkept.symm.trans he')
    dsimp only at hpos
    exact hok e rfl (by omega)

theorem readCounter_decr_le :
    readCounter now' (some (incrBy now (-1) entry)) ≤ max 0 (readCounter now' entry - 1) := by
  unfold incrBy
  cases hentry : readEntry now entry with
  | none =>
    have hlive : RedisEntry.live now' ⟨-1, none⟩ = true := rfl
    rw [readCounter_live hlive]
    dsimp only
    omega
  | some e =>
    have hsome : entry = some e := (Option.filter_eq_some_iff.mp hentry).1
    subst hsome
    by_cases hlater : e.live now' = true
    · have hlater' : RedisEntry.live now' { e with value := e.value + -1 } = true := hlater
      rw [readCounter_live hlater', readCounter_live hlater]
      exact le_max_right _ _
    · have hlater' : ¬ RedisEntry.live now' { e with value := e.value + -1 } = true := hlater
      rw [readCounter_expired hlater']
      exact le_max_left _ _

theorem expiring_decr (hok : Expiring now ttlMs entry) :
    Expiring now ttlMs (some (incrBy now (-1) entry)) := by
  intro e' he' hpos
  obtain rfl := Option.some.inj he'
  unfold incrBy at hpos ⊢
  cases hentry : readEntry now entry with
  | none =>
    rw [hentry] at hpos
    exact absurd hpos (by decide)
  | some e =>
    rw [hentry] at hpos
    have hsome : entry = some e := (Option.filter_eq_some_iff.mp hentry).1
    dsimp only at hpos
    exact hok e hsome (by omega)

theorem redisLimit_admitted_iff : (redisLimit now auth r).1 = .admitted ↔
    redisRate auth.apiKeyId now r < auth.rpm ∧ redisConc auth.apiKeyId now r < auth.maxConcurrent := by
  unfold redisLimit
  dsimp only
  rw [incrExpiring_count, incrExpiring_count, incrExpiring_conc]
  by_cases hrate : auth.rpm < readCounter now (r (.rl auth.apiKeyId (now / windowMs))) + 1
  · rw [if_pos hrate]
    refine iff_of_false (fun h => by cases h) fun h => ?_
    have hroom := h.1
    unfold redisRate at hroom
    omega
  · rw [if_neg hrate]
    by_cases hmax : auth.maxConcurrent < readCounter now (r (.conc auth.apiKeyId)) + 1
    · rw [if_pos hmax]
      refine iff_of_false (fun h => by cases h) fun h => ?_
      have hroom := h.2
      unfold redisConc at hroom
      omega
    · rw [if_neg hmax]
      refine iff_of_true rfl ⟨?_, ?_⟩
      · unfold redisRate
        omega
      · unfold redisConc
        omega

/-- An admitted request has counted on its bucket and on the key of its slots. -/
theorem redisLimit_admitted (h : (redisLimit now auth r).1 = .admitted) :
    (redisLimit now auth r).2 =
      Function.update
        (Function.update r (.rl auth.apiKeyId (now / windowMs))
          (bumped now windowMs (r (.rl auth.apiKeyId (now / windowMs)))))
        (.conc auth.apiKeyId) (bumped now concTtlMs (r (.conc auth.apiKeyId))) := by
  unfold redisLimit at h ⊢
  dsimp only at h ⊢
  split at h
  · cases h
  · rename_i hrate
    split at h
    · cases h
    · rename_i hmax
      rw [if_neg hrate, if_neg hmax, incrExpiring_key (.conc _), incrExpiring_conc, incrExpiring_key]

theorem redisConc_admitted (h : (redisLimit now auth r).1 = .admitted) (now' : ℤ) :
    redisConc auth.apiKeyId now' (redisLimit now auth r).2 =
      readCounter now' (bumped now concTtlMs (r (.conc auth.apiKeyId))) := by
  rw [redisLimit_admitted h, redisConc, Function.update_self]

theorem redisRate_admitted (h : (redisLimit now auth r).1 = .admitted) (now' : ℤ) :
    redisRate auth.apiKeyId now' (redisLimit now auth r).2 =
      if now / windowMs = now' / windowMs then
        readCounter now' (bumped now windowMs (r (.rl auth.apiKeyId (now' / windowMs))))
      else redisRate auth.apiKeyId now' r := by
  rw [redisLimit_admitted h, redisRate, Function.update_of_ne (fun h => by cases h)]
  by_cases hbucket : now / windowMs = now' / windowMs
  · rw [if_pos hbucket, hbucket, Function.update_self]
  · rw [if_neg hbucket, Function.update_of_ne (fun h => hbucket (RedisKey.rl.inj h).2.symm)]
    rfl

theorem redis_metered (auth : Auth) : Metered redisLimiter redisWindows auth (RedisOk auth.apiKeyId)
    (redisRate auth.apiKeyId) (redisConc auth.apiKeyId) where
  rateMeter :=
    { init := fun _ => rfl
      enter_le := by
        intro now now' r _ _ hadmitted
        simp only [redisLimiter, redisWindows, redisRate_admitted hadmitted, decide_eq_true_eq]
        split
        · exact readCounter_bumped_succ_le
        · omega
      enter_eq := by
        intro now now' r _ hle hadmitted hcounts hsame
        have hbucket : now / windowMs = now' / windowMs := of_decide_eq_true hcounts
        have hlasts : now' < now + windowMs := by
          unfold windowMs at hbucket ⊢
          omega
        simp only [redisLimiter, redisRate_admitted hadmitted, if_pos hbucket]
        refine readCounter_bumped_eq hlasts ?_
        unfold redisRate at hsame
        rw [hbucket] at hsame
        exact hsame
      counts_between := by
        intro now now' start hcounts hbefore hle
        have hbucket : start / windowMs = now' / windowMs := of_decide_eq_true hcounts
        refine decide_eq_true ?_
        unfold windowMs at hbucket ⊢
        omega }
  concMeter :=
    { init := fun _ => rfl
      enter_le := by
        intro now now' r hok _ hadmitted
        simp only [redisLimiter, redisWindows, redisConc_admitted hadmitted, decide_eq_true_eq]
        exact readCounter_bumped_le hok
      enter_eq := by
        intro now now' r _ _ hadmitted hcounts hsame
        simp only [redisLimiter, redisConc_admitted hadmitted]
        exact readCounter_bumped_eq (of_decide_eq_true hcounts) hsame
      counts_between := by
        intro now now' start hcounts _ hle
        have hlasts : now' < start + concTtlMs := of_decide_eq_true hcounts
        exact decide_eq_true (hle.trans_lt hlasts) }
  ok_init _ e he := by cases he
  ok_later := by
    intro now now' r hok hle e he hpos
    obtain ⟨t, ht, hbound⟩ := hok e he hpos
    exact ⟨t, ht, hbound.trans (by omega)⟩
  ok_limit := by
    intro now r hok hadmitted
    unfold RedisOk
    rw [redisLimiter, redisLimit_admitted hadmitted, Function.update_self]
    exact expiring_bumped hok
  ok_release := by
    intro now r hok
    unfold RedisOk
    rw [redis_release, Function.update_self]
    exact expiring_decr hok
  rate_release now now' r := by
    rw [redisRate, redis_release, Function.update_of_ne (fun h => by cases h)]
    rfl
  conc_release := by
    intro now now' r _ _
    rw [redisConc, redis_release, Function.update_self]
    exact readCounter_decr_le
  admitted_iff _ _ := redisLimit_admitted_iff
  not_bypassed now r h := by
    simp only [redisLimiter, redisLimit] at h
    split at h
    · cases h
    · split at h <;> cases h

end

/-! ## The headers -/

/-- Headers that agree on the orchestration header make no difference; headers at
large make none exactly to the sequences that stay within the limits. -/
theorem headers_matter_iff (auth : Auth) (now : ℤ) (events : List Event) :
    (∀ headers headers', (∀ i, isOrchestrationChild (headers i) = isOrchestrationChild (headers' i)) →
        admissions memoryLimiter auth headers now events = admissions memoryLimiter auth headers' now events ∧
          admissions redisLimiter auth headers now events =
            admissions redisLimiter auth headers' now events) ∧
      ((∀ headers headers', admissions memoryLimiter auth headers now events =
        admissions memoryLimiter auth headers' now events) ↔ Roomy memoryWindows auth ⟨now, []⟩ events) ∧
      ((∀ headers headers', admissions redisLimiter auth headers now events =
        admissions redisLimiter auth headers' now events) ↔ Roomy redisWindows auth ⟨now, []⟩ events) :=
  ⟨fun _ _ h => ⟨admissions_congr h, admissions_congr h⟩, same_iff_roomy (memory_metered auth) now events,
    same_iff_roomy (redis_metered auth) now events⟩

/-- Three requests with at most two at a time pass whatever their headers. -/
theorem headers_matter_iff_sample :
    let events : List Event := [.request 0, .request 0, .finish 5 0, .request 5]
    (∀ headers headers', admissions memoryLimiter ⟨"a", 60, 2⟩ headers 0 events =
        admissions memoryLimiter ⟨"a", 60, 2⟩ headers' 0 events) ∧
      ∀ headers headers', admissions redisLimiter ⟨"a", 60, 2⟩ headers 0 events =
        admissions redisLimiter ⟨"a", 60, 2⟩ headers' 0 events :=
  ⟨(headers_matter_iff ⟨"a", 60, 2⟩ 0 _).2.1.mpr (by decide),
    (headers_matter_iff ⟨"a", 60, 2⟩ 0 _).2.2.mpr (by decide)⟩

/-- One slot, and two requests at once: the second is admitted if it says that it
belongs to a voice analysis. -/
theorem header_lets_through :
    (¬ ∀ headers headers', admissions memoryLimiter ⟨"a", 60, 1⟩ headers 0 [.request 0, .request 0] =
        admissions memoryLimiter ⟨"a", 60, 1⟩ headers' 0 [.request 0, .request 0]) ∧
      ¬ ∀ headers headers', admissions redisLimiter ⟨"a", 60, 1⟩ headers 0 [.request 0, .request 0] =
        admissions redisLimiter ⟨"a", 60, 1⟩ headers' 0 [.request 0, .request 0] := by
  constructor
  · intro h
    exact absurd (h (fun _ => childHeaders false) fun _ => childHeaders true) (by decide +kernel)
  · intro h
    exact absurd (h (fun _ => childHeaders false) fun _ => childHeaders true) (by decide +kernel)

end ModelForge.LimiterHeaders
