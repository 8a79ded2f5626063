import ModelForge.LedgerPeriods
import ModelForge.RateLimit
import ModelForge.ChatHandler
import ModelForge.Participants

set_option autoImplicit false

/-!
# The cached quota

One customer's ledger and the figure that Redis caches of it: the runs of
`quotaMiddleware` that read and refill it, `finalizeAndMeter` that adds to it,
`persistUsageEvent` that writes it, and the rollover that does not.
-/
namespace ModelForge.QuotaCache
open RunInvariant LedgerStore LedgerOperations LedgerAccounting InvoiceScan RateLimit ChatHandler
open Participants

structure QuotaAuth where
  billingMode : BillingMode
  monthlyTokenQuota : ℤ
  deriving DecidableEq

/-- How a run of the middleware ends. -/
inductive Outcome where
  | next
  | unauthenticated
  | exceeded
  | unavailable
  deriving DecidableEq

def Outcome.response : Outcome → Option Rejection
  | .next => none
  | .unauthenticated => some ⟨401, "authentication_error", "Unauthenticated", none⟩
  | .exceeded => some ⟨429, "quota_exceeded", "Monthly token quota exhausted", none⟩
  | .unavailable => some ⟨503, "server_error", "Quota service unavailable", none⟩

/-- What a run of `quotaMiddleware` awaits; at `judge` it has its figure. -/
inductive CheckPc where
  | get
  | findLedger
  | set (used : ℤ)
  | judge (used : ℤ)
  | ended (outcome : Outcome)
  deriving DecidableEq

structure Check where
  monthlyTokenQuota : ℤ
  pc : CheckPc
  deriving DecidableEq

/-- What `finalizeAndMeter` awaits; the last two are `bumpQuotaCache`. -/
inductive MeterPc where
  | commit
  | enqueue
  | keyExists
  | incrby
  | ended
  deriving DecidableEq

structure Meter where
  input : CommitQuotaInput
  pc : MeterPc

inductive DeliveryPc where
  | persist
  | findLedger
  | set (used : ℤ)
  | ended
  deriving DecidableEq

/-- A run of `persistUsageEvent`. -/
structure Delivery where
  job : UsageJob
  pc : DeliveryPc

/-- `cache` is the key `quota:<customerId>`. -/
structure World where
  ledger : LedgerDb
  cache : Option RedisEntry
  now : ℤ
  checks : List Check
  meters : List Meter
  deliveries : List Delivery

namespace World

def checkAt (w : World) (k : ℕ) (pc : CheckPc) : World :=
  { w with checks := w.checks.modify k fun run => { run with pc := pc } }

def meterAt (w : World) (k : ℕ) (pc : MeterPc) : World :=
  { w with meters := w.meters.modify k fun run => { run with pc := pc } }

def deliveryAt (w : World) (k : ℕ) (pc : DeliveryPc) : World :=
  { w with deliveries := w.deliveries.modify k fun run => { run with pc := pc } }

def cached (w : World) : Option RedisEntry := readEntry w.now w.cache

/-- `SET key value EX seconds` -/
def setCache (w : World) (value seconds : ℤ) : World :=
  { w with cache := some ⟨value, some (w.now + seconds * 1000)⟩ }

end World

variable (c : String)

/-- `quotaMiddleware` up to its first await. -/
def quotaMiddleware : Option QuotaAuth → Check
  | none => ⟨0, .ended .unauthenticated⟩
  | some auth =>
    ⟨auth.monthlyTokenQuota,
      if auth.billingMode = .usage ∨ auth.monthlyTokenQuota = 0 then .ended .next else .get⟩

def resumeCheck (w : World) (k : ℕ) (run : Check) : Option World :=
  match run.pc with
  | .get =>
    match w.cached with
    | some entry => some (w.checkAt k (.judge entry.value))
    | none => some (w.checkAt k .findLedger)
  | .findLedger => some (w.checkAt k (.set (w.ledger.tokensUsed c)))
  | .set used => some ((w.setCache used 60).checkAt k (.judge used))
  | .judge used =>
    some (w.checkAt k (.ended (if run.monthlyTokenQuota ≤ used then .exceeded else .next)))
  | .ended _ => none

/-- Any of its three queries may throw. -/
def throwCheck (w : World) (k : ℕ) (run : Check) : Option World :=
  match run.pc with
  | .get | .findLedger | .set _ => some (w.checkAt k (.ended .unavailable))
  | .judge _ | .ended _ => none

def resumeMeter (w : World) (k : ℕ) (run : Meter) (now : ℤ) (outage : Outage) : Option World :=
  match run.pc with
  | .commit =>
    let result := Operation.apply (.commit now run.input outage) w.ledger
    some { w.meterAt k (if result.1.isSome then .ended else .enqueue) with ledger := result.2 }
  | .enqueue => some (w.meterAt k .keyExists)
  | .keyExists => some (w.meterAt k (if w.cached.isSome then .incrby else .ended))
  | .incrby =>
    some { w.meterAt k .ended with cache := some (incrBy w.now run.input.actualTokens w.cache) }
  | .ended => none

def resumeDelivery (w : World) (k : ℕ) (run : Delivery) (now : ℤ) (faults : Faults) : Option World :=
  match run.pc with
  | .persist =>
    let result := Operation.apply (.persist now run.job faults) w.ledger
    some { w.deliveryAt k (if result.1.isSome then .ended else .findLedger) with ledger := result.2 }
  | .findLedger =>
    match w.ledger.quotaLedger c with
    | some ledger => some (w.deliveryAt k (.set ledger.tokensUsed))
    | none => some (w.deliveryAt k .ended)
  | .set used => some ((w.setCache used 300).deliveryAt k .ended)
  | .ended => none

/-- `ledger` is any other operation on the quota tables, of any customer. -/
inductive Event where
  | tick (now : ℤ)
  | request (auth : Option QuotaAuth)
  | check (k : ℕ)
  | checkThrows (k : ℕ)
  | ledger (op : Operation)
  | finalizeAndMeter (reserved : Bool) (input : CommitQuotaInput)
  | meter (k : ℕ) (now : ℤ) (outage : Outage)
  | persistUsageEvent (job : UsageJob)
  | delivery (k : ℕ) (now : ℤ) (faults : Faults)
  | rollover (nextStart nextEnd : ℤ)

/-- Token counts are not negative. -/
def step (w : World) : Event → Option World
  | .tick now => if w.now ≤ now then some { w with now := now } else none
  | .request auth => some { w with checks := w.checks ++ [quotaMiddleware auth] }
  | .check k => w.checks[k]?.bind (resumeCheck c w k)
  | .checkThrows k => w.checks[k]?.bind (throwCheck w k)
  | .ledger op => if 0 ≤ LedgerPeriods.Operation.charged op then some { w with ledger := (op.apply w.ledger).2 } else none
  | .finalizeAndMeter reserved input =>
    if input.customerId = c ∧ 0 ≤ input.actualTokens then
      some { w with meters := w.meters ++ [⟨input, if reserved then .commit else .enqueue⟩] }
    else none
  | .meter k now outage => w.meters[k]?.bind fun run => resumeMeter w k run now outage
  | .persistUsageEvent job =>
    if job.customerId = c ∧ 0 ≤ job.tokens then
      some { w with deliveries := w.deliveries ++ [⟨job, .persist⟩] }
    else none
  | .delivery k now faults => w.deliveries[k]?.bind fun run => resumeDelivery c w k run now faults
  | .rollover nextStart nextEnd => some { w with ledger := resetLedger w.ledger c nextStart nextEnd }

def initial (db : LedgerDb) (now : ℤ) : World := ⟨db, none, now, [], [], []⟩

/-! ## The law -/

/-- The step rejects a request whose quota this is. -/
def Rejects (w w' : World) (quota : ℤ) : Prop :=
  ∃ (k : ℕ) (run run' : Check), w.checks[k]? = some run ∧ run.pc ≠ .ended .exceeded ∧
    w'.checks[k]? = some run' ∧ run'.pc = .ended .exceeded ∧ run.monthlyTokenQuota = quota

def NoFalseRejection (w w' : World) : Prop :=
  ∀ quota, Rejects w w' quota → quota ≤ w'.ledger.tokensUsed c

/-- A figure goes into the cache only while the ledger is at least as high, tokens
are added to it only if the ledger stays at least as high, and the ledger is
reset only when nothing positive is cached and no run is about to reject. -/
def NotOverstated (w : World) : Event → Prop
  | .check k =>
    match w.checks[k]?.map Check.pc with
    | some (.set used) => used ≤ w.ledger.tokensUsed c
    | _ => True
  | .delivery k _ _ =>
    match w.deliveries[k]?.map Delivery.pc with
    | some (.set used) => used ≤ w.ledger.tokensUsed c
    | _ => True
  | .meter k _ _ =>
    match w.meters[k]? with
    | some ⟨input, .incrby⟩ => readCounter w.now w.cache + input.actualTokens ≤ w.ledger.tokensUsed c
    | _ => True
  | .rollover _ _ =>
    readCounter w.now w.cache ≤ 0 ∧ ∀ run ∈ w.checks,
      match run.pc with
      | .judge used => used < run.monthlyTokenQuota
      | _ => True
  | _ => True

instance (w : World) (e : Event) : Decidable (NotOverstated c w e) := by
  unfold NotOverstated
  cases e with
  | check k => dsimp only; split <;> infer_instance
  | delivery k now faults => dsimp only; split <;> infer_instance
  | meter k now outage => dsimp only; split <;> infer_instance
  | rollover nextStart nextEnd =>
    have hjudged : ∀ run : Check, Decidable (match run.pc with
        | .judge used => used < run.monthlyTokenQuota
        | _ => True) := fun run => by split <;> infer_instance
    exact inferInstanceAs (Decidable (_ ∧ _))
  | _ => exact inferInstanceAs (Decidable True)

/-! ## The cached figure and the ledger -/

variable {c : String} {w w' : World}

/-- Nothing cached is above the ledger, and no run is about to reject wrongly. -/
structure Inv (c : String) (w : World) : Prop where
  cached : ∀ entry, w.cached = some entry → entry.value ≤ w.ledger.tokensUsed c
  judged : ∀ run ∈ w.checks, ∀ used, run.pc = .judge used → run.monthlyTokenQuota ≤ used →
    run.monthlyTokenQuota ≤ w.ledger.tokensUsed c

theorem inv_initial (db : LedgerDb) (now : ℤ) : Inv c (initial db now) where
  cached entry h := by cases h
  judged run h := by cases h

/-- A step that raises the usage, and neither the cache nor the runs, keeps them in order. -/
theorem Inv.charge (h : Inv c w) (hcache : w'.cache = w.cache) (hnow : w'.now = w.now)
    (hchecks : w'.checks = w.checks) (hused : w.ledger.tokensUsed c ≤ w'.ledger.tokensUsed c) :
    Inv c w' where
  cached entry he := by
    unfold World.cached at he
    rw [hcache, hnow] at he
    exact (h.cached entry he).trans hused
  judged run hrun used hpc hreject := (h.judged run (hchecks ▸ hrun) used hpc hreject).trans hused

theorem mem_checkAt {k : ℕ} {pc : CheckPc} {run : Check} (h : run ∈ (w.checkAt k pc).checks) :
    run ∈ w.checks ∨ ∃ old, w.checks[k]? = some old ∧ run = { old with pc := pc } :=
  (mem_of_modify h).symm

/-- A run of the middleware moves on; a figure that it takes along is right for it. -/
theorem Inv.moveCheck (h : Inv c w) {k : ℕ} {run : Check} (hrun : w.checks[k]? = some run)
    {pc : CheckPc} (hpc : ∀ used, pc = .judge used → run.monthlyTokenQuota ≤ used →
      run.monthlyTokenQuota ≤ w.ledger.tokensUsed c) : Inv c (w.checkAt k pc) where
  cached := h.cached
  judged other hother used hjudge hreject := by
    rcases mem_checkAt hother with hold | ⟨old, hold, rfl⟩
    · exact h.judged other hold used hjudge hreject
    · obtain rfl := Option.some.inj (hold.symm.trans hrun)
      exact hpc used hjudge hreject

theorem Inv.setCache (h : Inv c w) {value : ℤ} (seconds : ℤ) (hvalue : value ≤ w.ledger.tokensUsed c) :
    Inv c (w.setCache value seconds) where
  cached entry he := by
    unfold World.cached readEntry at he
    rw [← Option.some.inj (Option.filter_eq_some_iff.mp he).1]
    exact hvalue
  judged := h.judged

theorem cached_tick {now : ℤ} (hnow : w.now ≤ now) {entry : RedisEntry}
    (h : readEntry now w.cache = some entry) : w.cached = some entry := by
  obtain ⟨hentry, hlive⟩ := Option.filter_eq_some_iff.mp h
  exact Option.filter_eq_some_iff.mpr ⟨hentry, live_mono hnow hlive⟩

theorem resetLedger_used (db : LedgerDb) (nextStart nextEnd : ℤ) :
    (resetLedger db c nextStart nextEnd).tokensUsed c = 0 := by
  unfold resetLedger LedgerDb.tokensUsed
  cases db.quotaLedger c <;> simp

/-- The token counts of the runs under way are not negative. -/
structure Counted (w : World) : Prop where
  meters : ∀ run ∈ w.meters, 0 ≤ run.input.actualTokens
  deliveries : ∀ run ∈ w.deliveries, 0 ≤ run.job.tokens

theorem counted_initial (db : LedgerDb) (now : ℤ) : Counted (initial db now) where
  meters run h := by cases h
  deliveries run h := by cases h

theorem mem_meterAt {k : ℕ} {pc : MeterPc} {run : Meter} (h : run ∈ (w.meterAt k pc).meters) :
    ∃ old ∈ w.meters, run.input = old.input := by
  rcases mem_of_modify h with ⟨old, hold, rfl⟩ | hold
  · exact ⟨old, List.mem_of_getElem? hold, rfl⟩
  · exact ⟨run, hold, rfl⟩

theorem mem_deliveryAt {k : ℕ} {pc : DeliveryPc} {run : Delivery}
    (h : run ∈ (w.deliveryAt k pc).deliveries) : ∃ old ∈ w.deliveries, run.job = old.job := by
  rcases mem_of_modify h with ⟨old, hold, rfl⟩ | hold
  · exact ⟨old, List.mem_of_getElem? hold, rfl⟩
  · exact ⟨run, hold, rfl⟩

theorem Counted.meterAt (h : Counted w) (k : ℕ) (pc : MeterPc) : Counted (w.meterAt k pc) where
  meters run hrun := by
    obtain ⟨old, hold, hinput⟩ := mem_meterAt hrun
    exact hinput ▸ h.meters old hold
  deliveries := h.deliveries

theorem Counted.deliveryAt (h : Counted w) (k : ℕ) (pc : DeliveryPc) : Counted (w.deliveryAt k pc) where
  meters := h.meters
  deliveries run hrun := by
    obtain ⟨old, hold, hjob⟩ := mem_deliveryAt hrun
    exact hjob ▸ h.deliveries old hold

/-! ## What a step can do -/

/-- What a run of the middleware does when an await of it returns. -/
inductive CheckMove (c : String) (w : World) (k : ℕ) (run : Check) : World → Prop
  | hit (entry : RedisEntry) (hcached : w.cached = some entry) :
      CheckMove c w k run (w.checkAt k (.judge entry.value))
  | refilled (used : ℤ) (hpc : run.pc = .set used) :
      CheckMove c w k run ((w.setCache used 60).checkAt k (.judge used))
  | judged (used : ℤ) (hpc : run.pc = .judge used) :
      CheckMove c w k run
        (w.checkAt k (.ended (if run.monthlyTokenQuota ≤ used then .exceeded else .next)))
  | moved (pc : CheckPc) (hjudge : ∀ used, pc ≠ .judge used) (hended : pc ≠ .ended .exceeded) :
      CheckMove c w k run (w.checkAt k pc)

/-- What a step can do. Most steps leave the runs of the middleware and the cache
as they are, and the ledger no lower. -/
inductive Move (c : String) (w : World) : Event → World → Prop
  | tick (now : ℤ) (hnow : w.now ≤ now) : Move c w (.tick now) { w with now := now }
  | request (auth : Option QuotaAuth) :
      Move c w (.request auth) { w with checks := w.checks ++ [quotaMiddleware auth] }
  | check {k : ℕ} {run : Check} {w' : World} (hrun : w.checks[k]? = some run)
      (hmove : CheckMove c w k run w') : Move c w (.check k) w'
  | throws (k : ℕ) (run : Check) (hrun : w.checks[k]? = some run) :
      Move c w (.checkThrows k) (w.checkAt k (.ended .unavailable))
  | charge (e : Event) (w' : World) (hcache : w'.cache = w.cache) (hnow : w'.now = w.now)
      (hchecks : w'.checks = w.checks) (hused : w.ledger.tokensUsed c ≤ w'.ledger.tokensUsed c) :
      Move c w e w'
  | bump (k : ℕ) (now : ℤ) (outage : Outage) (input : CommitQuotaInput)
      (hrun : w.meters[k]? = some ⟨input, .incrby⟩) :
      Move c w (.meter k now outage)
        { w.meterAt k .ended with cache := some (incrBy w.now input.actualTokens w.cache) }
  | store (k : ℕ) (now : ℤ) (faults : Faults) (run : Delivery) (used : ℤ)
      (hrun : w.deliveries[k]? = some run) (hpc : run.pc = .set used) :
      Move c w (.delivery k now faults) ((w.setCache used 300).deliveryAt k .ended)
  | rollover (nextStart nextEnd : ℤ) :
      Move c w (.rollover nextStart nextEnd)
        { w with ledger := resetLedger w.ledger c nextStart nextEnd }

theorem resumeCheck_move {k : ℕ} {run : Check} (hmove : resumeCheck c w k run = some w') :
    CheckMove c w k run w' := by
  unfold resumeCheck at hmove
  cases hpc : run.pc with
  | get =>
    simp only [hpc] at hmove
    split at hmove
    · rename_i entry hentry
      obtain rfl := Option.some.inj hmove
      exact .hit entry hentry
    · obtain rfl := Option.some.inj hmove
      exact .moved _ nofun nofun
  | findLedger =>
    simp only [hpc, Option.some.injEq] at hmove
    exact hmove ▸ .moved _ nofun nofun
  | set used =>
    simp only [hpc, Option.some.injEq] at hmove
    exact hmove ▸ .refilled used hpc
  | judge used =>
    simp only [hpc, Option.some.injEq] at hmove
    exact hmove ▸ .judged used hpc
  | ended outcome => simp [hpc] at hmove

theorem resumeMeter_move {k : ℕ} {run : Meter} {now : ℤ} {outage : Outage}
    (hrun : w.meters[k]? = some run) (hcharged : 0 ≤ run.input.actualTokens)
    (hmove : resumeMeter w k run now outage = some w') :
    Move c w (.meter k now outage) w' ∧
      ∃ pc, w'.meters = (w.meterAt k pc).meters ∧ w'.deliveries = w.deliveries := by
  obtain ⟨input, pc⟩ := run
  unfold resumeMeter at hmove
  cases pc with
  | commit =>
    obtain rfl := Option.some.inj hmove
    have hused := LedgerPeriods.apply_used (.commit now input outage) w.ledger hcharged c
    exact ⟨.charge _ _ rfl rfl rfl hused, _, rfl, rfl⟩
  | enqueue =>
    obtain rfl := Option.some.inj hmove
    exact ⟨.charge _ _ rfl rfl rfl le_rfl, _, rfl, rfl⟩
  | keyExists =>
    obtain rfl := Option.some.inj hmove
    exact ⟨.charge _ _ rfl rfl rfl le_rfl, _, rfl, rfl⟩
  | incrby =>
    obtain rfl := Option.some.inj hmove
    exact ⟨.bump k now outage input hrun, _, rfl, rfl⟩
  | ended => cases hmove

theorem resumeDelivery_move {k : ℕ} {run : Delivery} {now : ℤ} {faults : Faults}
    (hrun : w.deliveries[k]? = some run) (hcharged : 0 ≤ run.job.tokens)
    (hmove : resumeDelivery c w k run now faults = some w') :
    Move c w (.delivery k now faults) w' ∧
      ∃ pc, w'.meters = w.meters ∧ w'.deliveries = (w.deliveryAt k pc).deliveries := by
  unfold resumeDelivery at hmove
  cases hpc : run.pc with
  | persist =>
    simp only [hpc, Option.some.injEq] at hmove
    subst hmove
    have hused := LedgerPeriods.apply_used (.persist now run.job faults) w.ledger hcharged c
    exact ⟨.charge _ _ rfl rfl rfl hused, _, rfl, rfl⟩
  | findLedger =>
    simp only [hpc] at hmove
    split at hmove <;> cases hmove <;> exact ⟨.charge _ _ rfl rfl rfl le_rfl, _, rfl, rfl⟩
  | set used =>
    simp only [hpc, Option.some.injEq] at hmove
    subst hmove
    exact ⟨.store k now faults run used hrun hpc, _, rfl, rfl⟩
  | ended => simp [hpc] at hmove

theorem CheckMove.counted {k : ℕ} {run : Check} (hmove : CheckMove c w k run w') (h : Counted w) :
    Counted w' := by
  cases hmove <;> exact ⟨h.meters, h.deliveries⟩

theorem step_moves {e : Event} (h : Counted w) (hstep : step c w e = some w') :
    Move c w e w' ∧ Counted w' := by
  cases e with
  | tick now =>
    simp only [step, Option.ite_none_right_eq_some, Option.some.injEq] at hstep
    obtain ⟨hnow, rfl⟩ := hstep
    exact ⟨.tick now hnow, h.meters, h.deliveries⟩
  | request auth =>
    obtain rfl := Option.some.inj hstep
    exact ⟨.request auth, h.meters, h.deliveries⟩
  | check k =>
    obtain ⟨run, hrun, hresume⟩ := Option.bind_eq_some_iff.mp hstep
    have hmove := resumeCheck_move hresume
    exact ⟨.check hrun hmove, hmove.counted h⟩
  | checkThrows k =>
    obtain ⟨run, hrun, hthrow⟩ := Option.bind_eq_some_iff.mp hstep
    unfold throwCheck at hthrow
    split at hthrow <;> cases hthrow <;> exact ⟨.throws k run hrun, h.meters, h.deliveries⟩
  | ledger op =>
    simp only [step, Option.ite_none_right_eq_some, Option.some.injEq] at hstep
    obtain ⟨hcharged, rfl⟩ := hstep
    have hused := LedgerPeriods.apply_used op w.ledger hcharged c
    exact ⟨.charge _ _ rfl rfl rfl hused, h.meters, h.deliveries⟩
  | finalizeAndMeter reserved input =>
    simp only [step, Option.ite_none_right_eq_some, Option.some.injEq] at hstep
    obtain ⟨hinput, rfl⟩ := hstep
    refine ⟨.charge _ _ rfl rfl rfl le_rfl, fun run hrun => ?_, h.deliveries⟩
    rcases List.mem_append.mp hrun with hold | hnew
    · exact h.meters run hold
    · exact List.mem_singleton.mp hnew ▸ hinput.2
  | meter k now outage =>
    obtain ⟨run, hrun, hresume⟩ := Option.bind_eq_some_iff.mp hstep
    obtain ⟨hmove, pc, hmeters, hdeliveries⟩ :=
      resumeMeter_move hrun (h.meters run (List.mem_of_getElem? hrun)) hresume
    exact ⟨hmove, hmeters ▸ (h.meterAt k pc).meters, hdeliveries ▸ h.deliveries⟩
  | persistUsageEvent job =>
    simp only [step, Option.ite_none_right_eq_some, Option.some.injEq] at hstep
    obtain ⟨hjob, rfl⟩ := hstep
    refine ⟨.charge _ _ rfl rfl rfl le_rfl, h.meters, fun run hrun => ?_⟩
    rcases List.mem_append.mp hrun with hold | hnew
    · exact h.deliveries run hold
    · exact List.mem_singleton.mp hnew ▸ hjob.2
  | delivery k now faults =>
    obtain ⟨run, hrun, hresume⟩ := Option.bind_eq_some_iff.mp hstep
    obtain ⟨hmove, pc, hmeters, hdeliveries⟩ :=
      resumeDelivery_move hrun (h.deliveries run (List.mem_of_getElem? hrun)) hresume
    exact ⟨hmove, hmeters ▸ h.meters, hdeliveries ▸ (h.deliveryAt k pc).deliveries⟩
  | rollover nextStart nextEnd =>
    obtain rfl := Option.some.inj hstep
    exact ⟨.rollover nextStart nextEnd, h.meters, h.deliveries⟩

/-! ## The invariant -/

theorem CheckMove.keeps {k : ℕ} {run : Check} (hmove : CheckMove c w k run w') (h : Inv c w)
    (hrun : w.checks[k]? = some run) (hguard : NotOverstated c w (.check k)) : Inv c w' := by
  cases hmove with
  | hit entry hcached =>
    refine h.moveCheck hrun fun used hused hreject => ?_
    rw [← CheckPc.judge.inj hused] at hreject
    exact hreject.trans (h.cached entry hcached)
  | refilled used hpc =>
    have hle : used ≤ w.ledger.tokensUsed c := by
      simpa only [NotOverstated, hrun, Option.map_some, hpc] using hguard
    refine (h.setCache 60 hle).moveCheck hrun fun used' hused hreject => ?_
    rw [← CheckPc.judge.inj hused] at hreject
    exact hreject.trans hle
  | judged used hpc => exact h.moveCheck hrun fun used' hused => by cases hused
  | moved pc hjudge hended => exact h.moveCheck hrun fun used hused => absurd hused (hjudge used)

theorem Move.keeps {e : Event} (hmove : Move c w e w') (h : Inv c w) (hguard : NotOverstated c w e) :
    Inv c w' := by
  cases hmove with
  | tick now hnow => exact ⟨fun entry he => h.cached entry (cached_tick hnow he), h.judged⟩
  | request auth =>
    refine ⟨h.cached, fun run hrun used hpc => ?_⟩
    rcases List.mem_append.mp hrun with hold | hnew
    · exact h.judged run hold used hpc
    · obtain rfl := List.mem_singleton.mp hnew
      cases auth with
      | none => cases hpc
      | some auth =>
        simp only [quotaMiddleware] at hpc
        split at hpc <;> cases hpc
  | check hrun hmove => exact hmove.keeps h hrun hguard
  | throws k run hrun => exact h.moveCheck hrun fun used hused => by cases hused
  | charge _ _ hcache hnow hchecks hused => exact h.charge hcache hnow hchecks hused
  | bump k now outage input hrun =>
    refine ⟨fun entry he => ?_, h.judged⟩
    unfold World.cached readEntry at he
    rw [← Option.some.inj (Option.filter_eq_some_iff.mp he).1, incrBy_value]
    have hroom : readCounter w.now w.cache + input.actualTokens ≤ w.ledger.tokensUsed c := by
      simpa only [NotOverstated, hrun] using hguard
    exact hroom
  | store k now faults run used hrun hpc =>
    have hle : used ≤ w.ledger.tokensUsed c := by
      simpa only [NotOverstated, hrun, Option.map_some, hpc] using hguard
    exact (h.setCache 300 hle).charge rfl rfl rfl le_rfl
  | rollover nextStart nextEnd =>
    obtain ⟨hcached, hjudge⟩ := hguard
    refine ⟨fun entry he => ?_, fun run hrun used hpc hreject => ?_⟩
    · have hzero : readCounter w.now w.cache = entry.value := by
        unfold readCounter
        rw [show readEntry w.now w.cache = some entry from he]
        rfl
      exact (resetLedger_used w.ledger nextStart nextEnd).symm ▸ hzero ▸ hcached
    · have hless := hjudge run hrun
      rw [hpc] at hless
      exact absurd hreject (not_le.mpr hless)

/-! ## Rejections -/

theorem not_rejects (hchecks : w'.checks = w.checks) (quota : ℤ) : ¬ Rejects w w' quota := by
  rintro ⟨k, run, run', hrun, hpc, hrun', hpc', -⟩
  rw [hchecks] at hrun'
  obtain rfl := Option.some.inj (hrun.symm.trans hrun')
  exact hpc hpc'

theorem rejects_checkAt {k : ℕ} {pc : CheckPc} {quota : ℤ}
    (hchecks : w'.checks = (w.checkAt k pc).checks) (h : Rejects w w' quota) :
    pc = .ended .exceeded ∧ ∃ run, w.checks[k]? = some run ∧ run.monthlyTokenQuota = quota := by
  obtain ⟨i, run, run', hrun, hpc, hrun', hpc', hquota⟩ := h
  rw [hchecks, World.checkAt, List.getElem?_modify, hrun] at hrun'
  have hmoved := Option.some.inj hrun'
  split at hmoved
  · rename_i hk
    exact ⟨(congrArg Check.pc hmoved).trans hpc', run, hk ▸ hrun, hquota⟩
  · have hsame : run = run' := hmoved
    exact absurd (hsame ▸ hpc') hpc

/-- A step that rejects is a run's judgement of the figure it has. -/
theorem Move.rejects {e : Event} {quota : ℤ} (hmove : Move c w e w') (h : Rejects w w' quota) :
    ∃ run used, run ∈ w.checks ∧ run.pc = .judge used ∧ run.monthlyTokenQuota ≤ used ∧
      run.monthlyTokenQuota = quota ∧ w'.ledger = w.ledger := by
  cases hmove with
  | check hrun hmove =>
    cases hmove with
    | judged used hpc =>
      obtain ⟨hended, run', hrun', hquota⟩ := rejects_checkAt rfl h
      obtain rfl := Option.some.inj (hrun.symm.trans hrun')
      refine ⟨_, used, List.mem_of_getElem? hrun, hpc, ?_, hquota, rfl⟩
      by_contra hless
      rw [if_neg hless] at hended
      cases hended
    | moved pc _ hended => exact absurd (rejects_checkAt rfl h).1 hended
    | hit | refilled => cases (rejects_checkAt rfl h).1
  | throws => cases (rejects_checkAt rfl h).1
  | request auth =>
    obtain ⟨k, run, run', hrun, hpc, hrun', hpc', -⟩ := h
    obtain rfl := Option.some.inj ((get_append hrun _).symm.trans hrun')
    exact absurd hpc' hpc
  | charge _ _ _ _ hchecks => exact absurd h (not_rejects hchecks quota)
  | tick | bump | store | rollover => exact absurd h (not_rejects rfl quota)

/-- In every run whose steps never overstate the cached figure, a request is
rejected only while the ledger is at its quota. -/
theorem no_false_rejection (c : String) (db : LedgerDb) (now : ℤ) (events : List Event)
    (guarded : EveryStep (step c) (fun w e _ => NotOverstated c w e) (initial db now) events) :
    EveryStep (step c) (fun w _ w' => NoFalseRejection c w w') (initial db now) events := by
  refine everyStep_guarded (fun w => Inv c w ∧ Counted w) _ _ ?_
    ⟨inv_initial db now, counted_initial db now⟩ guarded
  rintro w e w' ⟨h, hcounted⟩ hstep hguard
  obtain ⟨hmove, hcounted'⟩ := step_moves hcounted hstep
  refine ⟨fun quota hrejects => ?_, hmove.keeps h hguard, hcounted'⟩
  obtain ⟨run, used, hrun, hpc, hreject, rfl, hledger⟩ := hmove.rejects hrejects
  rw [hledger]
  exact h.judged run hrun used hpc hreject

/-- A cached figure above the ledger rejects the next request that has it as its
quota. -/
theorem overstated_rejects {entry : RedisEntry} (hcached : w.cached = some entry) (hvalue : entry.value ≠ 0)
    (hover : w.ledger.tokensUsed c < entry.value) :
    ¬ EveryStep (step c) (fun w _ w' => NoFalseRejection c w w') w
      [.request (some ⟨.subscription, entry.value⟩), .check w.checks.length, .check w.checks.length] := by
  intro h
  have hnew : quotaMiddleware (some ⟨.subscription, entry.value⟩) = ⟨entry.value, .get⟩ := by
    simp [quotaMiddleware, hvalue]
  have hadmitted : step c w (.request (some ⟨.subscription, entry.value⟩)) =
      some { w with checks := w.checks ++ [⟨entry.value, .get⟩] } := by
    rw [step, hnew]
  obtain ⟨-, hget⟩ := h _ hadmitted
  have hlast : (w.checks ++ [(⟨entry.value, .get⟩ : Check)])[w.checks.length]? =
      some ⟨entry.value, .get⟩ := List.getElem?_concat_length
  obtain ⟨-, hjudge⟩ := hget _ (by
    simp only [step, hlast, Option.bind_some, resumeCheck]
    rw [show World.cached { w with checks := w.checks ++ [⟨entry.value, .get⟩] } = some entry from
      hcached])
  have hread : ((w.checks ++ [(⟨entry.value, .get⟩ : Check)]).modify w.checks.length fun run =>
      { run with pc := .judge entry.value })[w.checks.length]? =
        some ⟨entry.value, .judge entry.value⟩ := by
    rw [List.getElem?_modify, hlast]
    simp
  obtain ⟨hright, -⟩ := hjudge _ (by
    simp only [step, World.checkAt, hread, Option.bind_some, resumeCheck, le_refl, if_true]
    rfl)
  have hended : (((w.checks ++ [(⟨entry.value, .get⟩ : Check)]).modify w.checks.length fun run =>
      { run with pc := .judge entry.value }).modify w.checks.length fun run =>
        { run with pc := .ended .exceeded })[w.checks.length]? =
          some ⟨entry.value, .ended .exceeded⟩ := by
    rw [List.getElem?_modify, hread]
    simp
  have hquota := hright entry.value ⟨w.checks.length, _, _, hread, by simp, hended, rfl, rfl⟩
  exact absurd hquota (not_le.mpr hover)

def sampleDb : LedgerDb :=
  ⟨fun id => if id = "a" then some ⟨0, 100, 0, 0⟩ else none, [], []⟩

/-- The figure is refilled after the commit and before the bump, which adds the
five tokens once more. -/
def refillBeforeBump : List Event :=
  [.finalizeAndMeter true ⟨"a", "r", 5, "r:usage:commit"⟩, .meter 0 0 noOutage,
    .request (some ⟨.subscription, 8⟩), .check 0, .check 0, .check 0, .check 0,
    .meter 0 0 noOutage, .meter 0 0 noOutage, .meter 0 0 noOutage,
    .request (some ⟨.subscription, 8⟩), .check 1]

/-- With five of eight tokens used, the next request is rejected. -/
theorem refill_before_bump_rejects :
    ¬ EveryStep (step "a") (fun w _ w' => NoFalseRejection "a" w w') (initial sampleDb 0)
      (refillBeforeBump ++ [.check 1]) := by
  intro h
  have hbefore : (run (step "a") (initial sampleDb 0) refillBeforeBump).map
      (fun w => (w.checks, w.ledger.tokensUsed "a")) =
        some ([⟨8, .ended .next⟩, ⟨8, .judge 10⟩], 5) := by decide +kernel
  obtain ⟨w, hw, hpair⟩ := Option.map_eq_some_iff.mp hbefore
  obtain ⟨hchecks, hused⟩ := Prod.mk.inj hpair
  have hlast : step "a" w (.check 1) = some (w.checkAt 1 (.ended .exceeded)) := by
    simp [step, hchecks, resumeCheck]
  have hright := (everyStep_iff_cut _ _ _).mp h refillBeforeBump (.check 1) [] rfl w _ hw hlast
  have hquota := hright 8 ⟨1, ⟨8, .judge 10⟩, ⟨8, .ended .exceeded⟩, by rw [hchecks]; rfl, by simp,
    by rw [World.checkAt, hchecks]; rfl, rfl, rfl⟩
  have hfive : (w.checkAt 1 (.ended .exceeded)).ledger.tokensUsed "a" = 5 := hused
  omega

/-- The tokens are committed, persisted and only then cached; the request that
finds all eight used is rejected. -/
theorem persisted_quota_rejects :
    EveryStep (step "a") (fun w _ w' => NoFalseRejection "a" w w') (initial sampleDb 0)
      [.finalizeAndMeter true ⟨"a", "r", 8, "r:usage:commit"⟩, .meter 0 0 noOutage,
        .meter 0 0 noOutage, .meter 0 0 noOutage,
        .persistUsageEvent ⟨"a", "key", none, "model", 3, 5, 0, "r", "r:usage", none⟩,
        .delivery 0 0 fun _ => none, .delivery 0 0 fun _ => none, .delivery 0 0 fun _ => none,
        .request (some ⟨.subscription, 8⟩), .check 0, .check 0, .tick 400000, .rollover 100 200,
        .request (some ⟨.subscription, 8⟩), .check 1] :=
  no_false_rejection "a" sampleDb 0 _ (by decide +kernel)

end ModelForge.QuotaCache
