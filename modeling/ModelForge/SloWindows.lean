import ModelForge.ChatHandler
import ModelForge.JsDate
import ModelForge.KeyedMap

set_option autoImplicit false

/-!
# SLO windows and service credits

The rollup job reads the requests of the window that contains the present time,
writes the window's figures for each customer, and makes a service credit where
the window is breached and has none yet.
-/
namespace ModelForge.SloWindows

open ChatHandler (InferenceStatus)

/-! ## Doubles -/

def roundHalfEven (q : ℚ) : ℤ :=
  let below := ⌊q⌋
  if q - below < 1 / 2 then below
  else if 1 / 2 < q - below then below + 1
  else if below % 2 = 0 then below
  else below + 1

/-- The double nearest to a number, of two the one with an even significand. The
figures here are far from the ends of the exponent's range. -/
def toDouble (q : ℚ) : ℚ :=
  if q = 0 then 0
  else
    let estimate : ℤ := (Nat.log2 q.num.natAbs : ℤ) - Nat.log2 q.den
    let exponent := if (2 : ℚ) ^ estimate ≤ |q| then estimate else estimate - 1
    let unit : ℚ := 2 ^ (exponent - 52)
    roundHalfEven (q / unit) * unit

-- twenty times 0.95 is nineteen for doubles, although the double 0.95 is below it
example : toDouble (95 / 100) < 95 / 100 ∧ toDouble (toDouble (95 / 100) * 20) = 19 := by
  decide +kernel

/-! ## The window's status -/

inductive SloWindowStatus where
  | healthy
  | atRisk
  | breached
  deriving DecidableEq, Repr

structure SloTargets where
  availabilityPct : ℚ
  latencyP95Ms : ℚ
  atRiskAvailabilityPct : Option ℚ
  atRiskLatencyP95Ms : Option ℚ

def computeWindowStatus (availabilityPct p95 : ℚ) (targets : SloTargets) :
    Except String SloWindowStatus :=
  if availabilityPct < 0 ∨ 100 < availabilityPct ∨ p95 < 0 then
    .error "SLO measurements must be finite and non-negative"
  else if targets.availabilityPct < 0 ∨ 100 < targets.availabilityPct ∨ targets.latencyP95Ms < 0 then
    .error "SLO targets are outside their valid range"
  else if availabilityPct < targets.availabilityPct ∨ targets.latencyP95Ms < p95 then .ok .breached
  else
    let atRiskAvailability := targets.atRiskAvailabilityPct.getD
      (toDouble (targets.availabilityPct + toDouble (toDouble (100 - targets.availabilityPct) / 2)))
    let atRiskLatency :=
      targets.atRiskLatencyP95Ms.getD (toDouble (targets.latencyP95Ms * toDouble (9 / 10)))
    if availabilityPct < atRiskAvailability ∨ atRiskLatency < p95 then .ok .atRisk
    else .ok .healthy

structure CreditCalculationInput where
  breached : Bool
  creditMicros : ℤ
  severity : Option ℤ

def computeCreditMicros (input : CreditCalculationInput) : Except String ℤ :=
  if input.creditMicros < 0 then .error "configuredCreditMicros must be non-negative"
  else if input.breached then .ok (input.creditMicros * max 1 (min 3 (input.severity.getD 1)))
  else .ok 0

/-! ## The tables -/

/-- A window of an hour, in minutes. -/
theorem hour_pos : 0 < 60 := by decide

structure SloDefinition where
  id : String
  name : String
  latencyP95Ms : ℤ
  availabilityPct : ℚ
  windowMinutes : ℕ
  creditMicros : ℤ
  enabled : Bool
  pos : 0 < windowMinutes
  deriving DecidableEq

structure Request where
  customerId : String
  status : InferenceStatus
  latencyMs : ℤ
  createdAt : ℤ
  deriving DecidableEq

/-- What identifies a row of the window table. -/
structure WindowKey where
  definitionId : String
  customerId : Option String
  windowStart : ℤ
  deriving DecidableEq

structure SloWindow where
  windowEnd : ℤ
  requestCount : ℕ
  successCount : ℕ
  breachCount : ℕ
  p95LatencyMs : ℤ
  availabilityPct : ℚ
  status : SloWindowStatus
  deriving DecidableEq

structure ServiceCredit where
  customerId : String
  amountMicros : ℤ
  reason : String
  deriving DecidableEq

/-- The requests are held by their id. -/
structure SloDb where
  requests : KeyedMap String Request
  windows : KeyedMap WindowKey SloWindow
  credits : List ServiceCredit

/-! ## The rollup -/

def percentile (values : List ℤ) (p : ℚ) : ℤ :=
  if values = [] then 0
  else
    let sorted := values.insertionSort (· ≤ ·)
    sorted.getD (min (sorted.length - 1) ⌊toDouble (toDouble (p / 100) * sorted.length)⌋₊) 0

def succeeded (rows : List Request) : List Request := rows.filter fun row => row.status = .succeeded

def availabilityPct (rows : List Request) : ℚ :=
  if rows.length = 0 then 100 else toDouble (toDouble ((succeeded rows).length / rows.length) * 100)

def p95LatencyMs (rows : List Request) : ℤ := percentile ((succeeded rows).map Request.latencyMs) 95

/-- The status of the requests of a bucket under the definition's targets. -/
def bucketStatus (definition : SloDefinition) (rows : List Request) : Except String SloWindowStatus :=
  computeWindowStatus (availabilityPct rows) (p95LatencyMs rows)
    ⟨definition.availabilityPct, definition.latencyP95Ms, none, none⟩

def windowMs (definition : SloDefinition) : ℤ := definition.windowMinutes * 60000

/-- The start of the window that contains a time. The quotient of two times is a
double, whose floor is the exact one for every time that a `Date` can hold. -/
def windowStartAt (definition : SloDefinition) (now : ℤ) : ℤ :=
  now / windowMs definition * windowMs definition

def InWindow (definition : SloDefinition) (windowStart : ℤ) (request : Request) : Prop :=
  windowStart ≤ request.createdAt ∧ request.createdAt < windowStart + windowMs definition

instance (definition : SloDefinition) (windowStart : ℤ) (request : Request) :
    Decidable (InWindow definition windowStart request) :=
  inferInstanceAs (Decidable (_ ∧ _))

/-- All requests under `null`, and each customer's own. -/
def byCustomer (requests : List Request) : KeyedMap (Option String) (List Request) :=
  requests.foldl
    (fun buckets request =>
      buckets.set (some request.customerId)
        ((buckets.get? (some request.customerId)).getD [] ++ [request]))
    ((KeyedMap.empty : KeyedMap (Option String) (List Request)).set none requests)

def creditReason (definition : SloDefinition) (windowStart : ℤ) : String :=
  "SLO " ++ definition.name ++ " breached for window " ++ JsDate.toISOString windowStart

/-- A credit for a breached window, unless the customer has it already. What it
throws is in the second part. -/
def issueCredit (definition : SloDefinition) (windowStart : ℤ) (customerId : String) (db : SloDb) :
    SloDb × Option String :=
  match computeCreditMicros ⟨true, definition.creditMicros, none⟩ with
  | .error error => (db, some error)
  | .ok amount =>
    let reason := creditReason definition windowStart
    let existing := db.credits.find? fun credit => credit.customerId = customerId ∧ credit.reason = reason
    if existing = none ∧ 0 < amount then
      ({ db with credits := db.credits ++ [⟨customerId, amount, reason⟩] }, none)
    else (db, none)

/-- One bucket: its window row is written, then a credit where it is breached. An
empty customer id counts as none. -/
def rollupBucket (definition : SloDefinition) (windowStart : ℤ) (customerId : Option String)
    (rows : List Request) (db : SloDb) : SloDb × Option String :=
  match bucketStatus definition rows with
  | .error error => (db, some error)
  | .ok status =>
    let owner := customerId.filter fun id => id ≠ ""
    let payload : SloWindow :=
      { windowEnd := windowStart + windowMs definition
        requestCount := rows.length
        successCount := (succeeded rows).length
        breachCount := if status = .breached then 1 else 0
        p95LatencyMs := p95LatencyMs rows
        availabilityPct := availabilityPct rows
        status := status }
    let db := { db with windows := db.windows.set ⟨definition.id, owner, windowStart⟩ payload }
    match owner with
    | some customerId =>
      if status = .breached then issueCredit definition windowStart customerId db else (db, none)
    | none => (db, none)

/-- The buckets in their order, up to one that throws. -/
def rollupBuckets (definition : SloDefinition) (windowStart : ℤ) :
    List (Option String × List Request) → SloDb → SloDb × Option String
  | [], db => (db, none)
  | (customerId, rows) :: rest, db =>
    match rollupBucket definition windowStart customerId rows db with
    | (db, some error) => (db, some error)
    | (db, none) => rollupBuckets definition windowStart rest db

/-! ## The system -/

/-- A job at work: its time, and the definitions that it has still to do. -/
structure Job where
  now : ℤ
  pending : List SloDefinition
  deriving DecidableEq

/-- The worker runs one job at a time. -/
structure System where
  db : SloDb
  job : Option Job

/-- `listed` is the order in which the database lists the rows of a query. -/
inductive Event where
  | create (id customerId : String) (createdAt : ℤ)
  | update (id : String) (status : InferenceStatus) (latencyMs : Option ℤ)
  | start (now : ℤ) (listed : List SloDefinition)
  | rollup (listed : List Request)

def System.initial : System := ⟨⟨KeyedMap.empty, KeyedMap.empty, []⟩, none⟩

def setRequests (s : System) (requests : KeyedMap String Request) : System :=
  { s with db := { s.db with requests := requests } }

def nextJob (now : ℤ) (pending : List SloDefinition) (error : Option String) : Option Job :=
  if pending = [] ∨ error ≠ none then none else some ⟨now, pending⟩

/-- One event: requests are created and brought forward, a job starts, or it does
its next definition. -/
def step (definitions : List SloDefinition) (s : System) : Event → Option System
  | .create id customerId createdAt =>
    if s.db.requests.get? id = none then
      some (setRequests s (s.db.requests.set id ⟨customerId, .queued, 0, createdAt⟩))
    else none
  | .update id status latencyMs =>
    some (setRequests s (s.db.requests.update id fun request =>
      { request with status := status, latencyMs := latencyMs.getD request.latencyMs }))
  | .start now listed =>
    if s.job.isNone ∧ listed.Perm (definitions.filter SloDefinition.enabled) then
      some { s with job := nextJob now listed none }
    else none
  | .rollup listed =>
    match s.job with
    | some ⟨now, definition :: pending⟩ =>
      let windowStart := windowStartAt definition now
      if listed.Perm (s.db.requests.values.filter fun r => InWindow definition windowStart r) then
        let (db, error) := rollupBuckets definition windowStart (byCustomer listed).entries s.db
        some ⟨db, nextJob now pending error⟩
      else none
    | _ => none

end ModelForge.SloWindows
