import ModelForge.ReservationHolds

set_option autoImplicit false

/-!
# The chat handler, its usage jobs and the usage workers

Any number of chat requests run side by side, each a sequence of effects that
may throw before taking effect; a throw enters the catch block. `plan` fixes
what a request brings along and what its generation turns out to produce.
-/
namespace ModelForge.ChatHandler
open LedgerStore LedgerOperations ReservationHolds

inductive InferenceStatus where
  | queued
  | running
  | succeeded
  | failed
  | canceled
  | rejected
  deriving DecidableEq, Repr

inductive BillingMode where
  | subscription
  | usage
  deriving DecidableEq, Repr

structure InferenceRequest where
  customerId : String
  apiKeyId : String
  requestedModelSlug : String
  stream : Bool
  status : InferenceStatus
  promptTokens : ℤ
  completionTokens : ℤ
  costMicros : ℤ
  queueMs : ℤ
  coldStartMs : ℤ
  ttftMs : Option ℤ
  generationMs : ℤ
  latencyMs : ℤ
  finishReason : Option String
  errorCode : Option String
  errorMessage : Option String
  pricingVersionId : Option String
  resolvedModelId : Option String
  resolvedModelSlug : Option String
  policyVersionId : Option String
  policyDecisionHash : Option String
  nodeId : Option String
  startedAt : Option ℤ
  completedAt : Option ℤ
  deriving DecidableEq

/-- The row of the handler's only attempt, number 1. -/
structure InferenceAttempt where
  modelSlug : String
  status : InferenceStatus
  promptTokens : ℤ
  completionTokens : ℤ
  costMicros : ℤ
  queueMs : ℤ
  coldStartMs : ℤ
  ttftMs : Option ℤ
  generationMs : ℤ
  errorCode : Option String
  errorMessage : Option String
  startedAt : ℤ
  completedAt : Option ℤ

/-- An absent field leaves its column as it is; the error columns are always set. -/
structure FinalizeInferenceRequestFields where
  status : InferenceStatus
  promptTokens : Option ℤ := none
  completionTokens : Option ℤ := none
  queueMs : Option ℤ := none
  coldStartMs : Option ℤ := none
  ttftMs : Option (Option ℤ) := none
  generationMs : Option ℤ := none
  latencyMs : Option ℤ := none
  finishReason : Option (Option String) := none
  errorCode : Option String := none
  errorMessage : Option String := none
  pricingVersionId : Option (Option String) := none
  costMicros : Option ℤ := none
  resolvedModelId : Option (Option String) := none
  resolvedModelSlug : Option (Option String) := none
  policyVersionId : Option (Option String) := none
  policyDecisionHash : Option (Option String) := none
  nodeId : Option (Option String) := none

/-- The first update of `finalizeInferenceRequest`. -/
def finalizeRequestRow (fields : FinalizeInferenceRequestFields) (completedAt : ℤ)
    (row : InferenceRequest) : InferenceRequest :=
  { row with
    status := fields.status
    promptTokens := fields.promptTokens.getD row.promptTokens
    completionTokens := fields.completionTokens.getD row.completionTokens
    queueMs := fields.queueMs.getD row.queueMs
    coldStartMs := fields.coldStartMs.getD row.coldStartMs
    ttftMs := fields.ttftMs.getD row.ttftMs
    generationMs := fields.generationMs.getD row.generationMs
    latencyMs := fields.latencyMs.getD row.latencyMs
    finishReason := fields.finishReason.getD row.finishReason
    errorCode := fields.errorCode
    errorMessage := fields.errorMessage
    pricingVersionId := fields.pricingVersionId.getD row.pricingVersionId
    costMicros := fields.costMicros.getD row.costMicros
    resolvedModelId := fields.resolvedModelId.getD row.resolvedModelId
    resolvedModelSlug := fields.resolvedModelSlug.getD row.resolvedModelSlug
    policyVersionId := fields.policyVersionId.getD row.policyVersionId
    policyDecisionHash := fields.policyDecisionHash.getD row.policyDecisionHash
    nodeId := fields.nodeId.getD row.nodeId
    completedAt := some completedAt }

/-- Its second update. -/
def finalizeAttemptRow (fields : FinalizeInferenceRequestFields) (completedAt : ℤ)
    (row : InferenceAttempt) : InferenceAttempt :=
  { row with
    status := fields.status
    promptTokens := fields.promptTokens.getD row.promptTokens
    completionTokens := fields.completionTokens.getD row.completionTokens
    queueMs := fields.queueMs.getD row.queueMs
    coldStartMs := fields.coldStartMs.getD row.coldStartMs
    ttftMs := fields.ttftMs.getD row.ttftMs
    generationMs := fields.generationMs.getD row.generationMs
    costMicros := fields.costMicros.getD row.costMicros
    errorCode := fields.errorCode
    errorMessage := fields.errorMessage
    completedAt := some completedAt }

structure ReceiptPayload where
  version : ℤ
  requestId : String
  customerId : String
  apiKeyId : String
  requestedModel : String
  resolvedModel : Option String
  promptTokens : ℤ
  completionTokens : ℤ
  costMicros : ℤ
  finishReason : Option String
  status : InferenceStatus
  usageEventId : Option String
  issuedAt : ℤ

structure UsageReceipt where
  requestId : String
  usageEventId : Option String
  payload : ReceiptPayload
  issuedAt : ℤ

/-- The payload that `issueUsageReceipt` signs for a request row it was given. -/
def receiptPayload (id : String) (row : InferenceRequest) (usageEventId : Option String)
    (issuedAt : ℤ) : ReceiptPayload :=
  { version := 1
    requestId := id
    customerId := row.customerId
    apiKeyId := row.apiKeyId
    requestedModel := row.requestedModelSlug
    resolvedModel := row.resolvedModelSlug
    promptTokens := row.promptTokens
    completionTokens := row.completionTokens
    costMicros := row.costMicros
    finishReason := row.finishReason
    status := row.status
    usageEventId := usageEventId
    issuedAt := issuedAt }

/-- One chat request: its key and plan, its size, and what generation produces. -/
structure ChatPlan where
  customerId : String
  apiKeyId : String
  billingMode : BillingMode
  monthlyTokenQuota : ℤ
  periodStart : ℤ
  periodEnd : ℤ
  model : String
  stream : Bool
  promptCharacters : ℕ
  maxTokens : ℕ
  knowledgeBases : ℕ
  requestId : String
  hostedId : String
  modelSlug : String
  pricingVersionId : String
  policyVersionId : Option String
  policyDecisionHash : Option String
  promptTokens : ℕ
  completionTokens : ℕ
  costMicros : ℤ
  latencyMs : ℤ
  ttftMs : Option ℤ
  generationMs : ℤ
  queueMs : ℤ
  finishReason : String
  errorMessage : String

namespace ChatPlan
variable (p : ChatPlan)

def estimatedTokens : ℤ :=
  max 64 (((p.promptCharacters + 3) / 4 : ℕ) : ℤ) + p.maxTokens +
    if p.knowledgeBases > 0 then 1024 else 0

theorem estimatedTokens_pos : 0 < p.estimatedTokens := by
  unfold estimatedTokens
  split <;> omega

def needsReservation : Bool := p.billingMode ≠ .usage && p.monthlyTokenQuota > 0

def tokens : ℤ := p.promptTokens + p.completionTokens

def reserveInput (id : String) : ReserveQuotaInput :=
  { customerId := p.customerId
    requestId := id
    estimatedTokens := p.estimatedTokens
    idempotencyKey := handlerKeys.key .reserve id
    limit := p.monthlyTokenQuota
    periodStart := some p.periodStart
    periodEnd := some p.periodEnd }

def commitInput (id : String) : CommitQuotaInput :=
  { customerId := p.customerId
    requestId := id
    actualTokens := p.tokens
    idempotencyKey := handlerKeys.key .commit id }

def releaseInput (id : String) (reservedTokens : ℤ) : ReleaseQuotaInput :=
  { customerId := p.customerId
    requestId := id
    reservedTokens := reservedTokens
    idempotencyKey := handlerKeys.key .release id }

def usageJob (id : String) : UsageJob :=
  { customerId := p.customerId
    apiKeyId := p.apiKeyId
    hostedModelId := some p.hostedId
    modelSlug := p.modelSlug
    promptTokens := p.promptTokens
    completionTokens := p.completionTokens
    latencyMs := p.latencyMs
    requestId := p.requestId
    idempotencyKey := id ++ ":usage"
    inferenceRequestId := some id }

/-- `createInferenceRequest`. -/
def newRow : InferenceRequest :=
  { customerId := p.customerId
    apiKeyId := p.apiKeyId
    requestedModelSlug := p.model
    stream := p.stream
    status := .queued
    promptTokens := 0
    completionTokens := 0
    costMicros := 0
    queueMs := 0
    coldStartMs := 0
    ttftMs := none
    generationMs := 0
    latencyMs := 0
    finishReason := none
    errorCode := none
    errorMessage := none
    pricingVersionId := none
    resolvedModelId := none
    resolvedModelSlug := none
    policyVersionId := none
    policyDecisionHash := none
    nodeId := none
    startedAt := none
    completedAt := none }

/-- The attempt that `startAttempt` creates. -/
def newAttempt (now : ℤ) : InferenceAttempt :=
  { modelSlug := p.modelSlug
    status := .running
    promptTokens := 0
    completionTokens := 0
    costMicros := 0
    queueMs := 0
    coldStartMs := 0
    ttftMs := none
    generationMs := 0
    errorCode := none
    errorMessage := none
    startedAt := now
    completedAt := none }

/-- The fields with which `finalizeAndMeter` finalizes. -/
def succeededFields : FinalizeInferenceRequestFields where
  status := .succeeded
  promptTokens := some (p.promptTokens : ℤ)
  completionTokens := some (p.completionTokens : ℤ)
  latencyMs := some p.latencyMs
  ttftMs := some p.ttftMs
  generationMs := some p.generationMs
  queueMs := some p.queueMs
  finishReason := some (some p.finishReason)
  pricingVersionId := some (some p.pricingVersionId)
  costMicros := some p.costMicros
  resolvedModelId := some (some p.hostedId)
  resolvedModelSlug := some (some p.modelSlug)
  policyVersionId := p.policyVersionId.map some
  policyDecisionHash := p.policyDecisionHash.map some

/-- The fields with which the catch block finalizes; before routing, the
resolved slug is still the requested one. -/
def failedFields (rejected routed : Bool) : FinalizeInferenceRequestFields where
  status := if rejected then .rejected else .failed
  errorCode := some (if rejected then "quota_exceeded" else "inference_error")
  errorMessage := some (if rejected then "Monthly token quota exceeded" else p.errorMessage)
  resolvedModelSlug := some (some (if routed then p.modelSlug else p.model))

end ChatPlan

/-- Where a handler stands: the effect it performs next. -/
inductive Pc where
  | reserve
  | route
  | dispatch
  | generate
  | finalizeRow
  | finalizeAttempt
  | commit
  | enqueue
  | persistRead
  | persistIssue (row : InferenceRequest)
  | bump
  | audit
  | respond
  | done
  | catchRelease
  | catchFinalizeRow
  | catchFinalizeAttempt
  | failed
  deriving DecidableEq

def Pc.Finished (pc : Pc) : Prop := pc = .done ∨ pc = .failed

instance (pc : Pc) : Decidable pc.Finished := inferInstanceAs (Decidable (_ ∨ _))

/-- `routed` and `rejected` are the handler's own variables (`resolvedSlug` set,
the class of the caught error); `releaseFailed` records that its release failed. -/
structure Handler where
  pc : Pc
  reservedTokens : ℤ
  routed : Bool
  rejected : Bool
  releaseFailed : Bool

inductive DeliveryPc where
  | persist
  | readRow
  | issue (row : InferenceRequest)
  | finished

/-- One delivery of an accepted usage job to a worker. -/
structure Delivery where
  job : UsageJob
  pc : DeliveryPc

/-- A successful commit, or a successful persist transaction, of an execution. -/
inductive Metering where
  | committed (id : String)
  | persisted (id : String)
  deriving DecidableEq, Repr

structure World where
  ledger : LedgerDb
  requests : String → Option InferenceRequest
  attempts : String → Option InferenceAttempt
  receipts : List UsageReceipt
  jobs : List UsageJob
  deliveries : List Delivery
  handlers : String → Option Handler
  history : List Metering

def World.setHandler (w : World) (id : String) (h : Handler) : World :=
  { w with handlers := Function.update w.handlers id (some h) }

@[simp] theorem World.setHandler_handlers (w : World) (id : String) (h : Handler) :
    (w.setHandler id h).handlers = Function.update w.handlers id (some h) := rfl

def World.setRequest (w : World) (id : String) (row : InferenceRequest) : World :=
  { w with requests := Function.update w.requests id (some row) }

def World.setAttempt (w : World) (id : String) (row : InferenceAttempt) : World :=
  { w with attempts := Function.update w.attempts id (some row) }

/-- The reads after the persist transaction: a receipt is issued from the row
read here, if both the row and the usage event are there. -/
def readForReceipt (w : World) (job : UsageJob) : Option InferenceRequest :=
  match job.inferenceRequestId with
  | none => none
  | some id => if (w.ledger.findEvent job.idempotencyKey).isSome then w.requests id else none

/-- `issueUsageReceipt` from a row read before: at most one receipt a request. -/
def issueReceipt (w : World) (job : UsageJob) (row : InferenceRequest) (now : ℤ) : World :=
  match job.inferenceRequestId with
  | none => w
  | some id =>
    if ∃ r ∈ w.receipts, r.requestId = id then w
    else { w with receipts := w.receipts ++
      [⟨id, some job.idempotencyKey, receiptPayload id row (some job.idempotencyKey) now, now⟩] }

/-- A throw inside the try block enters the catch block. -/
def throwFrom (w : World) (id : String) (h : Handler) (rejected : Bool) : World :=
  w.setHandler id { h with pc := .catchRelease, rejected := rejected }

inductive Event where
  | arrive (id : String)
  | handler (id : String) (now : ℤ) (ok : Bool) (outage : Outage)
  | deliver (n : ℕ)
  | worker (k : ℕ) (now : ℤ) (ok : Bool) (faults : Faults)

/-- The effect at `pc`. With `ok = false` the call it awaits throws before it
takes effect; a ledger call may also fail by its own outage. -/
def handlerStep (plan : String → ChatPlan) (redis : Bool) (w : World) (id : String) (h : Handler)
    (now : ℤ) (ok : Bool) (outage : Outage) : Option World :=
  let p := plan id
  match h.pc with
  | .reserve =>
    if ok = false then some (throwFrom w id h false)
    else if p.needsReservation then
      match reserveQuota now (p.reserveInput id) outage w.ledger with
      | (.ok _, ledger) => some ({ w with ledger := ledger }.setHandler id
          { h with pc := .route, reservedTokens := p.estimatedTokens })
      | (.error e, ledger) =>
        some (throwFrom { w with ledger := ledger } id h (e = .quotaExceeded))
    else some (w.setHandler id { h with pc := .route })
  | .route =>
    if ok = false then some (throwFrom w id h false)
    else some (w.setHandler id { h with pc := .dispatch, routed := true })
  | .dispatch =>
    match ok, w.requests id with
    | true, some row => some (((w.setRequest id { row with
        status := .running, startedAt := some now }).setAttempt id (p.newAttempt now)).setHandler id
          { h with pc := .generate })
    | _, _ => some (throwFrom w id h false)
  | .generate =>
    if ok = false then some (throwFrom w id h false)
    else some (w.setHandler id { h with pc := .finalizeRow })
  | .finalizeRow =>
    match ok, w.requests id with
    | true, some row => some ((w.setRequest id (finalizeRequestRow p.succeededFields now row)).setHandler
        id { h with pc := .finalizeAttempt })
    | _, _ => some (throwFrom w id h false)
  | .finalizeAttempt =>
    match ok, w.attempts id with
    | true, some row => some ((w.setAttempt id (finalizeAttemptRow p.succeededFields now row)).setHandler
        id { h with pc := .commit })
    | _, _ => some (throwFrom w id h false)
  | .commit =>
    if ok = false then some (throwFrom w id h false)
    else if h.reservedTokens > 0 then
      match commitQuota now (p.commitInput id) outage w.ledger with
      | (.ok _, ledger) => some ({ w with
          ledger := ledger, history := w.history ++ [Metering.committed id] }.setHandler id
            { h with pc := .enqueue })
      | (.error _, ledger) => some (throwFrom { w with ledger := ledger } id h false)
    else some (w.setHandler id { h with pc := .enqueue })
  | .enqueue =>
    if ok = false then some (throwFrom w id h false)
    else if redis then
      some ({ w with jobs := w.jobs ++ [p.usageJob id] }.setHandler id { h with pc := .bump })
    else
      match persistUsage now (p.usageJob id) (outage.attempt 0) w.ledger with
      | (.ok _, ledger) => some ({ w with
          ledger := ledger, history := w.history ++ [Metering.persisted id] }.setHandler id
            { h with pc := .persistRead })
      | (.error _, ledger) => some (throwFrom { w with ledger := ledger } id h false)
  | .persistRead =>
    if ok = false then some (throwFrom w id h false)
    else
      match readForReceipt w (p.usageJob id) with
      | some row => some (w.setHandler id { h with pc := .persistIssue row })
      | none => some (w.setHandler id { h with pc := .bump })
  | .persistIssue row =>
    -- a failure to issue is caught and logged, and the handler goes on
    let w' := if ok then issueReceipt w (p.usageJob id) row now else w
    some (w'.setHandler id { h with pc := .bump })
  | .bump =>
    if ok = false ∧ redis then some (throwFrom w id h false)
    else some (w.setHandler id { h with pc := .audit })
  | .audit =>
    if ok = false then some (throwFrom w id h false)
    else some (w.setHandler id { h with pc := .respond })
  | .respond =>
    if ok = false then some (throwFrom w id h false)
    else some (w.setHandler id { h with pc := .done })
  | .catchRelease =>
    if h.reservedTokens > 0 then
      if ok = false then
        some (w.setHandler id { h with pc := .catchFinalizeRow, releaseFailed := true })
      else
        match releaseQuota now (p.releaseInput id h.reservedTokens) outage w.ledger with
        | (.ok _, ledger) =>
          some ({ w with ledger := ledger }.setHandler id { h with pc := .catchFinalizeRow })
        | (.error _, ledger) => some ({ w with ledger := ledger }.setHandler id
            { h with pc := .catchFinalizeRow, releaseFailed := true })
    else some (w.setHandler id { h with pc := .catchFinalizeRow })
  | .catchFinalizeRow =>
    match ok, w.requests id with
    | true, some row => some ((w.setRequest id
        (finalizeRequestRow (p.failedFields h.rejected h.routed) now row)).setHandler id
          { h with pc := .catchFinalizeAttempt })
    | _, _ => some (w.setHandler id { h with pc := .failed })
  | .catchFinalizeAttempt =>
    match ok, w.attempts id with
    | true, some row => some ((w.setAttempt id
        (finalizeAttemptRow (p.failedFields h.rejected h.routed) now row)).setHandler id
          { h with pc := .failed })
    | _, _ => some (w.setHandler id { h with pc := .failed })
  | .done => none
  | .failed => none

def World.setDelivery (w : World) (k : ℕ) (d : Delivery) : World :=
  { w with deliveries := w.deliveries.set k d }

/-- One effect of a worker's `persistUsageEvent`; a failed delivery just ends,
and the queue may deliver its job again. -/
def workerStep (w : World) (k : ℕ) (d : Delivery) (now : ℤ) (ok : Bool) (faults : Faults) :
    Option World :=
  match d.pc with
  | .persist =>
    match persistUsage now d.job faults w.ledger with
    | (.ok _, ledger) => some ({ w with
        ledger := ledger
        history := w.history ++ (d.job.inferenceRequestId.map Metering.persisted).toList }.setDelivery k
          { d with pc := .readRow })
    | (.error _, ledger) => some ({ w with ledger := ledger }.setDelivery k { d with pc := .finished })
  | .readRow =>
    match ok, readForReceipt w d.job with
    | true, some row => some (w.setDelivery k { d with pc := .issue row })
    | _, _ => some (w.setDelivery k { d with pc := .finished })
  | .issue row =>
    let w' := if ok then issueReceipt w d.job row now else w
    some (w'.setDelivery k { d with pc := .finished })
  | .finished => none

def step (plan : String → ChatPlan) (redis : Bool) (w : World) : Event → Option World
  | .arrive id =>
    if w.handlers id = none then
      some ((w.setRequest id (plan id).newRow).setHandler id ⟨.reserve, 0, false, false, false⟩)
    else none
  | .handler id now ok outage =>
    (w.handlers id).bind fun h => handlerStep plan redis w id h now ok outage
  | .deliver n => (w.jobs[n]?).map fun job =>
      { w with deliveries := w.deliveries ++ [⟨job, .persist⟩] }
  | .worker k now ok faults =>
    (w.deliveries[k]?).bind fun d => workerStep w k d now ok faults

/-- No requests yet, and a ledger at zero. -/
def start (periods : String → Option (ℤ × ℤ)) : World where
  ledger := LedgerAccounting.freshDb periods []
  requests := fun _ => none
  attempts := fun _ => none
  receipts := []
  jobs := []
  deliveries := []
  handlers := fun _ => none
  history := []

/-- A subscriber's request with an estimate of 100 tokens that comes to use 30. -/
def samplePlan : ChatPlan where
  customerId := "c"
  apiKeyId := "k"
  billingMode := .subscription
  monthlyTokenQuota := 1000
  periodStart := 0
  periodEnd := 1
  model := "auto"
  stream := false
  promptCharacters := 0
  maxTokens := 36
  knowledgeBases := 0
  requestId := "r"
  hostedId := "m"
  modelSlug := "small"
  pricingVersionId := "v"
  policyVersionId := none
  policyDecisionHash := none
  promptTokens := 10
  completionTokens := 20
  costMicros := 5
  latencyMs := 1
  ttftMs := none
  generationMs := 1
  queueMs := 0
  finishReason := "stop"
  errorMessage := "Inference failed"

end ModelForge.ChatHandler
