import ModelForge.ChatHandler

set_option autoImplicit false

/-!
# What one step of the chat system can do

An inversion of `step`: every effect of a handler or a worker, with its guard
and the state it leaves. The invariants are proved from these cases.
-/
namespace ModelForge.ChatSteps
open LedgerStore LedgerOperations ReservationHolds ChatHandler

/-- The stages of a handler as the ledger sees them. -/
inductive Stage where
  | unreserved
  | running
  | metered
  | caught
  | closing
  deriving DecidableEq, Repr

def stage : Pc → Stage
  | .reserve => .unreserved
  | .route => .running
  | .dispatch => .running
  | .generate => .running
  | .finalizeRow => .running
  | .finalizeAttempt => .running
  | .commit => .running
  | .enqueue => .metered
  | .persistRead => .metered
  | .persistIssue _ => .metered
  | .bump => .metered
  | .audit => .metered
  | .respond => .metered
  | .done => .metered
  | .catchRelease => .caught
  | .catchFinalizeRow => .closing
  | .catchFinalizeAttempt => .closing
  | .failed => .closing

/-- The pairs between which a handler moves without touching any record. -/
def quietNext : Pc → Option Pc
  | .route => some .dispatch
  | .generate => some .finalizeRow
  | .persistRead => some .bump
  | .persistIssue _ => some .bump
  | .bump => some .audit
  | .audit => some .respond
  | .respond => some .done
  | .catchFinalizeRow => some .failed
  | .catchFinalizeAttempt => some .failed
  | _ => none

theorem stage_quietNext {pc pc' : Pc} (h : quietNext pc = some pc') : stage pc' = stage pc := by
  cases pc <;> cases h <;> rfl

/-- One effect of the handler of request `id`. -/
inductive HandlerMove (plan : String → ChatPlan) (redis : Bool) (w : World) (id : String)
    (h : Handler) (now : ℤ) (ok : Bool) (outage : Outage) : World → Prop where
  | threw (rejected : Bool) (inside : stage h.pc ≠ .caught ∧ stage h.pc ≠ .closing) :
      HandlerMove plan redis w id h now ok outage (throwFrom w id h rejected)
  | advanced (pc : Pc) (routed : Bool) (edge : quietNext h.pc = some pc) :
      HandlerMove plan redis w id h now ok outage
        (w.setHandler id { h with pc := pc, routed := routed })
  | reserved (entry : QuotaLedgerEntry) (ledger : LedgerDb) (here : h.pc = .reserve)
      (needed : (plan id).needsReservation = true)
      (call : reserveQuota now ((plan id).reserveInput id) outage w.ledger = (.ok entry, ledger)) :
      HandlerMove plan redis w id h now ok outage ({ w with ledger := ledger }.setHandler id
        { h with pc := .route, reservedTokens := (plan id).estimatedTokens })
  | unreserved (here : h.pc = .reserve) (free : (plan id).needsReservation = false) :
      HandlerMove plan redis w id h now ok outage (w.setHandler id { h with pc := .route })
  | dispatched (row : InferenceRequest) (here : h.pc = .dispatch) (found : w.requests id = some row) :
      HandlerMove plan redis w id h now ok outage (((w.setRequest id { row with
        status := .running, startedAt := some now }).setAttempt id
          ((plan id).newAttempt now)).setHandler id { h with pc := .generate })
  | finalizedRow (row : InferenceRequest) (here : h.pc = .finalizeRow)
      (found : w.requests id = some row) :
      HandlerMove plan redis w id h now ok outage
        ((w.setRequest id (finalizeRequestRow (plan id).succeededFields now row)).setHandler id
          { h with pc := .finalizeAttempt })
  | finalizedAttempt (row : InferenceAttempt) (here : h.pc = .finalizeAttempt) :
      HandlerMove plan redis w id h now ok outage
        ((w.setAttempt id (finalizeAttemptRow (plan id).succeededFields now row)).setHandler id
          { h with pc := .commit })
  | committed (entry : QuotaLedgerEntry) (ledger : LedgerDb) (here : h.pc = .commit)
      (held : 0 < h.reservedTokens)
      (call : commitQuota now ((plan id).commitInput id) outage w.ledger = (.ok entry, ledger)) :
      HandlerMove plan redis w id h now ok outage ({ w with
        ledger := ledger, history := w.history ++ [Metering.committed id] }.setHandler id
          { h with pc := .enqueue })
  | uncommitted (here : h.pc = .commit) (free : ¬ 0 < h.reservedTokens) :
      HandlerMove plan redis w id h now ok outage (w.setHandler id { h with pc := .enqueue })
  | enqueued (here : h.pc = .enqueue) (on : redis = true) :
      HandlerMove plan redis w id h now ok outage
        ({ w with jobs := w.jobs ++ [(plan id).usageJob id] }.setHandler id { h with pc := .bump })
  | persisted (ledger : LedgerDb) (here : h.pc = .enqueue) (off : redis = false)
      (call : persistUsage now ((plan id).usageJob id) (outage.attempt 0) w.ledger =
        (.ok (), ledger)) :
      HandlerMove plan redis w id h now ok outage ({ w with
        ledger := ledger, history := w.history ++ [Metering.persisted id] }.setHandler id
          { h with pc := .persistRead })
  | read (row : InferenceRequest) (here : h.pc = .persistRead)
      (found : readForReceipt w ((plan id).usageJob id) = some row) :
      HandlerMove plan redis w id h now ok outage (w.setHandler id { h with pc := .persistIssue row })
  | issued (row : InferenceRequest) (here : h.pc = .persistIssue row) :
      HandlerMove plan redis w id h now ok outage
        ((issueReceipt w ((plan id).usageJob id) row now).setHandler id { h with pc := .bump })
  | released (entry : QuotaLedgerEntry) (ledger : LedgerDb) (here : h.pc = .catchRelease)
      (held : 0 < h.reservedTokens) (sent : ok = true)
      (call : releaseQuota now ((plan id).releaseInput id h.reservedTokens) outage w.ledger =
        (.ok entry, ledger)) :
      HandlerMove plan redis w id h now ok outage
        ({ w with ledger := ledger }.setHandler id { h with pc := .catchFinalizeRow })
  | releaseLost (here : h.pc = .catchRelease) (held : 0 < h.reservedTokens) :
      HandlerMove plan redis w id h now ok outage
        (w.setHandler id { h with pc := .catchFinalizeRow, releaseFailed := true })
  | nothingHeld (here : h.pc = .catchRelease) (free : ¬ 0 < h.reservedTokens) :
      HandlerMove plan redis w id h now ok outage (w.setHandler id { h with pc := .catchFinalizeRow })
  | closedRow (row : InferenceRequest) (here : h.pc = .catchFinalizeRow) (sent : ok = true)
      (found : w.requests id = some row) :
      HandlerMove plan redis w id h now ok outage ((w.setRequest id
        (finalizeRequestRow ((plan id).failedFields h.rejected h.routed) now row)).setHandler id
          { h with pc := .catchFinalizeAttempt })
  | closedAttempt (row : InferenceAttempt) (here : h.pc = .catchFinalizeAttempt) :
      HandlerMove plan redis w id h now ok outage ((w.setAttempt id
        (finalizeAttemptRow ((plan id).failedFields h.rejected h.routed) now row)).setHandler id
          { h with pc := .failed })

/-- One effect of the worker that has delivery `k`. -/
inductive WorkerMove (w : World) (k : ℕ) (d : Delivery) (now : ℤ) (faults : Faults) : World → Prop where
  | persisted (ledger : LedgerDb) (call : persistUsage now d.job faults w.ledger = (.ok (), ledger)) :
      WorkerMove w k d now faults ({ w with
        ledger := ledger
        history := w.history ++ (d.job.inferenceRequestId.map Metering.persisted).toList }.setDelivery k
          { d with pc := .readRow })
  | finished : WorkerMove w k d now faults (w.setDelivery k { d with pc := .finished })
  | read (row : InferenceRequest) (found : readForReceipt w d.job = some row) :
      WorkerMove w k d now faults (w.setDelivery k { d with pc := .issue row })
  | issued (row : InferenceRequest) (here : d.pc = .issue row) :
      WorkerMove w k d now faults
        ((issueReceipt w d.job row now).setDelivery k { d with pc := .finished })

inductive SystemMove (plan : String → ChatPlan) (redis : Bool) (w : World) : Event → World → Prop where
  | arrived (id : String) (absent : w.handlers id = none) :
      SystemMove plan redis w (.arrive id)
        ((w.setRequest id (plan id).newRow).setHandler id ⟨.reserve, 0, false, false, false⟩)
  | handled (id : String) (now : ℤ) (ok : Bool) (outage : Outage) (h : Handler) {w' : World}
      (present : w.handlers id = some h)
      (move : HandlerMove plan redis w id h now ok outage w') :
      SystemMove plan redis w (.handler id now ok outage) w'
  | delivered (n : ℕ) (job : UsageJob) (accepted : job ∈ w.jobs) :
      SystemMove plan redis w (.deliver n)
        { w with deliveries := w.deliveries ++ [⟨job, .persist⟩] }
  | worked (k : ℕ) (now : ℤ) (ok : Bool) (faults : Faults) (d : Delivery) {w' : World}
      (present : d ∈ w.deliveries) (move : WorkerMove w k d now faults w') :
      SystemMove plan redis w (.worker k now ok faults) w'

variable {plan : String → ChatPlan} {redis : Bool} {w w' : World} {id : String} {h : Handler}
  {now : ℤ} {ok : Bool} {outage : Outage}

/-- A failed ledger call leaves the tables as they were. -/
theorem called_error {db db' : LedgerDb} {key : String} {guard : Prop} {entry : QuotaLedgerEntry}
    {e : OperationError} (hc : Called db key guard entry (.error e, db')) : db' = db := by
  cases hc
  rfl

theorem persisted_error {db db' : LedgerDb} {job : UsageJob} {e : OperationError}
    (hp : Persisted db job now (.error e, db')) : db' = db := by
  cases hp
  rfl

theorem handlerStep_moves (hstep : handlerStep plan redis w id h now ok outage = some w') :
    HandlerMove plan redis w id h now ok outage w' := by
  unfold handlerStep at hstep
  dsimp only at hstep
  split at hstep <;> rename_i hpc
  case h_1 =>
    split at hstep
    · cases hstep
      exact .threw false (by rw [hpc]; decide)
    split at hstep
    · rename_i hneeds
      split at hstep <;> rename_i hcall <;> cases hstep
      · exact .reserved _ _ hpc hneeds hcall
      · cases called_error (hcall ▸ reserveQuota_called now ((plan id).reserveInput id) outage w.ledger)
        exact .threw _ (by rw [hpc]; decide)
    · rename_i hneeds
      cases hstep
      exact .unreserved hpc (by simpa using hneeds)
  case h_2 =>
    split at hstep <;> cases hstep
    · exact .threw false (by rw [hpc]; decide)
    · exact .advanced .dispatch true (by rw [hpc]; rfl)
  case h_3 =>
    split at hstep <;> cases hstep
    · rename_i row hrow
      exact .dispatched row hpc hrow
    · exact .threw false (by rw [hpc]; decide)
  case h_4 =>
    split at hstep <;> cases hstep
    · exact .threw false (by rw [hpc]; decide)
    · exact .advanced .finalizeRow h.routed (by rw [hpc]; rfl)
  case h_5 =>
    split at hstep <;> cases hstep
    · rename_i row hrow
      exact .finalizedRow row hpc hrow
    · exact .threw false (by rw [hpc]; decide)
  case h_6 =>
    split at hstep <;> cases hstep
    · rename_i row hrow
      exact .finalizedAttempt row hpc
    · exact .threw false (by rw [hpc]; decide)
  case h_7 =>
    split at hstep
    · cases hstep
      exact .threw false (by rw [hpc]; decide)
    split at hstep
    · rename_i hheld
      split at hstep <;> rename_i hcall <;> cases hstep
      · exact .committed _ _ hpc hheld hcall
      · cases called_error (hcall ▸ commitQuota_called now ((plan id).commitInput id) outage w.ledger)
        exact .threw _ (by rw [hpc]; decide)
    · rename_i hheld
      cases hstep
      exact .uncommitted hpc hheld
  case h_8 =>
    split at hstep
    · cases hstep
      exact .threw false (by rw [hpc]; decide)
    split at hstep
    · rename_i hredis
      cases hstep
      exact .enqueued hpc hredis
    · rename_i hredis
      split at hstep <;> rename_i hcall <;> cases hstep
      · exact .persisted _ hpc (by simpa using hredis) hcall
      · cases persisted_error (hcall ▸ persistUsage_persisted now ((plan id).usageJob id) _ w.ledger)
        exact .threw _ (by rw [hpc]; decide)
  case h_9 =>
    split at hstep
    · cases hstep
      exact .threw false (by rw [hpc]; decide)
    split at hstep <;> cases hstep
    · rename_i row hrow
      exact .read row hpc hrow
    · exact .advanced .bump h.routed (by rw [hpc]; rfl)
  case h_10 row =>
    cases hstep
    cases ok with
    | true => exact .issued row hpc
    | false => exact .advanced .bump h.routed (by rw [hpc]; rfl)
  case h_11 =>
    split at hstep <;> cases hstep
    · exact .threw false (by rw [hpc]; decide)
    · exact .advanced .audit h.routed (by rw [hpc]; rfl)
  case h_12 =>
    split at hstep <;> cases hstep
    · exact .threw false (by rw [hpc]; decide)
    · exact .advanced .respond h.routed (by rw [hpc]; rfl)
  case h_13 =>
    split at hstep <;> cases hstep
    · exact .threw false (by rw [hpc]; decide)
    · exact .advanced .done h.routed (by rw [hpc]; rfl)
  case h_14 =>
    split at hstep
    · rename_i hheld
      split at hstep
      · cases hstep
        exact .releaseLost hpc hheld
      · rename_i hok
        split at hstep <;> rename_i hcall <;> cases hstep
        · exact .released _ _ hpc hheld (by simpa using hok) hcall
        · cases called_error
            (hcall ▸ releaseQuota_called now ((plan id).releaseInput id h.reservedTokens) outage w.ledger)
          exact .releaseLost hpc hheld
    · rename_i hheld
      cases hstep
      exact .nothingHeld hpc hheld
  case h_15 =>
    split at hstep <;> cases hstep
    · rename_i row hrow
      exact .closedRow row hpc rfl hrow
    · exact .advanced .failed h.routed (by rw [hpc]; rfl)
  case h_16 =>
    split at hstep <;> cases hstep
    · rename_i row hrow
      exact .closedAttempt row hpc
    · exact .advanced .failed h.routed (by rw [hpc]; rfl)
  case h_17 => cases hstep
  case h_18 => cases hstep

theorem workerStep_moves {k : ℕ} {d : Delivery} {faults : Faults}
    (hstep : workerStep w k d now ok faults = some w') : WorkerMove w k d now faults w' := by
  unfold workerStep at hstep
  split at hstep <;> rename_i hpc
  case h_1 =>
    split at hstep <;> rename_i hcall <;> cases hstep
    · exact .persisted _ hcall
    · cases persisted_error (hcall ▸ persistUsage_persisted now d.job faults w.ledger)
      exact .finished
  case h_2 =>
    split at hstep <;> cases hstep
    · rename_i row hrow
      exact .read row hrow
    · exact .finished
  case h_3 row =>
    cases hstep
    cases ok with
    | true => exact .issued row hpc
    | false => exact .finished
  case h_4 => cases hstep

theorem step_moves {e : Event} (hstep : step plan redis w e = some w') :
    SystemMove plan redis w e w' := by
  cases e with
  | arrive id =>
    simp only [step, Option.ite_none_right_eq_some, Option.some.injEq] at hstep
    obtain ⟨habsent, rfl⟩ := hstep
    exact .arrived id habsent
  | handler id now ok outage =>
    obtain ⟨h, hpresent, hmove⟩ := Option.bind_eq_some_iff.mp hstep
    exact .handled id now ok outage h hpresent (handlerStep_moves hmove)
  | deliver n =>
    obtain ⟨job, hjob, rfl⟩ := Option.map_eq_some_iff.mp hstep
    exact .delivered n job (List.mem_of_getElem? hjob)
  | worker k now ok faults =>
    obtain ⟨d, hd, hmove⟩ := Option.bind_eq_some_iff.mp hstep
    exact .worked k now ok faults d (List.mem_of_getElem? hd) (workerStep_moves hmove)

end ModelForge.ChatSteps
