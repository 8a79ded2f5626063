import ModelForge.ChatInvariant

set_option autoImplicit false

/-!
# The final status and the charge

While the catch block only closes rows of requests that have no charge, job or
event yet, a failed row stands for nothing charged, and a row with usage stays
as its receipt states it.
-/
namespace ModelForge.ChatStatus
open RunInvariant LedgerStore LedgerOperations ReservationHolds ChatHandler ChatSteps ChatInvariant

def HasEvent (db : LedgerDb) (id : String) : Prop :=
  ∃ e ∈ db.usageEvent, e.inferenceRequestId = some id

instance (db : LedgerDb) (id : String) : Decidable (HasEvent db id) :=
  inferInstanceAs (Decidable (∃ e ∈ db.usageEvent, e.inferenceRequestId = some id))

/-- A commit, an enqueued job or a persisted event of the request has taken effect. -/
def Used (plan : String → ChatPlan) (w : World) (id : String) : Prop :=
  Marked w.ledger .commit id ∨ (plan id).usageJob id ∈ w.jobs ∨ HasEvent w.ledger id

instance (plan : String → ChatPlan) (w : World) (id : String) : Decidable (Used plan w id) :=
  inferInstanceAs (Decidable (_ ∨ _ ∨ _))

def Unsuccessful (row : InferenceRequest) : Prop := row.status = .failed ∨ row.status = .rejected

/-- The receipt states the row's status, token counts and cost. -/
def Agrees (payload : ReceiptPayload) (row : InferenceRequest) : Prop :=
  payload.status = row.status ∧ payload.promptTokens = row.promptTokens ∧
    payload.completionTokens = row.completionTokens ∧ payload.costMicros = row.costMicros

structure StatusAgrees (plan : String → ChatPlan) (w : World) (_ : Event) (w' : World) : Prop where
  unsuccessful : ∀ id h row, w'.handlers id = some h → h.pc.Finished → w'.requests id = some row →
    Unsuccessful row → ¬ Used plan w' id ∧ (∀ r ∈ w'.receipts, r.requestId ≠ id) ∧
      ∀ d ∈ w'.deliveries, d.job.inferenceRequestId ≠ some id
  stable : ∀ id row, w.requests id = some row → row.status = .succeeded →
    (plan id).usageJob id ∈ w.jobs ∨ HasEvent w.ledger id →
    ∃ row', w'.requests id = some row' ∧ row'.status = row.status ∧
      row'.promptTokens = row.promptTokens ∧ row'.completionTokens = row.completionTokens ∧
      row'.costMicros = row.costMicros
  receipts : ∀ r ∈ w'.receipts, ∃ row, w'.requests r.requestId = some row ∧ Agrees r.payload row

/-- The catch block's row update goes through only for a request of which no
commit, enqueue or persist has taken effect. -/
def ClosesUnused (plan : String → ChatPlan) (w : World) : Event → World → Prop
  | .handler id _ ok _, _ =>
    ok = true → ∀ h ∈ w.handlers id, h.pc = .catchFinalizeRow → ¬ Used plan w id
  | _, _ => True

instance (plan : String → ChatPlan) (w : World) (e : Event) (w' : World) :
    Decidable (ClosesUnused plan w e w') :=
  match e with
  | .handler id _ ok _ => inferInstanceAs (Decidable (ok = true → ∀ h ∈ w.handlers id,
      h.pc = .catchFinalizeRow → ¬ Used plan w id))
  | .arrive _ => isTrue trivial
  | .deliver _ => isTrue trivial
  | .worker _ _ _ _ => isTrue trivial

/-- Past the row's own finalization, so that it is marked succeeded. -/
def Finalized (pc : Pc) : Prop := pc = .finalizeAttempt ∨ pc = .commit ∨ stage pc = .metered

def SucceededRow (w : World) (id : String) : Prop :=
  ∃ row, w.requests id = some row ∧ row.status = .succeeded

structure Inv (plan : String → ChatPlan) (w : World) : Prop where
  wf : Wf plan w
  keyed : ∀ e ∈ w.ledger.usageEvent, ∀ id, e.inferenceRequestId = some id →
    e.idempotencyKey = id ++ ":usage"
  delivered : ∀ d ∈ w.deliveries, d.job ∈ w.jobs
  finalized : ∀ id h, w.handlers id = some h → Finalized h.pc → SucceededRow w id
  used : ∀ id, Used plan w id → SucceededRow w id
  reading : ∀ id h row, w.handlers id = some h → h.pc = .persistIssue row →
    w.requests id = some row ∧ Used plan w id
  issuing : ∀ d ∈ w.deliveries, ∀ row id, d.pc = .issue row → d.job.inferenceRequestId = some id →
    w.requests id = some row
  receipts : ∀ r ∈ w.receipts, Used plan w r.requestId ∧
    ∃ row, w.requests r.requestId = some row ∧ Agrees r.payload row

variable {plan : String → ChatPlan} {redis : Bool} {w w' : World} {id : String} {h h' : Handler}

theorem Inv.used_of_event (hi : Inv plan w) (hevent : HasEvent w.ledger id) :
    Marked w.ledger .commit id := by
  obtain ⟨e, he, hid⟩ := hevent
  exact hi.wf.events e he id (hi.keyed e he id hid)

/-- A request that is used has a handler past its commit. -/
theorem Inv.past_of_used (hi : Inv plan w) (hu : Used plan w id) :
    ∃ h, w.handlers id = some h ∧ Past h.pc := by
  have of_marked : Marked w.ledger .commit id → ∃ h, w.handlers id = some h ∧ Past h.pc := by
    intro hm
    cases hh : w.handlers id with
    | none => exact absurd hm (hi.wf.absent id hh _)
    | some h =>
      have hs := hi.wf.staged id h hh
      exact ⟨h, rfl, fun hp => hs.uncharged (.inl hp) hm, fun hp => hs.uncharged (.inr hp) hm⟩
  rcases hu with hm | hjob | hevent
  · exact of_marked hm
  · obtain ⟨i, ha⟩ := hi.wf.jobs _ hjob
    have hid : some id = some i := congrArg UsageJob.inferenceRequestId ha.payload
    obtain rfl := Option.some.inj hid
    exact ha.past
  · exact of_marked (hi.used_of_event hevent)

theorem Inv.not_used (hi : Inv plan w) (present : w.handlers id = some h)
    (before : stage h.pc = .unreserved ∨ stage h.pc = .running) : ¬ Used plan w id := by
  intro hu
  obtain ⟨g, hg, hpast⟩ := hi.past_of_used hu
  obtain rfl := Option.some.inj (present.symm.trans hg)
  exact before.elim hpast.1 hpast.2

theorem Inv.delivered_used (hi : Inv plan w) {d : Delivery} (hd : d ∈ w.deliveries)
    (hid : d.job.inferenceRequestId = some id) :
    d.job = (plan id).usageJob id ∧ Used plan w id := by
  obtain ⟨i, ha⟩ := hi.wf.deliveries d hd
  have he : some i = some id := (congrArg UsageJob.inferenceRequestId ha.payload).symm.trans hid
  obtain rfl := Option.some.inj he
  refine ⟨ha.payload, .inr (.inl ?_)⟩
  rw [← ha.payload]
  exact hi.delivered d hd

/-- What the invariant says of a state. -/
theorem Inv.agrees {e : Event} (hi' : Inv plan w')
    (rows : ∀ id, Used plan w id → w'.requests id = w.requests id) : StatusAgrees plan w e w' := by
  refine ⟨fun id h row _ _ hrow hstatus => ?_, fun id row hrow _ hu => ?_,
    fun r hr => (hi'.receipts r hr).2⟩
  · have hunused : ¬ Used plan w' id := by
      intro hu
      obtain ⟨row', hrow', hsucceeded⟩ := hi'.used id hu
      obtain rfl := Option.some.inj (hrow.symm.trans hrow')
      rcases hstatus with hs | hs <;> rw [hsucceeded] at hs <;> cases hs
    refine ⟨hunused, ?_, fun d hd hid => hunused (hi'.delivered_used hd hid).2⟩
    rintro r hr rfl
    exact hunused (hi'.receipts r hr).1
  · exact ⟨row, (rows id (.inr hu)).trans hrow, rfl, rfl, rfl, rfl⟩

/-- A move of one handler: it touches its own row only while the request is not
used, and what it newly uses has a succeeded row. -/
theorem Inv.handled (hi : Inv plan w) (hwf : Wf plan w')
    (handlers : w'.handlers = Function.update w.handlers id (some h'))
    (rows : ∀ i, i ≠ id ∨ Used plan w id → w'.requests i = w.requests i)
    (mono : ∀ i, Used plan w i → Used plan w' i)
    (used : ∀ i, Used plan w' i → Used plan w i ∨ i = id ∧ SucceededRow w' id)
    (finalized : Finalized h'.pc → SucceededRow w' id)
    (reading : ∀ row, h'.pc = .persistIssue row → w'.requests id = some row ∧ Used plan w' id)
    (keyed : ∀ e ∈ w'.ledger.usageEvent, ∀ i, e.inferenceRequestId = some i →
      e.idempotencyKey = i ++ ":usage")
    (jobs : ∀ job ∈ w.jobs, job ∈ w'.jobs) (deliveries : w'.deliveries = w.deliveries)
    (receipts : ∀ r ∈ w'.receipts, r ∈ w.receipts ∨ r.requestId = id ∧ Used plan w' id ∧
      ∃ row, w'.requests id = some row ∧ Agrees r.payload row) :
    Inv plan w' ∧ ∀ i, Used plan w i → w'.requests i = w.requests i := by
  have stay : ∀ i, Used plan w i → w'.requests i = w.requests i := by
    intro i hu
    by_cases he : i = id
    · subst he
      exact rows i (.inr hu)
    · exact rows i (.inl he)
  refine ⟨⟨hwf, keyed, fun d hd => ?_, fun i g hg hf => ?_, fun i hu => ?_, fun i g row hg hpc => ?_,
    fun d hd row i hpc hid => ?_, fun r hr => ?_⟩, stay⟩
  · rw [deliveries] at hd
    exact jobs _ (hi.delivered d hd)
  · by_cases he : i = id
    · subst he
      rw [handlers, Function.update_self] at hg
      obtain rfl := Option.some.inj hg
      exact finalized hf
    · rw [handlers, Function.update_of_ne he] at hg
      rw [SucceededRow, rows i (.inl he)]
      exact hi.finalized i g hg hf
  · rcases used i hu with hold | ⟨rfl, hrow⟩
    · rw [SucceededRow, stay i hold]
      exact hi.used i hold
    · exact hrow
  · by_cases he : i = id
    · subst he
      rw [handlers, Function.update_self] at hg
      obtain rfl := Option.some.inj hg
      exact reading row hpc
    · rw [handlers, Function.update_of_ne he] at hg
      obtain ⟨hrow, hu⟩ := hi.reading i g row hg hpc
      exact ⟨(stay i hu).trans hrow, mono i hu⟩
  · rw [deliveries] at hd
    rw [stay i (hi.delivered_used hd hid).2]
    exact hi.issuing d hd row i hpc hid
  · rcases receipts r hr with hold | ⟨hid, hu, hrow⟩
    · obtain ⟨hu, row, hrow, hagree⟩ := hi.receipts r hold
      exact ⟨mono _ hu, row, (stay _ hu).trans hrow, hagree⟩
    · rw [hid]
      exact ⟨hu, hrow⟩

/-- A move that touches no record. -/
theorem Inv.quiet (hi : Inv plan w) (hwf : Wf plan (w.setHandler id h'))
    (finalized : Finalized h'.pc → SucceededRow w id)
    (reading : ∀ row, h'.pc = .persistIssue row → w.requests id = some row ∧ Used plan w id) :
    Inv plan (w.setHandler id h') ∧
      ∀ i, Used plan w i → (w.setHandler id h').requests i = w.requests i :=
  hi.handled hwf rfl (fun _ _ => rfl) (fun _ hu => hu) (fun _ hu => .inl hu) finalized reading
    hi.keyed (fun _ hjob => hjob) rfl fun _ hr => .inl hr

theorem persisted_events {db db' : LedgerDb} {job : UsageJob} {now : ℤ}
    (hp : Persisted db job now (.ok (), db')) :
    (∀ e ∈ db.usageEvent, e ∈ db'.usageEvent) ∧
      ∀ e ∈ db'.usageEvent, e ∈ db.usageEvent ∨ e = job.event now := by
  cases hp with
  | replayed _ _ => exact ⟨fun _ he => he, fun _ he => .inl he⟩
  | recorded _ events _ _ | posted _ events _ =>
    rw [events]
    refine ⟨fun _ he => List.mem_append_left _ he, fun e he => ?_⟩
    rcases List.mem_append.mp he with hold | hnew
    · exact .inl hold
    · exact .inr (List.mem_singleton.mp hnew)

theorem used_of_called {m : LedgerMove} (marks : Marks w.ledger w'.ledger m id)
    (events : w'.ledger.usageEvent = w.ledger.usageEvent) (jobs : w'.jobs = w.jobs) :
    (∀ i, Used plan w i → Used plan w' i) ∧
      ∀ i, Used plan w' i → Used plan w i ∨ m = .commit ∧ i = id := by
  unfold Used HasEvent
  rw [events, jobs]
  refine ⟨fun i hu => hu.imp_left fun hm => (marks _ _).mpr (.inl hm), fun i hu => ?_⟩
  rcases hu with hm | hrest
  · rcases (marks _ _).mp hm with hold | ⟨hcommit, hid⟩
    · exact .inl (.inl hold)
    · exact .inr ⟨hcommit.symm, hid⟩
  · exact .inl (.inr hrest)

theorem Inv.persisted_effect (hi : Inv plan w) {now : ℤ} {faults : Faults} {ledger : LedgerDb}
    (call : persistUsage now ((plan id).usageJob id) faults w.ledger = (.ok (), ledger)) :
    (∀ i, Marked w.ledger .commit i → Marked ledger .commit i) ∧
    (∀ i, Marked ledger .commit i → Marked w.ledger .commit i ∨ i = id) ∧
    (∀ i, HasEvent w.ledger i → HasEvent ledger i) ∧
    (∀ i, HasEvent ledger i → HasEvent w.ledger i ∨ i = id) ∧
    ∀ e ∈ ledger.usageEvent, ∀ i, e.inferenceRequestId = some i →
      e.idempotencyKey = i ++ ":usage" := by
  have hp := persistUsage_persisted now ((plan id).usageJob id) faults w.ledger
  rw [call] at hp
  obtain ⟨hmarks, -⟩ := persisted_marks hi.wf.events hp
  obtain ⟨hmono, hnew⟩ := persisted_events hp
  refine ⟨fun i hm => (hmarks _ _).mpr (.inl hm), fun i hm => ((hmarks _ _).mp hm).imp_right And.right,
    fun i ⟨e, he, hid⟩ => ⟨e, hmono e he, hid⟩, fun i ⟨e, he, hid⟩ => ?_, fun e he i hid => ?_⟩
  · rcases hnew e he with hold | rfl
    · exact .inl ⟨e, hold, hid⟩
    · exact .inr (Option.some.inj hid).symm
  · rcases hnew e he with hold | rfl
    · exact hi.keyed e hold i hid
    · obtain rfl : id = i := Option.some.inj hid
      rfl

/-- Both reads for a receipt found what they looked for. -/
theorem readForReceipt_some {p : ChatPlan} {row : InferenceRequest}
    (found : readForReceipt w (p.usageJob id) = some row) :
    w.requests id = some row ∧ ∃ e ∈ w.ledger.usageEvent, e.idempotencyKey = id ++ ":usage" := by
  change (if (w.ledger.findEvent (id ++ ":usage")).isSome then w.requests id else none) = _ at found
  rw [Option.ite_none_right_eq_some] at found
  obtain ⟨hevent, hrow⟩ := found
  obtain ⟨e, he⟩ := Option.isSome_iff_exists.mp hevent
  exact ⟨hrow, e, LedgerDb.findEvent_eq_some he⟩

theorem finalized_quietNext {pc pc' : Pc} (edge : quietNext pc = some pc') (hf : Finalized pc') :
    Finalized pc := by
  rcases hf with rfl | rfl | hs
  · cases pc <;> cases edge
  · cases pc <;> cases edge
  · exact .inr (.inr ((stage_quietNext edge).symm.trans hs))

theorem quietNext_ne_issue {pc : Pc} {row : InferenceRequest} :
    quietNext pc ≠ some (.persistIssue row) := by
  cases pc <;> exact nofun

/-- A closing handler is neither past its finalization nor issuing a receipt. -/
theorem not_finalized {pc : Pc} (h : stage pc = .caught ∨ stage pc = .closing) : ¬ Finalized pc := by
  rintro (rfl | rfl | hs)
  · rcases h with h | h <;> cases h
  · rcases h with h | h <;> cases h
  · rcases h with h | h <;> rw [hs] at h <;> cases h

theorem not_finalized_route : ¬ Finalized .route := by
  rintro (h | h | h) <;> cases h

theorem not_finalized_generate : ¬ Finalized .generate := by
  rintro (h | h | h) <;> cases h

/-- A ledger call of the handler that takes effect. -/
theorem Inv.called (hi : Inv plan w) (hwf : Wf plan w') {m : LedgerMove}
    (marks : Marks w.ledger w'.ledger m id) (events : w'.ledger.usageEvent = w.ledger.usageEvent)
    (handlers : w'.handlers = Function.update w.handlers id (some h'))
    (requests : w'.requests = w.requests) (receipts : w'.receipts = w.receipts)
    (jobs : w'.jobs = w.jobs) (deliveries : w'.deliveries = w.deliveries)
    (committed : m = .commit ∨ Finalized h'.pc → SucceededRow w id)
    (silent : ∀ row, h'.pc ≠ .persistIssue row) :
    Inv plan w' ∧ ∀ i, Used plan w i → w'.requests i = w.requests i := by
  obtain ⟨hmono, hused⟩ : (∀ i, Used plan w i → Used plan w' i) ∧
      ∀ i, Used plan w' i → Used plan w i ∨ m = .commit ∧ i = id :=
    used_of_called marks events jobs
  have hsame : SucceededRow w' id ↔ SucceededRow w id := by
    unfold SucceededRow
    rw [requests]
  refine hi.handled hwf handlers (fun i _ => by rw [requests]) hmono (fun i hu => ?_)
    (fun hf => hsame.mpr (committed (.inr hf))) (fun row hc => absurd hc (silent row)) ?_ ?_
    deliveries ?_
  · exact (hused i hu).imp_right fun hm => ⟨hm.2, hsame.mpr (committed (.inl hm.1))⟩
  · rw [events]
    exact hi.keyed
  · rw [jobs]
    exact fun _ hjob => hjob
  · rw [receipts]
    exact fun _ hr => .inl hr

/-- An update of the row of a request that is not used. -/
theorem Inv.rowed (hi : Inv plan w) (hwf : Wf plan w') (unused : ¬ Used plan w id)
    {row' : InferenceRequest} (requests : w'.requests = Function.update w.requests id (some row'))
    (handlers : w'.handlers = Function.update w.handlers id (some h'))
    (ledger : w'.ledger = w.ledger) (receipts : w'.receipts = w.receipts)
    (jobs : w'.jobs = w.jobs) (deliveries : w'.deliveries = w.deliveries)
    (finalized : Finalized h'.pc → row'.status = .succeeded)
    (silent : ∀ row, h'.pc ≠ .persistIssue row) :
    Inv plan w' ∧ ∀ i, Used plan w i → w'.requests i = w.requests i := by
  have hsame : ∀ i, Used plan w' i ↔ Used plan w i := fun i => by
    unfold Used
    rw [ledger, jobs]
  refine hi.handled hwf handlers (fun i hne => ?_) (fun i => (hsame i).mpr)
    (fun i hu => .inl ((hsame i).mp hu)) (fun hf => ⟨row', ?_, finalized hf⟩)
    (fun row hc => absurd hc (silent row)) ?_ ?_ deliveries ?_
  · rw [requests]
    exact Function.update_of_ne (hne.resolve_right unused) _ _
  · rw [requests, Function.update_self]
  · rw [ledger]
    exact hi.keyed
  · rw [jobs]
    exact fun _ hjob => hjob
  · rw [receipts]
    exact fun _ hr => .inl hr

theorem HandlerMove.statuses {now : ℤ} {ok : Bool} {outage : Outage} (hi : Inv plan w)
    (present : w.handlers id = some h) (move : HandlerMove plan redis w id h now ok outage w')
    (guard : ClosesUnused plan w (.handler id now ok outage) w') :
    Inv plan w' ∧ ∀ i, Used plan w i → w'.requests i = w.requests i := by
  have hwf := HandlerMove.wf hi.wf present move
  cases move with
  | threw rejected inside =>
    refine hi.quiet hwf (fun hf => absurd hf (not_finalized (.inl rfl))) ?_
    rintro row ⟨⟩
  | advanced pc routed edge =>
    refine hi.quiet hwf (fun hf => hi.finalized id h present (finalized_quietNext edge hf)) ?_
    rintro row rfl
    exact absurd edge quietNext_ne_issue
  | reserved entry ledger here needed call =>
    obtain ⟨hmarks, hevents⟩ := reserve_marks call
    refine hi.called hwf hmarks hevents rfl rfl rfl rfl rfl ?_ ?_
    · exact fun hm => hm.elim nofun fun hf => absurd hf not_finalized_route
    · rintro row ⟨⟩
  | unreserved here free =>
    refine hi.quiet hwf (fun hf => absurd hf not_finalized_route) ?_
    rintro row ⟨⟩
  | dispatched row here found =>
    refine hi.rowed hwf (hi.not_used present (by rw [here]; exact .inr rfl)) rfl rfl rfl rfl rfl rfl
      (fun hf => absurd hf not_finalized_generate) ?_
    rintro row ⟨⟩
  | finalizedRow row here found =>
    refine hi.rowed hwf (hi.not_used present (by rw [here]; exact .inr rfl)) rfl rfl rfl rfl rfl rfl
      (fun _ => rfl) ?_
    rintro row ⟨⟩
  | finalizedAttempt row here =>
    have hrow := hi.finalized id h present (.inl here)
    refine hi.handled hwf rfl (fun _ _ => rfl) (fun _ hu => hu) (fun _ hu => .inl hu) (fun _ => hrow) ?_
      hi.keyed (fun _ hjob => hjob) rfl fun _ hr => .inl hr
    rintro row ⟨⟩
  | committed entry ledger here held call =>
    have hrow := hi.finalized id h present (.inr (.inl here))
    obtain ⟨hmarks, hevents⟩ := commit_marks call
    refine hi.called hwf hmarks hevents rfl rfl rfl rfl rfl (fun _ => hrow) ?_
    rintro row ⟨⟩
  | uncommitted here free =>
    refine hi.quiet hwf (fun _ => hi.finalized id h present (.inr (.inl here))) ?_
    rintro row ⟨⟩
  | enqueued here on =>
    have hrow := hi.finalized id h present (by rw [here]; exact .inr (.inr rfl))
    refine hi.handled hwf rfl (fun _ _ => rfl) (fun i hu => ?_) (fun i hu => ?_) (fun _ => hrow) ?_
      hi.keyed (fun _ hjob => List.mem_append_left _ hjob) rfl fun _ hr => .inl hr
    · exact hu.imp_right (Or.imp_left (List.mem_append_left _))
    · rcases hu with hm | hjob | hevent
      · exact .inl (.inl hm)
      · rcases List.mem_append.mp hjob with hold | hnew
        · exact .inl (.inr (.inl hold))
        · have hid := congrArg UsageJob.inferenceRequestId (List.mem_singleton.mp hnew)
          exact .inr ⟨Option.some.inj hid, hrow⟩
      · exact .inl (.inr (.inr hevent))
    · rintro row ⟨⟩
  | persisted ledger here off call =>
    have hrow := hi.finalized id h present (by rw [here]; exact .inr (.inr rfl))
    obtain ⟨hmarks, hmarks', hevents, hevents', hkeyed⟩ := hi.persisted_effect call
    refine hi.handled hwf rfl (fun _ _ => rfl) (fun i hu => ?_) (fun i hu => ?_) (fun _ => hrow) ?_
      hkeyed (fun _ hjob => hjob) rfl fun _ hr => .inl hr
    · exact hu.imp (hmarks i) (Or.imp_right (hevents i))
    · rcases hu with hm | hjob | hevent
      · exact (hmarks' i hm).imp .inl fun hid => ⟨hid, hrow⟩
      · exact .inl (.inr (.inl hjob))
      · exact (hevents' i hevent).imp (fun he => .inr (.inr he)) fun hid => ⟨hid, hrow⟩
    · rintro row ⟨⟩
  | read row here found =>
    have hfinal : Finalized h.pc := by rw [here]; exact .inr (.inr rfl)
    obtain ⟨hrow, e, he, hkey⟩ := readForReceipt_some found
    refine hi.quiet hwf (fun _ => hi.finalized id h present hfinal) ?_
    rintro row' ⟨⟩
    exact ⟨hrow, .inl (hi.wf.events e he id hkey)⟩
  | issued row here =>
    obtain ⟨hrow, hu⟩ := hi.reading id h row present here
    obtain ⟨receipts, hissue, hnew⟩ := issueReceipt_eq w ((plan id).usageJob id) row now
    rw [hissue] at hwf ⊢
    refine hi.handled hwf rfl (fun _ _ => rfl) (fun _ hu => hu) (fun _ hu => .inl hu)
      (fun _ => hi.used id hu) ?_ hi.keyed (fun _ hjob => hjob) rfl fun r hr => ?_
    · rintro row' ⟨⟩
    · rcases hnew r hr with hold | ⟨hid, hpayload⟩
      · exact .inl hold
      · exact .inr ⟨(Option.some.inj hid).symm, hu, row, hrow, by rw [hpayload]; exact ⟨rfl, rfl, rfl, rfl⟩⟩
  | released entry ledger here held sent call =>
    obtain ⟨hmarks, hevents⟩ := release_marks call
    refine hi.called hwf hmarks hevents rfl rfl rfl rfl rfl ?_ ?_
    · exact fun hm => hm.elim nofun fun hf => absurd hf (not_finalized (.inr rfl))
    · rintro row ⟨⟩
  | releaseLost here held =>
    refine hi.quiet hwf (fun hf => absurd hf (not_finalized (.inr rfl))) ?_
    rintro row ⟨⟩
  | nothingHeld here free =>
    refine hi.quiet hwf (fun hf => absurd hf (not_finalized (.inr rfl))) ?_
    rintro row ⟨⟩
  | closedRow row here sent found =>
    refine hi.rowed hwf (guard sent h present here) rfl rfl rfl rfl rfl rfl
      (fun hf => absurd hf (not_finalized (.inr rfl))) ?_
    rintro row ⟨⟩
  | closedAttempt row here =>
    refine hi.handled hwf rfl (fun _ _ => rfl) (fun _ hu => hu) (fun _ hu => .inl hu)
      (fun hf => absurd hf (not_finalized (.inr rfl))) ?_ hi.keyed (fun _ hjob => hjob) rfl
      fun _ hr => .inl hr
    rintro row ⟨⟩

/-- A move of a worker: it touches no handler and no row. -/
theorem Inv.worked (hi : Inv plan w) (hwf : Wf plan w') (handlers : w'.handlers = w.handlers)
    (requests : w'.requests = w.requests) (jobs : w'.jobs = w.jobs)
    (used : ∀ i, Used plan w' i ↔ Used plan w i)
    (keyed : ∀ e ∈ w'.ledger.usageEvent, ∀ i, e.inferenceRequestId = some i →
      e.idempotencyKey = i ++ ":usage")
    (deliveries : ∀ d ∈ w'.deliveries, d.job ∈ w.jobs ∧
      ∀ row i, d.pc = .issue row → d.job.inferenceRequestId = some i → w.requests i = some row)
    (receipts : ∀ r ∈ w'.receipts, r ∈ w.receipts ∨ Used plan w r.requestId ∧
      ∃ row, w.requests r.requestId = some row ∧ Agrees r.payload row) :
    Inv plan w' ∧ ∀ i, Used plan w i → w'.requests i = w.requests i := by
  have hrow : ∀ i, SucceededRow w' i ↔ SucceededRow w i := fun i => by
    unfold SucceededRow
    rw [requests]
  refine ⟨⟨hwf, keyed, fun d hd => ?_, fun i g hg hf => ?_, fun i hu => ?_, fun i g row hg hpc => ?_,
    fun d hd row i hpc hid => ?_, fun r hr => ?_⟩, fun i _ => by rw [requests]⟩
  · rw [jobs]
    exact (deliveries d hd).1
  · rw [handlers] at hg
    exact (hrow i).mpr (hi.finalized i g hg hf)
  · exact (hrow i).mpr (hi.used i ((used i).mp hu))
  · rw [handlers] at hg
    rw [requests, used]
    exact hi.reading i g row hg hpc
  · rw [requests]
    exact (deliveries d hd).2 row i hpc hid
  · rw [requests, used]
    exact (receipts r hr).elim (hi.receipts r) id

theorem WorkerMove.statuses {k : ℕ} {d : Delivery} {now : ℤ} {faults : Faults} (hi : Inv plan w)
    (present : d ∈ w.deliveries) (move : WorkerMove w k d now faults w') :
    Inv plan w' ∧ ∀ i, Used plan w i → w'.requests i = w.requests i := by
  have hwf := WorkerMove.wf hi.wf present move
  obtain ⟨id, ha⟩ := hi.wf.deliveries d present
  have hjob := hi.delivered d present
  have hid : d.job.inferenceRequestId = some id := by
    rw [ha.payload]
    rfl
  have hu : Used plan w id := (hi.delivered_used present hid).2
  have moved : ∀ pc : DeliveryPc, (∀ row, pc = .issue row → w.requests id = some row) →
      ∀ d' ∈ w.deliveries.set k { d with pc := pc }, d'.job ∈ w.jobs ∧ ∀ row i, d'.pc = .issue row →
        d'.job.inferenceRequestId = some i → w.requests i = some row := by
    intro pc hpc d' hd'
    rcases List.mem_or_eq_of_mem_set hd' with hold | rfl
    · exact ⟨hi.delivered d' hold, hi.issuing d' hold⟩
    · refine ⟨hjob, fun row i hrow hi' => ?_⟩
      obtain rfl := Option.some.inj (hid.symm.trans hi')
      exact hpc row hrow
  cases move with
  | persisted ledger call =>
    rw [ha.payload] at call
    obtain ⟨hmarks, hmarks', hevents, hevents', hkeyed⟩ := hi.persisted_effect call
    refine hi.worked hwf rfl rfl rfl (fun i => ⟨fun hu' => ?_, fun hu' => ?_⟩) hkeyed
      (moved .readRow (by rintro row ⟨⟩)) fun _ hr => .inl hr
    · rcases hu' with hm | hjob' | hevent
      · rcases hmarks' i hm with hold | rfl
        · exact .inl hold
        · exact hu
      · exact .inr (.inl hjob')
      · rcases hevents' i hevent with hold | rfl
        · exact .inr (.inr hold)
        · exact hu
    · exact hu'.imp (hmarks i) (Or.imp_right (hevents i))
  | finished =>
    exact hi.worked hwf rfl rfl rfl (fun _ => Iff.rfl) hi.keyed (moved .finished (by rintro row ⟨⟩))
      fun _ hr => .inl hr
  | read row found =>
    rw [ha.payload] at found
    obtain ⟨hrow, -⟩ := readForReceipt_some found
    refine hi.worked hwf rfl rfl rfl (fun _ => Iff.rfl) hi.keyed (moved (.issue row) ?_) fun _ hr => .inl hr
    rintro row' ⟨⟩
    exact hrow
  | issued row here =>
    have hrow := hi.issuing d present row id here hid
    obtain ⟨receipts, hissue, hnew⟩ := issueReceipt_eq w d.job row now
    rw [hissue] at hwf ⊢
    refine hi.worked hwf rfl rfl rfl (fun _ => Iff.rfl) hi.keyed
      (moved .finished (by rintro row ⟨⟩)) fun r hr => ?_
    rcases hnew r hr with hold | ⟨hr', hpayload⟩
    · exact .inl hold
    · obtain rfl := Option.some.inj (hid.symm.trans hr')
      exact .inr ⟨hu, row, hrow, by rw [hpayload]; exact ⟨rfl, rfl, rfl, rfl⟩⟩

theorem step_agrees (e : Event) (hi : Inv plan w) (hstep : step plan redis w e = some w')
    (guard : ClosesUnused plan w e w') : StatusAgrees plan w e w' ∧ Inv plan w' := by
  have hmove := step_moves hstep
  have hwf := SystemMove.wf hi.wf hmove
  have hkeep : Inv plan w' ∧ ∀ i, Used plan w i → w'.requests i = w.requests i := by
    cases hmove with
    | arrived id absent =>
      have hunused : ¬ Used plan w id := by
        intro hu
        obtain ⟨h, hh, -⟩ := hi.past_of_used hu
        cases absent.symm.trans hh
      refine hi.rowed hwf hunused rfl rfl rfl rfl rfl rfl ?_ ?_
      · rintro (hf | hf | hf) <;> cases hf
      · rintro row ⟨⟩
    | handled id now ok outage h present move => exact HandlerMove.statuses hi present move guard
    | delivered n job accepted =>
      refine hi.worked hwf rfl rfl rfl (fun _ => Iff.rfl) hi.keyed (fun d hd => ?_) fun _ hr => .inl hr
      rcases List.mem_append.mp hd with hold | hnew
      · exact ⟨hi.delivered d hold, hi.issuing d hold⟩
      · rw [List.mem_singleton.mp hnew]
        refine ⟨accepted, ?_⟩
        rintro row i ⟨⟩
    | worked k now ok faults d present move => exact WorkerMove.statuses hi present move
  exact ⟨hkeep.1.agrees hkeep.2, hkeep.1⟩

theorem start_inv (plan : String → ChatPlan) (periods : String → Option (ℤ × ℤ)) :
    Inv plan (start periods) := by
  have hunused : ∀ id, ¬ Used plan (start periods) id := by
    simp [Used, Marked, HasEvent, LedgerDb.Recorded, start, LedgerAccounting.freshDb]
  exact ⟨start_wf plan periods, List.forall_mem_nil _, List.forall_mem_nil _,
    fun _ _ hh => absurd hh (Option.some_ne_none _).symm, fun id hu => absurd hu (hunused id),
    fun _ _ _ hh => absurd hh (Option.some_ne_none _).symm, List.forall_mem_nil _,
    List.forall_mem_nil _⟩

/-- In every run in which the catch block's row update only goes through for
requests nothing of which was committed, enqueued or persisted, the final status
agrees with the charge and every row with its receipt. -/
theorem status_agrees_with_charge (plan : String → ChatPlan) (redis : Bool)
    (periods : String → Option (ℤ × ℤ)) (events : List Event)
    (guarded : EveryStep (step plan redis) (ClosesUnused plan) (start periods) events) :
    EveryStep (step plan redis) (StatusAgrees plan) (start periods) events :=
  everyStep_guarded (Inv plan) (ClosesUnused plan) (StatusAgrees plan)
    (fun _ e _ hi hstep guard => step_agrees e hi hstep guard) (start_inv plan periods) guarded

/-- A request whose generation fails, and whose catch block then releases its
reservation and closes its row. -/
theorem status_agrees_with_charge_of_failed_generation :
    let act := fun ok => Event.handler "a" 0 ok noOutage
    EveryStep (step (fun _ => samplePlan) true) (StatusAgrees fun _ => samplePlan)
      (start fun _ => none) [.arrive "a", act true, act true, act true, act false, act true, act true] := by
  intro act
  exact status_agrees_with_charge (fun _ => samplePlan) true (fun _ => none) _ (by decide)

/-- Request `a` commits and enqueues its job, then the cache update throws: the
catch block marks the charged request failed. -/
theorem charged_request_marked_failed :
    let act := fun ok => Event.handler "a" 0 ok noOutage
    let events := [.arrive "a"] ++ List.replicate 8 (act true) ++ [act false, act true, act true] ++
      [act true]
    ¬ EveryStep (step (fun _ => samplePlan) true) (StatusAgrees fun _ => samplePlan)
      (start fun _ => none) events := by
  intro act events hagrees
  have hend : (run (step (fun _ => samplePlan) true) (start fun _ => none) events).map (fun w =>
      ((w.handlers "a").map Handler.pc, (w.requests "a").map InferenceRequest.status,
        decide (Used (fun _ => samplePlan) w "a"))) = some (some .failed, some .failed, true) := by
    decide
  obtain ⟨u, hu, hfacts⟩ := Option.map_eq_some_iff.mp hend
  simp only [Prod.mk.injEq, Option.map_eq_some_iff, decide_eq_true_eq] at hfacts
  obtain ⟨⟨h, hh, hpc⟩, ⟨row, hrow, hstatus⟩, hused⟩ := hfacts
  obtain ⟨t, hlast⟩ := hagrees.last hu
  exact (hlast.unsuccessful "a" h row hh (.inr hpc) hrow (.inl hstatus)).1 hused

end ModelForge.ChatStatus
