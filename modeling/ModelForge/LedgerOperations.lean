import ModelForge.LedgerStore

set_option autoImplicit false

/-!
# reserveQuota, commitQuota, releaseQuota and persistUsageEvent

The four operations that move the ledger, and for each what it can do: fail
without effect, find its key recorded, or post exactly one entry and move the
counters by that entry's two deltas.
-/
namespace ModelForge.LedgerOperations
open LedgerStore

def wouldExceedQuota (used reserved estimate limit : ℤ) : Bool :=
  limit > 0 && used + reserved + estimate > limit

theorem fits_of_not_exceeded {used reserved estimate limit : ℤ} (hlimit : 0 < limit)
    (h : wouldExceedQuota used reserved estimate limit = false) :
    used + reserved + estimate ≤ limit := by
  simpa [wouldExceedQuota, hlimit] using h

def dayMs : ℤ := 86400000

structure ReserveQuotaInput where
  customerId : String
  requestId : String
  estimatedTokens : ℤ
  idempotencyKey : String
  limit : ℤ
  periodStart : Option ℤ
  periodEnd : Option ℤ

def ReserveQuotaInput.entry (input : ReserveQuotaInput) (now : ℤ) : QuotaLedgerEntry :=
  { ledgerId := input.customerId
    idempotencyKey := input.idempotencyKey
    deltaTokens := 0
    reservedDelta := input.estimatedTokens
    reason := .reserve
    requestId := input.requestId
    createdAt := now }

def reserveQuotaTx (now : ℤ) (input : ReserveQuotaInput) : Tx QuotaLedgerEntry := do
  match ← findUniqueEntry input.idempotencyKey with
  | some existing => return existing
  | none =>
    let ledger ← upsertLedger input.customerId (input.periodStart.getD now)
      (input.periodEnd.getD (now + 30 * dayMs))
    if wouldExceedQuota ledger.tokensUsed ledger.tokensReserved input.estimatedTokens input.limit then
      throw .quotaExceeded
    else
      let entry ← createEntry (input.entry now)
      let _ ← incrementLedger input.customerId 0 input.estimatedTokens
      return entry

def reserveQuota (now : ℤ) (input : ReserveQuotaInput) (outage : Outage) (db : LedgerDb) :
    Except OperationError QuotaLedgerEntry × LedgerDb :=
  ledgerCall (reserveQuotaTx now input) input.idempotencyKey outage db

structure CommitQuotaInput where
  customerId : String
  requestId : String
  actualTokens : ℤ
  idempotencyKey : String

def CommitQuotaInput.entry (input : CommitQuotaInput) (now release : ℤ) : QuotaLedgerEntry :=
  { ledgerId := input.customerId
    idempotencyKey := input.idempotencyKey
    deltaTokens := input.actualTokens
    reservedDelta := -release
    reason := .commit
    requestId := input.requestId
    createdAt := now }

/-- The commit frees what the request's own entries still hold. -/
def commitRelease (reserved : ℤ) : ℤ := if reserved > 0 then reserved else 0

def commitQuotaTx (now : ℤ) (input : CommitQuotaInput) : Tx QuotaLedgerEntry := do
  match ← findUniqueEntry input.idempotencyKey with
  | some existing => return existing
  | none =>
    let _ ← findUniqueLedgerOrThrow input.customerId
    let reserved ← aggregateReserved input.customerId input.requestId
    let release := commitRelease reserved
    let entry ← createEntry (input.entry now release)
    let _ ← incrementLedger input.customerId input.actualTokens (-release)
    return entry

def commitQuota (now : ℤ) (input : CommitQuotaInput) (outage : Outage) (db : LedgerDb) :
    Except OperationError QuotaLedgerEntry × LedgerDb :=
  ledgerCall (commitQuotaTx now input) input.idempotencyKey outage db

structure ReleaseQuotaInput where
  customerId : String
  requestId : String
  reservedTokens : ℤ
  idempotencyKey : String

/-- The amount is clamped against the customer's counter, not the request's hold. -/
def releaseAmount (reservedTokens tokensReserved : ℤ) : ℤ :=
  if reservedTokens > tokensReserved then tokensReserved else reservedTokens

def ReleaseQuotaInput.entry (input : ReleaseQuotaInput) (now amount : ℤ) : QuotaLedgerEntry :=
  { ledgerId := input.customerId
    idempotencyKey := input.idempotencyKey
    deltaTokens := 0
    reservedDelta := -amount
    reason := .release
    requestId := input.requestId
    createdAt := now }

def releaseQuotaTx (now : ℤ) (input : ReleaseQuotaInput) : Tx QuotaLedgerEntry := do
  match ← findUniqueEntry input.idempotencyKey with
  | some existing => return existing
  | none =>
    let ledger ← findUniqueLedgerOrThrow input.customerId
    let amount := releaseAmount input.reservedTokens ledger.tokensReserved
    let entry ← createEntry (input.entry now amount)
    let _ ← incrementLedger input.customerId 0 (-amount)
    return entry

def releaseQuota (now : ℤ) (input : ReleaseQuotaInput) (outage : Outage) (db : LedgerDb) :
    Except OperationError QuotaLedgerEntry × LedgerDb :=
  ledgerCall (releaseQuotaTx now input) input.idempotencyKey outage db

/-- The payload of a usage job. -/
structure UsageJob where
  customerId : String
  apiKeyId : String
  hostedModelId : Option String
  modelSlug : String
  promptTokens : ℤ
  completionTokens : ℤ
  latencyMs : ℤ
  requestId : String
  idempotencyKey : String
  inferenceRequestId : Option String
  deriving DecidableEq, Repr

def UsageJob.tokens (data : UsageJob) : ℤ := data.promptTokens + data.completionTokens

def UsageJob.commitKey (data : UsageJob) : String := data.idempotencyKey ++ ":commit"

def UsageJob.entry (data : UsageJob) (now : ℤ) : QuotaLedgerEntry :=
  { ledgerId := data.customerId
    idempotencyKey := data.commitKey
    deltaTokens := data.tokens
    reservedDelta := 0
    reason := .usageCommit
    requestId := data.inferenceRequestId.getD data.requestId
    createdAt := now }

/-- An empty model id is stored as null. -/
def UsageJob.event (data : UsageJob) (now : ℤ) : UsageEvent :=
  { customerId := data.customerId
    apiKeyId := data.apiKeyId
    modelId := data.hostedModelId.filter fun id => id ≠ ""
    modelSlug := data.modelSlug
    promptTokens := data.promptTokens
    completionTokens := data.completionTokens
    latencyMs := data.latencyMs
    requestId := data.requestId
    idempotencyKey := data.idempotencyKey
    inferenceRequestId := data.inferenceRequestId
    createdAt := now }

/-- The transaction of `persistUsageEvent`. -/
def persistUsageTx (now : ℤ) (data : UsageJob) : Tx Unit := do
  match ← findUniqueEvent data.idempotencyKey with
  | some _ => return ()
  | none =>
    let _ ← upsertLedger data.customerId now (now + 30 * dayMs)
    let inserted ← createEntrySkipDuplicates (data.entry now)
    let _ ← upsertEvent (data.event now)
    if inserted = 1 then
      let _ ← incrementLedger data.customerId data.tokens 0
      return ()
    else return ()

def persistUsage (now : ℤ) (data : UsageJob) (faults : Faults) (db : LedgerDb) :
    Except OperationError Unit × LedgerDb :=
  transaction (persistUsageTx now data) faults db

/-- One new entry was appended and its ledger's counters moved by its deltas. -/
structure Posts (db : LedgerDb) (entry : QuotaLedgerEntry) (db' : LedgerDb) : Prop where
  fresh : ¬ db.Recorded entry.idempotencyKey
  entries : db'.quotaLedgerEntry = db.quotaLedgerEntry ++ [entry]
  used : ∀ c, db'.tokensUsed c =
    db.tokensUsed c + if entry.ledgerId = c then entry.deltaTokens else 0
  reserved : ∀ c, db'.tokensReserved c =
    db.tokensReserved c + if entry.ledgerId = c then entry.reservedDelta else 0

/-- Neither the entries nor any customer's counters changed. -/
structure Untouched (db db' : LedgerDb) : Prop where
  entries : db'.quotaLedgerEntry = db.quotaLedgerEntry
  used : ∀ c, db'.tokensUsed c = db.tokensUsed c
  reserved : ∀ c, db'.tokensReserved c = db.tokensReserved c

theorem Untouched.rfl {db : LedgerDb} : Untouched db db := ⟨Eq.refl _, fun _ => Eq.refl _, fun _ => Eq.refl _⟩

/-- The ledger row of a customer, or the row an upsert would create. -/
def rowOrNew (db : LedgerDb) (customerId : String) (periodStart periodEnd : ℤ) : QuotaLedger :=
  (db.quotaLedger customerId).getD ⟨periodStart, periodEnd, 0, 0⟩

theorem rowOrNew_counters (db : LedgerDb) (c : String) (a b : ℤ) :
    (rowOrNew db c a b).tokensUsed = db.tokensUsed c ∧
      (rowOrNew db c a b).tokensReserved = db.tokensReserved c := by
  unfold rowOrNew LedgerDb.tokensUsed LedgerDb.tokensReserved
  cases db.quotaLedger c <;> exact ⟨rfl, rfl⟩

theorem row_counters {db : LedgerDb} {c : String} {row : QuotaLedger}
    (h : db.quotaLedger c = some row) :
    row.tokensUsed = db.tokensUsed c ∧ row.tokensReserved = db.tokensReserved c := by
  unfold LedgerDb.tokensUsed LedgerDb.tokensReserved
  rw [h]
  exact ⟨rfl, rfl⟩

theorem posts_of_update {db db' : LedgerDb} {row : QuotaLedger} {entry : QuotaLedgerEntry}
    {used reserved : ℤ} (fresh : ¬ db.Recorded entry.idempotencyKey)
    (hrow : row.tokensUsed = db.tokensUsed entry.ledgerId ∧
      row.tokensReserved = db.tokensReserved entry.ledgerId)
    (hused : used = entry.deltaTokens) (hreserved : reserved = entry.reservedDelta)
    (entries : db'.quotaLedgerEntry = db.quotaLedgerEntry ++ [entry])
    (ledger : db'.quotaLedger = Function.update db.quotaLedger entry.ledgerId (some { row with
      tokensUsed := row.tokensUsed + used
      tokensReserved := row.tokensReserved + reserved })) : Posts db entry db' := by
  subst hused hreserved
  refine ⟨fresh, entries, ?_, ?_⟩
  · intro c
    by_cases hc : c = entry.ledgerId
    · subst hc
      simp [LedgerDb.tokensUsed, ledger, hrow.1]
    · simp [LedgerDb.tokensUsed, ledger, hc, Ne.symm hc]
  · intro c
    by_cases hc : c = entry.ledgerId
    · subst hc
      simp [LedgerDb.tokensReserved, ledger, hrow.2]
    · simp [LedgerDb.tokensReserved, ledger, hc, Ne.symm hc]

theorem findUniqueEntry_ok {key : String} {s t : Session} {r : Option QuotaLedgerEntry}
    (h : findUniqueEntry key s = .ok (r, t)) : r = s.db.findEntry key ∧ t.db = s.db := by
  have hq := query_ok h
  simp only [Except.ok.injEq, Prod.mk.injEq] at hq
  exact ⟨hq.1.symm, hq.2.symm⟩

theorem upsertLedger_ok {c : String} {a b : ℤ} {s t : Session} {row : QuotaLedger}
    (h : upsertLedger c a b s = .ok (row, t)) :
    row = rowOrNew s.db c a b ∧
      t.db = { s.db with quotaLedger := Function.update s.db.quotaLedger c (some row) } := by
  have hq := query_ok h
  unfold rowOrNew
  cases hrow : s.db.quotaLedger c with
  | some old =>
    simp only [hrow, Except.ok.injEq, Prod.mk.injEq] at hq
    obtain ⟨rfl, hdb⟩ := hq
    refine ⟨rfl, ?_⟩
    rw [← hrow, Function.update_eq_self]
    exact hdb.symm
  | none =>
    simp only [hrow, Except.ok.injEq, Prod.mk.injEq] at hq
    obtain ⟨rfl, hdb⟩ := hq
    exact ⟨rfl, hdb.symm⟩

theorem createEntry_ok {entry e : QuotaLedgerEntry} {s t : Session}
    (h : createEntry entry s = .ok (e, t)) :
    e = entry ∧ ¬ s.db.Recorded entry.idempotencyKey ∧
      t.db = { s.db with quotaLedgerEntry := s.db.quotaLedgerEntry ++ [entry] } := by
  have hq := query_ok h
  split at hq
  · cases hq
  · rename_i hnew
    simp only [Except.ok.injEq, Prod.mk.injEq] at hq
    exact ⟨hq.1.symm, hnew, hq.2.symm⟩

theorem createEntrySkipDuplicates_ok {entry : QuotaLedgerEntry} {n : ℕ} {s t : Session}
    (h : createEntrySkipDuplicates entry s = .ok (n, t)) :
    (s.db.Recorded entry.idempotencyKey ∧ n = 0 ∧ t.db = s.db) ∨
    (¬ s.db.Recorded entry.idempotencyKey ∧ n = 1 ∧
      t.db = { s.db with quotaLedgerEntry := s.db.quotaLedgerEntry ++ [entry] }) := by
  have hq := query_ok h
  split at hq
  · rename_i hold
    simp only [Except.ok.injEq, Prod.mk.injEq] at hq
    exact .inl ⟨hold, hq.1.symm, hq.2.symm⟩
  · rename_i hnew
    simp only [Except.ok.injEq, Prod.mk.injEq] at hq
    exact .inr ⟨hnew, hq.1.symm, hq.2.symm⟩

theorem findUniqueLedgerOrThrow_ok {c : String} {s t : Session} {row : QuotaLedger}
    (h : findUniqueLedgerOrThrow c s = .ok (row, t)) : s.db.quotaLedger c = some row ∧ t.db = s.db := by
  have hq := query_ok h
  split at hq
  · rename_i hrow
    simp only [Except.ok.injEq, Prod.mk.injEq] at hq
    exact ⟨by rw [hrow, hq.1], hq.2.symm⟩
  · cases hq

theorem aggregateReserved_ok {c r : String} {s t : Session} {total : ℤ}
    (h : aggregateReserved c r s = .ok (total, t)) : total = reservedSum s.db c r ∧ t.db = s.db := by
  have hq := query_ok h
  simp only [Except.ok.injEq, Prod.mk.injEq] at hq
  exact ⟨hq.1.symm, hq.2.symm⟩

theorem incrementLedger_ok {c : String} {used reserved : ℤ} {s t : Session} {next : QuotaLedger}
    (h : incrementLedger c used reserved s = .ok (next, t)) :
    ∃ row, s.db.quotaLedger c = some row ∧
      t.db = { s.db with quotaLedger := Function.update s.db.quotaLedger c (some { row with
        tokensUsed := row.tokensUsed + used
        tokensReserved := row.tokensReserved + reserved }) } := by
  have hq := query_ok h
  split at hq
  · cases hq
  · rename_i row hrow
    simp only [Except.ok.injEq, Prod.mk.injEq] at hq
    exact ⟨row, hrow, hq.2.symm⟩

theorem findUniqueEvent_ok {key : String} {s t : Session} {r : Option UsageEvent}
    (h : findUniqueEvent key s = .ok (r, t)) : r = s.db.findEvent key ∧ t.db = s.db := by
  have hq := query_ok h
  simp only [Except.ok.injEq, Prod.mk.injEq] at hq
  exact ⟨hq.1.symm, hq.2.symm⟩

theorem upsertEvent_ok {event e : UsageEvent} {s t : Session}
    (h : upsertEvent event s = .ok (e, t)) (hnew : s.db.findEvent event.idempotencyKey = none) :
    t.db = { s.db with usageEvent := s.db.usageEvent ++ [event] } ∧
      (event.inferenceRequestId ≠ none →
        ∀ old ∈ s.db.usageEvent, old.inferenceRequestId ≠ event.inferenceRequestId) := by
  have hq := query_ok h
  simp only [hnew] at hq
  split at hq
  · cases hq
  · rename_i hfirst
    simp only [Except.ok.injEq, Prod.mk.injEq] at hq
    refine ⟨hq.2.symm, fun hsome old hold heq => hfirst ⟨hsome, old, hold, heq⟩⟩

/-- A ledger call returns the entry of its key, or goes on where there is none. -/
theorem posting_ok {key : String} {body : Tx QuotaLedgerEntry} {db : LedgerDb} {faults : Faults}
    {e : QuotaLedgerEntry} {s : Session}
    (h : (do
      match ← findUniqueEntry key with
      | some existing => return existing
      | none => body : Tx QuotaLedgerEntry) ⟨db, 0, faults⟩ = .ok (e, s)) :
    (e ∈ db.quotaLedgerEntry ∧ e.idempotencyKey = key ∧ s.db = db) ∨
      ¬ db.Recorded key ∧
        ∃ s₁ : Session, s₁.db = db ∧ body s₁ = .ok (e, s) := by
  obtain ⟨existing, s₁, h₁, h⟩ := bind_ok h
  obtain ⟨rfl, hdb₁⟩ := findUniqueEntry_ok h₁
  cases hkey : db.findEntry key with
  | some old =>
    simp only [hkey] at h
    cases h
    obtain ⟨hmem, hold⟩ := LedgerDb.findEntry_eq_some hkey
    exact .inl ⟨hmem, hold, hdb₁⟩
  | none =>
    simp only [hkey] at h
    exact .inr ⟨LedgerDb.findEntry_eq_none.mp hkey, s₁, hdb₁, h⟩

theorem reserveQuotaTx_ok {now : ℤ} {input : ReserveQuotaInput} {db : LedgerDb} {faults : Faults}
    {e : QuotaLedgerEntry} {s : Session}
    (h : reserveQuotaTx now input ⟨db, 0, faults⟩ = .ok (e, s)) :
    (e ∈ db.quotaLedgerEntry ∧ e.idempotencyKey = input.idempotencyKey ∧ s.db = db) ∨
    (e = input.entry now ∧ Posts db (input.entry now) s.db ∧ s.db.usageEvent = db.usageEvent ∧
      wouldExceedQuota (db.tokensUsed input.customerId) (db.tokensReserved input.customerId)
        input.estimatedTokens input.limit = false) := by
  rcases posting_ok h with hreplayed | ⟨hfresh, s₁, hdb₁, h⟩
  · exact .inl hreplayed
  · obtain ⟨row, s₂, h₂, h⟩ := bind_ok h
    obtain ⟨hrow, hdb₂⟩ := upsertLedger_ok h₂
    rw [hdb₁] at hrow hdb₂
    obtain ⟨hused, hreserved⟩ := rowOrNew_counters db input.customerId
      (input.periodStart.getD now) (input.periodEnd.getD (now + 30 * dayMs))
    rw [← hrow] at hused hreserved
    split at h
    · cases h
    · rename_i hquota
      obtain ⟨entry, s₃, h₃, h⟩ := bind_ok h
      obtain ⟨rfl, _, hdb₃⟩ := createEntry_ok h₃
      obtain ⟨_, s₄, h₄, h⟩ := bind_ok h
      obtain ⟨row', hrow', hdb₄⟩ := incrementLedger_ok h₄
      cases h
      rw [hdb₃, hdb₂] at hrow' hdb₄
      simp only [Function.update_self, Option.some.injEq] at hrow'
      subst hrow'
      refine .inr ⟨rfl, posts_of_update hfresh ⟨hused, hreserved⟩
        rfl rfl ?_ ?_, ?_, ?_⟩
      · rw [hdb₄]
      · rw [hdb₄]
        exact Function.update_idem _ _ _
      · rw [hdb₄]
      · simpa [hused, hreserved] using hquota

theorem commitQuotaTx_ok {now : ℤ} {input : CommitQuotaInput} {db : LedgerDb} {faults : Faults}
    {e : QuotaLedgerEntry} {s : Session}
    (h : commitQuotaTx now input ⟨db, 0, faults⟩ = .ok (e, s)) :
    (e ∈ db.quotaLedgerEntry ∧ e.idempotencyKey = input.idempotencyKey ∧ s.db = db) ∨
    (e = input.entry now (commitRelease (reservedSum db input.customerId input.requestId)) ∧
      Posts db e s.db ∧ s.db.usageEvent = db.usageEvent ∧
      db.quotaLedger input.customerId ≠ none) := by
  rcases posting_ok h with hreplayed | ⟨hfresh, s₁, hdb₁, h⟩
  · exact .inl hreplayed
  · obtain ⟨row, s₂, h₂, h⟩ := bind_ok h
    obtain ⟨hrow, hdb₂⟩ := findUniqueLedgerOrThrow_ok h₂
    obtain ⟨total, s₃, h₃, h⟩ := bind_ok h
    obtain ⟨rfl, hdb₃⟩ := aggregateReserved_ok h₃
    obtain ⟨entry, s₄, h₄, h⟩ := bind_ok h
    obtain ⟨rfl, _, hdb₄⟩ := createEntry_ok h₄
    obtain ⟨_, s₅, h₅, h⟩ := bind_ok h
    obtain ⟨row', hrow', hdb₅⟩ := incrementLedger_ok h₅
    cases h
    have e₂ : s₂.db = db := hdb₂.trans hdb₁
    have e₃ : s₃.db = db := hdb₃.trans e₂
    rw [hdb₁] at hrow
    rw [e₂, e₃] at hdb₄
    rw [hdb₄] at hrow' hdb₅
    rw [e₂] at hdb₅ ⊢
    rw [hrow, Option.some.injEq] at hrow'
    subst hrow'
    refine .inr ⟨rfl, posts_of_update hfresh (row_counters hrow)
      rfl rfl ?_ ?_, ?_, ?_⟩
    · rw [hdb₅]
    · rw [hdb₅]
      rfl
    · rw [hdb₅]
    · rw [hrow]
      exact Option.some_ne_none row

theorem releaseQuotaTx_ok {now : ℤ} {input : ReleaseQuotaInput} {db : LedgerDb} {faults : Faults}
    {e : QuotaLedgerEntry} {s : Session}
    (h : releaseQuotaTx now input ⟨db, 0, faults⟩ = .ok (e, s)) :
    (e ∈ db.quotaLedgerEntry ∧ e.idempotencyKey = input.idempotencyKey ∧ s.db = db) ∨
    (e = input.entry now (releaseAmount input.reservedTokens (db.tokensReserved input.customerId)) ∧
      Posts db e s.db ∧ s.db.usageEvent = db.usageEvent ∧
      db.quotaLedger input.customerId ≠ none) := by
  rcases posting_ok h with hreplayed | ⟨hfresh, s₁, hdb₁, h⟩
  · exact .inl hreplayed
  · obtain ⟨row, s₂, h₂, h⟩ := bind_ok h
    obtain ⟨hrow, hdb₂⟩ := findUniqueLedgerOrThrow_ok h₂
    obtain ⟨entry, s₃, h₃, h⟩ := bind_ok h
    obtain ⟨rfl, _, hdb₃⟩ := createEntry_ok h₃
    obtain ⟨_, s₄, h₄, h⟩ := bind_ok h
    obtain ⟨row', hrow', hdb₄⟩ := incrementLedger_ok h₄
    cases h
    rw [hdb₁] at hrow hdb₂
    rw [hdb₂] at hdb₃
    rw [hdb₃] at hrow' hdb₄
    rw [hrow, Option.some.injEq] at hrow'
    subst hrow'
    refine .inr ⟨by rw [(row_counters hrow).2], posts_of_update hfresh
      (row_counters hrow) rfl rfl ?_ ?_, ?_, ?_⟩
    · rw [hdb₄]
    · rw [hdb₄]
      rfl
    · rw [hdb₄]
    · rw [hrow]
      exact Option.some_ne_none row

/-- What a ledger call leaves: the tables as they were, or its own new entry
posted, which it does only under its guard. -/
inductive Called (db : LedgerDb) (key : String) (guard : Prop) (entry : QuotaLedgerEntry) :
    Except OperationError QuotaLedgerEntry × LedgerDb → Prop where
  | failed (e : OperationError) : Called db key guard entry (.error e, db)
  | replayed {old : QuotaLedgerEntry} (mem : old ∈ db.quotaLedgerEntry)
      (under : old.idempotencyKey = key) : Called db key guard entry (.ok old, db)
  | posted {db' : LedgerDb} (under : entry.idempotencyKey = key) (admitted : guard)
      (posts : Posts db entry db') (events : db'.usageEvent = db.usageEvent) :
      Called db key guard entry (.ok entry, db')

/-- A reservation is posted only where the estimate still fits the limit. -/
theorem reserveQuota_called (now : ℤ) (input : ReserveQuotaInput) (outage : Outage)
    (db : LedgerDb) :
    Called db input.idempotencyKey
      (wouldExceedQuota (db.tokensUsed input.customerId) (db.tokensReserved input.customerId)
        input.estimatedTokens input.limit = false)
      (input.entry now) (reserveQuota now input outage db) := by
  unfold reserveQuota
  rcases ledgerCall_cases (reserveQuotaTx now input) input.idempotencyKey outage db with
    ⟨e, he⟩ | ⟨e, hmem, hkey, he⟩ | ⟨e, faults, s, he, hbody⟩
  · exact he ▸ .failed e
  · exact he ▸ .replayed hmem hkey
  · rw [he]
    rcases reserveQuotaTx_ok hbody with ⟨hmem, hkey, hdb⟩ | ⟨rfl, hposts, hevents, hquota⟩
    · rw [hdb]
      exact .replayed hmem hkey
    · exact .posted rfl hquota hposts hevents

theorem commitQuota_called (now : ℤ) (input : CommitQuotaInput) (outage : Outage)
    (db : LedgerDb) :
    Called db input.idempotencyKey (db.quotaLedger input.customerId ≠ none)
      (input.entry now (commitRelease (reservedSum db input.customerId input.requestId)))
      (commitQuota now input outage db) := by
  unfold commitQuota
  rcases ledgerCall_cases (commitQuotaTx now input) input.idempotencyKey outage db with
    ⟨e, he⟩ | ⟨e, hmem, hkey, he⟩ | ⟨e, faults, s, he, hbody⟩
  · exact he ▸ .failed e
  · exact he ▸ .replayed hmem hkey
  · rw [he]
    rcases commitQuotaTx_ok hbody with ⟨hmem, hkey, hdb⟩ | ⟨rfl, hposts, hevents, hledger⟩
    · rw [hdb]
      exact .replayed hmem hkey
    · exact .posted rfl hledger hposts hevents

theorem releaseQuota_called (now : ℤ) (input : ReleaseQuotaInput) (outage : Outage)
    (db : LedgerDb) :
    Called db input.idempotencyKey (db.quotaLedger input.customerId ≠ none)
      (input.entry now (releaseAmount input.reservedTokens (db.tokensReserved input.customerId)))
      (releaseQuota now input outage db) := by
  unfold releaseQuota
  rcases ledgerCall_cases (releaseQuotaTx now input) input.idempotencyKey outage db with
    ⟨e, he⟩ | ⟨e, hmem, hkey, he⟩ | ⟨e, faults, s, he, hbody⟩
  · exact he ▸ .failed e
  · exact he ▸ .replayed hmem hkey
  · rw [he]
    rcases releaseQuotaTx_ok hbody with ⟨hmem, hkey, hdb⟩ | ⟨rfl, hposts, hevents, hledger⟩
    · rw [hdb]
      exact .replayed hmem hkey
    · exact .posted rfl hledger hposts hevents

/-- What the transaction of a usage job leaves: nothing changed, or a new event
and, unless a commit had already recorded the job's entry, that entry posted. -/
inductive Persisted (db : LedgerDb) (job : UsageJob) (now : ℤ) :
    Except OperationError Unit × LedgerDb → Prop where
  | failed (e : OperationError) : Persisted db job now (.error e, db)
  | replayed {old : UsageEvent} (mem : old ∈ db.usageEvent)
      (under : old.idempotencyKey = job.idempotencyKey) : Persisted db job now (.ok (), db)
  | recorded {db' : LedgerDb} (first : ∀ old ∈ db.usageEvent, old.idempotencyKey ≠ job.idempotencyKey)
      (events : db'.usageEvent = db.usageEvent ++ [job.event now])
      (charged : db.Recorded job.commitKey) (untouched : Untouched db db') :
      Persisted db job now (.ok (), db')
  | posted {db' : LedgerDb} (first : ∀ old ∈ db.usageEvent, old.idempotencyKey ≠ job.idempotencyKey)
      (events : db'.usageEvent = db.usageEvent ++ [job.event now])
      (posts : Posts db (job.entry now) db') : Persisted db job now (.ok (), db')

theorem persistUsageTx_ok {now : ℤ} {job : UsageJob} {db : LedgerDb} {faults : Faults}
    {a : Unit} {s : Session} (h : persistUsageTx now job ⟨db, 0, faults⟩ = .ok (a, s)) :
    Persisted db job now (.ok (), s.db) := by
  obtain ⟨existing, s₁, h₁, h⟩ := bind_ok h
  obtain ⟨rfl, hdb₁⟩ := findUniqueEvent_ok h₁
  cases hevent : db.findEvent job.idempotencyKey with
  | some old =>
    simp only [hevent] at h
    cases h
    obtain ⟨hmem, hold⟩ := LedgerDb.findEvent_eq_some hevent
    rw [hdb₁]
    exact .replayed hmem hold
  | none =>
    simp only [hevent] at h
    have first := LedgerDb.findEvent_eq_none.mp hevent
    obtain ⟨row, s₂, h₂, h⟩ := bind_ok h
    obtain ⟨hrow, hdb₂⟩ := upsertLedger_ok h₂
    rw [hdb₁] at hrow hdb₂
    have hcounters := rowOrNew_counters db job.customerId now (now + 30 * dayMs)
    rw [← hrow] at hcounters
    obtain ⟨inserted, s₃, h₃, h⟩ := bind_ok h
    have hinsert := createEntrySkipDuplicates_ok h₃
    rw [hdb₂] at hinsert
    obtain ⟨_, s₄, h₄, h⟩ := bind_ok h
    rcases hinsert with ⟨hold, rfl, hdb₃⟩ | ⟨hnew, rfl, hdb₃⟩
    · -- a commit recorded the job's entry first: only the event is new
      have hnone : s₃.db.findEvent (job.event now).idempotencyKey = none := by
        rw [hdb₃]
        exact hevent
      obtain ⟨hdb₄, _⟩ := upsertEvent_ok h₄ hnone
      simp only [zero_ne_one, ↓reduceIte] at h
      cases h
      rw [hdb₃] at hdb₄
      refine .recorded first (by rw [hdb₄]) hold ⟨by rw [hdb₄], ?_, ?_⟩
      · intro c
        by_cases hc : c = job.customerId
        · subst hc
          simp [LedgerDb.tokensUsed, hdb₄, hcounters.1]
        · simp [LedgerDb.tokensUsed, hdb₄, hc]
      · intro c
        by_cases hc : c = job.customerId
        · subst hc
          simp [LedgerDb.tokensReserved, hdb₄, hcounters.2]
        · simp [LedgerDb.tokensReserved, hdb₄, hc]
    · have hnone : s₃.db.findEvent (job.event now).idempotencyKey = none := by
        rw [hdb₃]
        exact hevent
      obtain ⟨hdb₄, _⟩ := upsertEvent_ok h₄ hnone
      simp only [↓reduceIte] at h
      obtain ⟨_, s₅, h₅, h⟩ := bind_ok h
      obtain ⟨row', hrow', hdb₅⟩ := incrementLedger_ok h₅
      cases h
      rw [hdb₃] at hdb₄
      rw [hdb₄] at hrow' hdb₅
      simp only [Function.update_self, Option.some.injEq] at hrow'
      subst hrow'
      refine .posted first (by rw [hdb₅]) (posts_of_update hnew hcounters rfl rfl ?_ ?_)
      · rw [hdb₅]
      · rw [hdb₅]
        exact Function.update_idem _ _ _

theorem persistUsage_persisted (now : ℤ) (job : UsageJob) (faults : Faults) (db : LedgerDb) :
    Persisted db job now (persistUsage now job faults db) := by
  unfold persistUsage
  rcases transaction_cases (persistUsageTx now job) faults db with ⟨e, he⟩ | ⟨a, s, hs, hbody⟩
  · rw [he]
    exact .failed e
  · rw [hs]
    exact persistUsageTx_ok hbody

end ModelForge.LedgerOperations
