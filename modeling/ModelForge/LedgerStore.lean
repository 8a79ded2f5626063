import ModelForge.RunInvariant

set_option autoImplicit false

/-!
# The quota tables and the database client

The rows behind `quotaLedger`, `quotaLedgerEntry` and `usageEvent`, the client
calls the ledger makes on them, and its transactions. Any statement may fail
with any client error; a transaction that fails leaves the tables as they were.
-/
namespace ModelForge.LedgerStore

/-- Client error codes: unique constraint, record not found, write conflict. -/
inductive PrismaCode where
  | P2002
  | P2025
  | P2034
  | other
  deriving DecidableEq, Repr

inductive OperationError where
  | prisma (code : PrismaCode)
  | quotaExceeded
  deriving DecidableEq, Repr

inductive EntryReason where
  | reserve
  | commit
  | release
  | usageCommit
  deriving DecidableEq, Repr

/-- A ledger row. `customerId` is unique, so the row's index stands for its id. -/
structure QuotaLedger where
  periodStart : ℤ
  periodEnd : ℤ
  tokensUsed : ℤ
  tokensReserved : ℤ
  deriving DecidableEq, Repr

structure QuotaLedgerEntry where
  ledgerId : String
  idempotencyKey : String
  deltaTokens : ℤ
  reservedDelta : ℤ
  reason : EntryReason
  requestId : String
  createdAt : ℤ
  deriving DecidableEq, Repr

structure UsageEvent where
  customerId : String
  apiKeyId : String
  modelId : Option String
  modelSlug : String
  promptTokens : ℤ
  completionTokens : ℤ
  latencyMs : ℤ
  requestId : String
  idempotencyKey : String
  inferenceRequestId : Option String
  createdAt : ℤ
  deriving DecidableEq, Repr

structure LedgerDb where
  quotaLedger : String → Option QuotaLedger
  quotaLedgerEntry : List QuotaLedgerEntry
  usageEvent : List UsageEvent

namespace LedgerDb

def findEntry (db : LedgerDb) (key : String) : Option QuotaLedgerEntry :=
  db.quotaLedgerEntry.find? fun e => e.idempotencyKey = key

def findEvent (db : LedgerDb) (key : String) : Option UsageEvent :=
  db.usageEvent.find? fun e => e.idempotencyKey = key

def Recorded (db : LedgerDb) (key : String) : Prop :=
  ∃ e ∈ db.quotaLedgerEntry, e.idempotencyKey = key

instance (db : LedgerDb) (key : String) : Decidable (db.Recorded key) :=
  inferInstanceAs (Decidable (∃ e ∈ db.quotaLedgerEntry, e.idempotencyKey = key))

/-- A customer without a ledger row has used and reserved nothing. -/
def tokensUsed (db : LedgerDb) (customer : String) : ℤ :=
  ((db.quotaLedger customer).map QuotaLedger.tokensUsed).getD 0

def tokensReserved (db : LedgerDb) (customer : String) : ℤ :=
  ((db.quotaLedger customer).map QuotaLedger.tokensReserved).getD 0

def entriesOf (db : LedgerDb) (customer : String) : List QuotaLedgerEntry :=
  db.quotaLedgerEntry.filter fun e => e.ledgerId = customer

theorem findEntry_eq_none {db : LedgerDb} {key : String} :
    db.findEntry key = none ↔ ¬ db.Recorded key := by
  simp [findEntry, Recorded]

theorem findEntry_eq_some {db : LedgerDb} {key : String} {e : QuotaLedgerEntry}
    (h : db.findEntry key = some e) : e ∈ db.quotaLedgerEntry ∧ e.idempotencyKey = key :=
  ⟨List.mem_of_find?_eq_some h, by simpa using List.find?_some h⟩

theorem findEvent_eq_none {db : LedgerDb} {key : String} :
    db.findEvent key = none ↔ ∀ e ∈ db.usageEvent, e.idempotencyKey ≠ key := by
  simp [findEvent]

theorem findEvent_eq_some {db : LedgerDb} {key : String} {e : UsageEvent}
    (h : db.findEvent key = some e) : e ∈ db.usageEvent ∧ e.idempotencyKey = key :=
  ⟨List.mem_of_find?_eq_some h, by simpa using List.find?_some h⟩

end LedgerDb

/-- The error, if any, with which the n-th statement of a transaction fails. -/
abbrev Faults := ℕ → Option PrismaCode

structure Session where
  db : LedgerDb
  sent : ℕ
  faults : Faults

abbrev Tx (α : Type) := StateT Session (Except OperationError) α

/-- One statement: it fails as the session's faults say, or does its work. -/
def query {α : Type} (work : LedgerDb → Except OperationError (α × LedgerDb)) : Tx α := fun s =>
  match s.faults s.sent with
  | some code => .error (.prisma code)
  | none =>
    match work s.db with
    | .error e => .error e
    | .ok (a, db) => .ok (a, { s with db := db, sent := s.sent + 1 })

def findUniqueEntry (key : String) : Tx (Option QuotaLedgerEntry) :=
  query fun db => .ok (db.findEntry key, db)

def createEntry (entry : QuotaLedgerEntry) : Tx QuotaLedgerEntry :=
  query fun db =>
    if db.Recorded entry.idempotencyKey then .error (.prisma .P2002)
    else .ok (entry, { db with quotaLedgerEntry := db.quotaLedgerEntry ++ [entry] })

/-- `createMany` of one entry with `skipDuplicates`; the result is its `count`. -/
def createEntrySkipDuplicates (entry : QuotaLedgerEntry) : Tx ℕ :=
  query fun db =>
    if db.Recorded entry.idempotencyKey then .ok (0, db)
    else .ok (1, { db with quotaLedgerEntry := db.quotaLedgerEntry ++ [entry] })

/-- The sum of the request's `reservedDelta` on one ledger, 0 where it has none. -/
def reservedSum (db : LedgerDb) (ledgerId requestId : String) : ℤ :=
  ((db.quotaLedgerEntry.filter fun e => e.ledgerId = ledgerId ∧ e.requestId = requestId).map
    QuotaLedgerEntry.reservedDelta).sum

def aggregateReserved (ledgerId requestId : String) : Tx ℤ :=
  query fun db => .ok (reservedSum db ledgerId requestId, db)

def upsertLedger (customerId : String) (periodStart periodEnd : ℤ) : Tx QuotaLedger :=
  query fun db =>
    match db.quotaLedger customerId with
    | some ledger => .ok (ledger, db)
    | none =>
      let ledger : QuotaLedger := ⟨periodStart, periodEnd, 0, 0⟩
      .ok (ledger, { db with quotaLedger := Function.update db.quotaLedger customerId (some ledger) })

def findUniqueLedgerOrThrow (customerId : String) : Tx QuotaLedger :=
  query fun db =>
    match db.quotaLedger customerId with
    | some ledger => .ok (ledger, db)
    | none => .error (.prisma .P2025)

/-- `update` with an `increment` of each counter; a decrement is a negative one. -/
def incrementLedger (customerId : String) (used reserved : ℤ) : Tx QuotaLedger :=
  query fun db =>
    match db.quotaLedger customerId with
    | none => .error (.prisma .P2025)
    | some ledger =>
      let next := { ledger with
        tokensUsed := ledger.tokensUsed + used
        tokensReserved := ledger.tokensReserved + reserved }
      .ok (next, { db with quotaLedger := Function.update db.quotaLedger customerId (some next) })

def findUniqueEvent (key : String) : Tx (Option UsageEvent) :=
  query fun db => .ok (db.findEvent key, db)

/-- `upsert` by idempotency key with an empty update. A new row must also be the
first of its execution: `inferenceRequestId` is unique where it is present. -/
def upsertEvent (event : UsageEvent) : Tx UsageEvent :=
  query fun db =>
    match db.findEvent event.idempotencyKey with
    | some old => .ok (old, db)
    | none =>
      if event.inferenceRequestId ≠ none ∧
          ∃ e ∈ db.usageEvent, e.inferenceRequestId = event.inferenceRequestId then
        .error (.prisma .P2002)
      else .ok (event, { db with usageEvent := db.usageEvent ++ [event] })

/-- `prisma.$transaction`: the last statement is the commit, and a failure at
any statement rolls every write back. -/
def transaction {α : Type} (body : Tx α) (faults : Faults) (db : LedgerDb) :
    Except OperationError α × LedgerDb :=
  match (body <* query fun db => .ok ((), db)) ⟨db, 0, faults⟩ with
  | .ok (a, s) => (.ok a, s.db)
  | .error e => (.error e, db)

/-- The retry loop of `serializable`, with the retries that are left. -/
def serializableFrom {α : Type} (operation : ℕ → LedgerDb → Except OperationError α × LedgerDb) :
    ℕ → ℕ → LedgerDb → Except OperationError α × LedgerDb
  | 0, attempt, db => operation attempt db
  | left + 1, attempt, db =>
    match operation attempt db with
    | (.error (.prisma .P2034), db) => serializableFrom operation left (attempt + 1) db
    | out => out

def serializable {α : Type} (operation : ℕ → LedgerDb → Except OperationError α × LedgerDb) :
    LedgerDb → Except OperationError α × LedgerDb :=
  serializableFrom operation 2 0

/-- What goes wrong during one call: the faults of each attempt, and that of
the look-up after a unique-constraint error. -/
structure Outage where
  attempt : ℕ → Faults
  fallback : Option PrismaCode

def noOutage : Outage := ⟨fun _ _ => none, none⟩

/-- The common frame of the three ledger calls: retry on write conflicts, and on
a duplicate key return the entry already recorded under it. -/
def ledgerCall (body : Tx QuotaLedgerEntry) (key : String) (outage : Outage) (db : LedgerDb) :
    Except OperationError QuotaLedgerEntry × LedgerDb :=
  match serializable (fun n => transaction body (outage.attempt n)) db with
  | (.error (.prisma .P2002), db) =>
    match outage.fallback, db.findEntry key with
    | some code, _ => (.error (.prisma code), db)
    | none, some entry => (.ok entry, db)
    | none, none => (.error (.prisma .P2025), db)
  | out => out

theorem bind_ok {α β : Type} {x : Tx α} {f : α → Tx β} {s u : Session} {b : β}
    (h : (x >>= f) s = .ok (b, u)) : ∃ a t, x s = .ok (a, t) ∧ f a t = .ok (b, u) := by
  change (x s).bind (fun p => f p.1 p.2) = _ at h
  cases hx : x s with
  | error e => rw [hx] at h; cases h
  | ok p => exact ⟨p.1, p.2, rfl, by rw [hx] at h; exact h⟩

theorem query_ok {α : Type} {work : LedgerDb → Except OperationError (α × LedgerDb)}
    {s t : Session} {a : α} (h : query work s = .ok (a, t)) : work s.db = .ok (a, t.db) := by
  unfold query at h
  split at h
  · cases h
  · split at h
    · cases h
    · rename_i hw
      cases h
      exact hw

theorem transaction_cases {α : Type} (body : Tx α) (faults : Faults) (db : LedgerDb) :
    (∃ e, transaction body faults db = (.error e, db)) ∨
      ∃ a s, transaction body faults db = (.ok a, s.db) ∧ body ⟨db, 0, faults⟩ = .ok (a, s) := by
  unfold transaction
  split
  · rename_i a s h
    right
    rw [seqLeft_eq_bind] at h
    obtain ⟨b, t, hb, ht⟩ := bind_ok h
    obtain ⟨_, u, hc, hu⟩ := bind_ok ht
    cases hu
    have hdb := query_ok hc
    simp only [Except.ok.injEq, Prod.mk.injEq, true_and] at hdb
    exact ⟨a, t, by rw [hdb], hb⟩
  · rename_i e h
    exact .inl ⟨e, rfl⟩

theorem serializableFrom_cases {α : Type}
    (operation : ℕ → LedgerDb → Except OperationError α × LedgerDb)
    (rollback : ∀ n db e, (operation n db).1 = .error e → (operation n db).2 = db)
    (left attempt : ℕ) (db : LedgerDb) :
    ∃ n, serializableFrom operation left attempt db = operation n db := by
  induction left generalizing attempt with
  | zero => exact ⟨attempt, rfl⟩
  | succ left ih =>
    unfold serializableFrom
    split
    · rename_i db' h
      have hback := rollback attempt db (.prisma .P2034) (by rw [h])
      rw [h] at hback
      subst hback
      exact ih (attempt + 1)
    · exact ⟨attempt, rfl⟩

theorem transaction_rollback {α : Type} (body : Tx α) (faults : Faults) (db : LedgerDb)
    {e : OperationError} (h : (transaction body faults db).1 = .error e) :
    (transaction body faults db).2 = db := by
  rcases transaction_cases body faults db with ⟨e', he⟩ | ⟨a, s, hs, _⟩
  · rw [he]
  · rw [hs] at h
    cases h

/-- What a ledger call can do: fail without effect, return the entry recorded
under its key without effect, or complete its transaction. -/
theorem ledgerCall_cases (body : Tx QuotaLedgerEntry) (key : String) (outage : Outage)
    (db : LedgerDb) :
    (∃ e, ledgerCall body key outage db = (.error e, db)) ∨
    (∃ e ∈ db.quotaLedgerEntry, e.idempotencyKey = key ∧
      ledgerCall body key outage db = (.ok e, db)) ∨
    ∃ e faults s, ledgerCall body key outage db = (.ok e, s.db) ∧
      body ⟨db, 0, faults⟩ = .ok (e, s) := by
  obtain ⟨n, hn⟩ := serializableFrom_cases (fun n => transaction body (outage.attempt n))
    (fun n db e => transaction_rollback body _ db) 2 0 db
  unfold ledgerCall serializable
  rw [hn]
  rcases transaction_cases body (outage.attempt n) db with ⟨e, he⟩ | ⟨a, s, hs, hbody⟩
  · simp only [he]
    split
    · rename_i db' h
      cases h
      split
      · exact .inl ⟨_, rfl⟩
      · rename_i entry _ hentry
        obtain ⟨hmem, hkey⟩ := LedgerDb.findEntry_eq_some hentry
        exact .inr (.inl ⟨entry, hmem, hkey, rfl⟩)
      · exact .inl ⟨_, rfl⟩
    · exact .inl ⟨e, rfl⟩
  · simp only [hs]
    exact .inr (.inr ⟨a, outage.attempt n, s, rfl, hbody⟩)

end ModelForge.LedgerStore
