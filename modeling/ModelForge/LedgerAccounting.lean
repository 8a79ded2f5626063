import ModelForge.LedgerOperations

set_option autoImplicit false

/-!
# The counters are the sums of the entries

Along every sequence of ledger operations the two counters of a ledger row are
the sums of its entries' deltas, and an idempotency key labels one entry.
-/
namespace ModelForge.LedgerAccounting
open LedgerStore LedgerOperations

inductive Operation where
  | reserve (now : ℤ) (input : ReserveQuotaInput) (outage : Outage)
  | commit (now : ℤ) (input : CommitQuotaInput) (outage : Outage)
  | release (now : ℤ) (input : ReleaseQuotaInput) (outage : Outage)
  | persist (now : ℤ) (job : UsageJob) (faults : Faults)

namespace Operation

/-- The key under which the operation records its entry. -/
def entryKey : Operation → String
  | .reserve _ input _ => input.idempotencyKey
  | .commit _ input _ => input.idempotencyKey
  | .release _ input _ => input.idempotencyKey
  | .persist _ job _ => job.commitKey

/-- The error the caller sees, if any, and the tables afterwards. -/
def apply (op : Operation) (db : LedgerDb) : Option OperationError × LedgerDb :=
  match op with
  | .reserve now input outage => (reserveQuota now input outage db).map error id
  | .commit now input outage => (commitQuota now input outage db).map error id
  | .release now input outage => (releaseQuota now input outage db).map error id
  | .persist now job faults => (persistUsage now job faults db).map error id
where
  error {α : Type} : Except OperationError α → Option OperationError
    | .error e => some e
    | .ok _ => none

/-- The transaction itself refuses: the quota would be exceeded, or the ledger
that a commit or a release needs does not exist. -/
def Rejected (op : Operation) (db : LedgerDb) : Prop :=
  ¬ db.Recorded op.entryKey ∧
    match op with
    | .reserve _ input _ => wouldExceedQuota (db.tokensUsed input.customerId)
        (db.tokensReserved input.customerId) input.estimatedTokens input.limit = true
    | .commit _ input _ => db.quotaLedger input.customerId = none
    | .release _ input _ => db.quotaLedger input.customerId = none
    | .persist _ _ _ => False

end Operation

def runOperations (db : LedgerDb) (ops : List Operation) : LedgerDb :=
  ops.foldl (fun db op => (op.apply db).2) db

/-- No entries, and zero counters in whatever ledger rows there are. -/
def freshDb (periods : String → Option (ℤ × ℤ)) (events : List UsageEvent) : LedgerDb where
  quotaLedger := fun c => (periods c).map fun p => ⟨p.1, p.2, 0, 0⟩
  quotaLedgerEntry := []
  usageEvent := events

def deltaSum (db : LedgerDb) (customer : String) : ℤ :=
  ((db.entriesOf customer).map QuotaLedgerEntry.deltaTokens).sum

def reservedDeltaSum (db : LedgerDb) (customer : String) : ℤ :=
  ((db.entriesOf customer).map QuotaLedgerEntry.reservedDelta).sum

structure Balanced (db : LedgerDb) : Prop where
  used : ∀ c, db.tokensUsed c = deltaSum db c
  reserved : ∀ c, db.tokensReserved c = reservedDeltaSum db c
  keys : (db.quotaLedgerEntry.map QuotaLedgerEntry.idempotencyKey).Nodup

theorem freshDb_balanced (periods : String → Option (ℤ × ℤ)) (events : List UsageEvent) :
    Balanced (freshDb periods events) := by
  refine ⟨fun c => ?_, fun c => ?_, List.nodup_nil⟩
  · cases h : periods c <;> simp [LedgerDb.tokensUsed, freshDb, h, deltaSum, LedgerDb.entriesOf]
  · cases h : periods c <;>
      simp [LedgerDb.tokensReserved, freshDb, h, reservedDeltaSum, LedgerDb.entriesOf]

theorem Posts.balanced {db db' : LedgerDb} {entry : QuotaLedgerEntry} (h : Posts db entry db')
    (hb : Balanced db) : Balanced db' := by
  refine ⟨fun c => ?_, fun c => ?_, ?_⟩
  · rw [h.used, hb.used]
    by_cases hc : entry.ledgerId = c <;> simp [deltaSum, LedgerDb.entriesOf, h.entries, hc]
  · rw [h.reserved, hb.reserved]
    by_cases hc : entry.ledgerId = c <;> simp [reservedDeltaSum, LedgerDb.entriesOf, h.entries, hc]
  · have hfresh : entry.idempotencyKey ∉ db.quotaLedgerEntry.map QuotaLedgerEntry.idempotencyKey := by
      rw [List.mem_map]
      exact h.fresh
    rw [h.entries, List.map_append]
    exact List.Nodup.append hb.keys (List.nodup_singleton _)
      (List.disjoint_singleton.mpr hfresh)

theorem Untouched.balanced {db db' : LedgerDb} (h : Untouched db db') (hb : Balanced db) :
    Balanced db' := by
  refine ⟨fun c => ?_, fun c => ?_, h.entries ▸ hb.keys⟩
  · rw [h.used, hb.used]
    simp only [deltaSum, LedgerDb.entriesOf, h.entries]
  · rw [h.reserved, hb.reserved]
    simp only [reservedDeltaSum, LedgerDb.entriesOf, h.entries]

/-- What the caller of an operation can see: a failure without effect, success
that leaves entries and counters alone, or one entry posted under its own key. -/
inductive Applied (db : LedgerDb) (key : String) : Option OperationError × LedgerDb → Prop where
  | failed (e : OperationError) : Applied db key (some e, db)
  | untouched {db' : LedgerDb} (h : Untouched db db') : Applied db key (none, db')
  | posted {db' : LedgerDb} {entry : QuotaLedgerEntry} (under : entry.idempotencyKey = key)
      (posts : Posts db entry db') : Applied db key (none, db')

theorem applied_of_called {db : LedgerDb} {key : String} {guard : Prop} {entry : QuotaLedgerEntry}
    {out : Except OperationError QuotaLedgerEntry × LedgerDb} (h : Called db key guard entry out) :
    Applied db key (out.map Operation.apply.error id) := by
  cases h with
  | failed e => exact .failed e
  | replayed _ _ => exact .untouched Untouched.rfl
  | posted under _ posts _ => exact .posted under posts

theorem apply_applied (op : Operation) (db : LedgerDb) : Applied db op.entryKey (op.apply db) := by
  cases op with
  | reserve now input outage => exact applied_of_called (reserveQuota_called now input outage db)
  | commit now input outage => exact applied_of_called (commitQuota_called now input outage db)
  | release now input outage => exact applied_of_called (releaseQuota_called now input outage db)
  | persist now job faults =>
    have h := persistUsage_persisted now job faults db
    simp only [Operation.apply, Operation.entryKey]
    generalize persistUsage now job faults db = out at h ⊢
    cases h with
    | failed e => exact .failed e
    | replayed _ _ => exact .untouched Untouched.rfl
    | recorded _ _ _ same => exact .untouched same
    | posted _ _ posts => exact .posted rfl posts

theorem apply_balanced (op : Operation) {db : LedgerDb} (hb : Balanced db) :
    Balanced (op.apply db).2 := by
  have h := apply_applied op db
  generalize op.apply db = out at h ⊢
  cases h with
  | failed e => exact hb
  | untouched same => exact Untouched.balanced same hb
  | posted _ posts => exact Posts.balanced posts hb

theorem runOperations_balanced {db : LedgerDb} (hb : Balanced db) (ops : List Operation) :
    Balanced (runOperations db ops) := by
  induction ops generalizing db with
  | nil => exact hb
  | cons op ops ih => exact ih (apply_balanced op hb)

theorem apply_replayed (op : Operation) {db : LedgerDb} (hkey : db.Recorded op.entryKey) :
    Untouched db (op.apply db).2 := by
  have h := apply_applied op db
  generalize op.apply db = out at h ⊢
  cases h with
  | failed e => exact Untouched.rfl
  | untouched same => exact same
  | posted under posts => exact absurd (under ▸ hkey) posts.fresh

theorem apply_failed (op : Operation) {db : LedgerDb} {e : OperationError}
    (he : (op.apply db).1 = some e) : (op.apply db).2 = db := by
  have h := apply_applied op db
  generalize op.apply db = out at h he ⊢
  cases h with
  | failed e => rfl
  | untouched _ => cases he
  | posted _ _ => cases he

theorem called_refused {db : LedgerDb} {key : String} {guard : Prop} {entry : QuotaLedgerEntry}
    {out : Except OperationError QuotaLedgerEntry × LedgerDb} (h : Called db key guard entry out)
    (hnew : ¬ db.Recorded key) (hguard : ¬ guard) :
    ∃ e, out.map Operation.apply.error id = (some e, db) := by
  cases h with
  | failed e => exact ⟨e, rfl⟩
  | replayed mem under => exact absurd ⟨_, mem, under⟩ hnew
  | posted _ admitted _ _ => exact absurd admitted hguard

theorem apply_rejected (op : Operation) {db : LedgerDb} (h : op.Rejected db) :
    ∃ e, op.apply db = (some e, db) := by
  obtain ⟨hnew, hreject⟩ := h
  cases op with
  | reserve now input outage =>
    exact called_refused (reserveQuota_called now input outage db) hnew (by simpa using hreject)
  | commit now input outage =>
    exact called_refused (commitQuota_called now input outage db) hnew (not_not_intro hreject)
  | release now input outage =>
    exact called_refused (releaseQuota_called now input outage db) hnew (not_not_intro hreject)
  | persist now job faults => exact hreject.elim

/-- Whatever the operations, their arguments and their failures: the counters
are the sums of the entries, keys are unique, a replayed key changes neither,
and an operation that is refused or fails leaves all three tables as they were. -/
theorem ledger_accounting (periods : String → Option (ℤ × ℤ)) (events : List UsageEvent)
    (ops : List Operation) :
    let db := runOperations (freshDb periods events) ops
    (∀ c, db.tokensUsed c = deltaSum db c) ∧
    (∀ c, db.tokensReserved c = reservedDeltaSum db c) ∧
    (db.quotaLedgerEntry.map QuotaLedgerEntry.idempotencyKey).Nodup ∧
    (∀ op : Operation, db.Recorded op.entryKey → Untouched db (op.apply db).2) ∧
    (∀ op : Operation, op.Rejected db → (op.apply db).1 ≠ none) ∧
    ∀ op : Operation, (op.apply db).1 ≠ none → (op.apply db).2 = db := by
  intro db
  have hb : Balanced db := runOperations_balanced (freshDb_balanced periods events) ops
  refine ⟨hb.used, hb.reserved, hb.keys, fun op h => apply_replayed op h, ?_, ?_⟩
  · intro op h
    obtain ⟨e, he⟩ := apply_rejected op h
    rw [he]
    exact Option.some_ne_none e
  · intro op h
    obtain ⟨e, he⟩ := Option.ne_none_iff_exists'.mp h
    exact apply_failed op he

end ModelForge.LedgerAccounting
