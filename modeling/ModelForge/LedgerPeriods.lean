import ModelForge.InvoiceScan
import ModelForge.LedgerAccounting

set_option autoImplicit false

/-!
# Usage and the period of the ledger

The ledger operations keep a row's period; the invoice worker moves it, and sets
the usage to zero whatever was charged since the old period ended.
-/
namespace ModelForge.LedgerPeriods
open RunInvariant LedgerStore LedgerOperations LedgerAccounting InvoiceScan

variable {α β : Type} {db db' : LedgerDb}

/-! ## The operations keep the period -/

def PeriodsKept (db db' : LedgerDb) : Prop :=
  ∀ c row, db.quotaLedger c = some row → ∃ row', db'.quotaLedger c = some row' ∧
    row'.periodStart = row.periodStart ∧ row'.periodEnd = row.periodEnd

theorem PeriodsKept.refl (db : LedgerDb) : PeriodsKept db db :=
  fun _ row h => ⟨row, h, rfl, rfl⟩

theorem PeriodsKept.trans {db'' : LedgerDb} (h : PeriodsKept db db') (h' : PeriodsKept db' db'') :
    PeriodsKept db db'' := by
  intro c row hrow
  obtain ⟨mid, hmid, hstart, hend⟩ := h c row hrow
  obtain ⟨last, hlast, hstart', hend'⟩ := h' c mid hmid
  exact ⟨last, hlast, hstart'.trans hstart, hend'.trans hend⟩

theorem periodsKept_of_ledger (h : db'.quotaLedger = db.quotaLedger) : PeriodsKept db db' :=
  fun _ row hrow => ⟨row, h ▸ hrow, rfl, rfl⟩

/-- The body keeps the period of every row that it finds. -/
def Keeps (body : Tx α) : Prop := ∀ s a t, body s = .ok (a, t) → PeriodsKept s.db t.db

theorem keeps_pure (a : α) : Keeps (pure a : Tx α) := by
  intro s b t h
  cases h
  exact .refl _

theorem keeps_throw (e : OperationError) : Keeps (throw e : Tx α) := by
  intro s b t h
  cases h

theorem keeps_bind {x : Tx α} {f : α → Tx β} (hx : Keeps x) (hf : ∀ a, Keeps (f a)) :
    Keeps (x >>= f) := by
  intro s b t h
  obtain ⟨a, mid, hmid, hlast⟩ := bind_ok h
  exact (hx s a mid hmid).trans (hf a mid b t hlast)

theorem keeps_query {work : LedgerDb → Except OperationError (α × LedgerDb)}
    (h : ∀ db a db', work db = .ok (a, db') → PeriodsKept db db') : Keeps (query work) :=
  fun s a t hs => h s.db a t.db (query_ok hs)

/-- A statement that does not touch the ledger rows. -/
theorem keeps_aside {work : LedgerDb → Except OperationError (α × LedgerDb)}
    (h : ∀ db a db', work db = .ok (a, db') → db'.quotaLedger = db.quotaLedger) : Keeps (query work) :=
  keeps_query fun db a db' hwork => periodsKept_of_ledger (h db a db' hwork)

theorem keeps_findUniqueEntry (key : String) : Keeps (findUniqueEntry key) :=
  keeps_aside fun db a db' h => by cases h; rfl

theorem keeps_findUniqueEvent (key : String) : Keeps (findUniqueEvent key) :=
  keeps_aside fun db a db' h => by cases h; rfl

theorem keeps_aggregateReserved (ledgerId requestId : String) :
    Keeps (aggregateReserved ledgerId requestId) :=
  keeps_aside fun db a db' h => by cases h; rfl

theorem keeps_createEntry (entry : QuotaLedgerEntry) : Keeps (createEntry entry) :=
  keeps_aside fun db a db' h => by split at h <;> cases h; rfl

theorem keeps_createEntrySkipDuplicates (entry : QuotaLedgerEntry) :
    Keeps (createEntrySkipDuplicates entry) :=
  keeps_aside fun db a db' h => by split at h <;> cases h <;> rfl

theorem keeps_upsertEvent (event : UsageEvent) : Keeps (upsertEvent event) := by
  refine keeps_aside fun db a db' h => ?_
  split at h
  · cases h
    rfl
  · split at h <;> cases h
    rfl

theorem keeps_findUniqueLedgerOrThrow (customerId : String) :
    Keeps (findUniqueLedgerOrThrow customerId) :=
  keeps_aside fun db a db' h => by split at h <;> cases h; rfl

theorem keeps_upsertLedger (customerId : String) (periodStart periodEnd : ℤ) :
    Keeps (upsertLedger customerId periodStart periodEnd) := by
  refine keeps_query fun db a db' h => ?_
  split at h <;> cases h
  · exact .refl _
  · rename_i hnone
    intro c row hrow
    have hc : c ≠ customerId := by
      rintro rfl
      cases hnone.symm.trans hrow
    exact ⟨row, (Function.update_of_ne hc _ _).trans hrow, rfl, rfl⟩

theorem keeps_incrementLedger (customerId : String) (used reserved : ℤ) :
    Keeps (incrementLedger customerId used reserved) := by
  refine keeps_query fun db a db' h => ?_
  split at h <;> cases h
  rename_i ledger hledger
  intro c row hrow
  by_cases hc : c = customerId
  · subst hc
    obtain rfl := Option.some.inj (hledger.symm.trans hrow)
    exact ⟨_, Function.update_self _ _ _, rfl, rfl⟩
  · exact ⟨row, (Function.update_of_ne hc _ _).trans hrow, rfl, rfl⟩

theorem keeps_reserveQuotaTx (now : ℤ) (input : ReserveQuotaInput) : Keeps (reserveQuotaTx now input) := by
  refine keeps_bind (keeps_findUniqueEntry _) fun existing => ?_
  cases existing with
  | some entry => exact keeps_pure entry
  | none =>
    refine keeps_bind (keeps_upsertLedger _ _ _) fun ledger => ?_
    split
    · exact keeps_throw _
    · exact keeps_bind (keeps_createEntry _) fun entry =>
        keeps_bind (keeps_incrementLedger _ _ _) fun _ => keeps_pure entry

theorem keeps_commitQuotaTx (now : ℤ) (input : CommitQuotaInput) : Keeps (commitQuotaTx now input) := by
  refine keeps_bind (keeps_findUniqueEntry _) fun existing => ?_
  cases existing with
  | some entry => exact keeps_pure entry
  | none =>
    exact keeps_bind (keeps_findUniqueLedgerOrThrow _) fun _ =>
      keeps_bind (keeps_aggregateReserved _ _) fun _ =>
        keeps_bind (keeps_createEntry _) fun entry =>
          keeps_bind (keeps_incrementLedger _ _ _) fun _ => keeps_pure entry

theorem keeps_releaseQuotaTx (now : ℤ) (input : ReleaseQuotaInput) : Keeps (releaseQuotaTx now input) := by
  refine keeps_bind (keeps_findUniqueEntry _) fun existing => ?_
  cases existing with
  | some entry => exact keeps_pure entry
  | none =>
    exact keeps_bind (keeps_findUniqueLedgerOrThrow _) fun _ =>
      keeps_bind (keeps_createEntry _) fun entry =>
        keeps_bind (keeps_incrementLedger _ _ _) fun _ => keeps_pure entry

theorem keeps_persistUsageTx (now : ℤ) (data : UsageJob) : Keeps (persistUsageTx now data) := by
  refine keeps_bind (keeps_findUniqueEvent _) fun existing => ?_
  cases existing with
  | some event => exact keeps_pure ()
  | none =>
    refine keeps_bind (keeps_upsertLedger _ _ _) fun _ =>
      keeps_bind (keeps_createEntrySkipDuplicates _) fun inserted =>
        keeps_bind (keeps_upsertEvent _) fun _ => ?_
    split
    · exact keeps_bind (keeps_incrementLedger _ _ _) fun _ => keeps_pure ()
    · exact keeps_pure ()

theorem ledgerCall_keeps {body : Tx QuotaLedgerEntry} (h : Keeps body) (key : String) (outage : Outage)
    (db : LedgerDb) : PeriodsKept db (ledgerCall body key outage db).2 := by
  rcases ledgerCall_cases body key outage db with ⟨e, he⟩ | ⟨e, -, -, he⟩ | ⟨e, faults, s, he, hbody⟩
  · exact he ▸ .refl db
  · exact he ▸ .refl db
  · rw [he]
    exact h _ _ _ hbody

theorem apply_keeps (op : Operation) (db : LedgerDb) : PeriodsKept db (op.apply db).2 := by
  cases op with
  | reserve now input outage => exact ledgerCall_keeps (keeps_reserveQuotaTx now input) _ outage db
  | commit now input outage => exact ledgerCall_keeps (keeps_commitQuotaTx now input) _ outage db
  | release now input outage => exact ledgerCall_keeps (keeps_releaseQuotaTx now input) _ outage db
  | persist now job faults =>
    change PeriodsKept db (persistUsage now job faults db).2
    unfold persistUsage
    rcases transaction_cases (persistUsageTx now job) faults db with ⟨e, he⟩ | ⟨a, s, hs, hbody⟩
    · exact he ▸ .refl db
    · rw [hs]
      exact keeps_persistUsageTx now job _ _ _ hbody

/-! ## What the operations charge -/

def Operation.now : Operation → ℤ
  | .reserve now _ _ | .commit now _ _ | .release now _ _ | .persist now _ _ => now

/-- The tokens an operation charges. -/
def Operation.charged : Operation → ℤ
  | .commit _ input _ => input.actualTokens
  | .persist _ job _ => job.tokens
  | .reserve _ _ _ | .release _ _ _ => 0

/-- An operation posts at most one entry, at its own time and for its own tokens. -/
theorem apply_posts (op : Operation) (db : LedgerDb) :
    Untouched db (op.apply db).2 ∨
      ∃ entry, entry.createdAt = Operation.now op ∧ entry.deltaTokens = Operation.charged op ∧
        Posts db entry (op.apply db).2 := by
  have hcall : ∀ {key guard entry} {out : Except OperationError QuotaLedgerEntry × LedgerDb},
      Called db key guard entry out → entry.createdAt = Operation.now op →
        entry.deltaTokens = Operation.charged op → Untouched db out.2 ∨
          ∃ entry, entry.createdAt = Operation.now op ∧ entry.deltaTokens = Operation.charged op ∧
            Posts db entry out.2 := by
    intro key guard entry out h hnow hcharged
    cases h with
    | failed e => exact .inl Untouched.rfl
    | replayed _ _ => exact .inl Untouched.rfl
    | posted _ _ posts _ => exact .inr ⟨entry, hnow, hcharged, posts⟩
  cases op with
  | reserve now input outage => exact hcall (reserveQuota_called now input outage db) rfl rfl
  | commit now input outage => exact hcall (commitQuota_called now input outage db) rfl rfl
  | release now input outage => exact hcall (releaseQuota_called now input outage db) rfl rfl
  | persist now job faults =>
    have h := persistUsage_persisted now job faults db
    change Untouched db (persistUsage now job faults db).2 ∨
      ∃ entry, entry.createdAt = now ∧ entry.deltaTokens = job.tokens ∧
        Posts db entry (persistUsage now job faults db).2
    generalize persistUsage now job faults db = out at h ⊢
    cases h with
    | failed e => exact .inl Untouched.rfl
    | replayed _ _ => exact .inl Untouched.rfl
    | recorded _ _ _ same => exact .inl same
    | posted _ _ posts => exact .inr ⟨job.entry now, rfl, rfl, posts⟩

/-- An operation that charges no negative amount lowers nobody's usage. -/
theorem apply_used (op : Operation) (db : LedgerDb) (h : 0 ≤ Operation.charged op) (c : String) :
    db.tokensUsed c ≤ (op.apply db).2.tokensUsed c := by
  rcases apply_posts op db with same | ⟨entry, -, hcharged, posts⟩
  · exact (same.used c).ge
  · rw [posts.used, hcharged]
    split <;> omega

/-- The tokens charged to the customer at or after this time. -/
def chargedSince (db : LedgerDb) (c : String) (start : ℤ) : ℤ :=
  (((db.entriesOf c).filter fun e => start ≤ e.createdAt).map QuotaLedgerEntry.deltaTokens).sum

theorem chargedSince_untouched (h : Untouched db db') (c : String) (start : ℤ) :
    chargedSince db' c start = chargedSince db c start := by
  simp only [chargedSince, LedgerDb.entriesOf, h.entries]

theorem chargedSince_posts {entry : QuotaLedgerEntry} (h : Posts db entry db') (c : String) {start : ℤ}
    (hstart : start ≤ entry.createdAt) :
    chargedSince db' c start =
      chargedSince db c start + if entry.ledgerId = c then entry.deltaTokens else 0 := by
  simp only [chargedSince, LedgerDb.entriesOf, h.entries, List.filter_append, List.map_append,
    List.sum_append]
  by_cases hc : entry.ledgerId = c <;> simp [hc, hstart]

/-! ## Runs of charges and scans -/

/-- `performed` keeps the writes of the scans so far. -/
structure World where
  db : BillingDb
  clock : ℤ
  performed : List Write

inductive Event where
  | charge (op : Operation)
  | scan (now : ℤ) (pricing : Pricing)

def step (nextMonth : ℤ → ℤ) (w : World) : Event → Option World
  | .charge op =>
    if w.clock ≤ Operation.now op then
      some { w with db := { w.db with ledger := (op.apply w.db.ledger).2 }, clock := Operation.now op }
    else none
  | .scan now pricing =>
    if w.clock ≤ now then
      some
        { db := runScan nextMonth w.db ⟨now, pricing, none⟩
          clock := now
          performed := w.performed ++ scanWrites nextMonth now w.db }
    else none

/-- A scan has moved the customer's ledger to a new period. -/
def RolledOver (c : String) (ws : List Write) : Prop :=
  ∃ periodStart periodEnd, .ledger c periodStart periodEnd ∈ ws

def UsageOfPeriod (w : World) : Prop :=
  ∀ c, RolledOver c w.performed → ∃ row, w.db.ledger.quotaLedger c = some row ∧
    row.tokensUsed = chargedSince w.db.ledger c row.periodStart

/-- At a scan no tokens have been charged to a due customer since its period ended. -/
def NoneSincePeriodEnd (w : World) : Event → Prop
  | .charge _ => True
  | .scan now _ => ∀ c sub, w.db.subscription.get? c = some sub → isDue now sub = true →
      chargedSince w.db.ledger c sub.currentPeriodEnd = 0

/-! ## A scan -/

variable {nextMonth : ℤ → ℤ} {c : String} {w w' : World}

theorem rolledOver_own {ws : List Write} : RolledOver c (own c ws) ↔ RolledOver c ws := by
  unfold RolledOver
  simp only [mem_own (c := c) (w := .ledger c _ _) rfl]

theorem rolledOver_append {ws ws' : List Write} :
    RolledOver c (ws ++ ws') ↔ RolledOver c ws ∨ RolledOver c ws' := by
  simp only [RolledOver, List.mem_append, exists_or]

theorem perform_entries (pricing : Pricing) (db : BillingDb) (write : Write) :
    (perform pricing db write).ledger.quotaLedgerEntry = db.ledger.quotaLedgerEntry := by
  cases write with
  | invoice customerId periodStart periodEnd =>
    unfold perform generateInvoice
    dsimp only
    split <;> rfl
  | subscription customerId nextStart nextEnd => rfl
  | ledger customerId nextStart nextEnd => rfl

theorem foldl_entries (pricing : Pricing) (ws : List Write) (db : BillingDb) :
    (ws.foldl (perform pricing) db).ledger.quotaLedgerEntry = db.ledger.quotaLedgerEntry := by
  induction ws generalizing db with
  | nil => rfl
  | cons write ws ih => exact (ih _).trans (perform_entries pricing db write)

theorem chargedSince_runScan (db : BillingDb) (scan : Scan) (c : String) (start : ℤ) :
    chargedSince (runScan nextMonth db scan).ledger c start = chargedSince db.ledger c start := by
  have hentries : (runScan nextMonth db scan).ledger.quotaLedgerEntry = db.ledger.quotaLedgerEntry :=
    foldl_entries scan.pricing _ db
  simp only [chargedSince, LedgerDb.entriesOf, hentries]

theorem ledger_writesFor (sub : Subscription) (b : Book) :
    ∃ row, ((writesFor nextMonth c sub).foldl Book.perform b).ledger = some row ∧
      row.periodStart = sub.currentPeriodEnd ∧ row.tokensUsed = 0 := by
  obtain ⟨_, ledger⟩ := b
  cases ledger with
  | none => exact ⟨_, rfl, rfl, rfl⟩
  | some ledger => exact ⟨_, rfl, rfl, rfl⟩

/-- A due customer's ledger starts on the next period without usage; the other
customers' rows stay. -/
theorem scan_ledger (nextMonth : ℤ → ℤ) (db : BillingDb) (now : ℤ) (pricing : Pricing) (c : String) :
    (∃ sub, db.subscription.get? c = some sub ∧ isDue now sub = true ∧
        RolledOver c (scanWrites nextMonth now db) ∧
        ∃ row, (runScan nextMonth db ⟨now, pricing, none⟩).ledger.quotaLedger c = some row ∧
          row.periodStart = sub.currentPeriodEnd ∧ row.tokensUsed = 0) ∨
      (∀ sub, db.subscription.get? c = some sub → ¬ isDue now sub = true) ∧
        ¬ RolledOver c (scanWrites nextMonth now db) ∧
        (runScan nextMonth db ⟨now, pricing, none⟩).ledger.quotaLedger c = db.ledger.quotaLedger c := by
  have hown : own c (scanWrites nextMonth now db) = _ := own_scanWrites now
  have hledger : (runScan nextMonth db ⟨now, pricing, none⟩).ledger.quotaLedger c =
      ((own c (scanWrites nextMonth now db)).foldl Book.perform (book db c)).ledger :=
    congrArg Book.ledger (book_runScan ⟨now, pricing, none⟩)
  rw [hledger, ← rolledOver_own, hown]
  by_cases hdue : ∃ sub, db.subscription.get? c = some sub ∧ isDue now sub = true
  · obtain ⟨sub, hsub, hdue⟩ := hdue
    have hwrites : customerWrites nextMonth now c (db.subscription.get? c) = writesFor nextMonth c sub := by
      rw [hsub]
      exact if_pos hdue
    rw [hwrites]
    refine .inl ⟨sub, hsub, hdue,
      ⟨sub.currentPeriodEnd, nextMonth sub.currentPeriodEnd, by simp [writesFor]⟩, ?_⟩
    exact ledger_writesFor sub (book db c)
  · have hnot : ∀ sub, db.subscription.get? c = some sub → ¬ isDue now sub = true :=
      fun sub hsub h => hdue ⟨sub, hsub, h⟩
    have hwrites : customerWrites nextMonth now c (db.subscription.get? c) = [] := by
      cases hsub : db.subscription.get? c with
      | none => rfl
      | some sub => exact if_neg (hnot sub hsub)
    rw [hwrites]
    refine .inr ⟨hnot, ?_, rfl⟩
    rintro ⟨_, _, ⟨⟩⟩

/-! ## Runs -/

/-- The usage is that of the period, and the period has begun. -/
def Inv (w : World) : Prop :=
  ∀ c, RolledOver c w.performed → ∃ row, w.db.ledger.quotaLedger c = some row ∧
    row.periodStart ≤ w.clock ∧ row.tokensUsed = chargedSince w.db.ledger c row.periodStart

theorem Inv.usageOfPeriod (h : Inv w) : UsageOfPeriod w := by
  intro c hc
  obtain ⟨row, hrow, -, hused⟩ := h c hc
  exact ⟨row, hrow, hused⟩

theorem charge_keeps (h : Inv w) {op : Operation} (hstep : step nextMonth w (.charge op) = some w') :
    Inv w' := by
  simp only [step] at hstep
  split at hstep
  · rename_i hclock
    obtain rfl := Option.some.inj hstep
    intro c hc
    obtain ⟨row, hrow, hbegun, hused⟩ := h c hc
    obtain ⟨row', hrow', hstart, -⟩ := apply_keeps op w.db.ledger c row hrow
    refine ⟨row', hrow', hstart ▸ hbegun.trans hclock, ?_⟩
    rw [hstart, (row_counters hrow').1]
    rw [(row_counters hrow).1] at hused
    rcases apply_posts op w.db.ledger with same | ⟨entry, hnow, -, posts⟩
    · rw [same.used, chargedSince_untouched same, hused]
    · have hlater : row.periodStart ≤ entry.createdAt := hnow ▸ hbegun.trans hclock
      rw [posts.used, chargedSince_posts posts c hlater, hused]
  · cases hstep

theorem scan_iff (h : Inv w) {now : ℤ} {pricing : Pricing}
    (hstep : step nextMonth w (.scan now pricing) = some w') :
    (UsageOfPeriod w' ↔ NoneSincePeriodEnd w (.scan now pricing)) ∧ (UsageOfPeriod w' → Inv w') := by
  simp only [step] at hstep
  split at hstep
  · rename_i hclock
    obtain rfl := Option.some.inj hstep
    have hledger := scan_ledger nextMonth w.db now pricing
    refine ⟨⟨fun husage c sub hsub hdue => ?_, fun hnone c hc => ?_⟩, fun husage c hc => ?_⟩
    · rcases hledger c with ⟨sub', hsub', -, hrolled, row, hrow, hstart, hused⟩ | ⟨hnot, -⟩
      · obtain rfl := Option.some.inj (hsub.symm.trans hsub')
        obtain ⟨row', hrow', hused'⟩ := husage c (rolledOver_append.mpr (.inr hrolled))
        obtain rfl := Option.some.inj (hrow.symm.trans hrow')
        rw [hused, hstart, chargedSince_runScan] at hused'
        exact hused'.symm
      · exact absurd hdue (hnot sub hsub)
    · rcases hledger c with ⟨sub, hsub, hdue, -, row, hrow, hstart, hused⟩ | ⟨-, hfresh, hsame⟩
      · refine ⟨row, hrow, ?_⟩
        rw [hused, hstart, chargedSince_runScan, hnone c sub hsub hdue]
      · obtain ⟨row, hrow, -, hused⟩ := h c ((rolledOver_append.mp hc).resolve_right hfresh)
        refine ⟨row, hsame.trans hrow, ?_⟩
        rw [chargedSince_runScan]
        exact hused
    · obtain ⟨row, hrow, hused⟩ := husage c hc
      refine ⟨row, hrow, ?_, hused⟩
      rcases hledger c with ⟨sub, -, hdue, -, row', hrow', hstart, -⟩ | ⟨-, hfresh, hsame⟩
      · obtain rfl := Option.some.inj (hrow'.symm.trans hrow)
        rw [hstart]
        exact (of_decide_eq_true hdue).2
      · obtain ⟨row', hrow', hbegun, -⟩ := h c ((rolledOver_append.mp hc).resolve_right hfresh)
        obtain rfl := Option.some.inj ((hsame.trans hrow').symm.trans hrow)
        exact hbegun.trans hclock
  · cases hstep

/-- After each rollover and from then on the ledger counts the usage of its
period, exactly when no scan finds tokens charged since a due period ended. -/
theorem usage_of_period_iff (nextMonth : ℤ → ℤ) (db : BillingDb) (clock : ℤ) (events : List Event) :
    EveryStep (step nextMonth) (fun _ _ t => UsageOfPeriod t) ⟨db, clock, []⟩ events ↔
      EveryStep (step nextMonth) (fun s e _ => NoneSincePeriodEnd s e) ⟨db, clock, []⟩ events := by
  have hinit : Inv ⟨db, clock, []⟩ := by
    rintro c ⟨_, _, ⟨⟩⟩
  refine everyStep_iff_guarded Inv _ _ ?_ ?_ hinit events
  · intro s e t hs ht hguard
    cases e with
    | charge op => exact ⟨(charge_keeps hs ht).usageOfPeriod, charge_keeps hs ht⟩
    | scan now pricing =>
      have husage := (scan_iff hs ht).1.mpr hguard
      exact ⟨husage, (scan_iff hs ht).2 husage⟩
  · intro s e t hs ht husage
    cases e with
    | charge op => trivial
    | scan now pricing => exact (scan_iff hs ht).1.mp husage

def sampleJob : UsageJob :=
  ⟨"a", "key", none, "model", 3, 4, 0, "r", "r", none⟩

/-- Seven tokens are charged between the end of the period and the scan. -/
theorem usage_of_gap_dropped :
    ¬ EveryStep (step fun t => t + 30) (fun _ _ t => UsageOfPeriod t) ⟨sampleDb, 0, []⟩
      [.charge (.persist 12 sampleJob fun _ => none), .scan 15 samplePricing] := by
  intro h
  obtain ⟨-, hscan⟩ := h _ rfl
  obtain ⟨husage, -⟩ := hscan _ rfl
  obtain ⟨row, hrow, hused⟩ := husage "a" ⟨10, 40, by decide +kernel⟩
  have hreset : row.periodStart = 10 ∧ row.tokensUsed = 0 := by
    obtain rfl := Option.some.inj hrow
    decide +kernel
  rw [hreset.1, hreset.2] at hused
  exact absurd hused (by decide +kernel)

end ModelForge.LedgerPeriods
