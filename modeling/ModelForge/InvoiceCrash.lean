import ModelForge.InvoiceScan

set_option autoImplicit false

/-!
# Invoice scans that crash

A scan advances a subscription and resets its customer's ledger in two writes.
After a crash and any complete scans, every customer whose period was advanced
has its ledger on the current period, but for one torn between the two writes
whom no later scan finds due.
-/
namespace ModelForge.InvoiceCrash
open LedgerStore InvoiceScan

variable {nextMonth : ℤ → ℤ} {db : BillingDb} {c : String}

/-- The worker has advanced the customer's period in one of the writes. -/
def Advanced (c : String) (ws : List Write) : Prop :=
  ∃ periodStart periodEnd, .subscription c periodStart periodEnd ∈ ws

/-- The ledger is on this period, with no usage. -/
def LedgerReads (ledger : Option QuotaLedger) (periodStart periodEnd : ℤ) : Prop :=
  ∃ row, ledger = some row ∧ row.periodStart = periodStart ∧ row.periodEnd = periodEnd ∧
    row.tokensUsed = 0

def LedgerCurrent (b : Book) : Prop :=
  ∃ sub, b.subscription = some sub ∧
    LedgerReads b.ledger sub.currentPeriodStart sub.currentPeriodEnd

def completeScan (start : ℤ × Pricing) : Scan := ⟨start.1, start.2, none⟩

theorem advanced_own {ws : List Write} : Advanced c (own c ws) ↔ Advanced c ws := by
  unfold Advanced
  simp only [mem_own (c := c) (w := .subscription c _ _) rfl]

theorem advanced_append {ws ws' : List Write} : Advanced c (ws ++ ws') ↔ Advanced c ws ∨ Advanced c ws' := by
  simp only [Advanced, List.mem_append, exists_or]

theorem advanced_writesFor (sub : Subscription) : Advanced c (writesFor nextMonth c sub) :=
  ⟨_, _, List.mem_cons_of_mem _ List.mem_cons_self⟩

theorem not_advanced_nil : ¬ Advanced c [] := by
  rintro ⟨_, _, ⟨⟩⟩

/-! ## Complete scans -/

def advance (nextMonth : ℤ → ℤ) (sub : Subscription) : Subscription :=
  { sub with
    currentPeriodStart := sub.currentPeriodEnd
    currentPeriodEnd := nextMonth sub.currentPeriodEnd }

theorem ledgerCurrent_written (nextMonth : ℤ → ℤ) (c : String) (sub : Subscription)
    (ledger : Option QuotaLedger) :
    LedgerCurrent ((writesFor nextMonth c sub).foldl Book.perform ⟨some sub, ledger⟩) := by
  refine ⟨advance nextMonth sub, rfl, ?_⟩
  cases ledger <;> exact ⟨_, rfl, rfl, rfl, rfl⟩

/-- The scan at this time finds the customer's subscription due. -/
def DueAt (b : Book) (now : ℤ) : Prop := ∃ sub, b.subscription = some sub ∧ isDue now sub = true

theorem complete_due (start : ℤ × Pricing) (h : DueAt (book db c) start.1) :
    LedgerCurrent (book (runScan nextMonth db (completeScan start)) c) ∧
      Advanced c ((completeScan start).writes nextMonth db) := by
  obtain ⟨sub, hsub, hdue⟩ := h
  change db.subscription.get? c = some sub at hsub
  have hown : own c ((completeScan start).writes nextMonth db) = writesFor nextMonth c sub := by
    rw [(own_writes nextMonth db c (completeScan start)).2 rfl, hsub]
    exact if_pos hdue
  constructor
  · rw [book_runScan, hown, book, hsub]
    exact ledgerCurrent_written nextMonth c sub _
  · rw [← advanced_own, hown]
    exact advanced_writesFor sub

theorem complete_not_due (nextMonth : ℤ → ℤ) (start : ℤ × Pricing) (h : ¬ DueAt (book db c) start.1) :
    book (runScan nextMonth db (completeScan start)) c = book db c ∧
      ¬ Advanced c ((completeScan start).writes nextMonth db) := by
  have hown : own c ((completeScan start).writes nextMonth db) = [] := by
    rw [(own_writes nextMonth db c (completeScan start)).2 rfl]
    cases hsub : db.subscription.get? c with
    | none => rfl
    | some sub => exact if_neg fun hdue => h ⟨sub, hsub, hdue⟩
  rw [book_runScan, ← advanced_own, hown]
  exact ⟨rfl, not_advanced_nil⟩

theorem LedgerCurrent.later (h : LedgerCurrent (book db c)) (later : List (ℤ × Pricing)) :
    LedgerCurrent (book (runScans nextMonth db (later.map completeScan)) c) := by
  induction later generalizing db with
  | nil => exact h
  | cons start later ih =>
    have hnext : LedgerCurrent (book (runScan nextMonth db (completeScan start)) c) := by
      by_cases hdue : DueAt (book db c) start.1
      · exact (complete_due start hdue).1
      · rw [(complete_not_due nextMonth start hdue).1]
        exact h
    exact ih hnext

/-- Complete scans put the ledger on the current period once the subscription is
due at one of them, and otherwise leave the customer's rows. -/
theorem later_due (later : List (ℤ × Pricing)) (h : ∃ start ∈ later, DueAt (book db c) start.1) :
    LedgerCurrent (book (runScans nextMonth db (later.map completeScan)) c) := by
  induction later generalizing db with
  | nil =>
    obtain ⟨start, hmem, -⟩ := h
    cases hmem
  | cons first later ih =>
    by_cases hdue : DueAt (book db c) first.1
    · have hnow : LedgerCurrent (book (runScan nextMonth db (completeScan first)) c) :=
        (complete_due first hdue).1
      exact hnow.later later
    · have hsame := (complete_not_due nextMonth first hdue).1
      obtain ⟨start, hmem, hstart⟩ := h
      rcases List.mem_cons.mp hmem with rfl | hlater
      · exact absurd hstart hdue
      · exact ih ⟨start, hlater, hsame ▸ hstart⟩

theorem later_not_due (nextMonth : ℤ → ℤ) (later : List (ℤ × Pricing)) (h : ¬ ∃ start ∈ later, DueAt (book db c) start.1) :
    book (runScans nextMonth db (later.map completeScan)) c = book db c ∧
      ¬ Advanced c (performed nextMonth db (later.map completeScan)) := by
  induction later generalizing db with
  | nil => exact ⟨rfl, not_advanced_nil⟩
  | cons first later ih =>
    have hdue : ¬ DueAt (book db c) first.1 := fun hfirst => h ⟨first, List.mem_cons_self, hfirst⟩
    obtain ⟨hsame, hnone⟩ := complete_not_due nextMonth first hdue
    have hnever : ¬ ∃ start ∈ later,
        DueAt (book (runScan nextMonth db (completeScan first)) c) start.1 := by
      rintro ⟨start, hmem, hstart⟩
      exact h ⟨start, List.mem_cons_of_mem _ hmem, hsame ▸ hstart⟩
    have hlater := ih hnever
    refine ⟨hlater.1.trans hsame, fun hadvanced => ?_⟩
    exact (advanced_append.mp hadvanced).elim hnone hlater.2

/-! ## The scan that crashes -/

/-- The crash came between the customer's two writes. -/
def Torn (c : String) (periodStart periodEnd : ℤ) (ws : List Write) : Prop :=
  .subscription c periodStart periodEnd ∈ ws ∧ .ledger c periodStart periodEnd ∉ ws

theorem torn_own {periodStart periodEnd : ℤ} {ws : List Write} :
    Torn c periodStart periodEnd (own c ws) ↔ Torn c periodStart periodEnd ws :=
  and_congr (mem_own rfl) (not_congr (mem_own rfl))

inductive Outcome (nextMonth : ℤ → ℤ) (c : String) (before : Book) : List Write → Book → Prop where
  | unmoved {ws : List Write} (h : ¬ Advanced c ws) : Outcome nextMonth c before ws before
  | torn {sub : Subscription} (hsub : before.subscription = some sub) (active : sub.status = .ACTIVE)
      {ws : List Write} (hws : ∀ s e, Torn c s e ws ↔
        s = sub.currentPeriodEnd ∧ e = nextMonth sub.currentPeriodEnd) :
      Outcome nextMonth c before ws ⟨some (advance nextMonth sub), before.ledger⟩
  | done {ws : List Write} {after : Book} (h : LedgerCurrent after) (hws : ∀ s e, ¬ Torn c s e ws) :
      Outcome nextMonth c before ws after

theorem outcome (nextMonth : ℤ → ℤ) (db : BillingDb) (c : String) (scan : Scan) :
    Outcome nextMonth c (book db c) (own c (scan.writes nextMonth db))
      (book (runScan nextMonth db scan) c) := by
  rw [book_runScan]
  rcases own_cases nextMonth db c scan with
    hown | ⟨sub, hsub, hdue, hown | hown | hown⟩ <;> rw [hown]
  · exact .unmoved not_advanced_nil
  · exact .unmoved (by simp [Advanced])
  · have hactive : sub.status = .ACTIVE := (of_decide_eq_true hdue).1
    have hafter : [Write.invoice c sub.currentPeriodStart sub.currentPeriodEnd,
        .subscription c sub.currentPeriodEnd (nextMonth sub.currentPeriodEnd)].foldl Book.perform
          (book db c) = ⟨some (advance nextMonth sub), (book db c).ledger⟩ := by
      simp only [List.foldl_cons, List.foldl_nil, Book.perform, book, hsub]
      rfl
    rw [hafter]
    exact .torn hsub hactive fun s e => by simp [Torn]
  · have hafter := ledgerCurrent_written nextMonth c sub (book db c).ledger
    rw [← hsub] at hafter
    refine .done hafter fun s e htorn => ?_
    simp only [Torn, writesFor, List.mem_cons, reduceCtorEq, Write.subscription.injEq,
      Write.ledger.injEq, true_and, List.not_mem_nil, or_false, false_or] at htorn
    exact htorn.2 htorn.1

theorem dueAt_advanced {sub : Subscription} {ledger : Option QuotaLedger} (active : sub.status = .ACTIVE)
    (now : ℤ) : DueAt ⟨some (advance nextMonth sub), ledger⟩ now ↔
      nextMonth sub.currentPeriodEnd ≤ now := by
  constructor
  · rintro ⟨next, hnext, hdue⟩
    obtain rfl := Option.some.inj hnext
    exact (of_decide_eq_true hdue).2
  · exact fun hle => ⟨_, rfl, decide_eq_true ⟨active, hle⟩⟩

/-- The customer whom the crash left torn is found due by a later scan, or has
had its ledger on the next period already. -/
def Repaired (nextMonth : ℤ → ℤ) (db : BillingDb) (crashed : Scan) (later : List (ℤ × Pricing))
    (c : String) : Prop :=
  ∀ periodStart periodEnd, Torn c periodStart periodEnd (crashed.writes nextMonth db) →
    (∃ start ∈ later, periodEnd ≤ start.1) ∨
      LedgerReads (db.ledger.quotaLedger c) periodStart periodEnd

theorem crash_safe_iff (nextMonth : ℤ → ℤ) (db : BillingDb) (crashed : Scan)
    (later : List (ℤ × Pricing)) :
    (∀ c, Advanced c (performed nextMonth db (crashed :: later.map completeScan)) →
      LedgerCurrent (book (runScans nextMonth db (crashed :: later.map completeScan)) c)) ↔
      ∀ c, Repaired nextMonth db crashed later c := by
  refine forall_congr' fun c => ?_
  rw [performed, advanced_append, runScans, ← advanced_own]
  unfold Repaired
  have htorn : ∀ s e, Torn c s e (crashed.writes nextMonth db) ↔
      Torn c s e (own c (crashed.writes nextMonth db)) := fun s e => torn_own.symm
  simp only [htorn]
  have houtcome := outcome nextMonth db c crashed
  generalize own c (crashed.writes nextMonth db) = ws at houtcome ⊢
  generalize runScan nextMonth db crashed = mid at houtcome ⊢
  generalize hmid : book mid c = after at houtcome
  have hlater : (∃ start ∈ later, DueAt after start.1) →
      LedgerCurrent (book (runScans nextMonth mid (later.map completeScan)) c) :=
    fun hdue => later_due later (hmid ▸ hdue)
  cases houtcome with
  | unmoved hnone =>
    refine iff_of_true (fun hadvanced => ?_) fun s e htorn => absurd ⟨s, e, htorn.1⟩ hnone
    by_contra hold
    have hstill := later_not_due nextMonth later (hmid.symm ▸ mt hlater hold)
    exact hadvanced.elim hnone hstill.2
  | @torn sub hsub active ws hws =>
    have htorn := (hws _ _).mpr ⟨rfl, rfl⟩
    by_cases hdue : ∃ start ∈ later, nextMonth sub.currentPeriodEnd ≤ start.1
    · refine iff_of_true (fun _ => hlater ?_) fun s e h => .inl ?_
      · obtain ⟨start, hmem, hle⟩ := hdue
        exact ⟨start, hmem, (dueAt_advanced active _).mpr hle⟩
      · rw [((hws s e).mp h).2]
        exact hdue
    · have hnever : ¬ ∃ start ∈ later, DueAt (book mid c) start.1 := by
        rintro ⟨start, hmem, hstart⟩
        rw [hmid] at hstart
        exact hdue ⟨start, hmem, (dueAt_advanced active _).mp hstart⟩
      rw [(later_not_due nextMonth later hnever).1, hmid]
      constructor
      · intro hcurrent s e h
        obtain ⟨rfl, rfl⟩ := (hws s e).mp h
        obtain ⟨next, hnext, hreads⟩ := hcurrent (.inl ⟨_, _, htorn.1⟩)
        obtain rfl := Option.some.inj hnext
        exact .inr hreads
      · intro hrepaired _
        exact ⟨_, rfl, (hrepaired _ _ htorn).resolve_left hdue⟩
  | done hcurrent hws =>
    refine iff_of_true (fun _ => ?_) fun s e h => absurd h (hws s e)
    have hnow : LedgerCurrent (book mid c) := hmid ▸ hcurrent
    exact hnow.later later

/-- The scan crashes after it has advanced the subscription; the scan of the next
day no longer finds it due. -/
theorem ledger_left_behind :
    let scans := ⟨10, samplePricing, some 2⟩ :: [(11, samplePricing)].map completeScan
    ¬ ∀ c, Advanced c (performed (fun t => t + 30) sampleDb scans) →
      LedgerCurrent (book (runScans (fun t => t + 30) sampleDb scans) c) := by
  intro scans h
  have hadvanced : .subscription "a" 10 40 ∈ performed (fun t => t + 30) sampleDb scans := by
    decide +kernel
  have hledger : (book (runScans (fun t => t + 30) sampleDb scans) "a").ledger =
      some ⟨0, 10, 5, 0⟩ := by
    decide +kernel
  obtain ⟨_, _, row, hrow, _, _, hused⟩ := h "a" ⟨_, _, hadvanced⟩
  obtain rfl := Option.some.inj (hledger.symm.trans hrow)
  exact absurd hused (by decide)

end ModelForge.InvoiceCrash
