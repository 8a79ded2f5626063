import ModelForge.LedgerStore
import ModelForge.KeyedMap

set_option autoImplicit false

/-!
# The invoice worker

The daily scan over the due subscriptions: each gets an invoice for the period
that ended, its next period, and a reset ledger, in three separate writes. A
scan that crashes has performed the first of its writes.
-/
namespace ModelForge.InvoiceScan
open LedgerStore

inductive SubscriptionStatus where
  | ACTIVE
  | PAST_DUE
  | CANCELED
  deriving DecidableEq, Repr

inductive InvoiceStatus where
  | DRAFT
  | SENT
  | PAID
  | OVERDUE
  deriving DecidableEq, Repr

/-- A subscription row; `customerId` is unique, so the row's index stands for its id. -/
structure Subscription where
  status : SubscriptionStatus
  currentPeriodStart : ℤ
  currentPeriodEnd : ℤ
  deriving DecidableEq, Repr

/-- The unique key of an invoice. -/
structure InvoiceKey where
  customerId : String
  periodStart : ℤ
  periodEnd : ℤ
  deriving DecidableEq, Repr

structure Invoice where
  amountCents : ℤ
  status : InvoiceStatus
  paymentProvider : Option String
  paymentRef : Option String
  deriving DecidableEq, Repr

structure BillingDb where
  ledger : LedgerDb
  subscription : KeyedMap String Subscription
  invoice : KeyedMap InvoiceKey Invoice

/-! ## `generateInvoice` -/

structure Rates where
  pricePerMTokIn : ℚ
  pricePerMTokOut : ℚ
  deriving DecidableEq, Repr

structure UsageLine where
  promptTokens : ℤ
  completionTokens : ℤ
  rates : Rates
  deriving DecidableEq, Repr

/-- What the query joins to an event: the cost and the pricing version of its
inference request, and its model's prices. `calculateUsageCents` works in doubles. -/
structure Pricing where
  costMicros : UsageEvent → Option ℤ
  pricingVersion : UsageEvent → Option Rates
  model : UsageEvent → Option Rates
  calculateUsageCents : List UsageLine → ℤ

/-- The event falls in the queried period. -/
def InPeriod (periodStart periodEnd createdAt : ℤ) : Prop :=
  periodStart ≤ createdAt ∧ createdAt < periodEnd

instance (periodStart periodEnd createdAt : ℤ) : Decidable (InPeriod periodStart periodEnd createdAt) :=
  inferInstanceAs (Decidable (_ ∧ _))

def usageIn (db : BillingDb) (customerId : String) (periodStart periodEnd : ℤ) : List UsageEvent :=
  db.ledger.usageEvent.filter fun e =>
    e.customerId = customerId ∧ InPeriod periodStart periodEnd e.createdAt

def amountFromRequests (pricing : Pricing) (events : List UsageEvent) : ℤ :=
  (events.map fun e => ((pricing.costMicros e).map fun micros => micros.tdiv 10000).getD 0).sum

def usageLine (pricing : Pricing) (e : UsageEvent) : Option UsageLine :=
  ((pricing.pricingVersion e).or (pricing.model e)).map fun rates =>
    ⟨e.promptTokens, e.completionTokens, rates⟩

def amountCents (pricing : Pricing) (events : List UsageEvent) : ℤ :=
  if 0 < amountFromRequests pricing events then amountFromRequests pricing events
  else pricing.calculateUsageCents (events.filterMap (usageLine pricing))

def generateInvoice (pricing : Pricing) (db : BillingDb) (customerId : String)
    (periodStart periodEnd : ℤ) : BillingDb :=
  let amount := amountCents pricing (usageIn db customerId periodStart periodEnd)
  let key : InvoiceKey := ⟨customerId, periodStart, periodEnd⟩
  match db.invoice.get? key with
  | some _ => { db with invoice := db.invoice.update key fun i => { i with amountCents := amount } }
  | none => { db with invoice := db.invoice.set key ⟨amount, .DRAFT, none, none⟩ }

/-! ## The scan -/

/-- The `upsert` that starts a customer's ledger on its next period. -/
def resetLedger (db : LedgerDb) (customerId : String) (nextStart nextEnd : ℤ) : LedgerDb :=
  let next : QuotaLedger :=
    match db.quotaLedger customerId with
    | some ledger => { ledger with periodStart := nextStart, periodEnd := nextEnd, tokensUsed := 0 }
    | none => ⟨nextStart, nextEnd, 0, 0⟩
  { db with quotaLedger := Function.update db.quotaLedger customerId (some next) }

inductive Write where
  | invoice (customerId : String) (periodStart periodEnd : ℤ)
  | subscription (customerId : String) (nextStart nextEnd : ℤ)
  | ledger (customerId : String) (nextStart nextEnd : ℤ)
  deriving DecidableEq, Repr

def perform (pricing : Pricing) (db : BillingDb) : Write → BillingDb
  | .invoice customerId periodStart periodEnd =>
    generateInvoice pricing db customerId periodStart periodEnd
  | .subscription customerId nextStart nextEnd =>
    { db with
      subscription := db.subscription.update customerId fun s =>
        { s with currentPeriodStart := nextStart, currentPeriodEnd := nextEnd } }
  | .ledger customerId nextStart nextEnd =>
    { db with ledger := resetLedger db.ledger customerId nextStart nextEnd }

def isDue (now : ℤ) (sub : Subscription) : Bool :=
  sub.status = .ACTIVE ∧ sub.currentPeriodEnd ≤ now

/-- `nextMonth` is `setMonth(getMonth() + 1)` in the worker's time zone. -/
def writesFor (nextMonth : ℤ → ℤ) (customerId : String) (sub : Subscription) : List Write :=
  [.invoice customerId sub.currentPeriodStart sub.currentPeriodEnd,
    .subscription customerId sub.currentPeriodEnd (nextMonth sub.currentPeriodEnd),
    .ledger customerId sub.currentPeriodEnd (nextMonth sub.currentPeriodEnd)]

/-- The writes of a whole scan. -/
def scanWrites (nextMonth : ℤ → ℤ) (now : ℤ) (db : BillingDb) : List Write :=
  (db.subscription.entries.filter fun e => isDue now e.2).flatMap fun e =>
    writesFor nextMonth e.1 e.2

/-- A scan at `now` that crashes after so many writes, or completes. -/
structure Scan where
  now : ℤ
  pricing : Pricing
  crash : Option ℕ

def Scan.writes (nextMonth : ℤ → ℤ) (db : BillingDb) (scan : Scan) : List Write :=
  match scan.crash with
  | some k => (scanWrites nextMonth scan.now db).take k
  | none => scanWrites nextMonth scan.now db

def runScan (nextMonth : ℤ → ℤ) (db : BillingDb) (scan : Scan) : BillingDb :=
  (scan.writes nextMonth db).foldl (perform scan.pricing) db

def runScans (nextMonth : ℤ → ℤ) : BillingDb → List Scan → BillingDb
  | db, [] => db
  | db, scan :: later => runScans nextMonth (runScan nextMonth db scan) later

/-- The writes that the scans perform, in order. -/
def performed (nextMonth : ℤ → ℤ) : BillingDb → List Scan → List Write
  | _, [] => []
  | db, scan :: later =>
    scan.writes nextMonth db ++ performed nextMonth (runScan nextMonth db scan) later

/-! ## One customer's rows -/

def Write.customer : Write → String
  | .invoice customerId _ _ | .subscription customerId _ _ | .ledger customerId _ _ => customerId

/-- A customer's subscription and ledger row. -/
structure Book where
  subscription : Option Subscription
  ledger : Option QuotaLedger

def book (db : BillingDb) (customerId : String) : Book :=
  ⟨db.subscription.get? customerId, db.ledger.quotaLedger customerId⟩

def Book.perform (b : Book) : Write → Book
  | .invoice _ _ _ => b
  | .subscription _ nextStart nextEnd =>
    { b with
      subscription := b.subscription.map fun s =>
        { s with currentPeriodStart := nextStart, currentPeriodEnd := nextEnd } }
  | .ledger _ nextStart nextEnd =>
    { b with
      ledger := some (match b.ledger with
        | some ledger => { ledger with periodStart := nextStart, periodEnd := nextEnd, tokensUsed := 0 }
        | none => ⟨nextStart, nextEnd, 0, 0⟩) }

variable {nextMonth : ℤ → ℤ} {db : BillingDb} {c : String}

theorem generateInvoice_book (pricing : Pricing) (customerId : String) (periodStart periodEnd : ℤ) :
    book (generateInvoice pricing db customerId periodStart periodEnd) c = book db c := by
  unfold generateInvoice
  dsimp only
  split <;> rfl

/-- A write changes its own customer's rows only. -/
theorem book_perform (pricing : Pricing) (w : Write) :
    book (perform pricing db w) c = if w.customer = c then (book db c).perform w else book db c := by
  cases w with
  | invoice customerId periodStart periodEnd =>
    rw [perform, generateInvoice_book]
    exact (ite_self _).symm
  | subscription customerId nextStart nextEnd =>
    by_cases hc : customerId = c
    · subst hc
      simp [book, perform, Write.customer, Book.perform, KeyedMap.get?_update]
    · simp [book, perform, Write.customer, KeyedMap.get?_update, hc, Ne.symm hc]
  | ledger customerId nextStart nextEnd =>
    by_cases hc : customerId = c
    · subst hc
      simp only [book, perform, resetLedger, Write.customer, Book.perform, Function.update_self, if_true]
    · simp [book, perform, resetLedger, Write.customer, hc, Ne.symm hc]

def own (c : String) (ws : List Write) : List Write := ws.filter fun w => w.customer = c

theorem book_foldl (pricing : Pricing) (ws : List Write) :
    book (ws.foldl (perform pricing) db) c = (own c ws).foldl Book.perform (book db c) := by
  induction ws generalizing db with
  | nil => rfl
  | cons w ws ih =>
    rw [List.foldl_cons, ih, book_perform, own, own, List.filter_cons]
    by_cases hc : w.customer = c <;> simp [hc]

/-- What a whole scan writes for a customer. -/
def customerWrites (nextMonth : ℤ → ℤ) (now : ℤ) (c : String) : Option Subscription → List Write
  | some sub => if isDue now sub then writesFor nextMonth c sub else []
  | none => []

theorem own_writesFor (customerId : String) (sub : Subscription) :
    own c (writesFor nextMonth customerId sub) =
      if customerId = c then writesFor nextMonth customerId sub else [] := by
  by_cases hc : customerId = c <;> simp [own, writesFor, Write.customer, hc]

theorem own_entries (now : ℤ) {entries : List (String × Subscription)}
    (nodup : (entries.map Prod.fst).Nodup) :
    own c ((entries.filter fun e => isDue now e.2).flatMap fun e => writesFor nextMonth e.1 e.2) =
      customerWrites nextMonth now c (entries.lookup c) := by
  induction entries with
  | nil => rfl
  | cons e rest ih =>
    obtain ⟨k, sub⟩ := e
    obtain ⟨hfresh, hrest⟩ := List.nodup_cons.mp nodup
    have happ : ∀ ws ws', own c (ws ++ ws') = own c ws ++ own c ws' := fun _ _ => List.filter_append ..
    by_cases hc : k = c
    · have hnone : rest.lookup c = none := by
        refine List.lookup_eq_none_iff.mpr fun e' he' => ?_
        have hne : e'.1 ≠ c := fun heq =>
          hfresh (List.mem_map.mpr ⟨e', he', heq.trans hc.symm⟩)
        simpa using Ne.symm hne
      have hlater := ih hrest
      rw [hnone] at hlater
      have hlookup : ((k, sub) :: rest).lookup c = some sub := by simp [hc]
      rw [hlookup, List.filter_cons]
      by_cases hdue : isDue now sub
      · rw [if_pos hdue, List.flatMap_cons, happ, hlater, own_writesFor, if_pos hc, hc]
        simp [customerWrites, hdue]
      · rw [if_neg hdue, hlater]
        simp [customerWrites, hdue]
    · have hlookup : ((k, sub) :: rest).lookup c = rest.lookup c := by
        have hb : (c == k) = false := beq_false_of_ne (Ne.symm hc)
        simp [List.lookup_cons, hb]
      rw [hlookup, List.filter_cons]
      by_cases hdue : isDue now sub
      · rw [if_pos hdue, List.flatMap_cons, happ, own_writesFor, if_neg hc, List.nil_append, ih hrest]
      · rw [if_neg hdue, ih hrest]

theorem own_scanWrites (now : ℤ) :
    own c (scanWrites nextMonth now db) =
      customerWrites nextMonth now c (db.subscription.get? c) :=
  own_entries now db.subscription.nodup

/-- What a scan performs for a customer is the beginning of what it has to. -/
theorem own_writes (nextMonth : ℤ → ℤ) (db : BillingDb) (c : String) (scan : Scan) :
    own c (scan.writes nextMonth db) <+:
        customerWrites nextMonth scan.now c (db.subscription.get? c) ∧
      (scan.crash = none → own c (scan.writes nextMonth db) =
        customerWrites nextMonth scan.now c (db.subscription.get? c)) := by
  rw [← own_scanWrites]
  unfold Scan.writes
  cases scan.crash with
  | none => exact ⟨List.prefix_rfl, fun _ => rfl⟩
  | some k => exact ⟨(List.take_prefix k _).filter _, fun h => by cases h⟩

theorem prefix_three {α : Type} {ws : List α} {x y z : α} (h : ws <+: [x, y, z]) :
    ws = [] ∨ ws = [x] ∨ ws = [x, y] ∨ ws = [x, y, z] := by
  rcases List.prefix_cons_iff.mp h with rfl | ⟨ws₁, rfl, h₁⟩
  · exact .inl rfl
  · rcases List.prefix_cons_iff.mp h₁ with rfl | ⟨ws₂, rfl, h₂⟩
    · exact .inr (.inl rfl)
    · rcases List.prefix_cons_iff.mp h₂ with rfl | ⟨ws₃, rfl, h₃⟩
      · exact .inr (.inr (.inl rfl))
      · rw [List.prefix_nil.mp h₃]
        exact .inr (.inr (.inr rfl))

/-- A scan does nothing for a customer, or one, two or all of its three writes. -/
theorem own_cases (nextMonth : ℤ → ℤ) (db : BillingDb) (c : String) (scan : Scan) :
    own c (scan.writes nextMonth db) = [] ∨
      ∃ sub, db.subscription.get? c = some sub ∧ isDue scan.now sub = true ∧
        (own c (scan.writes nextMonth db) =
            [.invoice c sub.currentPeriodStart sub.currentPeriodEnd] ∨
          own c (scan.writes nextMonth db) =
            [.invoice c sub.currentPeriodStart sub.currentPeriodEnd,
              .subscription c sub.currentPeriodEnd (nextMonth sub.currentPeriodEnd)] ∨
          own c (scan.writes nextMonth db) = writesFor nextMonth c sub) := by
  have hprefix := (own_writes nextMonth db c scan).1
  cases hsub : db.subscription.get? c with
  | none =>
    rw [hsub] at hprefix
    exact .inl (List.prefix_nil.mp hprefix)
  | some sub =>
    rw [hsub] at hprefix
    by_cases hdue : isDue scan.now sub
    · simp only [customerWrites, if_pos hdue] at hprefix
      exact (prefix_three hprefix).imp_right fun h => ⟨sub, rfl, hdue, h⟩
    · simp only [customerWrites, if_neg hdue] at hprefix
      exact .inl (List.prefix_nil.mp hprefix)

theorem book_runScan (scan : Scan) :
    book (runScan nextMonth db scan) c =
      (own c (scan.writes nextMonth db)).foldl Book.perform (book db c) :=
  book_foldl scan.pricing _

theorem mem_own {ws : List Write} {w : Write} (h : w.customer = c) : w ∈ own c ws ↔ w ∈ ws := by
  simp [own, h]

/-! ## A sample database -/

def samplePricing : Pricing :=
  ⟨fun _ => none, fun _ => none, fun _ => none, fun lines => (lines.map UsageLine.promptTokens).sum⟩

/-- One active subscription on the period from 0 to 10, with 5 tokens used. -/
def sampleDb : BillingDb where
  ledger := ⟨fun c => if c = "a" then some ⟨0, 10, 5, 0⟩ else none, [], []⟩
  subscription := KeyedMap.empty.set "a" ⟨.ACTIVE, 0, 10⟩
  invoice := .empty

end ModelForge.InvoiceScan
