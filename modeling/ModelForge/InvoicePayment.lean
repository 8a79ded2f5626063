import ModelForge.InvoiceScan
import ModelForge.RunInvariant

set_option autoImplicit false

/-!
# Paying an invoice

Three paths write to an invoice: `generateInvoice` its amount, the checkout route
its status and payment, the payment webhook its status. The first two read, wait,
and then write without a look at the status.
-/
namespace ModelForge.InvoicePayment
open RunInvariant LedgerStore InvoiceScan

/-! ## `generateInvoice` in two steps -/

/-- What the usage query joins to its events. -/
structure Prices where
  costMicros : UsageEvent → Option ℤ
  pricingVersion : UsageEvent → Option Rates
  model : UsageEvent → Option Rates

def Prices.pricing (prices : Prices) (calculateUsageCents : List UsageLine → ℤ) : Pricing :=
  ⟨prices.costMicros, prices.pricingVersion, prices.model, calculateUsageCents⟩

/-- An event as the reductions over the found usage see it. -/
structure PricedUsage where
  costMicros : Option ℤ
  line : Option UsageLine
  deriving DecidableEq, Repr

def findUsage (prices : Prices) (db : BillingDb) (key : InvoiceKey) : List PricedUsage :=
  (usageIn db key.customerId key.periodStart key.periodEnd).map fun e =>
    ⟨prices.costMicros e, usageLine (prices.pricing fun _ => 0) e⟩

def amountOf (calculateUsageCents : List UsageLine → ℤ) (found : List PricedUsage) : ℤ :=
  let fromRequests :=
    (found.map fun e => (e.costMicros.map fun micros => micros.tdiv 10000).getD 0).sum
  if 0 < fromRequests then fromRequests
  else calculateUsageCents (found.filterMap PricedUsage.line)

def upsertInvoice (db : BillingDb) (key : InvoiceKey) (amount : ℤ) : BillingDb :=
  match db.invoice.get? key with
  | some _ => { db with invoice := db.invoice.update key fun i => { i with amountCents := amount } }
  | none => { db with invoice := db.invoice.set key ⟨amount, .DRAFT, none, none⟩ }

variable {calculateUsageCents : List UsageLine → ℤ}

theorem amountOf_findUsage (prices : Prices) (db : BillingDb) (key : InvoiceKey) :
    amountOf calculateUsageCents (findUsage prices db key) =
      amountCents (prices.pricing calculateUsageCents)
        (usageIn db key.customerId key.periodStart key.periodEnd) := by
  have hline : usageLine (prices.pricing fun _ => 0) =
      usageLine (prices.pricing calculateUsageCents) := rfl
  have hmap : ∀ events : List UsageEvent,
      (events.map fun e => PricedUsage.mk (prices.costMicros e)
        (usageLine (prices.pricing fun _ => 0) e)).filterMap PricedUsage.line =
      events.filterMap (usageLine (prices.pricing calculateUsageCents)) := by
    intro events
    rw [List.filterMap_map, hline]
    rfl
  simp only [amountOf, amountCents, amountFromRequests, findUsage, List.map_map, hmap]
  rfl

/-- Without an interruption the two steps are `generateInvoice`. -/
theorem upsertInvoice_findUsage (prices : Prices) (db : BillingDb) (key : InvoiceKey) :
    upsertInvoice db key (amountOf calculateUsageCents (findUsage prices db key)) =
      generateInvoice (prices.pricing calculateUsageCents) db key.customerId key.periodStart
        key.periodEnd := by
  rw [amountOf_findUsage]
  rfl

/-! ## The checkout route and the webhook -/

structure ApiError where
  status : ℕ
  message : String
  deriving DecidableEq, Repr

/-- What the adapter is asked for. -/
structure Checkout where
  customerId : String
  invoiceId : InvoiceKey
  amountCents : ℤ
  deriving DecidableEq, Repr

structure PaymentCheckoutResult where
  provider : String
  externalId : String
  deriving DecidableEq, Repr

/-- The route up to `createCheckout`. An empty `customerId` is not checked. -/
def startCheckout (db : BillingDb) (id : InvoiceKey) (customerId : Option String) :
    Except ApiError Checkout :=
  match db.invoice.get? id with
  | none => .error ⟨404, "invoice not found"⟩
  | some invoice =>
    if customerId.any fun c => c ≠ "" ∧ id.customerId ≠ c then
      .error ⟨403, "invoice ownership mismatch"⟩
    else .ok ⟨id.customerId, id, invoice.amountCents⟩

def finishCheckout (db : BillingDb) (id : InvoiceKey) (checkout : PaymentCheckoutResult) : BillingDb :=
  { db with
    invoice := db.invoice.update id fun i =>
      { i with
        status := .SENT
        paymentProvider := some checkout.provider
        paymentRef := some checkout.externalId } }

/-- What `verifyWebhook` returns. -/
structure WebhookEvent where
  event : String
  invoiceId : Option InvoiceKey
  deriving DecidableEq, Repr

def POST (db : BillingDb) (event : WebhookEvent) : BillingDb :=
  match event.invoiceId with
  | some id =>
    if event.event = "checkout.session.completed" ∨ event.event = "invoice.paid" then
      { db with invoice := db.invoice.update id fun i => { i with status := .PAID } }
    else db
  | none => db

/-! ## Runs -/

structure Generation where
  key : InvoiceKey
  found : List PricedUsage
  deriving DecidableEq, Repr

/-- `generations` and `checkouts` wait between their read and their write;
`billed` is what an invoice's amount was last computed from. -/
structure World where
  db : BillingDb
  generations : List Generation
  checkouts : List Checkout
  billed : InvoiceKey → Option (List PricedUsage)

def start (db : BillingDb) : World := ⟨db, [], [], fun _ => none⟩

inductive Event where
  | usage (event : UsageEvent)
  | find (key : InvoiceKey) (prices : Prices)
  | upsert (i : ℕ)
  | startCheckout (id : InvoiceKey) (customerId : Option String)
  | finishCheckout (i : ℕ) (checkout : PaymentCheckoutResult)
  | webhook (event : WebhookEvent)

def addUsage (db : BillingDb) (event : UsageEvent) : BillingDb :=
  { db with ledger := { db.ledger with usageEvent := db.ledger.usageEvent ++ [event] } }

def step (calculateUsageCents : List UsageLine → ℤ) (w : World) : Event → Option World
  | .usage event => some { w with db := addUsage w.db event }
  | .find key prices =>
    some { w with generations := w.generations ++ [⟨key, findUsage prices w.db key⟩] }
  | .upsert i =>
    w.generations[i]?.map fun g =>
      { w with
        db := upsertInvoice w.db g.key (amountOf calculateUsageCents g.found)
        generations := w.generations.eraseIdx i
        billed := Function.update w.billed g.key (some g.found) }
  | .startCheckout id customerId =>
    match InvoicePayment.startCheckout w.db id customerId with
    | .error _ => some w
    | .ok checkout => some { w with checkouts := w.checkouts ++ [checkout] }
  | .finishCheckout i checkout =>
    w.checkouts[i]?.map fun c =>
      { w with
        db := InvoicePayment.finishCheckout w.db c.invoiceId checkout
        checkouts := w.checkouts.eraseIdx i }
  | .webhook event => some { w with db := POST w.db event }

def Paid (w : World) (key : InvoiceKey) : Prop :=
  (w.db.invoice.get? key).map Invoice.status = some .PAID

instance (w : World) (key : InvoiceKey) : Decidable (Paid w key) := inferInstanceAs (Decidable (_ = _))

/-- No checkout is written to a paid invoice, and no generation that found other
usage or other prices than its amount was computed from. -/
def SparesPaid (w : World) : Event → Prop
  | .upsert i => ∀ g ∈ w.generations[i]?, Paid w g.key → w.billed g.key = some g.found
  | .finishCheckout i _ => ∀ c ∈ w.checkouts[i]?, ¬ Paid w c.invoiceId
  | _ => True

instance (w : World) : (e : Event) → Decidable (SparesPaid w e)
  | .upsert i =>
    inferInstanceAs (Decidable (∀ g ∈ w.generations[i]?, Paid w g.key → w.billed g.key = some g.found))
  | .finishCheckout i _ => inferInstanceAs (Decidable (∀ c ∈ w.checkouts[i]?, ¬ Paid w c.invoiceId))
  | .usage _ | .find _ _ | .startCheckout _ _ | .webhook _ => isTrue trivial

/-- What is paid stays paid, at its amount. -/
def PaidKept (w w' : World) : Prop :=
  ∀ key invoice, w.db.invoice.get? key = some invoice → invoice.status = .PAID →
    ∃ invoice', w'.db.invoice.get? key = some invoice' ∧ invoice'.status = .PAID ∧
      invoice'.amountCents = invoice.amountCents

theorem PaidKept.refl (w : World) : PaidKept w w :=
  fun _ invoice h hpaid => ⟨invoice, h, hpaid, rfl⟩

theorem PaidKept.trans {w w' w'' : World} (h : PaidKept w w') (h' : PaidKept w' w'') :
    PaidKept w w'' := by
  intro key invoice hinvoice hpaid
  obtain ⟨mid, hmid, hmidPaid, hamount⟩ := h key invoice hinvoice hpaid
  obtain ⟨last, hlast, hlastPaid, hamount'⟩ := h' key mid hmid hmidPaid
  exact ⟨last, hlast, hlastPaid, hamount'.trans hamount⟩

/-- The amounts are those of the usage that they were computed from. -/
def Inv (calculateUsageCents : List UsageLine → ℤ) (w : World) : Prop :=
  ∀ key invoice found, w.db.invoice.get? key = some invoice → w.billed key = some found →
    invoice.amountCents = amountOf calculateUsageCents found

/-! ## What a write leaves -/

theorem get?_upsertInvoice (db : BillingDb) (key j : InvoiceKey) (amount : ℤ) :
    (upsertInvoice db key amount).invoice.get? j =
      if j = key then
        some (match db.invoice.get? key with
          | some i => { i with amountCents := amount }
          | none => ⟨amount, .DRAFT, none, none⟩)
      else db.invoice.get? j := by
  unfold upsertInvoice
  by_cases hj : j = key
  · subst hj
    rw [if_pos rfl]
    cases hinvoice : db.invoice.get? j with
    | none => exact KeyedMap.get?_set_self ..
    | some i => simp [KeyedMap.get?_update, hinvoice]
  · rw [if_neg hj]
    cases hinvoice : db.invoice.get? key with
    | none => exact KeyedMap.get?_set_of_ne hj
    | some i => simp [KeyedMap.get?_update, hj]

theorem get?_finishCheckout (db : BillingDb) (id j : InvoiceKey) (checkout : PaymentCheckoutResult) :
    (InvoicePayment.finishCheckout db id checkout).invoice.get? j =
      if j = id then
        (db.invoice.get? j).map fun i =>
          { i with
            status := .SENT
            paymentProvider := some checkout.provider
            paymentRef := some checkout.externalId }
      else db.invoice.get? j :=
  KeyedMap.get?_update ..

/-- The webhook changes no amount and takes no invoice out of `PAID`. -/
theorem get?_POST (db : BillingDb) (event : WebhookEvent) (j : InvoiceKey) :
    (POST db event).invoice.get? j = db.invoice.get? j ∨
      (POST db event).invoice.get? j = (db.invoice.get? j).map fun i => { i with status := .PAID } := by
  unfold POST
  cases event.invoiceId with
  | none => exact .inl rfl
  | some id =>
    by_cases hevent : event.event = "checkout.session.completed" ∨ event.event = "invoice.paid"
    · simp only [if_pos hevent, KeyedMap.get?_update]
      by_cases hj : j = id
      · exact .inr (if_pos hj)
      · exact .inl (if_neg hj)
    · simp only [if_neg hevent]
      exact .inl trivial

/-! ## Runs -/

variable {w w' : World} {e : Event}

theorem paid_of_get? {key : InvoiceKey} {invoice : Invoice}
    (h : w.db.invoice.get? key = some invoice) (hpaid : invoice.status = .PAID) : Paid w key := by
  unfold Paid
  rw [h, Option.map_some, hpaid]

theorem upsert_keeps {g : Generation} {i : ℕ} (hi : Inv calculateUsageCents w)
    (hg : w.generations[i]? = some g) (hspares : SparesPaid w (.upsert i))
    (h : step calculateUsageCents w (.upsert i) = some w') :
    PaidKept w w' ∧ Inv calculateUsageCents w' := by
  simp only [step, hg, Option.map_some, Option.some.injEq] at h
  subst h
  refine ⟨fun key invoice hinvoice hpaid => ?_, fun key invoice found hinvoice hbilled => ?_⟩
  · dsimp only
    rw [get?_upsertInvoice]
    by_cases hkey : key = g.key
    · subst hkey
      rw [if_pos rfl, hinvoice]
      have hbilled := hspares g hg (paid_of_get? hinvoice hpaid)
      exact ⟨_, rfl, hpaid, (hi _ invoice g.found hinvoice hbilled).symm⟩
    · rw [if_neg hkey]
      exact ⟨invoice, hinvoice, hpaid, rfl⟩
  · dsimp only at hinvoice hbilled
    rw [get?_upsertInvoice] at hinvoice
    by_cases hkey : key = g.key
    · subst hkey
      rw [Function.update_self] at hbilled
      obtain rfl := Option.some.inj hbilled
      rw [if_pos rfl] at hinvoice
      obtain rfl := Option.some.inj hinvoice
      cases w.db.invoice.get? g.key <;> rfl
    · rw [if_neg hkey] at hinvoice
      rw [Function.update_of_ne hkey] at hbilled
      exact hi key invoice found hinvoice hbilled

theorem finishCheckout_keeps {c : Checkout} {i : ℕ} {checkout : PaymentCheckoutResult}
    (hi : Inv calculateUsageCents w) (hc : w.checkouts[i]? = some c)
    (hspares : SparesPaid w (.finishCheckout i checkout))
    (h : step calculateUsageCents w (.finishCheckout i checkout) = some w') :
    PaidKept w w' ∧ Inv calculateUsageCents w' := by
  simp only [step, hc, Option.map_some, Option.some.injEq] at h
  subst h
  refine ⟨fun key invoice hinvoice hpaid => ?_, fun key invoice found hinvoice hbilled => ?_⟩
  · have hkey : key ≠ c.invoiceId := by
      rintro rfl
      exact hspares c hc (paid_of_get? hinvoice hpaid)
    dsimp only
    rw [get?_finishCheckout, if_neg hkey]
    exact ⟨invoice, hinvoice, hpaid, rfl⟩
  · dsimp only at hinvoice
    rw [get?_finishCheckout] at hinvoice
    by_cases hkey : key = c.invoiceId
    · rw [if_pos hkey] at hinvoice
      obtain ⟨before, hbefore, rfl⟩ := Option.map_eq_some_iff.mp hinvoice
      exact hi key before found hbefore hbilled
    · rw [if_neg hkey] at hinvoice
      exact hi key invoice found hinvoice hbilled

theorem webhook_keeps {event : WebhookEvent} (hi : Inv calculateUsageCents w)
    (h : step calculateUsageCents w (.webhook event) = some w') :
    PaidKept w w' ∧ Inv calculateUsageCents w' := by
  obtain rfl := Option.some.inj h
  refine ⟨fun key invoice hinvoice hpaid => ?_, fun key invoice found hinvoice hbilled => ?_⟩
  · rcases get?_POST w.db event key with hsame | hset
    · exact ⟨invoice, hsame.trans hinvoice, hpaid, rfl⟩
    · rw [hinvoice] at hset
      exact ⟨_, hset, rfl, rfl⟩
  · rcases get?_POST w.db event key with hsame | hset
    · exact hi key invoice found (hsame.symm.trans hinvoice) hbilled
    · obtain ⟨before, hbefore, rfl⟩ := Option.map_eq_some_iff.mp (hset.symm.trans hinvoice)
      exact hi key before found hbefore hbilled

theorem step_keeps (hi : Inv calculateUsageCents w) (h : step calculateUsageCents w e = some w')
    (hspares : SparesPaid w e) : PaidKept w w' ∧ Inv calculateUsageCents w' := by
  cases e with
  | usage event =>
    obtain rfl := Option.some.inj h
    exact ⟨.refl w, hi⟩
  | find key prices =>
    obtain rfl := Option.some.inj h
    exact ⟨.refl w, hi⟩
  | upsert i =>
    obtain ⟨g, hg, -⟩ := Option.map_eq_some_iff.mp h
    exact upsert_keeps hi hg hspares h
  | startCheckout id customerId =>
    simp only [step] at h
    split at h
    · obtain rfl := Option.some.inj h
      exact ⟨.refl w, hi⟩
    · obtain rfl := Option.some.inj h
      exact ⟨.refl w, hi⟩
  | finishCheckout i checkout =>
    obtain ⟨c, hc, -⟩ := Option.map_eq_some_iff.mp h
    exact finishCheckout_keeps hi hc hspares h
  | webhook event => exact webhook_keeps hi h

/-- An invoice that is paid at some point of a run that spares paid invoices is
paid, at the same amount, at every later point. -/
theorem paid_invoice_final (calculateUsageCents : List UsageLine → ℤ) (db : BillingDb)
    (before after : List Event)
    (hspares : EveryStep (step calculateUsageCents) (fun s e _ => SparesPaid s e) (start db)
      (before ++ after))
    (hbefore : run (step calculateUsageCents) (start db) before = some w)
    (hafter : run (step calculateUsageCents) w after = some w') : PaidKept w w' := by
  have hinit : Inv calculateUsageCents (start db) := fun _ _ _ _ h => by cases h
  have hkeep : ∀ s e t, Inv calculateUsageCents s → step calculateUsageCents s e = some t →
      SparesPaid s e → PaidKept s t ∧ Inv calculateUsageCents t :=
    fun _ _ _ hs ht hguard => step_keeps hs ht hguard
  have hmid := run_relates _ (fun s e _ => SparesPaid s e) PaidKept PaidKept.refl
    (fun _ _ _ => PaidKept.trans) hkeep hinit hspares.take hbefore
  exact (run_relates _ (fun s e _ => SparesPaid s e) PaidKept PaidKept.refl
    (fun _ _ _ => PaidKept.trans) hkeep hmid.2 (hspares.drop hbefore) hafter).1

def sampleKey : InvoiceKey := ⟨"a", 0, 10⟩

def sampleUsage (createdAt : ℤ) : UsageEvent :=
  ⟨"a", "key", none, "model", 3, 4, 0, "r", "r", none, createdAt⟩

def samplePrices : Prices := ⟨fun _ => none, fun _ => none, fun _ => some ⟨1, 1⟩⟩

def sampleCents : List UsageLine → ℤ := samplePricing.calculateUsageCents

/-- The invoice of the period from 0 to 10, generated over one event and paid. -/
def samplePayment : List Event :=
  [.usage (sampleUsage 5), .find sampleKey samplePrices, .upsert 0, .startCheckout sampleKey (some "a"),
    .finishCheckout 0 ⟨"stripe", "cs_1"⟩, .webhook ⟨"checkout.session.completed", some sampleKey⟩]

/-- A second webhook, usage of the next period and a late generation. -/
def sampleSequel : List Event :=
  [.webhook ⟨"checkout.session.completed", some sampleKey⟩, .usage (sampleUsage 12),
    .find sampleKey samplePrices, .upsert 0]

theorem paid_invoice_final_sample :
    (run (step sampleCents) (start sampleDb) (samplePayment ++ sampleSequel)).isSome = true ∧
      ∀ w w', run (step sampleCents) (start sampleDb) samplePayment = some w →
        run (step sampleCents) w sampleSequel = some w' → PaidKept w w' :=
  ⟨by decide +kernel, fun _ _ hbefore hafter =>
    paid_invoice_final sampleCents sampleDb samplePayment sampleSequel (by decide +kernel) hbefore hafter⟩

/-- A customer opens the checkout of a paid invoice: it is `SENT` again. -/
theorem paid_invoice_reopened :
    ¬ ∀ before after w w', run (step sampleCents) (start sampleDb) before = some w →
      run (step sampleCents) w after = some w' → PaidKept w w' := by
  intro h
  have hkept := h samplePayment
    [.startCheckout sampleKey (some "a"), .finishCheckout 0 ⟨"stripe", "cs_2"⟩] _ _ rfl rfl
  obtain ⟨invoice, hinvoice, hpaid, -⟩ := hkept sampleKey ⟨3, .PAID, some "stripe", some "cs_1"⟩
    (by decide +kernel) rfl
  have hsent : some invoice = some ⟨3, .SENT, some "stripe", some "cs_2"⟩ :=
    hinvoice.symm.trans (by decide +kernel)
  obtain rfl := Option.some.inj hsent
  cases hpaid

end ModelForge.InvoicePayment
