import ModelForge.InvoiceScan
import ModelForge.PeriodTiling

set_option autoImplicit false

/-!
# The invoices of a customer tile its time

Along every sequence of scans, crashed or complete, the invoices that the worker
generates for a customer have disjoint periods without a gap between them.
-/
namespace ModelForge.BillingPeriods
open InvoiceScan PeriodTiling

variable {nextMonth : ℤ → ℤ} {db : BillingDb} {c : String}

def periodOf : Write → Option (ℤ × ℤ)
  | .invoice _ periodStart periodEnd => some (periodStart, periodEnd)
  | _ => none

/-- The periods of the invoices that the writes generate for the customer. -/
def periodsOf (c : String) (ws : List Write) : List (ℤ × ℤ) := (own c ws).filterMap periodOf

theorem periodsOf_append (ws ws' : List Write) :
    periodsOf c (ws ++ ws') = periodsOf c ws ++ periodsOf c ws' := by
  simp only [periodsOf, own, List.filter_append, List.filterMap_append]

theorem mem_periodsOf {ws : List Write} {p : ℤ × ℤ} :
    p ∈ periodsOf c ws ↔ .invoice c p.1 p.2 ∈ ws := by
  rw [periodsOf, List.mem_filterMap]
  constructor
  · rintro ⟨w, hw, hp⟩
    obtain ⟨hmem, hc⟩ := List.mem_filter.mp hw
    cases w with
    | invoice customerId periodStart periodEnd =>
      obtain rfl := Option.some.inj hp
      obtain rfl := of_decide_eq_true hc
      exact hmem
    | subscription customerId _ _ => cases hp
    | ledger customerId _ _ => cases hp
  · exact fun hmem => ⟨_, List.mem_filter.mpr ⟨hmem, decide_eq_true rfl⟩, rfl⟩

def currentPeriod (sub : Subscription) : ℤ × ℤ := (sub.currentPeriodStart, sub.currentPeriodEnd)

/-! ## A scan -/

theorem scan_tiles (hnext : ∀ t, t < nextMonth t) {first : ℤ} {sub : Subscription}
    {periods : List (ℤ × ℤ)} (hsub : db.subscription.get? c = some sub)
    (h : Tiling first (currentPeriod sub) periods) (scan : Scan) :
    ∃ sub', (runScan nextMonth db scan).subscription.get? c = some sub' ∧
      Tiling first (currentPeriod sub') (periods ++ periodsOf c (scan.writes nextMonth db)) := by
  have hafter : (runScan nextMonth db scan).subscription.get? c =
      ((own c (scan.writes nextMonth db)).foldl Book.perform (book db c)).subscription :=
    congrArg Book.subscription (book_runScan scan)
  rw [hafter, book, hsub, periodsOf]
  have hout : Tiling first (currentPeriod sub) (periods ++ [currentPeriod sub]) := h.handOut
  have hadvanced : Tiling first (sub.currentPeriodEnd, nextMonth sub.currentPeriodEnd)
      (periods ++ [currentPeriod sub]) :=
    hout.advance (List.mem_append_right _ (List.mem_singleton_self _)) (hnext _)
  rcases own_cases nextMonth db c scan with hown | ⟨due, hdue, -, hown⟩
  · rw [hown]
    exact ⟨sub, rfl, by simpa using h⟩
  · obtain rfl := Option.some.inj (hsub.symm.trans hdue)
    rcases hown with hown | hown | hown <;> rw [hown]
    · exact ⟨sub, rfl, hout⟩
    · exact ⟨_, rfl, hadvanced⟩
    · exact ⟨_, rfl, hadvanced⟩

theorem scans_tile (hnext : ∀ t, t < nextMonth t) {first : ℤ} {sub : Subscription}
    {periods : List (ℤ × ℤ)} (hsub : db.subscription.get? c = some sub)
    (h : Tiling first (currentPeriod sub) periods) (scans : List Scan) :
    ∃ sub', (runScans nextMonth db scans).subscription.get? c = some sub' ∧
      Tiling first (currentPeriod sub') (periods ++ periodsOf c (performed nextMonth db scans)) := by
  induction scans generalizing db sub periods with
  | nil => exact ⟨sub, hsub, by simpa [performed, periodsOf, own] using h⟩
  | cons scan scans ih =>
    obtain ⟨mid, hmid, htiles⟩ := scan_tiles hnext hsub h scan
    obtain ⟨sub', hsub', hlast⟩ := ih hmid htiles
    refine ⟨sub', hsub', ?_⟩
    rw [performed, periodsOf_append, ← List.append_assoc]
    exact hlast

/-! ## The rows of the invoices -/

theorem generateInvoice_keys (pricing : Pricing) (customerId : String) (periodStart periodEnd : ℤ)
    {key : InvoiceKey} (h : key ∈ db.invoice.keys ∨ key = ⟨customerId, periodStart, periodEnd⟩) :
    key ∈ (generateInvoice pricing db customerId periodStart periodEnd).invoice.keys := by
  rw [KeyedMap.mem_keys] at h ⊢
  unfold generateInvoice
  dsimp only
  split
  · rename_i hsome
    change ((db.invoice.update _ _).get? key).isSome
    rw [KeyedMap.get?_update]
    rcases h with hkey | rfl
    · split <;> simp [hkey]
    · simp [hsome]
  · change ((db.invoice.set _ _).get? key).isSome
    rw [KeyedMap.get?_set]
    rcases h with hkey | rfl
    · split <;> simp [hkey]
    · simp

theorem perform_keys (pricing : Pricing) (w : Write) {key : InvoiceKey}
    (h : key ∈ db.invoice.keys ∨ w = .invoice key.customerId key.periodStart key.periodEnd) :
    key ∈ (perform pricing db w).invoice.keys := by
  cases w with
  | invoice customerId periodStart periodEnd =>
    refine generateInvoice_keys pricing _ _ _ (h.imp_right fun heq => ?_)
    cases heq
    rfl
  | subscription customerId _ _ => exact h.resolve_right nofun
  | ledger customerId _ _ => exact h.resolve_right nofun

theorem foldl_keys (pricing : Pricing) (ws : List Write) {key : InvoiceKey}
    (h : key ∈ db.invoice.keys ∨ .invoice key.customerId key.periodStart key.periodEnd ∈ ws) :
    key ∈ (ws.foldl (perform pricing) db).invoice.keys := by
  induction ws generalizing db with
  | nil => exact h.resolve_right (List.not_mem_nil)
  | cons w ws ih =>
    refine ih ?_
    rcases h with hkey | hmem
    · exact .inl (perform_keys pricing w (.inl hkey))
    · rcases List.mem_cons.mp hmem with heq | hrest
      · exact .inl (perform_keys pricing w (.inr heq.symm))
      · exact .inr hrest

theorem scans_keys (scans : List Scan) {key : InvoiceKey} (h : key ∈ db.invoice.keys ∨
      .invoice key.customerId key.periodStart key.periodEnd ∈ performed nextMonth db scans) :
    key ∈ (runScans nextMonth db scans).invoice.keys := by
  induction scans generalizing db with
  | nil => exact h.resolve_right (List.not_mem_nil)
  | cons scan scans ih =>
    refine ih ?_
    rcases h with hkey | hmem
    · exact .inl (foldl_keys _ _ (.inl hkey))
    · rcases List.mem_append.mp hmem with hnow | hrest
      · exact .inl (foldl_keys _ _ (.inr hnow))
      · exact .inr hrest

/-! ## Billing -/

theorem mem_usageIn {event : LedgerStore.UsageEvent} {p : ℤ × ℤ} :
    event ∈ usageIn db c p.1 p.2 ↔
      event ∈ db.ledger.usageEvent ∧ event.customerId = c ∧ Within p event.createdAt := by
  simp only [usageIn, List.mem_filter, decide_eq_true_eq]
  exact Iff.rfl

/-- The invoices that the scans generate for a customer have disjoint periods
from the subscription's first period start to its current one, without a gap:
whatever the events, each in that range is in the query of exactly one invoice.
Each period has one invoice row. -/
theorem periods_tile (hnext : ∀ t, t < nextMonth t) {sub : Subscription}
    (hsub : db.subscription.get? c = some sub) (scans : List Scan) :
    ∃ current, (runScans nextMonth db scans).subscription.get? c = some current ∧
      let periods := periodsOf c (performed nextMonth db scans)
      (∀ p, periods.head? = some p → p.1 = sub.currentPeriodStart) ∧
      (∀ p ∈ periods, ∀ q ∈ periods, p ≠ q → ∀ t, InPeriod p.1 p.2 t → ¬ InPeriod q.1 q.2 t) ∧
      (∀ t, sub.currentPeriodStart ≤ t → t < current.currentPeriodStart →
        ∃ p ∈ periods, InPeriod p.1 p.2 t) ∧
      (∀ (later : BillingDb) (event), event ∈ later.ledger.usageEvent → event.customerId = c →
        sub.currentPeriodStart ≤ event.createdAt → event.createdAt < current.currentPeriodStart →
          ∃! p, p ∈ periods ∧ event ∈ usageIn later c p.1 p.2) ∧
      ∀ p ∈ periods, (runScans nextMonth db scans).invoice.keys.count ⟨c, p.1, p.2⟩ = 1 := by
  obtain ⟨current, hcurrent, h⟩ := scans_tile hnext hsub (Tiling.start (currentPeriod sub)) scans
  rw [List.nil_append] at h
  refine ⟨current, hcurrent, ?_, h.disjoint, h.covers, ?_, ?_⟩
  · intro p hp
    rcases h.head with ⟨hnil, -⟩ | ⟨b, hb⟩
    · rw [hnil] at hp
      cases hp
    · obtain rfl := Option.some.inj (hp.symm.trans hb)
      rfl
  · intro later event hevent hcustomer hfirst hlast
    have hin : ∀ p, event ∈ usageIn later c p.1 p.2 ↔ Within p event.createdAt := fun p =>
      mem_usageIn.trans ⟨fun hmem => hmem.2.2, fun hwithin => ⟨hevent, hcustomer, hwithin⟩⟩
    simp only [hin]
    exact h.existsUnique hfirst hlast
  · intro p hp
    have hkey : ⟨c, p.1, p.2⟩ ∈ (runScans nextMonth db scans).invoice.keys :=
      scans_keys scans (.inr (mem_periodsOf.mp hp))
    exact List.count_eq_one_of_mem (runScans nextMonth db scans).invoice.nodup hkey

/-- A crash after the first invoice, and two complete scans. -/
def sampleScans : List Scan :=
  [⟨10, samplePricing, some 1⟩, ⟨11, samplePricing, none⟩, ⟨45, samplePricing, none⟩]

theorem periods_tile_after_crash :
    ∃ current, (runScans (fun t => t + 30) sampleDb sampleScans).subscription.get? "a" = some current ∧
      let periods := periodsOf "a" (performed (fun t => t + 30) sampleDb sampleScans)
      (∀ p, periods.head? = some p → p.1 = 0) ∧
      (∀ p ∈ periods, ∀ q ∈ periods, p ≠ q → ∀ t, InPeriod p.1 p.2 t → ¬ InPeriod q.1 q.2 t) ∧
      (∀ t, 0 ≤ t → t < current.currentPeriodStart → ∃ p ∈ periods, InPeriod p.1 p.2 t) ∧
      (∀ (later : BillingDb) (event), event ∈ later.ledger.usageEvent → event.customerId = "a" →
        0 ≤ event.createdAt → event.createdAt < current.currentPeriodStart →
          ∃! p, p ∈ periods ∧ event ∈ usageIn later "a" p.1 p.2) ∧
      ∀ p ∈ periods, (runScans (fun t => t + 30) sampleDb sampleScans).invoice.keys.count
        ⟨"a", p.1, p.2⟩ = 1 := by
  have hsub : sampleDb.subscription.get? "a" = some ⟨.ACTIVE, 0, 10⟩ := by decide +kernel
  exact periods_tile (fun t => Int.lt_add_of_pos_right t (by decide)) hsub sampleScans

end ModelForge.BillingPeriods
