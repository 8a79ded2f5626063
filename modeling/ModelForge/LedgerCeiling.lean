import ModelForge.ReservationHolds

set_option autoImplicit false

/-!
# The quota ceiling

Requests with their own ids reserve against one customer's ledger and then
commit or release, any call replayed at will. The ledger follows the moves of
an escrow account, so used and reserved tokens never pass the limit together.
-/
namespace ModelForge.LedgerCeiling
open RunInvariant LedgerStore LedgerOperations LedgerAccounting Escrow ReservationHolds

/-- What a request reserves, and what it turns out to use. -/
structure Plan where
  estimate : ℤ
  actual : ℤ
  nonneg : 0 ≤ actual
  bounded : actual ≤ estimate

theorem Plan.estimate_nonneg (p : Plan) : 0 ≤ p.estimate := p.nonneg.trans p.bounded

inductive Call where
  | reserve (id : String) (now : ℤ) (periodStart periodEnd : Option ℤ) (outage : Outage)
  | commit (id : String) (now : ℤ) (outage : Outage)
  | release (id : String) (now : ℤ) (outage : Outage)

variable (keys : KeyScheme) (customer : String) (limit : ℤ) (plan : String → Plan)

def estimateOf (id : String) : ℤ := (plan id).estimate

def reserveInput (id : String) (periodStart periodEnd : Option ℤ) : ReserveQuotaInput :=
  { customerId := customer
    requestId := id
    estimatedTokens := (plan id).estimate
    idempotencyKey := keys.key .reserve id
    limit := limit
    periodStart := periodStart
    periodEnd := periodEnd }

def commitInput (id : String) : CommitQuotaInput :=
  { customerId := customer
    requestId := id
    actualTokens := (plan id).actual
    idempotencyKey := keys.key .commit id }

def releaseInput (id : String) : ReleaseQuotaInput :=
  { customerId := customer
    requestId := id
    reservedTokens := (plan id).estimate
    idempotencyKey := keys.key .release id }

/-- A request may call reserve at any time; once admitted it may commit unless
it released, or release unless it committed. -/
def step (db : LedgerDb) : Call → Option LedgerDb
  | .reserve id now periodStart periodEnd outage =>
    some (reserveQuota now (reserveInput keys customer limit plan id periodStart periodEnd)
      outage db).2
  | .commit id now outage =>
    if db.Recorded (keys.key .reserve id) ∧ ¬ db.Recorded (keys.key .release id) then
      some (commitQuota now (commitInput keys customer plan id) outage db).2
    else none
  | .release id now outage =>
    if db.Recorded (keys.key .reserve id) ∧ ¬ db.Recorded (keys.key .commit id) then
      some (releaseQuota now (releaseInput keys customer plan id) outage db).2
    else none

/-- The escrow account that the customer's ledger row stands for. -/
def book (db : LedgerDb) : Book String ℤ := ⟨db.tokensUsed customer, pendingIds keys db⟩

structure Inv (db : LedgerDb) : Prop where
  holds : Holds keys (fun _ => customer) (estimateOf plan) db
  admitted : ∀ id, Settled keys db id → db.Recorded (keys.key .reserve id)

variable {keys customer limit plan} {db db' : LedgerDb}

theorem Inv.reserved (h : Inv keys customer plan db) :
    db.tokensReserved customer = held (estimateOf plan) (pendingIds keys db) := by
  rw [h.holds.counter, pendingOf, Finset.filter_true_of_mem fun _ _ => rfl]

theorem Inv.fresh (periods : String → Option (ℤ × ℤ)) (events : List UsageEvent) :
    Inv keys customer plan (freshDb periods events) := by
  have hnone : ∀ k, ¬ (freshDb periods events).Recorded k := by simp [LedgerDb.Recorded, freshDb]
  have hids : pendingIds keys (freshDb periods events) = ∅ := by
    simp [pendingIds, reservedIds, freshDb]
  refine ⟨⟨fun id => ?_, fun id => ?_, fun c => ?_⟩, fun id h => ?_⟩
  · refine ⟨fun hr => absurd hr (hnone _), fun hr => ?_⟩
    simp [reservedIds, freshDb] at hr
  · rw [hids]
    simp [reservedSum, freshDb]
  · rw [(freshDb_balanced periods events).reserved, pendingOf, hids]
    rfl
  · rcases h with h | h <;> exact absurd h (hnone _)

theorem Inv.admitted_of_posts {entry : QuotaLedgerEntry} (h : Inv keys customer plan db)
    (posts : Posts db entry db') {id : String} {m : LedgerMove}
    (hkey : entry.idempotencyKey = keys.key m id)
    (hid : m = .reserve ∨ db.Recorded (keys.key .reserve id)) :
    ∀ id', Settled keys db' id' → db'.Recorded (keys.key .reserve id') := by
  intro id' hs
  have carry : ∀ m', m' ≠ .reserve → entry.idempotencyKey = keys.key m' id' →
      db'.Recorded (keys.key .reserve id') := by
    intro m' hm' he
    obtain ⟨rfl, rfl⟩ := keys.injective (hkey.symm.trans he)
    exact (posts_recorded posts _).mpr (.inl (hid.resolve_left hm'))
  rcases hs with hc | hr
  · rcases (posts_recorded posts _).mp hc with hold | he
    · exact (posts_recorded posts _).mpr (.inl (h.admitted id' (.inl hold)))
    · exact carry .commit (by decide) he
  · rcases (posts_recorded posts _).mp hr with hold | he
    · exact (posts_recorded posts _).mpr (.inl (h.admitted id' (.inr hold)))
    · exact carry .release (by decide) he

theorem pending_of_admitted (h : Inv keys customer plan db) {id : String}
    (hreserved : db.Recorded (keys.key .reserve id)) (hopen : ¬ Settled keys db id) :
    id ∈ pendingIds keys db :=
  Finset.mem_filter.mpr ⟨(h.holds.marked id).mp hreserved, hopen⟩

theorem book_of_posts (customer : String) {entry : QuotaLedgerEntry} (posts : Posts db entry db')
    (hledger : entry.ledgerId = customer) {pending : Finset String}
    (hpending : pendingIds keys db' = pending) :
    book keys customer db' = ⟨db.tokensUsed customer + entry.deltaTokens, pending⟩ := by
  rw [book, posts.used, if_pos hledger, hpending]

/-- Every call is a move of the escrow account, or leaves it as it is. -/
theorem step_moves (hlimit : 0 < limit) (h : Inv keys customer plan db) {call : Call}
    (hstep : step keys customer limit plan db call = some db') :
    Inv keys customer plan db' ∧
      Relation.ReflTransGen (Move (estimateOf plan) limit) (book keys customer db)
        (book keys customer db') := by
  cases call with
  | reserve id now periodStart periodEnd outage =>
    have hc := reserveQuota_called now (reserveInput keys customer limit plan id periodStart periodEnd)
      outage db
    simp only [step, Option.some.injEq] at hstep
    generalize reserveQuota _ _ _ _ = out at hc hstep
    cases hc with
    | failed e => exact hstep ▸ ⟨h, .refl⟩
    | replayed _ _ => exact hstep ▸ ⟨h, .refl⟩
    | @posted db₁ under quota posts _ =>
      obtain rfl : db₁ = db' := hstep
      have hopen : ¬ Settled keys db id := fun hs => posts.fresh (h.admitted id hs)
      obtain ⟨hnew, hpending, hholds⟩ :=
        h.holds.reserve posts rfl rfl rfl rfl rfl hopen
      refine ⟨⟨hholds, h.admitted_of_posts posts (m := .reserve) rfl (.inl rfl)⟩,
        .single ?_⟩
      have hfits : db.tokensUsed customer + held (estimateOf plan) (pendingIds keys db) +
          estimateOf plan id ≤ limit := by
        rw [← h.reserved]
        exact fits_of_not_exceeded hlimit quota
      rw [book_of_posts customer posts rfl hpending]
      change Move _ _ _ ⟨db.tokensUsed customer + 0, _⟩
      rw [add_zero]
      exact Move.grant (book keys customer db) id hnew hfits
  | commit id now outage =>
    have hc := commitQuota_called now (commitInput keys customer plan id) outage db
    simp only [step, Option.ite_none_right_eq_some, Option.some.injEq] at hstep
    obtain ⟨⟨hreserved, hreleased⟩, hstep⟩ := hstep
    generalize commitQuota _ _ _ _ = out at hc hstep
    cases hc with
    | failed e => exact hstep ▸ ⟨h, .refl⟩
    | replayed _ _ => exact hstep ▸ ⟨h, .refl⟩
    | @posted db₁ under _ posts _ =>
      obtain rfl : db₁ = db' := hstep
      have hmem : id ∈ pendingIds keys db :=
        pending_of_admitted h hreserved fun hs => hs.elim posts.fresh hreleased
      have hsum : reservedSum db customer id = (plan id).estimate := by
        rw [h.holds.sums, if_pos hmem]
        rfl
      have hfree : commitRelease (reservedSum db customer id) = (plan id).estimate := by
        have := (plan id).estimate_nonneg
        rw [hsum, commitRelease]
        split <;> omega
      obtain ⟨hpending, hholds⟩ := h.holds.settle posts (.inl rfl) rfl rfl
        (by rw [if_pos hmem]; exact congrArg Neg.neg hfree) (by simp [CommitQuotaInput.entry])
      refine ⟨⟨hholds, h.admitted_of_posts posts (m := .commit) rfl (.inr hreserved)⟩,
        .single ?_⟩
      rw [book_of_posts customer posts rfl hpending]
      exact Move.settle (book keys customer db) id _ hmem (plan id).bounded
  | release id now outage =>
    have hc := releaseQuota_called now (releaseInput keys customer plan id) outage db
    simp only [step, Option.ite_none_right_eq_some, Option.some.injEq] at hstep
    obtain ⟨⟨hreserved, hcommitted⟩, hstep⟩ := hstep
    generalize releaseQuota _ _ _ _ = out at hc hstep
    cases hc with
    | failed e => exact hstep ▸ ⟨h, .refl⟩
    | replayed _ _ => exact hstep ▸ ⟨h, .refl⟩
    | @posted db₁ under _ posts _ =>
      obtain rfl : db₁ = db' := hstep
      have hmem : id ∈ pendingIds keys db :=
        pending_of_admitted h hreserved fun hs => hs.elim hcommitted posts.fresh
      -- the clamp does not bite: the counter is at least this request's own estimate
      have hle : (plan id).estimate ≤ db.tokensReserved customer := by
        rw [h.reserved]
        exact le_held (fun i => (plan i).estimate_nonneg) hmem
      have hfree : releaseAmount (plan id).estimate (db.tokensReserved customer) =
          (plan id).estimate := by
        rw [releaseAmount]
        split <;> omega
      obtain ⟨hpending, hholds⟩ := h.holds.settle posts (.inr rfl) rfl rfl
        (by rw [if_pos hmem]; exact congrArg Neg.neg hfree) (by simp [ReleaseQuotaInput.entry])
      refine ⟨⟨hholds, h.admitted_of_posts posts (m := .release) rfl (.inr hreserved)⟩,
        .single ?_⟩
      rw [book_of_posts customer posts rfl hpending]
      change Move _ _ _ ⟨db.tokensUsed customer + 0, _⟩
      rw [add_zero]
      exact Move.cancel (book keys customer db) id hmem (plan id).estimate_nonneg

theorem run_moves (hlimit : 0 < limit) (h : Inv keys customer plan db) {calls : List Call}
    (hrun : run (step keys customer limit plan) db calls = some db') :
    Inv keys customer plan db' ∧
      Relation.ReflTransGen (Move (estimateOf plan) limit) (book keys customer db)
        (book keys customer db') := by
  refine run_invariant (fun s => Inv keys customer plan s ∧
    Relation.ReflTransGen (Move (estimateOf plan) limit) (book keys customer db)
      (book keys customer s)) ?_ ⟨h, .refl⟩ hrun
  rintro s call t ⟨hs, hmoves⟩ ht
  obtain ⟨hkeep, hmore⟩ := step_moves hlimit hs ht
  exact ⟨hkeep, hmoves.trans hmore⟩

/-- From a ledger at zero, used and reserved tokens together stay within the
limit, and the reserved tokens are the estimates of the open reservations. -/
theorem quota_ceiling (keys : KeyScheme) (customer : String) (limit : ℤ) (plan : String → Plan)
    (periods : String → Option (ℤ × ℤ)) (events : List UsageEvent) (calls : List Call)
    (db : LedgerDb) (hlimit : 0 < limit)
    (hrun : run (step keys customer limit plan) (freshDb periods events) calls = some db) :
    db.tokensUsed customer + db.tokensReserved customer ≤ limit ∧
      db.tokensReserved customer = ∑ id ∈ pendingIds keys db, (plan id).estimate := by
  obtain ⟨hinv, hmoves⟩ := run_moves hlimit (Inv.fresh periods events) hrun
  have hzero : Within (estimateOf plan) limit (book keys customer (freshDb periods events)) := by
    have hempty : pendingIds keys (freshDb periods events) = ∅ := by
      simp [pendingIds, reservedIds, freshDb]
    rw [Within, book, (freshDb_balanced periods events).used, hempty]
    exact hlimit.le
  have hwithin := within_of_moves hmoves hzero
  refine ⟨?_, hinv.reserved⟩
  rw [hinv.reserved]
  exact hwithin

/-- Two requests of 60 against a limit of 100: the second is refused, the first
commits 40, and then the second is admitted. -/
theorem quota_ceiling_of_two_requests :
    let plan : String → Plan := fun _ => ⟨60, 40, by decide, by decide⟩
    let calls : List Call := [.reserve "a" 0 none none noOutage, .reserve "b" 1 none none noOutage,
      .commit "a" 2 noOutage, .commit "a" 3 noOutage, .reserve "b" 4 none none noOutage]
    ∃ db, run (step handlerKeys "c" 100 plan) (freshDb (fun _ => none) []) calls = some db ∧
      db.tokensUsed "c" + db.tokensReserved "c" ≤ 100 ∧
      db.tokensReserved "c" = ∑ id ∈ pendingIds handlerKeys db, (plan id).estimate := by
  intro plan calls
  have hsome : (run (step handlerKeys "c" 100 plan) (freshDb (fun _ => none) []) calls).isSome := by
    decide
  obtain ⟨db, hrun⟩ := Option.isSome_iff_exists.mp hsome
  exact ⟨db, hrun, quota_ceiling handlerKeys "c" 100 plan (fun _ => none) [] calls db (by decide) hrun⟩

end ModelForge.LedgerCeiling
