import ModelForge.ChatInvariant

set_option autoImplicit false

/-!
# Reservations across whole runs of chat requests

When the catch block releases only what its request still holds, each request's
entries sum to its hold and the counter to all holds. The guard is exact: a
release after the commit took effect frees another request's tokens.
-/
namespace ModelForge.ChatReservations
open RunInvariant LedgerStore LedgerOperations Escrow ReservationHolds ChatHandler ChatSteps
open ChatInvariant

def customerOf (plan : String → ChatPlan) (id : String) : String := (plan id).customerId

def estimateOf (plan : String → ChatPlan) (id : String) : ℤ := (plan id).estimatedTokens

/-- The sum of `reservedDelta` over the entries that carry the request's id. -/
def requestSum (db : LedgerDb) (id : String) : ℤ :=
  ((db.quotaLedgerEntry.filter fun e => e.requestId = id).map QuotaLedgerEntry.reservedDelta).sum

/-- The customer's requests that have reserved and neither committed nor released. -/
def holders (plan : String → ChatPlan) (db : LedgerDb) (c : String) : Finset String :=
  pendingOf handlerKeys (customerOf plan) db c

/-- What the request that takes the step holds itself. -/
def ownHold (plan : String → ChatPlan) (w : World) (c : String) : Event → ℤ
  | .handler id _ _ _ => if id ∈ holders plan w.ledger c then estimateOf plan id else 0
  | _ => 0

/-- What a step must leave: no negative sum, nothing held by a finished request,
no hold of another request freed, and a counter that is the sum of the holds. -/
structure HoldsKept (plan : String → ChatPlan) (w : World) (e : Event) (w' : World) : Prop where
  nonneg : ∀ id, 0 ≤ requestSum w'.ledger id
  finished : ∀ id h, w'.handlers id = some h → h.pc.Finished → h.releaseFailed = false →
    requestSum w'.ledger id = 0
  own : ∀ c, w.ledger.tokensReserved c - w'.ledger.tokensReserved c ≤ ownHold plan w c e
  counter : ∀ c, 0 ≤ w'.ledger.tokensReserved c ∧
    w'.ledger.tokensReserved c = ∑ id ∈ holders plan w'.ledger c, estimateOf plan id

/-- A release of the catch block that goes through is by a request whose commit
has not taken effect, or it finds nothing reserved. -/
def ReleasesOwn (plan : String → ChatPlan) (w : World) (e : Event) (_ : World) : Prop :=
  ∀ id now outage h, e = .handler id now true outage → w.handlers id = some h →
    h.pc = .catchRelease → 0 < h.reservedTokens →
    (∃ entry, (releaseQuota now ((plan id).releaseInput id h.reservedTokens) outage w.ledger).1 =
      .ok entry) →
    ¬ Marked w.ledger .commit id ∨ w.ledger.tokensReserved (customerOf plan id) = 0

structure Inv (plan : String → ChatPlan) (w : World) : Prop where
  wf : Wf plan w
  holds : Holds handlerKeys (customerOf plan) (estimateOf plan) w.ledger
  owned : ∀ e ∈ w.ledger.quotaLedgerEntry, e.ledgerId = customerOf plan e.requestId

variable {plan : String → ChatPlan} {redis : Bool} {w w' : World} {id : String} {h : Handler}
  {db db' : LedgerDb}

theorem estimateOf_pos (plan : String → ChatPlan) (id : String) : 0 < estimateOf plan id :=
  (plan id).estimatedTokens_pos

theorem requestSum_posts {entry : QuotaLedgerEntry} (posts : Posts db entry db') (id : String) :
    requestSum db' id = requestSum db id + if entry.requestId = id then entry.reservedDelta else 0 := by
  by_cases h : entry.requestId = id <;> simp [requestSum, posts.entries, h]

/-- A request's entries are all on its customer's ledger. -/
theorem requestSum_eq (owned : ∀ e ∈ db.quotaLedgerEntry, e.ledgerId = customerOf plan e.requestId)
    (id : String) : requestSum db id = reservedSum db (customerOf plan id) id := by
  unfold requestSum reservedSum
  congr 2
  refine List.filter_congr fun e he => ?_
  rw [decide_eq_decide]
  refine ⟨fun hid => ⟨?_, hid⟩, And.right⟩
  rw [owned e he, hid]

theorem owned_posts {entry : QuotaLedgerEntry} (posts : Posts db entry db')
    (owned : ∀ e ∈ db.quotaLedgerEntry, e.ledgerId = customerOf plan e.requestId)
    (hentry : entry.ledgerId = customerOf plan entry.requestId) :
    ∀ e ∈ db'.quotaLedgerEntry, e.ledgerId = customerOf plan e.requestId := by
  intro e he
  rw [posts.entries, List.mem_append, List.mem_singleton] at he
  rcases he with hold | rfl
  · exact owned e hold
  · exact hentry

theorem Inv.sum (hi : Inv plan w) (id : String) :
    requestSum w.ledger id = if id ∈ pendingIds handlerKeys w.ledger then estimateOf plan id else 0 :=
  (requestSum_eq hi.owned id).trans (hi.holds.sums id)

theorem Inv.reserved_nonneg (hi : Inv plan w) (c : String) : 0 ≤ w.ledger.tokensReserved c := by
  rw [hi.holds.counter]
  exact held_nonneg (fun id => (estimateOf_pos plan id).le) _

theorem Inv.reserved_iff (hi : Inv plan w) (id : String) :
    Marked w.ledger .reserve id ↔ id ∈ reservedIds w.ledger := hi.holds.marked id

theorem Inv.mem_pending (hi : Inv plan w) (id : String) :
    id ∈ pendingIds handlerKeys w.ledger ↔
      Marked w.ledger .reserve id ∧ ¬ Marked w.ledger .commit id ∧ ¬ Marked w.ledger .release id := by
  rw [hi.reserved_iff]
  refine Finset.mem_filter.trans (and_congr_right fun _ => ?_)
  exact not_or

theorem mem_holders {c : String} :
    id ∈ holders plan db c ↔ id ∈ pendingIds handlerKeys db ∧ customerOf plan id = c :=
  Finset.mem_filter

theorem ownHold_nonneg (c : String) (e : Event) : 0 ≤ ownHold plan w c e := by
  unfold ownHold
  split
  · split
    · exact (estimateOf_pos plan _).le
    · exact le_refl 0
  · exact le_refl 0

/-- A finished request whose release did not fail holds nothing. -/
theorem Inv.not_pending_of_finished (hi : Inv plan w) (present : w.handlers id = some h)
    (finished : h.pc.Finished) (released : h.releaseFailed = false) :
    id ∉ pendingIds handlerKeys w.ledger := by
  have hs := hi.wf.staged id h present
  rw [hi.mem_pending]
  rintro ⟨hr, hc, hl⟩
  rcases finished with hpc | hpc
  · exact hc (hs.charged (by rw [hpc]; rfl) (hs.needed hr))
  · exact (hs.settled (by rw [hpc]; rfl) released hr).elim hc hl

theorem Inv.kept {e : Event} (hi : Inv plan w')
    (own : ∀ c, w.ledger.tokensReserved c - w'.ledger.tokensReserved c ≤ ownHold plan w c e) :
    HoldsKept plan w e w' := by
  refine ⟨fun id => ?_, fun id h present finished released => ?_, own, fun c =>
    ⟨hi.reserved_nonneg c, hi.holds.counter c⟩⟩
  · rw [hi.sum]
    split
    · exact (estimateOf_pos plan id).le
    · exact le_refl 0
  · rw [hi.sum, if_neg (hi.not_pending_of_finished present finished released)]

/-- A ledger effect of one request: the holds are kept, and the counter falls by
at most that request's own hold. -/
structure Frees (plan : String → ChatPlan) (db db' : LedgerDb) (id : String) : Prop where
  holds : Holds handlerKeys (customerOf plan) (estimateOf plan) db'
  owned : ∀ e ∈ db'.quotaLedgerEntry, e.ledgerId = customerOf plan e.requestId
  own : ∀ c, db.tokensReserved c - db'.tokensReserved c ≤
    if id ∈ holders plan db c then estimateOf plan id else 0

theorem Inv.frees_self (hi : Inv plan w) (id : String) : Frees plan w.ledger w.ledger id := by
  refine ⟨hi.holds, hi.owned, fun c => ?_⟩
  rw [sub_self]
  split
  · exact (estimateOf_pos plan id).le
  · exact le_refl 0

theorem Inv.frees_settle (hi : Inv plan w) {entry : QuotaLedgerEntry} (posts : Posts w.ledger entry db)
    (hkey : entry.idempotencyKey = handlerKeys.key .commit id ∨
      entry.idempotencyKey = handlerKeys.key .release id)
    (hrequest : entry.requestId = id) (hledger : entry.ledgerId = customerOf plan id)
    (hdelta : entry.reservedDelta =
      -(if id ∈ pendingIds handlerKeys w.ledger then estimateOf plan id else 0))
    (hreason : entry.reason ≠ .reserve) : Frees plan w.ledger db id := by
  obtain ⟨-, hholds⟩ := hi.holds.settle posts hkey hrequest hledger hdelta hreason
  refine ⟨hholds, owned_posts posts hi.owned (hledger.trans (by rw [hrequest])), fun c => ?_⟩
  rw [posts.reserved, hledger, hdelta]
  by_cases hc : customerOf plan id = c
  · by_cases hp : id ∈ pendingIds handlerKeys w.ledger
    · simp [hc, hp, mem_holders]
    · simp [hp, mem_holders]
  · simp [hc, mem_holders]

theorem Inv.frees_reserve (hi : Inv plan w) (present : w.handlers id = some h)
    (here : h.pc = .reserve) {now : ℤ} {outage : Outage} {entry : QuotaLedgerEntry}
    (call : reserveQuota now ((plan id).reserveInput id) outage w.ledger = (.ok entry, db)) :
    Frees plan w.ledger db id := by
  have hs := hi.wf.staged id h present
  have hopen : stage h.pc = .unreserved := by rw [here]; rfl
  have hc := reserveQuota_called now ((plan id).reserveInput id) outage w.ledger
  rw [call] at hc
  cases hc with
  | replayed _ _ => exact hi.frees_self id
  | posted under _ posts _ =>
    have hsettled : ¬ Settled handlerKeys w.ledger id := by
      rintro (hcommit | hrelease)
      · exact hs.uncharged (.inl hopen) hcommit
      · exact hs.unreleased (by rw [hopen]; decide) hrelease
    obtain ⟨hnew, -, hholds⟩ := hi.holds.reserve posts under rfl rfl rfl rfl hsettled
    refine ⟨hholds, owned_posts posts hi.owned rfl, fun c => ?_⟩
    have hpos := estimateOf_pos plan id
    rw [posts.reserved, if_neg fun hm => hnew (mem_holders.mp hm).1]
    change _ - (_ + if customerOf plan id = c then estimateOf plan id else 0) ≤ 0
    split <;> omega

theorem Inv.frees_commit (hi : Inv plan w) {now : ℤ} {outage : Outage} {entry : QuotaLedgerEntry}
    (call : commitQuota now ((plan id).commitInput id) outage w.ledger = (.ok entry, db)) :
    Frees plan w.ledger db id := by
  have hc := commitQuota_called now ((plan id).commitInput id) outage w.ledger
  rw [call] at hc
  cases hc with
  | replayed _ _ => exact hi.frees_self id
  | posted under _ posts _ =>
    have hsum : reservedSum w.ledger (customerOf plan id) id =
        if id ∈ pendingIds handlerKeys w.ledger then estimateOf plan id else 0 := hi.holds.sums id
    have hpos := estimateOf_pos plan id
    refine hi.frees_settle posts (.inl rfl) rfl rfl ?_ nofun
    change -commitRelease (reservedSum w.ledger (customerOf plan id) id) = _
    rw [hsum, commitRelease]
    by_cases hp : id ∈ pendingIds handlerKeys w.ledger
    · rw [if_pos hp, if_pos hpos]
    · rw [if_neg hp, if_neg (lt_irrefl 0)]

theorem Inv.frees_persist (hi : Inv plan w) {now : ℤ} {faults : Faults}
    (charged : (plan id).needsReservation = true → Marked w.ledger .commit id)
    (needed : Marked w.ledger .reserve id → (plan id).needsReservation = true)
    (call : persistUsage now ((plan id).usageJob id) faults w.ledger = (.ok (), db)) :
    Frees plan w.ledger db id ∧ ∀ c, db.tokensReserved c = w.ledger.tokensReserved c := by
  have hp := persistUsage_persisted now ((plan id).usageJob id) faults w.ledger
  rw [call] at hp
  cases hp with
  | replayed _ _ => exact ⟨hi.frees_self id, fun _ => rfl⟩
  | recorded _ _ _ same =>
    refine ⟨⟨hi.holds.untouched same, ?_, fun c => ?_⟩, same.reserved⟩
    · rw [same.entries]
      exact hi.owned
    · rw [same.reserved]
      exact (hi.frees_self id).own c
  | posted _ _ posts =>
    have hkey := usageJob_commitKey (plan id) id
    have hfresh : ¬ Marked w.ledger .commit id := by
      rw [Marked, ← hkey]
      exact posts.fresh
    -- only a request without a reservation reaches its first charge here
    have hout : id ∉ pendingIds handlerKeys w.ledger := by
      rw [hi.mem_pending]
      exact fun hm => hfresh (charged (needed hm.1))
    refine ⟨hi.frees_settle posts (.inl hkey) rfl rfl ?_ (fun hreason => by cases hreason),
      fun c => ?_⟩
    · rw [if_neg hout]
      rfl
    · rw [posts.reserved]
      change _ + (if customerOf plan id = c then 0 else 0) = _
      rw [ite_self, add_zero]

theorem Inv.frees_release (hi : Inv plan w) (present : w.handlers id = some h)
    (here : h.pc = .catchRelease) (held : 0 < h.reservedTokens) {now : ℤ} {outage : Outage}
    {entry : QuotaLedgerEntry}
    (call : releaseQuota now ((plan id).releaseInput id h.reservedTokens) outage w.ledger =
      (.ok entry, db))
    (own : ¬ Marked w.ledger .commit id ∨ w.ledger.tokensReserved (customerOf plan id) = 0) :
    Frees plan w.ledger db id := by
  have hs := hi.wf.staged id h present
  have hc := releaseQuota_called now ((plan id).releaseInput id h.reservedTokens) outage w.ledger
  rw [call] at hc
  have htokens := hs.tokens
  have hreserve : Marked w.ledger .reserve id := by
    by_contra hno
    rw [if_neg hno] at htokens
    omega
  rw [if_pos hreserve] at htokens
  cases hc with
  | replayed _ _ => exact hi.frees_self id
  | posted under _ posts _ =>
    have hrelease : ¬ Marked w.ledger .release id := hs.unreleased (by rw [here]; decide)
    refine hi.frees_settle posts (.inr rfl) rfl rfl ?_ fun hreason => by cases hreason
    change -releaseAmount h.reservedTokens (w.ledger.tokensReserved (customerOf plan id)) = _
    rw [htokens]
    have hmem : id ∈ pendingIds handlerKeys w.ledger → (plan id).estimatedTokens ≤
        w.ledger.tokensReserved (customerOf plan id) := by
      intro hp
      rw [hi.holds.counter]
      exact le_held (fun i => (estimateOf_pos plan i).le) (mem_holders.mpr ⟨hp, rfl⟩)
    have hpos := (plan id).estimatedTokens_pos
    by_cases hp : id ∈ pendingIds handlerKeys w.ledger
    · have hle := hmem hp
      rw [if_pos hp, releaseAmount, if_neg (by omega)]
      rfl
    · -- a committed request: the counter is zero, and so is the amount
      have hcommit : Marked w.ledger .commit id := by
        by_contra hno
        exact hp ((hi.mem_pending id).mpr ⟨hreserve, hno, hrelease⟩)
      have hzero := own.resolve_left (not_not.mpr hcommit)
      rw [if_neg hp, hzero, releaseAmount, if_pos hpos]

theorem HandlerMove.frees {now : ℤ} {ok : Bool} {outage : Outage} (hi : Inv plan w)
    (present : w.handlers id = some h) (move : HandlerMove plan redis w id h now ok outage w')
    (guard : ReleasesOwn plan w (.handler id now ok outage) w') :
    Frees plan w.ledger w'.ledger id := by
  have hs := hi.wf.staged id h present
  cases move with
  | reserved entry ledger here needed call => exact hi.frees_reserve present here call
  | committed entry ledger here held call => exact hi.frees_commit call
  | persisted ledger here off call =>
    exact (hi.frees_persist (hs.charged (by rw [here]; rfl)) hs.needed call).1
  | released entry ledger here held sent call =>
    subst sent
    exact hi.frees_release present here held call
      (guard id now outage h rfl present here held ⟨entry, by rw [call]⟩)
  | issued row here =>
    obtain ⟨receipts, hissue, -⟩ := issueReceipt_eq w ((plan id).usageJob id) row now
    rw [hissue]
    exact hi.frees_self id
  | _ => exact hi.frees_self id

theorem WorkerMove.frees {k : ℕ} {d : Delivery} {now : ℤ} {faults : Faults} (hi : Inv plan w)
    (present : d ∈ w.deliveries) (move : WorkerMove w k d now faults w') :
    (∃ id, Frees plan w.ledger w'.ledger id) ∧
      ∀ c, w'.ledger.tokensReserved c = w.ledger.tokensReserved c := by
  obtain ⟨id, ha⟩ := hi.wf.deliveries d present
  cases move with
  | persisted ledger call =>
    obtain ⟨g, hg, -⟩ := ha.past
    rw [ha.payload] at call
    obtain ⟨hfrees, hsame⟩ := hi.frees_persist ha.charged (hi.wf.staged id g hg).needed call
    exact ⟨⟨id, hfrees⟩, hsame⟩
  | issued row here =>
    obtain ⟨receipts, hissue, -⟩ := issueReceipt_eq w d.job row now
    rw [hissue]
    exact ⟨⟨id, hi.frees_self id⟩, fun _ => rfl⟩
  | _ => exact ⟨⟨id, hi.frees_self id⟩, fun _ => rfl⟩

/-- Under the guard every step keeps the holds. -/
theorem step_keeps (e : Event) (hi : Inv plan w) (hstep : step plan redis w e = some w')
    (guard : ReleasesOwn plan w e w') : HoldsKept plan w e w' ∧ Inv plan w' := by
  have hmove := step_moves hstep
  have hwf := SystemMove.wf hi.wf hmove
  cases hmove with
  | arrived id absent =>
    have hi' : Inv plan _ := ⟨hwf, hi.holds, hi.owned⟩
    exact ⟨hi'.kept fun c => (sub_self _).le.trans (ownHold_nonneg c _), hi'⟩
  | handled id now ok outage h present move =>
    have hfrees := HandlerMove.frees hi present move guard
    have hi' : Inv plan w' := ⟨hwf, hfrees.holds, hfrees.owned⟩
    exact ⟨hi'.kept hfrees.own, hi'⟩
  | delivered n job accepted =>
    have hi' : Inv plan _ := ⟨hwf, hi.holds, hi.owned⟩
    exact ⟨hi'.kept fun c => (sub_self _).le.trans (ownHold_nonneg c _), hi'⟩
  | worked k now ok faults d present move =>
    obtain ⟨⟨id, hfrees⟩, hsame⟩ := WorkerMove.frees hi present move
    have hi' : Inv plan w' := ⟨hwf, hfrees.holds, hfrees.owned⟩
    refine ⟨hi'.kept fun c => ?_, hi'⟩
    rw [hsame c, sub_self]
    exact ownHold_nonneg c _

/-- A step that keeps the holds meets the guard: a release after the commit that
finds tokens reserved would leave its request's sum negative. -/
theorem step_needs (e : Event) (hi : Inv plan w) (hstep : step plan redis w e = some w')
    (kept : HoldsKept plan w e w') : ReleasesOwn plan w e w' := by
  rintro id now outage h rfl present here held ⟨entry, hentry⟩
  by_contra hno
  rw [not_or, not_not] at hno
  obtain ⟨hcommit, hreserved⟩ := hno
  have hs := hi.wf.staged id h present
  have hrelease : ¬ Marked w.ledger .release id := hs.unreleased (by rw [here]; decide)
  have hout : id ∉ pendingIds handlerKeys w.ledger := fun hp => ((hi.mem_pending id).mp hp).2.1 hcommit
  have hpos : 0 < w.ledger.tokensReserved (customerOf plan id) :=
    lt_of_le_of_ne (hi.reserved_nonneg _) (Ne.symm hreserved)
  have hc := releaseQuota_called now ((plan id).releaseInput id h.reservedTokens) outage w.ledger
  have hledger : w'.ledger =
      (releaseQuota now ((plan id).releaseInput id h.reservedTokens) outage w.ledger).2 := by
    simp only [step, present, Option.bind_some, handlerStep, here, if_pos held, Bool.true_eq_false,
      ↓reduceIte] at hstep
    split at hstep <;> rename_i hcall <;> cases hstep <;> rw [hcall]
    · rfl
    · rfl
  have hsum := kept.nonneg id
  generalize releaseQuota _ _ _ _ = out at hc hentry hledger
  cases hc with
  | failed e => cases hentry
  | replayed mem under => exact hrelease ⟨_, mem, under⟩
  | posted under _ posts _ =>
    rw [hledger, requestSum_posts posts, hi.sum, if_neg hout, zero_add] at hsum
    change 0 ≤ if id = id then
      -releaseAmount h.reservedTokens (w.ledger.tokensReserved (customerOf plan id)) else 0 at hsum
    rw [if_pos rfl, releaseAmount] at hsum
    split at hsum <;> omega

theorem start_inv (plan : String → ChatPlan) (periods : String → Option (ℤ × ℤ)) :
    Inv plan (start periods) := by
  have hids : pendingIds handlerKeys (start periods).ledger = ∅ := by
    simp [pendingIds, reservedIds, start, LedgerAccounting.freshDb]
  refine ⟨start_wf plan periods, ⟨fun id => ?_, fun id => ?_, fun c => ?_⟩, List.forall_mem_nil _⟩
  · simp [LedgerDb.Recorded, reservedIds, start, LedgerAccounting.freshDb]
  · rw [hids]
    simp [reservedSum, start, LedgerAccounting.freshDb]
  · rw [pendingOf, hids]
    exact (LedgerAccounting.freshDb_balanced periods []).reserved c

/-- Over every run, the holds are kept at every step exactly when no release of
the catch block frees tokens after its own request's commit took effect. -/
theorem holds_kept_iff (plan : String → ChatPlan) (redis : Bool)
    (periods : String → Option (ℤ × ℤ)) (events : List Event) :
    EveryStep (step plan redis) (HoldsKept plan) (start periods) events ↔
      EveryStep (step plan redis) (ReleasesOwn plan) (start periods) events :=
  everyStep_iff_guarded (Inv plan) (ReleasesOwn plan) (HoldsKept plan)
    (fun _ e _ hi hstep guard => step_keeps e hi hstep guard)
    (fun _ e _ hi hstep kept => step_needs e hi hstep kept) (start_inv plan periods) events

/-- Request `a` commits, its job cannot be enqueued, and its catch block then
releases the 100 tokens that request `b` holds. -/
theorem release_after_commit_frees_another :
    let plan := fun _ => samplePlan
    let act := fun id ok => Event.handler id 0 ok noOutage
    let events := [.arrive "a", .arrive "b"] ++ List.replicate 7 (act "a" true) ++
      [act "b" true, act "a" false] ++ [act "a" true]
    ¬ EveryStep (step plan true) (HoldsKept plan) (start fun _ => none) events := by
  intro plan act events hkept
  have hneg : (run (step plan true) (start fun _ => none) events).map
      (fun w => requestSum w.ledger "a") = some (-100) := by decide
  obtain ⟨u, hu, hsum⟩ := Option.map_eq_some_iff.mp hneg
  obtain ⟨t, hlast⟩ := hkept.last hu
  have := hlast.nonneg "a"
  omega

end ModelForge.ChatReservations
