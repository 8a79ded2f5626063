import ModelForge.LedgerAccounting
import ModelForge.Escrow

set_option autoImplicit false

/-!
# What each request holds on the ledger

A request holds its estimate while its reservation is recorded and neither its
commit nor its release is. `Holds` ties these holds to the entries and to the
`tokensReserved` counters; the ledger calls keep it when they free what is held.
-/
namespace ModelForge.ReservationHolds
open LedgerStore LedgerOperations Escrow

inductive LedgerMove where
  | reserve
  | commit
  | release
  deriving DecidableEq

/-- How a request's idempotency keys are made from its id. -/
structure KeyScheme where
  key : LedgerMove → String → String
  injective : ∀ {m m' : LedgerMove} {id id' : String}, key m id = key m' id' → m = m' ∧ id = id'

def handlerKey : LedgerMove → String → String
  | .reserve, id => id ++ ":reserve"
  | .commit, id => id ++ ":usage:commit"
  | .release, id => id ++ ":release"

theorem append_ne_of_last {a b s t : String} (h : s.toList.getLast? ≠ t.toList.getLast?)
    (hs : s.toList ≠ []) (ht : t.toList ≠ []) : a ++ s ≠ b ++ t := by
  intro he
  have hl := congrArg (fun x => x.toList.getLast?) he
  simp only [String.toList_append, List.getLast?_append_of_ne_nil _ hs,
    List.getLast?_append_of_ne_nil _ ht] at hl
  exact h hl

theorem append_ne_of_length {a b s t : String} (h : s ≠ t) (hlen : s.toList.length = t.toList.length) :
    a ++ s ≠ b ++ t := by
  intro he
  have hl := congrArg String.toList he
  simp only [String.toList_append] at hl
  exact h (String.toList_inj.mp (List.append_inj' hl hlen).2)

/-- The chat handler's keys: no two ids and no two of its calls share one. -/
def handlerKeys : KeyScheme where
  key := handlerKey
  injective := by
    intro m m' id id' h
    have hlast : ∀ a b : String, a ++ ":reserve" ≠ b ++ ":usage:commit" := fun a b =>
      append_ne_of_last (by decide) (by decide) (by decide)
    have hlast' : ∀ a b : String, a ++ ":release" ≠ b ++ ":usage:commit" := fun a b =>
      append_ne_of_last (by decide) (by decide) (by decide)
    have hlen : ∀ a b : String, a ++ ":reserve" ≠ b ++ ":release" := fun a b =>
      append_ne_of_length (by decide) (by decide)
    cases m <;> cases m' <;> simp only [handlerKey] at h
    · exact ⟨rfl, (String.append_left_inj _).mp h⟩
    · exact absurd h (hlast _ _)
    · exact absurd h (hlen _ _)
    · exact absurd h.symm (hlast _ _)
    · exact ⟨rfl, (String.append_left_inj _).mp h⟩
    · exact absurd h.symm (hlast' _ _)
    · exact absurd h.symm (hlen _ _)
    · exact absurd h (hlast' _ _)
    · exact ⟨rfl, (String.append_left_inj _).mp h⟩

def reservedIds (db : LedgerDb) : Finset String :=
  ((db.quotaLedgerEntry.filter fun e => e.reason = .reserve).map
    QuotaLedgerEntry.requestId).toFinset

variable (keys : KeyScheme)

def Settled (db : LedgerDb) (id : String) : Prop :=
  db.Recorded (keys.key .commit id) ∨ db.Recorded (keys.key .release id)

instance (db : LedgerDb) : DecidablePred (Settled keys db) := fun id =>
  inferInstanceAs (Decidable (db.Recorded (keys.key .commit id) ∨ db.Recorded (keys.key .release id)))

/-- The requests that have reserved and neither committed nor released. -/
def pendingIds (db : LedgerDb) : Finset String :=
  (reservedIds db).filter fun id => ¬ Settled keys db id

variable (customer : String → String) (estimate : String → ℤ)

def pendingOf (db : LedgerDb) (c : String) : Finset String :=
  (pendingIds keys db).filter fun id => customer id = c

structure Holds (db : LedgerDb) : Prop where
  marked : ∀ id, db.Recorded (keys.key .reserve id) ↔ id ∈ reservedIds db
  sums : ∀ id, reservedSum db (customer id) id = if id ∈ pendingIds keys db then estimate id else 0
  counter : ∀ c, db.tokensReserved c = held estimate (pendingOf keys customer db c)

variable {keys customer estimate} {db db' : LedgerDb} {entry : QuotaLedgerEntry} {id : String}

theorem posts_recorded (posts : Posts db entry db') (k : String) :
    db'.Recorded k ↔ db.Recorded k ∨ entry.idempotencyKey = k := by
  simp only [LedgerDb.Recorded, posts.entries, List.mem_append, List.mem_singleton, or_and_right,
    exists_or, exists_eq_left]

theorem posts_reservedSum (posts : Posts db entry db') (l r : String) :
    reservedSum db' l r =
      reservedSum db l r + if entry.ledgerId = l ∧ entry.requestId = r then entry.reservedDelta else 0 := by
  by_cases h : entry.ledgerId = l ∧ entry.requestId = r <;>
    simp [reservedSum, posts.entries, h]

theorem posts_reservedIds (posts : Posts db entry db') :
    reservedIds db' =
      if entry.reason = .reserve then insert entry.requestId (reservedIds db) else reservedIds db := by
  split <;> rename_i h
  · ext id
    simp [reservedIds, posts.entries, h]
  · simp [reservedIds, posts.entries, h]

theorem untouched_recorded (same : Untouched db db') (k : String) :
    db'.Recorded k ↔ db.Recorded k := by
  simp only [LedgerDb.Recorded, same.entries]

theorem untouched_pendingIds (same : Untouched db db') : pendingIds keys db' = pendingIds keys db := by
  rw [pendingIds, reservedIds, same.entries]
  exact Finset.filter_congr fun id _ => by simp only [Settled, untouched_recorded same]

theorem Holds.untouched (h : Holds keys customer estimate db) (same : Untouched db db') :
    Holds keys customer estimate db' := by
  refine ⟨fun id => ?_, fun id => ?_, fun c => ?_⟩
  · rw [untouched_recorded same, h.marked, reservedIds, reservedIds, same.entries]
  · rw [untouched_pendingIds same, ← h.sums]
    simp only [reservedSum, same.entries]
  · rw [same.reserved, h.counter]
    simp only [pendingOf, untouched_pendingIds same]

theorem notPending_of_notReserved (h : Holds keys customer estimate db)
    (hnew : ¬ db.Recorded (keys.key .reserve id)) : id ∉ pendingIds keys db := by
  intro hmem
  exact hnew ((h.marked id).mpr (Finset.mem_filter.mp hmem).1)

theorem pendingOf_insert {c : String} (hpending : pendingIds keys db' = insert id (pendingIds keys db)) :
    pendingOf keys customer db' c =
      if customer id = c then insert id (pendingOf keys customer db c)
      else pendingOf keys customer db c := by
  simp only [pendingOf, hpending, Finset.filter_insert]

theorem pendingOf_erase {c : String} (hpending : pendingIds keys db' = (pendingIds keys db).erase id) :
    pendingOf keys customer db' c = (pendingOf keys customer db c).erase id := by
  simp only [pendingOf, hpending, Finset.filter_erase]

/-- A posted reservation opens the request's hold. -/
theorem Holds.reserve (h : Holds keys customer estimate db) (posts : Posts db entry db')
    (hkey : entry.idempotencyKey = keys.key .reserve id) (hrequest : entry.requestId = id)
    (hledger : entry.ledgerId = customer id) (hdelta : entry.reservedDelta = estimate id)
    (hreason : entry.reason = .reserve) (hopen : ¬ Settled keys db id) :
    id ∉ pendingIds keys db ∧ pendingIds keys db' = insert id (pendingIds keys db) ∧
      Holds keys customer estimate db' := by
  have hnew : id ∉ pendingIds keys db := notPending_of_notReserved h (hkey ▸ posts.fresh)
  have hids : reservedIds db' = insert id (reservedIds db) := by
    rw [posts_reservedIds posts, if_pos hreason, hrequest]
  have hsettled : ∀ id', Settled keys db' id' ↔ Settled keys db id' := by
    intro id'
    have hc : keys.key .reserve id ≠ keys.key .commit id' := fun he => by
      cases (keys.injective he).1
    have hr : keys.key .reserve id ≠ keys.key .release id' := fun he => by
      cases (keys.injective he).1
    simp only [Settled, posts_recorded posts, hkey, hc, hr, or_false]
  have hpending : pendingIds keys db' = insert id (pendingIds keys db) := by
    simp only [pendingIds, hsettled, hids, Finset.filter_insert, hopen, not_false_eq_true, ↓reduceIte]
  refine ⟨hnew, hpending, ?_, ?_, ?_⟩
  · intro id'
    rw [posts_recorded posts, hids, Finset.mem_insert, h.marked, hkey]
    constructor
    · rintro (hold | he)
      · exact .inr hold
      · exact .inl (keys.injective he).2.symm
    · rintro (rfl | hold)
      · exact .inr rfl
      · exact .inl hold
  · intro id'
    rw [posts_reservedSum posts, h.sums, hpending]
    by_cases he : id' = id
    · subst he
      simp [hnew, hledger, hrequest, hdelta]
    · have hn : entry.requestId ≠ id' := fun hc => he (hc.symm.trans hrequest)
      simp [he, hn]
  · intro c
    rw [posts.reserved, h.counter, pendingOf_insert hpending, hledger, hdelta]
    have hout : id ∉ pendingOf keys customer db c := fun hmem => hnew (Finset.mem_filter.mp hmem).1
    split
    · rw [held_insert estimate hout]
    · rw [add_zero]

/-- A posted commit or release that frees exactly what the request holds closes
its hold, and no other. -/
theorem Holds.settle (h : Holds keys customer estimate db) (posts : Posts db entry db')
    (hkey : entry.idempotencyKey = keys.key .commit id ∨ entry.idempotencyKey = keys.key .release id)
    (hrequest : entry.requestId = id) (hledger : entry.ledgerId = customer id)
    (hdelta : entry.reservedDelta = -(if id ∈ pendingIds keys db then estimate id else 0))
    (hreason : entry.reason ≠ .reserve) :
    pendingIds keys db' = (pendingIds keys db).erase id ∧ Holds keys customer estimate db' := by
  have hids : reservedIds db' = reservedIds db := by
    rw [posts_reservedIds posts, if_neg hreason]
  have hsettled : ∀ id', Settled keys db' id' ↔ Settled keys db id' ∨ id' = id := by
    intro id'
    simp only [Settled, posts_recorded posts]
    constructor
    · rintro ((hc | he) | (hr | he))
      · exact .inl (.inl hc)
      · rcases hkey with hk | hk <;> exact .inr (keys.injective (he.symm.trans hk)).2
      · exact .inl (.inr hr)
      · rcases hkey with hk | hk <;> exact .inr (keys.injective (he.symm.trans hk)).2
    · rintro ((hc | hr) | rfl)
      · exact .inl (.inl hc)
      · exact .inr (.inl hr)
      · rcases hkey with hk | hk
        · exact .inl (.inr hk)
        · exact .inr (.inr hk)
  have hpending : pendingIds keys db' = (pendingIds keys db).erase id := by
    ext id'
    simp only [pendingIds, hids, hsettled, Finset.mem_filter, Finset.mem_erase, not_or]
    tauto
  refine ⟨hpending, ?_, ?_, ?_⟩
  · intro id'
    have hne : entry.idempotencyKey ≠ keys.key .reserve id' := fun he => by
      rcases hkey with hk | hk <;> cases (keys.injective (he.symm.trans hk)).1
    rw [posts_recorded posts, hids, h.marked]
    simp only [hne, or_false]
  · intro id'
    rw [posts_reservedSum posts, h.sums, hpending, hdelta]
    by_cases he : id' = id
    · subst he
      simp [hledger, hrequest]
    · have hn : entry.requestId ≠ id' := fun hc => he (hc.symm.trans hrequest)
      simp [he, hn]
  · intro c
    rw [posts.reserved, h.counter, pendingOf_erase hpending, hledger, hdelta]
    by_cases hmem : id ∈ pendingOf keys customer db c
    · obtain ⟨hin, hc⟩ := Finset.mem_filter.mp hmem
      rw [held_erase estimate hmem, if_pos hin, if_pos hc, sub_eq_add_neg]
    · rw [Finset.erase_eq_of_notMem hmem]
      by_cases hc : customer id = c
      · have hout : id ∉ pendingIds keys db := fun hin => hmem (Finset.mem_filter.mpr ⟨hin, hc⟩)
        simp [hout]
      · simp [hc]

end ModelForge.ReservationHolds
