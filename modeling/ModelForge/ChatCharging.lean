import ModelForge.ChatInvariant

set_option autoImplicit false

/-!
# Each execution is charged once

The history lists the commits and persisted jobs that succeeded. However they
repeat and interleave, the first of an execution charges its tokens, the later
ones nothing, and the first persisted job leaves its only usage event.
-/
namespace ModelForge.ChatCharging
open RunInvariant LedgerStore LedgerOperations ReservationHolds ChatHandler ChatSteps ChatInvariant

def Metering.execution : Metering → String
  | .committed id => id
  | .persisted id => id

def Metering.persistedId : Metering → Option String
  | .committed _ => none
  | .persisted id => some id

/-- The executions with a successful commit or delivery so far. -/
def meteredIds (history : List Metering) : Finset String :=
  (history.map Metering.execution).toFinset

/-- The executions with a successful delivery so far. -/
def persistedIds (history : List Metering) : Finset String :=
  (history.filterMap Metering.persistedId).toFinset

def eventsOf (db : LedgerDb) (id : String) : List UsageEvent :=
  db.usageEvent.filter fun e => e.inferenceRequestId = some id

/-- The tokens of those of the executions that are the customer's. -/
def usedBy (plan : String → ChatPlan) (ids : Finset String) (c : String) : ℤ :=
  ∑ id ∈ ids with (plan id).customerId = c, (plan id).tokens

/-- At every step the executions metered for the first time are charged, no
other is, and each persisted execution has exactly one usage event. -/
structure ChargedOnce (plan : String → ChatPlan) (w : World) (_ : Event) (w' : World) : Prop where
  rise : ∀ c, w'.ledger.tokensUsed c =
    w.ledger.tokensUsed c + usedBy plan (meteredIds w'.history \ meteredIds w.history) c
  total : ∀ c, w'.ledger.tokensUsed c = usedBy plan (meteredIds w'.history) c
  events : ∀ id, (eventsOf w'.ledger id).length = if id ∈ persistedIds w'.history then 1 else 0

structure Charging (plan : String → ChatPlan) (db : LedgerDb) (history : List Metering) : Prop where
  marks : ∀ id, Marked db .commit id ↔ id ∈ meteredIds history
  used : ∀ c, db.tokensUsed c = usedBy plan (meteredIds history) c
  events : ∀ id, (eventsOf db id).length = if id ∈ persistedIds history then 1 else 0
  keyed : ∀ e ∈ db.usageEvent, ∃ id, e.idempotencyKey = id ++ ":usage" ∧ e.inferenceRequestId = some id

variable {plan : String → ChatPlan} {redis : Bool} {w w' : World} {id : String} {h : Handler}
  {db db' : LedgerDb} {history : List Metering}

theorem meteredIds_append (history : List Metering) {m : Metering} (hm : Metering.execution m = id) :
    meteredIds (history ++ [m]) = insert id (meteredIds history) := by
  ext i
  simp [meteredIds, hm]

theorem meteredIds_committed (history : List Metering) (id : String) :
    meteredIds (history ++ [.committed id]) = insert id (meteredIds history) :=
  meteredIds_append history rfl

theorem meteredIds_persisted (history : List Metering) (id : String) :
    meteredIds (history ++ [.persisted id]) = insert id (meteredIds history) :=
  meteredIds_append history rfl

theorem persistedIds_committed (history : List Metering) (id : String) :
    persistedIds (history ++ [.committed id]) = persistedIds history := by
  simp only [persistedIds, List.filterMap_append, List.filterMap_cons, Metering.persistedId,
    List.filterMap_nil, List.append_nil]

theorem persistedIds_persisted (history : List Metering) (id : String) :
    persistedIds (history ++ [.persisted id]) = insert id (persistedIds history) := by
  ext i
  simp [persistedIds, Metering.persistedId]

theorem usedBy_insert {ids : Finset String} (hnew : id ∉ ids) (c : String) :
    usedBy plan (insert id ids) c =
      usedBy plan ids c + if (plan id).customerId = c then (plan id).tokens else 0 := by
  unfold usedBy
  rw [Finset.filter_insert]
  split
  · rw [Finset.sum_insert fun hm => hnew (Finset.mem_filter.mp hm).1, add_comm]
  · rw [add_zero]

theorem usedBy_sdiff {ids later : Finset String} (h : ids ⊆ later) (c : String) :
    usedBy plan later c = usedBy plan ids c + usedBy plan (later \ ids) c := by
  unfold usedBy
  rw [← Finset.sum_union]
  · rw [← Finset.filter_union, Finset.union_sdiff_of_subset h]
  · exact Finset.disjoint_filter_filter Finset.disjoint_sdiff

/-- An effect that neither charges nor adds an event. -/
theorem Charging.aside (hc : Charging plan db history) {m : LedgerMove} (hm : m ≠ .commit)
    {guard : Prop} {entry e : QuotaLedgerEntry} (free : entry.deltaTokens = 0)
    (called : Called db (handlerKeys.key m id) guard entry (.ok e, db')) :
    Charging plan db' history := by
  obtain ⟨hmarks, hevents⟩ := called_marks called
  refine ⟨fun i => ?_, fun c => ?_, fun i => ?_, ?_⟩
  · rw [hmarks, ← hc.marks]
    exact or_iff_left fun he => hm he.1.symm
  · rw [← hc.used]
    cases called with
    | replayed _ _ => rfl
    | posted _ _ posts _ => rw [posts.used, free, ite_self, add_zero]
  · rw [eventsOf, hevents]
    exact hc.events i
  · rw [hevents]
    exact hc.keyed

/-- The new used total after an execution is metered: its tokens if it is the
first time. -/
theorem used_of_metered (hc : Charging plan db history)
    (charge : ∀ c, db'.tokensUsed c = db.tokensUsed c + if Marked db .commit id then 0
      else if (plan id).customerId = c then (plan id).tokens else 0) (c : String) :
    db'.tokensUsed c = usedBy plan (insert id (meteredIds history)) c := by
  rw [charge, hc.used]
  by_cases hold : Marked db .commit id
  · rw [if_pos hold, add_zero, Finset.insert_eq_of_mem ((hc.marks id).mp hold)]
  · rw [if_neg hold, usedBy_insert fun hm => hold ((hc.marks id).mpr hm)]

theorem marks_of_metered (hc : Charging plan db history) (hmarks : Marks db db' .commit id)
    (i : String) : Marked db' .commit i ↔ i ∈ insert id (meteredIds history) := by
  rw [hmarks, Finset.mem_insert, hc.marks, or_comm]
  simp

theorem Charging.commit (hc : Charging plan db history) {now : ℤ} {outage : Outage}
    {e : QuotaLedgerEntry}
    (call : commitQuota now ((plan id).commitInput id) outage db = (.ok e, db')) :
    Charging plan db' (history ++ [.committed id]) := by
  have hcalled := commitQuota_called now ((plan id).commitInput id) outage db
  rw [call] at hcalled
  obtain ⟨hmarks, hevents⟩ := commit_marks call
  refine ⟨fun i => ?_, fun c => ?_, fun i => ?_, ?_⟩
  · rw [meteredIds_committed]
    exact marks_of_metered hc hmarks i
  · rw [meteredIds_committed]
    refine used_of_metered hc (fun c => ?_) c
    cases hcalled with
    | replayed mem under =>
      have hold : Marked db .commit id := ⟨e, mem, under⟩
      rw [if_pos hold, add_zero]
    | posted under _ posts _ =>
      have hnew : ¬ Marked db .commit id := posts.fresh
      rw [posts.used, if_neg hnew]
      rfl
  · rw [persistedIds_committed, eventsOf, hevents]
    exact hc.events i
  · rw [hevents]
    exact hc.keyed

/-- No event of the execution exists before its first persisted job. -/
theorem Charging.not_persisted (hc : Charging plan db history)
    (first : ∀ old ∈ db.usageEvent, old.idempotencyKey ≠ id ++ ":usage") :
    id ∉ persistedIds history := by
  intro hin
  have hone := hc.events id
  rw [if_pos hin] at hone
  obtain ⟨e, he⟩ := List.exists_mem_of_length_pos (by rw [hone]; exact Nat.one_pos)
  obtain ⟨hmem, hid⟩ := List.mem_filter.mp he
  obtain ⟨i, hkey, hi⟩ := hc.keyed e hmem
  obtain rfl : i = id := Option.some.inj (hi.symm.trans (of_decide_eq_true hid))
  exact first e hmem hkey

theorem Charging.persisted_of_event (hc : Charging plan db history) {old : UsageEvent}
    (mem : old ∈ db.usageEvent) (under : old.idempotencyKey = id ++ ":usage") :
    id ∈ persistedIds history := by
  obtain ⟨i, hkey, hi⟩ := hc.keyed old mem
  obtain rfl := usageKey_inj (hkey.symm.trans under)
  by_contra hno
  have hzero := hc.events i
  rw [if_neg hno, List.length_eq_zero_iff] at hzero
  have hin : old ∈ eventsOf db i := List.mem_filter.mpr ⟨mem, decide_eq_true hi⟩
  rw [hzero] at hin
  cases hin

theorem eventsOf_append {job : UsageJob} {now : ℤ}
    (events : db'.usageEvent = db.usageEvent ++ [job.event now])
    (hjob : job.inferenceRequestId = some id) (i : String) :
    (eventsOf db' i).length = (eventsOf db i).length + if i = id then 1 else 0 := by
  have hid : (job.event now).inferenceRequestId = some id := hjob
  by_cases he : i = id
  · subst he
    simp [eventsOf, events, hid]
  · simp [eventsOf, events, hid, he, Ne.symm he]

theorem Charging.persist (hc : Charging plan db history)
    (hevents : ∀ e ∈ db.usageEvent, ∀ i, e.idempotencyKey = i ++ ":usage" → Marked db .commit i)
    {now : ℤ} {faults : Faults}
    (call : persistUsage now ((plan id).usageJob id) faults db = (.ok (), db')) :
    Charging plan db' (history ++ [.persisted id]) := by
  have hp := persistUsage_persisted now ((plan id).usageJob id) faults db
  rw [call] at hp
  obtain ⟨hmarks, -⟩ := persisted_marks hevents hp
  have hkey := usageJob_commitKey (plan id) id
  refine ⟨fun i => ?_, fun c => ?_, fun i => ?_, ?_⟩
  · rw [meteredIds_persisted]
    exact marks_of_metered hc hmarks i
  · rw [meteredIds_persisted]
    refine used_of_metered hc (fun c => ?_) c
    cases hp with
    | replayed mem under => rw [if_pos (hevents _ mem id under), add_zero]
    | recorded _ _ charged same =>
      rw [hkey] at charged
      have hold : Marked db .commit id := charged
      rw [same.used, if_pos hold, add_zero]
    | posted _ _ posts =>
      have hnew : ¬ Marked db .commit id := by
        rw [Marked, ← hkey]
        exact posts.fresh
      rw [posts.used, if_neg hnew]
      rfl
  · rw [persistedIds_persisted]
    cases hp with
    | replayed mem under =>
      rw [Finset.insert_eq_of_mem (hc.persisted_of_event mem under)]
      exact hc.events i
    | recorded first events _ _ | posted first events _ =>
      rw [eventsOf_append events rfl, hc.events]
      by_cases he : i = id
      · subst he
        simp [hc.not_persisted first]
      · simp [he]
  · cases hp with
    | replayed mem under => exact hc.keyed
    | recorded first events _ _ | posted first events _ =>
      intro e he
      rw [events, List.mem_append, List.mem_singleton] at he
      rcases he with hold | rfl
      · exact hc.keyed e hold
      · exact ⟨id, rfl, rfl⟩

structure Inv (plan : String → ChatPlan) (w : World) : Prop where
  wf : Wf plan w
  charging : Charging plan w.ledger w.history

theorem HandlerMove.charging {now : ℤ} {ok : Bool} {outage : Outage} (hi : Inv plan w)
    (move : HandlerMove plan redis w id h now ok outage w') :
    Charging plan w'.ledger w'.history ∧ w.history <+: w'.history := by
  have hc := hi.charging
  cases move with
  | reserved entry ledger here needed call =>
    have hcalled := reserveQuota_called now ((plan id).reserveInput id) outage w.ledger
    rw [call] at hcalled
    exact ⟨hc.aside (m := .reserve) nofun rfl hcalled, List.prefix_rfl⟩
  | committed entry ledger here held call => exact ⟨hc.commit call, List.prefix_append _ _⟩
  | persisted ledger here off call => exact ⟨hc.persist hi.wf.events call, List.prefix_append _ _⟩
  | released entry ledger here held sent call =>
    have hcalled := releaseQuota_called now ((plan id).releaseInput id h.reservedTokens) outage w.ledger
    rw [call] at hcalled
    exact ⟨hc.aside (m := .release) nofun rfl hcalled, List.prefix_rfl⟩
  | issued row here =>
    obtain ⟨receipts, hissue, -⟩ := issueReceipt_eq w ((plan id).usageJob id) row now
    rw [hissue]
    exact ⟨hc, List.prefix_rfl⟩
  | _ => exact ⟨hc, List.prefix_rfl⟩

theorem WorkerMove.charging {k : ℕ} {d : Delivery} {now : ℤ} {faults : Faults} (hi : Inv plan w)
    (present : d ∈ w.deliveries) (move : WorkerMove w k d now faults w') :
    Charging plan w'.ledger w'.history ∧ w.history <+: w'.history := by
  have hc := hi.charging
  cases move with
  | persisted ledger call =>
    obtain ⟨id, ha⟩ := hi.wf.deliveries d present
    rw [ha.payload] at call ⊢
    exact ⟨hc.persist hi.wf.events call, List.prefix_append _ _⟩
  | issued row here =>
    obtain ⟨receipts, hissue, -⟩ := issueReceipt_eq w d.job row now
    rw [hissue]
    exact ⟨hc, List.prefix_rfl⟩
  | _ => exact ⟨hc, List.prefix_rfl⟩

theorem step_charging (e : Event) (hi : Inv plan w) (hstep : step plan redis w e = some w') :
    ChargedOnce plan w e w' ∧ Inv plan w' := by
  have hmove := step_moves hstep
  have hwf := SystemMove.wf hi.wf hmove
  have hcharging : Charging plan w'.ledger w'.history ∧ w.history <+: w'.history := by
    cases hmove with
    | arrived id absent => exact ⟨hi.charging, List.prefix_rfl⟩
    | handled id now ok outage h present move => exact HandlerMove.charging hi move
    | delivered n job accepted => exact ⟨hi.charging, List.prefix_rfl⟩
    | worked k now ok faults d present move => exact WorkerMove.charging hi present move
  obtain ⟨hc, hgrows⟩ := hcharging
  refine ⟨⟨fun c => ?_, hc.used, hc.events⟩, hwf, hc⟩
  have hsub : meteredIds w.history ⊆ meteredIds w'.history := by
    intro id hid
    obtain ⟨m, hm, rfl⟩ := List.mem_map.mp (List.mem_toFinset.mp hid)
    exact List.mem_toFinset.mpr (List.mem_map_of_mem (hgrows.subset hm))
  rw [hc.used, hi.charging.used, usedBy_sdiff hsub]

theorem start_inv (plan : String → ChatPlan) (periods : String → Option (ℤ × ℤ)) :
    Inv plan (start periods) := by
  refine ⟨start_wf plan periods, fun id => ?_, fun c => ?_, fun id => rfl, List.forall_mem_nil _⟩
  · simp [Marked, LedgerDb.Recorded, meteredIds, start, LedgerAccounting.freshDb]
  · exact (LedgerAccounting.freshDb_balanced periods []).used c

/-- Over every run, with and without a queue, every execution is charged exactly
once, at its first successful commit or delivery, and has one usage event from
its first successful delivery on. -/
theorem charged_exactly_once (plan : String → ChatPlan) (redis : Bool)
    (periods : String → Option (ℤ × ℤ)) (events : List Event) :
    EveryStep (step plan redis) (ChargedOnce plan) (start periods) events :=
  everyStep_of_invariant (Inv plan) (ChargedOnce plan)
    (fun _ e _ hi hstep => step_charging e hi hstep) (start_inv plan periods) events

end ModelForge.ChatCharging
