import ModelForge.ChatSteps

set_option autoImplicit false

/-!
# What always holds of handlers, jobs and ledger keys

For every request, how far its handler is tells which of its three keys the
ledger has recorded; an accepted job belongs to a handler past its commit.
-/
namespace ModelForge.ChatInvariant
open LedgerStore LedgerOperations ReservationHolds ChatHandler ChatSteps

/-- The ledger has an entry for this move of the request. -/
def Marked (db : LedgerDb) (m : LedgerMove) (id : String) : Prop :=
  db.Recorded (handlerKeys.key m id)

instance (db : LedgerDb) (m : LedgerMove) (id : String) : Decidable (Marked db m id) :=
  inferInstanceAs (Decidable (db.Recorded (handlerKeys.key m id)))

structure Staged (plan : String → ChatPlan) (db : LedgerDb) (id : String) (h : Handler) : Prop where
  tokens : h.reservedTokens = if Marked db .reserve id then (plan id).estimatedTokens else 0
  needed : Marked db .reserve id → (plan id).needsReservation = true
  fresh : stage h.pc = .unreserved → ¬ Marked db .reserve id
  admitted : stage h.pc = .running ∨ stage h.pc = .metered →
    (plan id).needsReservation = true → Marked db .reserve id
  uncharged : stage h.pc = .unreserved ∨ stage h.pc = .running → ¬ Marked db .commit id
  charged : stage h.pc = .metered → (plan id).needsReservation = true → Marked db .commit id
  unreleased : stage h.pc ≠ .closing → ¬ Marked db .release id
  settled : stage h.pc = .closing → h.releaseFailed = false → Marked db .reserve id →
    Marked db .commit id ∨ Marked db .release id

/-- Past the commit: from here on a charge of the request is in order. -/
def Past (pc : Pc) : Prop := stage pc ≠ .unreserved ∧ stage pc ≠ .running

structure Accepted (plan : String → ChatPlan) (w : World) (job : UsageJob) (id : String) : Prop where
  payload : job = (plan id).usageJob id
  past : ∃ h, w.handlers id = some h ∧ Past h.pc
  charged : (plan id).needsReservation = true → Marked w.ledger .commit id

structure Wf (plan : String → ChatPlan) (w : World) : Prop where
  absent : ∀ id, w.handlers id = none → ∀ m, ¬ Marked w.ledger m id
  staged : ∀ id h, w.handlers id = some h → Staged plan w.ledger id h
  jobs : ∀ job ∈ w.jobs, ∃ id, Accepted plan w job id
  deliveries : ∀ d ∈ w.deliveries, ∃ id, Accepted plan w d.job id
  events : ∀ e ∈ w.ledger.usageEvent, ∀ id, e.idempotencyKey = id ++ ":usage" →
    Marked w.ledger .commit id

variable {plan : String → ChatPlan} {redis : Bool} {w w' : World} {id : String} {h h' : Handler}
  {db db' : LedgerDb}

theorem usageJob_commitKey (p : ChatPlan) (id : String) :
    (p.usageJob id).commitKey = handlerKeys.key .commit id := by
  change id ++ ":usage" ++ ":commit" = id ++ ":usage:commit"
  rw [String.append_assoc]
  rfl

theorem usageKey_inj {a b : String} (h : a ++ ":usage" = b ++ ":usage") : a = b :=
  (String.append_left_inj _).mp h

/-- The keys that a successful effect on request `id` leaves recorded. -/
def Marks (db db' : LedgerDb) (m : LedgerMove) (id : String) : Prop :=
  ∀ m' id', Marked db' m' id' ↔ Marked db m' id' ∨ (m' = m ∧ id' = id)

theorem marks_of_posts {entry : QuotaLedgerEntry} {m : LedgerMove} (posts : Posts db entry db')
    (under : entry.idempotencyKey = handlerKeys.key m id) : Marks db db' m id := by
  intro m' id'
  unfold Marked
  rw [posts_recorded posts, under]
  refine or_congr_right ⟨fun he => ?_, fun he => ?_⟩
  · obtain ⟨hm, hid⟩ := handlerKeys.injective he
    exact ⟨hm.symm, hid.symm⟩
  · rw [he.1, he.2]

theorem marks_of_marked {m : LedgerMove} (same : ∀ k, db'.Recorded k ↔ db.Recorded k)
    (marked : Marked db m id) : Marks db db' m id := by
  intro m' id'
  unfold Marked
  rw [same]
  refine ⟨.inl, ?_⟩
  rintro (hold | ⟨rfl, rfl⟩)
  · exact hold
  · exact marked

theorem called_marks {m : LedgerMove} {guard : Prop} {entry e : QuotaLedgerEntry}
    (hc : Called db (handlerKeys.key m id) guard entry (.ok e, db')) :
    Marks db db' m id ∧ db'.usageEvent = db.usageEvent := by
  cases hc with
  | replayed mem under => exact ⟨marks_of_marked (fun _ => Iff.rfl) ⟨e, mem, under⟩, rfl⟩
  | posted under _ posts events => exact ⟨marks_of_posts posts under, events⟩

theorem reserve_marks {p : ChatPlan} {now : ℤ} {outage : Outage} {e : QuotaLedgerEntry}
    (call : reserveQuota now (p.reserveInput id) outage db = (.ok e, db')) :
    Marks db db' .reserve id ∧ db'.usageEvent = db.usageEvent := by
  have hc := reserveQuota_called now (p.reserveInput id) outage db
  rw [call] at hc
  exact called_marks hc

theorem commit_marks {p : ChatPlan} {now : ℤ} {outage : Outage} {e : QuotaLedgerEntry}
    (call : commitQuota now (p.commitInput id) outage db = (.ok e, db')) :
    Marks db db' .commit id ∧ db'.usageEvent = db.usageEvent := by
  have hc := commitQuota_called now (p.commitInput id) outage db
  rw [call] at hc
  exact called_marks hc

theorem release_marks {p : ChatPlan} {now reservedTokens : ℤ} {outage : Outage} {e : QuotaLedgerEntry}
    (call : releaseQuota now (p.releaseInput id reservedTokens) outage db = (.ok e, db')) :
    Marks db db' .release id ∧ db'.usageEvent = db.usageEvent := by
  have hc := releaseQuota_called now (p.releaseInput id reservedTokens) outage db
  rw [call] at hc
  exact called_marks hc

theorem persisted_marks {p : ChatPlan} {now : ℤ}
    (hevents : ∀ e ∈ db.usageEvent, ∀ i, e.idempotencyKey = i ++ ":usage" → Marked db .commit i)
    (hp : Persisted db (p.usageJob id) now (.ok (), db')) :
    Marks db db' .commit id ∧ ∀ e ∈ db'.usageEvent, ∀ i, e.idempotencyKey = i ++ ":usage" →
      Marked db' .commit i := by
  cases hp with
  | replayed mem under =>
    exact ⟨marks_of_marked (fun _ => Iff.rfl) (hevents _ mem id under), hevents⟩
  | recorded first events charged untouched =>
    rw [usageJob_commitKey] at charged
    have hmarks : Marks db db' .commit id := marks_of_marked (untouched_recorded untouched) charged
    refine ⟨hmarks, fun e he i hi => (hmarks _ _).mpr ?_⟩
    rw [events, List.mem_append, List.mem_singleton] at he
    rcases he with hold | rfl
    · exact .inl (hevents e hold i hi)
    · exact .inr ⟨rfl, (usageKey_inj hi).symm⟩
  | posted first events posts =>
    have hmarks : Marks db db' .commit id := marks_of_posts posts (usageJob_commitKey p id)
    refine ⟨hmarks, fun e he i hi => (hmarks _ _).mpr ?_⟩
    rw [events, List.mem_append, List.mem_singleton] at he
    rcases he with hold | rfl
    · exact .inl (hevents e hold i hi)
    · exact .inr ⟨rfl, (usageKey_inj hi).symm⟩

/-- Issuing a receipt adds at most one, made from the row that was read. -/
theorem issueReceipt_eq (w : World) (job : UsageJob) (row : InferenceRequest) (now : ℤ) :
    ∃ receipts, issueReceipt w job row now = { w with receipts := receipts } ∧
      ∀ r ∈ receipts, r ∈ w.receipts ∨ job.inferenceRequestId = some r.requestId ∧
        r.payload = receiptPayload r.requestId row (some job.idempotencyKey) r.issuedAt := by
  unfold issueReceipt
  split
  · exact ⟨w.receipts, rfl, fun _ hr => .inl hr⟩
  · rename_i id hid
    split
    · exact ⟨w.receipts, rfl, fun _ hr => .inl hr⟩
    · refine ⟨_, rfl, fun r hr => ?_⟩
      rcases List.mem_append.mp hr with hold | hnew
      · exact .inl hold
      · rw [List.mem_singleton.mp hnew]
        exact .inr ⟨hid, rfl⟩

theorem Staged.congr (hs : Staged plan db id h)
    (same : ∀ m, Marked db' m id ↔ Marked db m id) : Staged plan db' id h := by
  constructor
  · simp only [same]
    exact hs.tokens
  · rw [same]
    exact hs.needed
  · rw [same]
    exact hs.fresh
  · rw [same]
    exact hs.admitted
  · rw [same]
    exact hs.uncharged
  · rw [same]
    exact hs.charged
  · rw [same]
    exact hs.unreleased
  · rw [same, same, same]
    exact hs.settled

/-- A move of one handler keeps everything, if it keeps that handler's facts
and records at most keys of its own request. -/
theorem Wf.handled (hw : Wf plan w) (present : w.handlers id = some h)
    (handlers : w'.handlers = Function.update w.handlers id (some h'))
    (marks : ∀ m id', Marked w'.ledger m id' → Marked w.ledger m id' ∨ id' = id)
    (mono : ∀ m id', Marked w.ledger m id' → Marked w'.ledger m id')
    (staged : Staged plan w'.ledger id h')
    (past : Past h.pc → Past h'.pc)
    (jobs : ∀ job ∈ w'.jobs, job ∈ w.jobs ∨ Accepted plan w' job id)
    (deliveries : w'.deliveries = w.deliveries)
    (events : ∀ e ∈ w'.ledger.usageEvent, ∀ i, e.idempotencyKey = i ++ ":usage" →
      Marked w'.ledger .commit i) : Wf plan w' := by
  have keep : ∀ {job : UsageJob} {i : String}, Accepted plan w job i → Accepted plan w' job i := by
    rintro job i ⟨payload, ⟨g, hg, hpast⟩, charged⟩
    refine ⟨payload, ?_, fun hn => mono _ _ (charged hn)⟩
    by_cases hi : i = id
    · subst hi
      obtain rfl : h = g := Option.some.inj (present.symm.trans hg)
      exact ⟨h', by rw [handlers, Function.update_self], past hpast⟩
    · exact ⟨g, by rw [handlers, Function.update_of_ne hi, hg], hpast⟩
  refine ⟨fun i hi m hm => ?_, fun i g hi => ?_, fun job hjob => ?_, fun d hd => ?_, events⟩
  · by_cases he : i = id
    · subst he
      rw [handlers, Function.update_self] at hi
      cases hi
    · rw [handlers, Function.update_of_ne he] at hi
      exact hw.absent i hi m ((marks m i hm).resolve_right he)
  · by_cases he : i = id
    · subst he
      rw [handlers, Function.update_self] at hi
      obtain rfl := Option.some.inj hi
      exact staged
    · rw [handlers, Function.update_of_ne he] at hi
      exact (hw.staged i g hi).congr fun m =>
        ⟨fun hm => (marks m i hm).resolve_right he, mono m i⟩
  · rcases jobs job hjob with hold | hnew
    · obtain ⟨i, hi⟩ := hw.jobs job hold
      exact ⟨i, keep hi⟩
    · exact ⟨id, hnew⟩
  · rw [deliveries] at hd
    obtain ⟨i, hi⟩ := hw.deliveries d hd
    exact ⟨i, keep hi⟩

theorem Wf.quiet (hw : Wf plan w) (present : w.handlers id = some h)
    (handlers : w'.handlers = Function.update w.handlers id (some h'))
    (ledger : w'.ledger = w.ledger) (jobs : w'.jobs = w.jobs)
    (deliveries : w'.deliveries = w.deliveries) (staged : Staged plan w.ledger id h')
    (past : Past h.pc → Past h'.pc) : Wf plan w' := by
  refine hw.handled present handlers ?_ ?_ (ledger ▸ staged) past ?_ deliveries ?_
  · rw [ledger]
    exact fun _ _ hm => .inl hm
  · rw [ledger]
    exact fun _ _ hm => hm
  · rw [jobs]
    exact fun _ hjob => .inl hjob
  · rw [ledger]
    exact hw.events

theorem Staged.sameStage (hs : Staged plan db id h) (tokens : h'.reservedTokens = h.reservedTokens)
    (releaseFailed : h'.releaseFailed = h.releaseFailed) (same : stage h'.pc = stage h.pc) :
    Staged plan db id h' := by
  constructor
  · exact tokens.trans hs.tokens
  · exact hs.needed
  all_goals rw [same]
  · exact hs.fresh
  · exact hs.admitted
  · exact hs.uncharged
  · exact hs.charged
  · exact hs.unreleased
  · rw [releaseFailed]
    exact hs.settled

/-- A throw keeps the facts of its handler. -/
theorem Staged.threw (hs : Staged plan db id h) (inside : stage h.pc ≠ .caught ∧ stage h.pc ≠ .closing)
    {rejected : Bool} : Staged plan db id { h with pc := .catchRelease, rejected := rejected } where
  tokens := hs.tokens
  needed := hs.needed
  fresh hc := by cases hc
  admitted hc := by rcases hc with hc | hc <;> cases hc
  uncharged hc := by rcases hc with hc | hc <;> cases hc
  charged hc := by cases hc
  unreleased _ := hs.unreleased inside.2
  settled hc := by cases hc

theorem Staged.caught (hs : Staged plan db id h) (failed : Bool)
    (settled : failed = false → ¬ Marked db .reserve id) :
    Staged plan db id { h with pc := .catchFinalizeRow, releaseFailed := failed } where
  tokens := hs.tokens
  needed := hs.needed
  fresh hc := by cases hc
  admitted hc := by rcases hc with hc | hc <;> cases hc
  uncharged hc := by rcases hc with hc | hc <;> cases hc
  charged hc := by cases hc
  unreleased hc := absurd rfl hc
  settled _ hf hr := absurd hr (settled hf)

theorem Staged.reserved (hs : Staged plan db id h) (hopen : stage h.pc = .unreserved)
    (needed : (plan id).needsReservation = true) (marks : Marks db db' .reserve id) :
    Staged plan db' id { h with pc := .route, reservedTokens := (plan id).estimatedTokens } := by
  have hin : Marked db' .reserve id := (marks _ _).mpr (.inr ⟨rfl, rfl⟩)
  refine ⟨(if_pos hin).symm, fun _ => needed, nofun, fun _ _ => hin, fun _ hc => ?_, nofun,
    fun _ hl => ?_, nofun⟩
  · rcases (marks _ _).mp hc with hold | ⟨hm, _⟩
    · exact hs.uncharged (.inl hopen) hold
    · cases hm
  · rcases (marks _ _).mp hl with hold | ⟨hm, _⟩
    · exact hs.unreleased (by rw [hopen]; decide) hold
    · cases hm

/-- A commit or a persisted job charges the request. -/
theorem Staged.metered (hs : Staged plan db id h)
    (before : stage h.pc = .running ∨ stage h.pc = .metered) (marks : Marks db db' .commit id)
    {pc : Pc} (after : stage pc = .metered) : Staged plan db' id { h with pc := pc } := by
  have hreserve : Marked db' .reserve id ↔ Marked db .reserve id := by
    rw [marks]
    simp
  constructor
  · rw [hs.tokens]
    exact if_congr hreserve.symm rfl rfl
  · exact fun hr => hs.needed (hreserve.mp hr)
  all_goals simp only [after]
  · exact nofun
  · exact fun _ hn => hreserve.mpr (hs.admitted before hn)
  · rintro (hc | hc) <;> cases hc
  · exact fun _ _ => (marks _ _).mpr (.inr ⟨rfl, rfl⟩)
  · rintro _ hl
    rcases (marks _ _).mp hl with hold | ⟨hm, _⟩
    · exact hs.unreleased (by rcases before with hb | hb <;> rw [hb] <;> decide) hold
    · cases hm
  · exact nofun

theorem Staged.uncommitted (hs : Staged plan db id h) (hrun : stage h.pc = .running)
    (free : ¬ 0 < h.reservedTokens) : Staged plan db id { h with pc := .enqueue } := by
  refine ⟨hs.tokens, hs.needed, nofun, fun _ hn => hs.admitted (.inl hrun) hn, ?_, fun _ hn => ?_,
    fun _ => hs.unreleased (by rw [hrun]; decide), nofun⟩
  · rintro (hc | hc) <;> cases hc
  · -- a reservation would have left a positive estimate in hand
    have htokens := hs.tokens
    rw [if_pos (hs.admitted (.inl hrun) hn)] at htokens
    exact absurd (htokens ▸ (plan id).estimatedTokens_pos) free

theorem Staged.released (hs : Staged plan db id h) (marks : Marks db db' .release id) :
    Staged plan db' id { h with pc := .catchFinalizeRow } := by
  have hreserve : Marked db' .reserve id ↔ Marked db .reserve id := by
    rw [marks]
    simp
  refine ⟨?_, fun hr => hs.needed (hreserve.mp hr), nofun, ?_, ?_, nofun,
    fun hc => absurd rfl hc, fun _ _ _ => .inr ((marks _ _).mpr (.inr ⟨rfl, rfl⟩))⟩
  · rw [hs.tokens]
    exact if_congr hreserve.symm rfl rfl
  · rintro (hc | hc) <;> cases hc
  · rintro (hc | hc) <;> cases hc

theorem Wf.sameStage (hw : Wf plan w) (present : w.handlers id = some h)
    (handlers : w'.handlers = Function.update w.handlers id (some h'))
    (ledger : w'.ledger = w.ledger) (jobs : w'.jobs = w.jobs)
    (deliveries : w'.deliveries = w.deliveries) (tokens : h'.reservedTokens = h.reservedTokens)
    (releaseFailed : h'.releaseFailed = h.releaseFailed) (same : stage h'.pc = stage h.pc) :
    Wf plan w' := by
  refine hw.quiet present handlers ledger jobs deliveries
    ((hw.staged id h present).sameStage tokens releaseFailed same) fun hp => ?_
  rw [Past, same]
  exact hp

/-- A ledger call of the handler that takes effect. -/
theorem Wf.called (hw : Wf plan w) (present : w.handlers id = some h) {m : LedgerMove}
    (handlers : w'.handlers = Function.update w.handlers id (some h'))
    (marks : Marks w.ledger w'.ledger m id) (events : w'.ledger.usageEvent = w.ledger.usageEvent)
    (jobs : w'.jobs = w.jobs) (deliveries : w'.deliveries = w.deliveries)
    (staged : Staged plan w'.ledger id h') (past : Past h.pc → Past h'.pc) : Wf plan w' := by
  refine hw.handled present handlers (fun m' i hm => ((marks m' i).mp hm).imp_right And.right)
    (fun m' i hm => (marks m' i).mpr (.inl hm)) staged past ?_ deliveries ?_
  · rw [jobs]
    exact fun _ hjob => .inl hjob
  · intro e he i hi
    rw [events] at he
    exact (marks _ _).mpr (.inl (hw.events e he i hi))

theorem HandlerMove.wf {now : ℤ} {ok : Bool} {outage : Outage} (hw : Wf plan w)
    (present : w.handlers id = some h) (move : HandlerMove plan redis w id h now ok outage w') :
    Wf plan w' := by
  have hs := hw.staged id h present
  cases move with
  | threw rejected inside =>
    exact hw.quiet present rfl rfl rfl rfl (hs.threw inside) fun _ => ⟨nofun, nofun⟩
  | advanced pc routed edge =>
    exact hw.sameStage present rfl rfl rfl rfl rfl rfl (stage_quietNext edge)
  | reserved entry ledger here needed call =>
    have hopen : stage h.pc = .unreserved := by rw [here]; rfl
    obtain ⟨hmarks, hevents⟩ := reserve_marks call
    exact hw.called present rfl hmarks hevents rfl rfl (hs.reserved hopen needed hmarks)
      fun hp => absurd hopen hp.1
  | unreserved here free =>
    have hopen : stage h.pc = .unreserved := by rw [here]; rfl
    refine hw.quiet present rfl rfl rfl rfl ?_ (fun hp => absurd hopen hp.1)
    refine ⟨hs.tokens, hs.needed, nofun, fun _ hn => ?_, fun _ => hs.uncharged (.inl hopen), nofun,
      fun _ => hs.unreleased (by rw [hopen]; decide), nofun⟩
    rw [free] at hn
    cases hn
  | dispatched row here found =>
    exact hw.sameStage present rfl rfl rfl rfl rfl rfl (by rw [here]; rfl)
  | finalizedRow row here found =>
    exact hw.sameStage present rfl rfl rfl rfl rfl rfl (by rw [here]; rfl)
  | finalizedAttempt row here =>
    exact hw.sameStage present rfl rfl rfl rfl rfl rfl (by rw [here]; rfl)
  | committed entry ledger here held call =>
    have hrun : stage h.pc = .running := by rw [here]; rfl
    obtain ⟨hmarks, hevents⟩ := commit_marks call
    exact hw.called present rfl hmarks hevents rfl rfl (hs.metered (.inl hrun) hmarks rfl)
      fun _ => ⟨nofun, nofun⟩
  | uncommitted here free =>
    have hrun : stage h.pc = .running := by rw [here]; rfl
    exact hw.quiet present rfl rfl rfl rfl (hs.uncommitted hrun free) (fun hp => absurd hrun hp.2)
  | enqueued here on =>
    have hmetered : stage h.pc = .metered := by rw [here]; rfl
    refine hw.handled present rfl (fun _ _ hm => .inl hm) (fun _ _ hm => hm)
      (hs.sameStage rfl rfl (by rw [hmetered]; rfl)) (fun _ => ⟨nofun, nofun⟩) ?_ rfl hw.events
    intro job hjob
    rcases List.mem_append.mp hjob with hold | hnew
    · exact .inl hold
    · exact .inr ⟨List.mem_singleton.mp hnew, ⟨_, Function.update_self _ _ _, nofun, nofun⟩,
        hs.charged hmetered⟩
  | persisted ledger here off call =>
    have hmetered : stage h.pc = .metered := by rw [here]; rfl
    have hp := persistUsage_persisted now ((plan id).usageJob id) (outage.attempt 0) w.ledger
    rw [call] at hp
    obtain ⟨hmarks, hevents⟩ := persisted_marks hw.events hp
    exact hw.handled present rfl (fun m i hm => ((hmarks m i).mp hm).imp_right And.right)
      (fun m i hm => (hmarks m i).mpr (.inl hm)) (hs.metered (.inr hmetered) hmarks rfl)
      (fun _ => ⟨nofun, nofun⟩) (fun _ hjob => .inl hjob) rfl hevents
  | read row here found =>
    exact hw.sameStage present rfl rfl rfl rfl rfl rfl (by rw [here]; rfl)
  | issued row here =>
    obtain ⟨receipts, hissue, -⟩ := issueReceipt_eq w ((plan id).usageJob id) row now
    rw [hissue]
    exact hw.sameStage present rfl rfl rfl rfl rfl rfl (by rw [here]; rfl)
  | released entry ledger here held sent call =>
    obtain ⟨hmarks, hevents⟩ := release_marks call
    exact hw.called present rfl hmarks hevents rfl rfl (hs.released hmarks) fun _ => ⟨nofun, nofun⟩
  | releaseLost here held =>
    exact hw.quiet present rfl rfl rfl rfl (hs.caught true nofun) fun _ => ⟨nofun, nofun⟩
  | nothingHeld here free =>
    refine hw.quiet present rfl rfl rfl rfl (hs.caught h.releaseFailed fun _ hr => ?_)
      fun _ => ⟨nofun, nofun⟩
    have htokens := hs.tokens
    rw [if_pos hr] at htokens
    exact free (htokens ▸ (plan id).estimatedTokens_pos)
  | closedRow row here sent found =>
    exact hw.sameStage present rfl rfl rfl rfl rfl rfl (by rw [here]; rfl)
  | closedAttempt row here =>
    exact hw.sameStage present rfl rfl rfl rfl rfl rfl (by rw [here]; rfl)

/-- A charge from outside its handler, which is past its commit. -/
theorem Staged.chargedOutside (hs : Staged plan db id h) (past : Past h.pc)
    (marks : Marks db db' .commit id) : Staged plan db' id h := by
  have hreserve : Marked db' .reserve id ↔ Marked db .reserve id := by
    rw [marks]
    simp
  have hrelease : Marked db' .release id ↔ Marked db .release id := by
    rw [marks]
    simp
  have hcommit : Marked db' .commit id := (marks _ _).mpr (.inr ⟨rfl, rfl⟩)
  constructor
  · rw [hs.tokens]
    exact if_congr hreserve.symm rfl rfl
  · exact fun hr => hs.needed (hreserve.mp hr)
  · exact fun hp => absurd hp past.1
  · exact fun hp hn => hreserve.mpr (hs.admitted hp hn)
  · exact fun hp => hp.elim (fun hp => absurd hp past.1) fun hp => absurd hp past.2
  · exact fun _ _ => hcommit
  · exact fun hp hl => hs.unreleased hp (hrelease.mp hl)
  · exact fun _ _ _ => .inl hcommit

theorem Accepted.carry {job : UsageJob} (ha : Accepted plan w job id)
    (handlers : w'.handlers = w.handlers)
    (mono : ∀ m i, Marked w.ledger m i → Marked w'.ledger m i) : Accepted plan w' job id :=
  ⟨ha.payload, handlers ▸ ha.past, fun hn => mono _ _ (ha.charged hn)⟩

/-- A move of a worker that leaves the ledger alone. -/
theorem Wf.idle (hw : Wf plan w) (handlers : w'.handlers = w.handlers) (ledger : w'.ledger = w.ledger)
    (jobs : w'.jobs = w.jobs)
    (deliveries : ∀ d ∈ w'.deliveries, d.job ∈ w.jobs ∨ ∃ d₀ ∈ w.deliveries, d.job = d₀.job) :
    Wf plan w' := by
  have carry : ∀ {job : UsageJob} {i : String}, Accepted plan w job i → Accepted plan w' job i :=
    fun ha => ha.carry handlers fun m i hm => by rw [ledger]; exact hm
  refine ⟨?_, ?_, fun job hjob => ?_, fun d hd => ?_, ?_⟩
  · rw [handlers, ledger]
    exact hw.absent
  · rw [handlers, ledger]
    exact hw.staged
  · rw [jobs] at hjob
    obtain ⟨i, hi⟩ := hw.jobs job hjob
    exact ⟨i, carry hi⟩
  · rcases deliveries d hd with hjob | ⟨d₀, hd₀, he⟩
    · obtain ⟨i, hi⟩ := hw.jobs d.job hjob
      exact ⟨i, carry hi⟩
    · obtain ⟨i, hi⟩ := hw.deliveries d₀ hd₀
      rw [he]
      exact ⟨i, carry hi⟩
  · rw [ledger]
    exact hw.events

theorem job_of_mem_set {deliveries : List Delivery} {k : ℕ} {d d' : Delivery} {pc : DeliveryPc}
    (hd : d ∈ deliveries) (h : d' ∈ deliveries.set k { d with pc := pc }) :
    ∃ d₀ ∈ deliveries, d'.job = d₀.job := by
  rcases List.mem_or_eq_of_mem_set h with hold | rfl
  · exact ⟨d', hold, rfl⟩
  · exact ⟨d, hd, rfl⟩

theorem WorkerMove.wf {k : ℕ} {d : Delivery} {now : ℤ} {faults : Faults} (hw : Wf plan w)
    (present : d ∈ w.deliveries) (move : WorkerMove w k d now faults w') : Wf plan w' := by
  cases move with
  | persisted ledger call =>
    obtain ⟨id, ha⟩ := hw.deliveries d present
    obtain ⟨g, hg, hpast⟩ := ha.past
    have hp := persistUsage_persisted now d.job faults w.ledger
    rw [call, ha.payload] at hp
    obtain ⟨hmarks, hevents⟩ := persisted_marks hw.events hp
    have carry : ∀ {job : UsageJob} {i : String}, Accepted plan w job i → Accepted plan
        ({ w with
          ledger := ledger
          history := w.history ++ (d.job.inferenceRequestId.map Metering.persisted).toList }.setDelivery
            k { d with pc := .readRow }) job i :=
      fun ha => ha.carry rfl fun m i hm => (hmarks m i).mpr (.inl hm)
    refine ⟨fun i hi m hm => ?_, fun i g' hi => ?_, fun job hjob => ?_, fun d' hd' => ?_, hevents⟩
    · rcases (hmarks m i).mp hm with hold | ⟨_, rfl⟩
      · exact hw.absent i hi m hold
      · cases hg.symm.trans hi
    · by_cases he : i = id
      · subst he
        obtain rfl := Option.some.inj (hg.symm.trans hi)
        exact (hw.staged _ _ hg).chargedOutside hpast hmarks
      · refine (hw.staged i g' hi).congr fun m => ?_
        exact (hmarks m i).trans (or_iff_left fun hc => he hc.2)
    · obtain ⟨i, hi⟩ := hw.jobs job hjob
      exact ⟨i, carry hi⟩
    · obtain ⟨d₀, hd₀, he⟩ := job_of_mem_set present hd'
      obtain ⟨i, hi⟩ := hw.deliveries d₀ hd₀
      rw [he]
      exact ⟨i, carry hi⟩
  | finished =>
    exact hw.idle rfl rfl rfl fun d' hd' => .inr (job_of_mem_set present hd')
  | read row found =>
    exact hw.idle rfl rfl rfl fun d' hd' => .inr (job_of_mem_set present hd')
  | issued row here =>
    obtain ⟨receipts, hissue, -⟩ := issueReceipt_eq w d.job row now
    rw [hissue]
    exact hw.idle rfl rfl rfl fun d' hd' => .inr (job_of_mem_set present hd')

theorem SystemMove.wf {e : Event} (hw : Wf plan w) (move : SystemMove plan redis w e w') :
    Wf plan w' := by
  cases move with
  | arrived id absent =>
    have hnone := hw.absent id absent
    have carry : ∀ {job : UsageJob} {i : String}, Accepted plan w job i → Accepted plan
        ((w.setRequest id (plan id).newRow).setHandler id ⟨.reserve, 0, false, false, false⟩) job i := by
      rintro job i ⟨payload, ⟨g, hg, hpast⟩, charged⟩
      refine ⟨payload, ⟨g, ?_, hpast⟩, charged⟩
      have hi : i ≠ id := by
        rintro rfl
        cases hg.symm.trans absent
      exact (Function.update_of_ne hi _ _).trans hg
    refine ⟨fun i hi m hm => ?_, fun i g hi => ?_, fun job hjob => ?_, fun d hd => ?_, hw.events⟩
    · by_cases he : i = id
      · subst he
        exact hnone m hm
      · rw [World.setHandler_handlers, Function.update_of_ne he] at hi
        exact hw.absent i hi m hm
    · by_cases he : i = id
      · subst he
        rw [World.setHandler_handlers, Function.update_self] at hi
        obtain rfl := Option.some.inj hi
        exact ⟨(if_neg (hnone .reserve)).symm, fun hr => absurd hr (hnone _), fun _ => hnone _,
          fun hc => hc.elim nofun nofun, fun _ => hnone _, nofun,
          fun _ => hnone _, nofun⟩
      · rw [World.setHandler_handlers, Function.update_of_ne he] at hi
        exact hw.staged i g hi
    · obtain ⟨i, hi⟩ := hw.jobs job hjob
      exact ⟨i, carry hi⟩
    · obtain ⟨i, hi⟩ := hw.deliveries d hd
      exact ⟨i, carry hi⟩
  | handled id now ok outage h present move => exact HandlerMove.wf hw present move
  | delivered n job accepted =>
    refine hw.idle rfl rfl rfl fun d hd => ?_
    rcases List.mem_append.mp hd with hold | hnew
    · exact .inr ⟨d, hold, rfl⟩
    · rw [List.mem_singleton.mp hnew]
      exact .inl accepted
  | worked k now ok faults d present move => exact WorkerMove.wf hw present move

theorem start_wf (plan : String → ChatPlan) (periods : String → Option (ℤ × ℤ)) :
    Wf plan (start periods) := by
  have hnone : ∀ m id, ¬ Marked (start periods).ledger m id := by
    simp [Marked, LedgerDb.Recorded, start, LedgerAccounting.freshDb]
  exact ⟨fun id _ m => hnone m id, fun _ _ h => absurd h (Option.some_ne_none _).symm, List.forall_mem_nil _,
    List.forall_mem_nil _, List.forall_mem_nil _⟩

end ModelForge.ChatInvariant
