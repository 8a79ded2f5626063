import ModelForge.CoreTrace
import ModelForge.OneShot
import ModelForge.Participants

set_option autoImplicit false

/-!
# Core trace sessions are one-shot

A session is taken by the conditional update of one request, whose recorder is
then the only writer of the session's events.
-/
namespace ModelForge.CoreTraceSessions
open RunInvariant CoreTrace OneShot Participants
open EventStream (Value)

/-! ## The session's log -/

def eventsOf (w : World) (traceId : String) : List TraceEvent :=
  w.events.filter fun e => e.traceId = traceId

/-- The statuses that recorders set on the session. -/
def settledOf (w : World) (traceId : String) : List Status :=
  (w.settled.filter fun s => s.1 = traceId).map Prod.snd

/-- The session can still be claimed, now or when it is created. -/
def free (w : World) (traceId : String) : Prop :=
  ∀ row, w.sessions.get? traceId = some row → row.status = .ARMED

def holds : Progress → Option String
  | .updated traceId count => if count = 1 then some traceId else none
  | .recording r => some r.traceId
  | _ => none

def holder (w : World) (i : ℕ) : Option String := w.claims[i]?.bind fun claim => holds claim.progress

/-- Where a recorder is between the events it has recorded. -/
inductive Position (log : List TraceEvent) (settled : List Status) (r : CoreTraceRecorder) : Prop where
  | opened (hclosed : r.closed = false) (hdoing : r.doing = .idle) (hsequence : r.sequence = log.length)
      (hopen : ∀ e ∈ log, e.terminal = false) (hsettled : settled = [])
  | creating (call : Call) (atMs : ℤ) (hclosed : r.closed = false) (hdoing : r.doing = .creating call atMs)
      (hsequence : r.sequence = log.length + 1) (hopen : ∀ e ∈ log, e.terminal = false)
      (hsettled : settled = [])
  | closing (status : Status) (summary : Value) (completedAt : ℤ) (hclosed : r.closed = true)
      (hdoing : r.doing = .closing status summary completedAt) (hsettled : settled = [])
      (hlast : ∃ front e, log = front ++ [e] ∧ e.call.closing = some (status, summary))
  | closed (status : Status) (summary : Value) (hclosed : r.closed = true) (hdoing : r.doing = .idle)
      (hsettled : settled = [status])
      (hlast : ∃ front e, log = front ++ [e] ∧ e.call.closing = some (status, summary))

structure RecorderOk (log : List TraceEvent) (settled : List Status) (r : CoreTraceRecorder) : Prop where
  numbered : Numbered TraceEvent.sequence TraceEvent.terminal log
  position : Position log settled r

structure Inv (w : World) : Prop where
  once : Once (free w) (w.captured.map Prod.fst)
  held : ∀ (i : ℕ) (claim : Claim) traceId, w.claims[i]? = some claim →
    holds claim.progress = some traceId → (traceId, claim.requestId) ∈ w.captured
  alone : ∀ i j traceId, holder w i = some traceId → holder w j = some traceId → i = j
  recorded : ∀ i r, w.recorder i = some r →
    RecorderOk (eventsOf w r.traceId) (settledOf w r.traceId) r
  silent : ∀ traceId, (∀ i r, w.recorder i = some r → r.traceId ≠ traceId) →
    eventsOf w traceId = [] ∧ settledOf w traceId = []

theorem inv_start : Inv start := by
  refine ⟨once_nil _, ?_, ?_, ?_, fun _ _ => ⟨rfl, rfl⟩⟩
  · intro i claim traceId h
    simp [start] at h
  · intro i j traceId h
    simp [holder, start] at h
  · intro i r h
    simp [World.recorder, start] at h

variable {w w' : World} {i : ℕ} {claim : Claim} {traceId : String} {r : CoreTraceRecorder}

theorem closing_ne_armed {call : Call} {status : Status} {summary : Value}
    (h : call.closing = some (status, summary)) : status ≠ .ARMED := by
  cases call with
  | event input => cases h
  | complete summary =>
    obtain ⟨rfl, -⟩ := Prod.mk.inj (Option.some.inj h)
    decide
  | fail message =>
    obtain ⟨rfl, -⟩ := Prod.mk.inj (Option.some.inj h)
    decide

theorem holds_of_recorder {progress : Progress} (h : progress.recorder = some r) :
    holds progress = some r.traceId := by
  cases progress with
  | recording recorder =>
    obtain rfl := Option.some.inj h
    rfl
  | updating traceId now => cases h
  | updated traceId count => cases h
  | unclaimed => cases h

theorem holder_of_recorder (h : w.recorder i = some r) : holder w i = some r.traceId := by
  obtain ⟨claim, hclaim, hrecorder⟩ := Option.bind_eq_some_iff.mp h
  exact Option.bind_eq_some_iff.mpr ⟨claim, hclaim, holds_of_recorder hrecorder⟩

theorem Inv.row (h : Inv w) {requestId : String} (hmem : (traceId, requestId) ∈ w.captured) :
    ∃ row, w.sessions.get? traceId = some row ∧ row.status ≠ .ARMED := by
  have hgone := h.once.gone traceId (List.mem_map_of_mem hmem)
  rw [free, not_forall] at hgone
  obtain ⟨row, hrow⟩ := hgone
  exact ⟨row, Classical.not_imp.mp hrow⟩

/-! ## Changes of the world -/

/-- What the invariant does not speak of changes freely, and rows that were
taken stay so. -/
theorem Inv.other (h : Inv w) (hclaims : w'.claims = w.claims) (hevents : w'.events = w.events)
    (hcaptured : w'.captured = w.captured) (hsettled : w'.settled = w.settled)
    (hfree : ∀ t ∈ w.captured.map Prod.fst, free w' t → free w t) : Inv w' := by
  have hholder : ∀ i, holder w' i = holder w i := by
    intro i
    rw [holder, hclaims, holder]
  have hrecorder : ∀ i, w'.recorder i = w.recorder i := by
    intro i
    rw [World.recorder, hclaims, World.recorder]
  have heventsOf : ∀ t, eventsOf w' t = eventsOf w t := by
    intro t
    rw [eventsOf, hevents, eventsOf]
  have hsettledOf : ∀ t, settledOf w' t = settledOf w t := by
    intro t
    rw [settledOf, hsettled, settledOf]
  constructor
  · rw [hcaptured]
    exact h.once.keep hfree
  · rw [hclaims, hcaptured]
    exact h.held
  · intro i j t hi hj
    rw [hholder] at hi hj
    exact h.alone i j t hi hj
  · intro i r hr
    rw [hrecorder] at hr
    rw [heventsOf, hsettledOf]
    exact h.recorded i r hr
  · intro t ht
    rw [heventsOf, hsettledOf]
    apply h.silent t
    intro i r hr
    exact ht i r ((hrecorder i).trans hr)

theorem getElem?_setProgress (w : World) (i : ℕ) (progress : Progress) (j : ℕ) :
    (w.setProgress i progress).claims[j]? =
      if i = j then w.claims[j]?.map fun claim => { claim with progress := progress } else w.claims[j]? :=
  get_modify ..

theorem holder_setProgress (hi : w.claims[i]? = some claim) (progress : Progress) (j : ℕ) :
    holder (w.setProgress i progress) j = if i = j then holds progress else holder w j := by
  rw [holder, getElem?_setProgress]
  split
  · rename_i hij
    rw [← hij, hi]
    rfl
  · rfl

theorem recorder_setProgress (hi : w.claims[i]? = some claim) (progress : Progress) (j : ℕ) :
    (w.setProgress i progress).recorder j = if i = j then progress.recorder else w.recorder j := by
  rw [World.recorder, getElem?_setProgress]
  split
  · rename_i hij
    rw [← hij, hi]
    rfl
  · rfl

/-- A request goes on that has no recorder and gets none; what it claims is
recorded as taken, and nobody else has it. -/
theorem Inv.setProgress (h : Inv w) (hi : w.claims[i]? = some claim) {progress : Progress}
    (hbefore : claim.progress.recorder = none) (hafter : progress.recorder = none)
    (hholds : ∀ t, holds progress = some t →
      (t, claim.requestId) ∈ w.captured ∧ ∀ j, holder w j ≠ some t) :
    Inv (w.setProgress i progress) := by
  have hnone : w.recorder i = none := by
    rw [World.recorder, hi]
    exact hbefore
  refine ⟨h.once, ?_, ?_, ?_, ?_⟩
  · intro j claim' t hj ht
    rw [getElem?_setProgress] at hj
    split at hj
    · rename_i hij
      rw [← hij, hi] at hj
      obtain rfl := Option.some.inj hj
      exact (hholds t ht).1
    · exact h.held j claim' t hj ht
  · intro j k t hj hk
    rw [holder_setProgress hi] at hj hk
    by_cases hij : i = j
    · rw [if_pos hij] at hj
      by_cases hik : i = k
      · exact hij.symm.trans hik
      · rw [if_neg hik] at hk
        exact absurd hk ((hholds t hj).2 k)
    · rw [if_neg hij] at hj
      by_cases hik : i = k
      · rw [if_pos hik] at hk
        exact absurd hj ((hholds t hk).2 j)
      · rw [if_neg hik] at hk
        exact h.alone j k t hj hk
  · intro j r hr
    rw [recorder_setProgress hi] at hr
    split at hr
    · rw [hafter] at hr
      cases hr
    · exact h.recorded j r hr
  · intro t ht
    apply h.silent t
    intro j r hr
    apply ht j r
    rw [recorder_setProgress hi]
    split
    · rename_i hij
      rw [← hij, hnone] at hr
      cases hr
    · exact hr

theorem Inv.appendClaim (h : Inv w) (hrecorder : claim.progress.recorder = none)
    (hholds : holds claim.progress = none) : Inv { w with claims := w.claims ++ [claim] } := by
  have hsame : ∀ j, holder { w with claims := w.claims ++ [claim] } j = holder w j :=
    bind_concat (x := claim) (g := fun claim => holds claim.progress) hholds w.claims
  have hwriters : ∀ j, World.recorder { w with claims := w.claims ++ [claim] } j = w.recorder j :=
    bind_concat (x := claim) (g := fun claim => claim.progress.recorder) hrecorder w.claims
  refine ⟨h.once, ?_, ?_, ?_, ?_⟩
  · intro j claim' t hj ht
    rcases get_of_concat hj with hold | ⟨-, rfl⟩
    · exact h.held j claim' t hold ht
    · rw [hholds] at ht
      cases ht
  · intro j k t hj hk
    rw [hsame] at hj hk
    exact h.alone j k t hj hk
  · intro j r hr
    rw [hwriters] at hr
    exact h.recorded j r hr
  · intro t ht
    apply h.silent t
    intro j r hr
    exact ht j r ((hwriters j).trans hr)

/-- A recorder goes on: it alone writes to its session. -/
theorem Inv.setRecorder (h : Inv w) (hi : w.claims[i]? = some claim)
    (hholds : holds claim.progress = some r.traceId)
    (hclaims : w'.claims = (w.setProgress i (.recording r)).claims) (hcaptured : w'.captured = w.captured)
    (hfree : ∀ t ∈ w.captured.map Prod.fst, free w' t → free w t)
    (hevents : ∀ t, t ≠ r.traceId → eventsOf w' t = eventsOf w t)
    (hsettled : ∀ t, t ≠ r.traceId → settledOf w' t = settledOf w t)
    (hok : RecorderOk (eventsOf w' r.traceId) (settledOf w' r.traceId) r) : Inv w' := by
  have hheld : holder w i = some r.traceId := by
    rw [holder, hi]
    exact hholds
  have hholder : ∀ j, holder w' j = holder w j := by
    intro j
    rw [holder, hclaims, ← holder, holder_setProgress hi]
    split
    · rename_i hij
      rw [← hij, hheld]
      rfl
    · rfl
  have hrecorder : ∀ j, w'.recorder j = if i = j then some r else w.recorder j := by
    intro j
    rw [World.recorder, hclaims, ← World.recorder, recorder_setProgress hi]
    rfl
  have hother : ∀ j r', i ≠ j → w.recorder j = some r' → r'.traceId ≠ r.traceId := by
    intro j r' hij hr' heq
    apply hij
    exact h.alone i j r.traceId hheld (heq ▸ holder_of_recorder hr')
  constructor
  · rw [hcaptured]
    exact h.once.keep hfree
  · intro j claim' t hj ht
    rw [hcaptured]
    rw [hclaims, getElem?_setProgress] at hj
    split at hj
    · rename_i hij
      rw [← hij, hi] at hj
      obtain rfl := Option.some.inj hj
      obtain rfl := Option.some.inj ht
      exact h.held i claim r.traceId hi hholds
    · exact h.held j claim' t hj ht
  · intro j k t hj hk
    rw [hholder] at hj hk
    exact h.alone j k t hj hk
  · intro j r' hr'
    rw [hrecorder] at hr'
    split at hr'
    · obtain rfl := Option.some.inj hr'
      exact hok
    · rename_i hij
      have hne := hother j r' hij hr'
      rw [hevents _ hne, hsettled _ hne]
      exact h.recorded j r' hr'
  · intro t ht
    have hne : t ≠ r.traceId := by
      intro heq
      exact ht i r (by rw [hrecorder, if_pos rfl]) heq.symm
    rw [hevents t hne, hsettled t hne]
    apply h.silent t
    intro j r' hr'
    by_cases hij : i = j
    · subst hij
      have hsame := (holder_of_recorder hr').symm.trans hheld
      rw [Option.some.inj hsame]
      exact Ne.symm hne
    · exact ht j r' (by rw [hrecorder, if_neg hij, hr'])

/-! ## Claims -/

theorem claimRow_eq_some {sessions : KeyedMap String Session} {now : ℤ} {row : Session}
    (h : claimRow sessions claim traceId now = some row) :
    ∃ old, sessions.get? traceId = some old ∧ old.status = .ARMED ∧ row.status = .CAPTURING := by
  obtain ⟨old, hold, hrow⟩ := Option.bind_eq_some_iff.mp h
  split at hrow
  · rename_i hclaimable
    obtain rfl := Option.some.inj hrow
    exact ⟨old, hold, hclaimable.2.1, rfl⟩
  · cases hrow

theorem free_of_armed {row : Session} (hrow : w.sessions.get? traceId = some row)
    (hstatus : row.status = .ARMED) : free w traceId := by
  intro other hother
  rw [← Option.some.inj (hrow.symm.trans hother)]
  exact hstatus

theorem Inv.holder_ne (h : Inv w) (hfree : free w traceId) (j : ℕ) : holder w j ≠ some traceId := by
  intro hj
  obtain ⟨claim, hclaim, ht⟩ := Option.bind_eq_some_iff.mp hj
  exact h.once.gone traceId (List.mem_map_of_mem (h.held j claim traceId hclaim ht)) hfree

/-- The session that is taken was free, and is not free any more. -/
theorem Inv.capture (h : Inv w) {now : ℤ} {row : Session} (hi : w.claims[i]? = some claim)
    (hbefore : claim.progress.recorder = none) (hrow : claimRow w.sessions claim traceId now = some row)
    (count : ℕ) :
    Inv ((w.capture traceId claim.requestId row).setProgress i (.updated traceId count)) := by
  obtain ⟨old, hold, harmed, hcapturing⟩ := claimRow_eq_some hrow
  have hfree : free w traceId := free_of_armed hold harmed
  have htaken : Inv (w.capture traceId claim.requestId row) := by
    refine ⟨?_, ?_, h.alone, h.recorded, h.silent⟩
    · rw [World.capture, List.map_append]
      apply h.once.take hfree
      · intro hnow
        have hstatus := hnow row (KeyedMap.get?_set_self _ _ _)
        rw [hcapturing] at hstatus
        cases hstatus
      · intro u hu hnow
        have hne : u ≠ traceId := fun heq => h.once.notMem hfree (heq ▸ hu)
        intro other hother
        apply hnow other
        rw [KeyedMap.get?_set_of_ne hne]
        exact hother
    · intro j claim' t hj ht
      exact List.mem_append_left _ (h.held j claim' t hj ht)
  apply htaken.setProgress hi hbefore rfl
  intro t ht
  rw [holds] at ht
  split at ht
  · obtain rfl := Option.some.inj ht
    exact ⟨List.mem_append_right _ (List.mem_singleton_self _), h.holder_ne hfree⟩
  · cases ht

theorem Inv.update (h : Inv w) {now : ℤ} (hi : w.claims[i]? = some claim)
    (hprogress : claim.progress = .updating traceId now) (outcome : Outcome) :
    Inv (w.update i claim traceId now outcome) := by
  have hbefore : claim.progress.recorder = none := by
    rw [hprogress]
    rfl
  unfold World.update
  split
  · rename_i row hrow
    exact h.capture hi hbefore hrow 1
  · rename_i row hrow
    exact h.capture hi hbefore hrow 0
  · apply h.setProgress hi hbefore rfl
    intro t ht
    cases ht

/-! ## Recorders -/

theorem recorder_eq_some (h : w.recorder i = some r) :
    ∃ claim, w.claims[i]? = some claim ∧ claim.progress = .recording r := by
  obtain ⟨claim, hclaim, hrecorder⟩ := Option.bind_eq_some_iff.mp h
  refine ⟨claim, hclaim, ?_⟩
  cases hprogress : claim.progress with
  | recording recorder =>
    rw [hprogress] at hrecorder
    rw [Option.some.inj hrecorder]
  | updating traceId now =>
    rw [hprogress] at hrecorder
    cases hrecorder
  | updated traceId count =>
    rw [hprogress] at hrecorder
    cases hrecorder
  | unclaimed =>
    rw [hprogress] at hrecorder
    cases hrecorder

@[simp] theorem enter_traceId (r : CoreTraceRecorder) (call : Call) (now : ℤ) :
    (r.enter call now).traceId = r.traceId := by
  unfold CoreTraceRecorder.enter
  split <;> rfl

@[simp] theorem created_traceId (r : CoreTraceRecorder) (call : Call) (now : ℤ) :
    (r.created call now).traceId = r.traceId := by
  unfold CoreTraceRecorder.created
  split <;> rfl

theorem RecorderOk.enter {log : List TraceEvent} {settled : List Status} (h : RecorderOk log settled r)
    (hidle : r.doing = .idle) (call : Call) (now : ℤ) : RecorderOk log settled (r.enter call now) := by
  refine ⟨h.numbered, ?_⟩
  unfold CoreTraceRecorder.enter
  cases h.position with
  | opened hclosed hdoing hsequence hopen hsettled =>
    rw [if_neg (by simp [hclosed])]
    exact .creating call _ hclosed rfl (congrArg (· + 1) hsequence) hopen hsettled
  | creating call' atMs hclosed hdoing hsequence hopen hsettled =>
    rw [hidle] at hdoing
    cases hdoing
  | closing status summary completedAt hclosed hdoing hsettled hlast =>
    rw [hidle] at hdoing
    cases hdoing
  | closed status summary hclosed hdoing hsettled hlast =>
    rw [if_pos hclosed]
    exact .closed status summary hclosed hdoing hsettled hlast

theorem Position.of_creating {log : List TraceEvent} {settled : List Status} {call : Call} {atMs : ℤ}
    (h : Position log settled r) (hcreating : r.doing = .creating call atMs) :
    r.closed = false ∧ r.sequence = log.length + 1 ∧ (∀ e ∈ log, e.terminal = false) ∧ settled = [] := by
  cases h with
  | creating call' atMs' hclosed hdoing hsequence hopen hsettled =>
    exact ⟨hclosed, hsequence, hopen, hsettled⟩
  | opened hclosed hdoing hsequence hopen hsettled =>
    rw [hcreating] at hdoing
    cases hdoing
  | closing status summary completedAt hclosed hdoing hsettled hlast =>
    rw [hcreating] at hdoing
    cases hdoing
  | closed status summary hclosed hdoing hsettled hlast =>
    rw [hcreating] at hdoing
    cases hdoing

theorem Position.of_closing {log : List TraceEvent} {settled : List Status} {status : Status}
    {summary : Value} {completedAt : ℤ} (h : Position log settled r)
    (hclosing : r.doing = .closing status summary completedAt) :
    r.closed = true ∧ settled = [] ∧
      ∃ front e, log = front ++ [e] ∧ e.call.closing = some (status, summary) := by
  cases h with
  | closing status' summary' completedAt' hclosed hdoing hsettled hlast =>
    rw [hclosing] at hdoing
    obtain ⟨rfl, rfl, rfl⟩ := Doing.closing.inj hdoing
    exact ⟨hclosed, hsettled, hlast⟩
  | opened hclosed hdoing hsequence hopen hsettled =>
    rw [hclosing] at hdoing
    cases hdoing
  | creating call' atMs' hclosed hdoing hsequence hopen hsettled =>
    rw [hclosing] at hdoing
    cases hdoing
  | closed status' summary' hclosed hdoing hsettled hlast =>
    rw [hclosing] at hdoing
    cases hdoing

theorem RecorderOk.created {log : List TraceEvent} {settled : List Status} {call : Call} {atMs : ℤ}
    (h : RecorderOk log settled r) (hcreating : r.doing = .creating call atMs) (now : ℤ) :
    RecorderOk (log ++ [⟨r.traceId, r.sequence, atMs, call⟩]) settled (r.created call now) := by
  obtain ⟨hclosed, hsequence, hopen, hsettled⟩ := h.position.of_creating hcreating
  refine ⟨h.numbered.concat hopen hsequence, ?_⟩
  unfold CoreTraceRecorder.created
  split
  · rename_i hclosing
    refine .opened hclosed rfl ?_ ?_ hsettled
    · rw [List.length_append, List.length_singleton]
      exact hsequence
    · intro e he
      rw [List.mem_append, List.mem_singleton] at he
      cases he with
      | inl he => exact hopen e he
      | inr he =>
        rw [he, TraceEvent.terminal, hclosing]
        rfl
  · rename_i status summary hclosing
    exact .closing status summary now rfl rfl hsettled ⟨log, _, rfl, hclosing⟩

theorem RecorderOk.settle {log : List TraceEvent} {settled : List Status} {status : Status}
    {summary : Value} {completedAt : ℤ} (h : RecorderOk log settled r)
    (hclosing : r.doing = .closing status summary completedAt) :
    RecorderOk log (settled ++ [status]) { r with doing := .idle } := by
  obtain ⟨hclosed, hsettled, hlast⟩ := h.position.of_closing hclosing
  refine ⟨h.numbered, .closed status summary hclosed rfl ?_ hlast⟩
  rw [hsettled]
  rfl

/-- No event of the recorder's session has the number of the one it creates. -/
theorem RecorderOk.fresh (h : RecorderOk (eventsOf w r.traceId) (settledOf w r.traceId) r) {call : Call}
    {atMs : ℤ} (hcreating : r.doing = .creating call atMs) :
    (w.create ⟨r.traceId, r.sequence, atMs, call⟩).events =
      w.events ++ [⟨r.traceId, r.sequence, atMs, call⟩] := by
  obtain ⟨-, hsequence, -, -⟩ := h.position.of_creating hcreating
  have hunused : ¬ (w.events.any fun other =>
      other.traceId = r.traceId ∧ other.sequence = r.sequence) = true := by
    rw [List.any_eq_true]
    rintro ⟨other, hmem, hsame⟩
    obtain ⟨htrace, hnumber⟩ := of_decide_eq_true hsame
    have hin : other ∈ eventsOf w r.traceId := List.mem_filter.mpr ⟨hmem, decide_eq_true htrace⟩
    have hrange := List.mem_map_of_mem (f := TraceEvent.sequence) hin
    rw [h.numbered.numbers, List.mem_range'_1] at hrange
    omega
  rw [World.create, if_neg hunused]

theorem create_claims (w : World) (e : TraceEvent) :
    (w.create e).claims = w.claims ∧ (w.create e).captured = w.captured ∧
      (w.create e).settled = w.settled ∧ (w.create e).sessions = w.sessions := by
  unfold World.create
  split
  · exact ⟨rfl, rfl, rfl, rfl⟩
  · exact ⟨rfl, rfl, rfl, rfl⟩

theorem Inv.resume (h : Inv w) {count : ℕ} (hi : w.claims[i]? = some claim)
    (hprogress : claim.progress = .updated traceId count) (now : ℤ) :
    Inv (w.resume i claim traceId count now) := by
  have hbefore : claim.progress.recorder = none := by
    rw [hprogress]
    rfl
  have hdisarmed : Inv { w with
      armedByCustomer := disarmCoreTrace w.armedByCustomer claim.customerId (some traceId) } :=
    h.other rfl rfl rfl rfl fun _ _ hnow => hnow
  unfold World.resume
  dsimp only
  split
  · rename_i hcount
    have hholds : holds claim.progress = some traceId := by
      rw [hprogress, holds, if_pos hcount]
    have hnobody : ∀ j r, w.recorder j = some r → r.traceId ≠ traceId := by
      intro j r hr heq
      have hholder : holder w i = some traceId := by
        rw [holder, hi]
        exact hholds
      have hij := h.alone i j traceId hholder (heq ▸ holder_of_recorder hr)
      rw [← hij, World.recorder, hi] at hr
      rw [Option.bind_some, hbefore] at hr
      cases hr
    obtain ⟨hevents, hsettled⟩ := h.silent traceId hnobody
    have hnew : RecorderOk (eventsOf w traceId) (settledOf w traceId)
        (CoreTraceRecorder.new traceId claim.startedAtMs) := by
      rw [hevents, hsettled]
      exact ⟨numbered_nil, .opened rfl rfl rfl (fun _ he => absurd he List.not_mem_nil) rfl⟩
    exact hdisarmed.setRecorder hi hholds rfl rfl (fun _ _ hnow => hnow) (fun _ _ => rfl) (fun _ _ => rfl)
      (hnew.enter rfl _ now)
  · apply hdisarmed.setProgress hi hbefore rfl
    intro t ht
    cases ht

theorem Inv.call (h : Inv w) (hr : w.recorder i = some r) (hidle : r.doing = .idle) (call : Call) (now : ℤ) :
    Inv (w.setProgress i (.recording (r.enter call now))) := by
  obtain ⟨claim, hi, hprogress⟩ := recorder_eq_some hr
  have hholds : holds claim.progress = some (r.enter call now).traceId := by
    rw [hprogress, enter_traceId]
    rfl
  apply h.setRecorder hi hholds rfl rfl (fun _ _ hnow => hnow) (fun _ _ => rfl) (fun _ _ => rfl)
  rw [enter_traceId]
  exact (h.recorded i r hr).enter hidle call now

theorem Inv.created (h : Inv w) (hr : w.recorder i = some r) {call : Call} {atMs : ℤ}
    (hcreating : r.doing = .creating call atMs) (now : ℤ) :
    Inv ((w.create ⟨r.traceId, r.sequence, atMs, call⟩).setProgress i (.recording (r.created call now))) := by
  obtain ⟨claim, hi, hprogress⟩ := recorder_eq_some hr
  obtain ⟨hclaims, hcaptured, hsettled, hsessions⟩ := create_claims w ⟨r.traceId, r.sequence, atMs, call⟩
  have hok := h.recorded i r hr
  have hevents := hok.fresh hcreating
  have hholds : holds claim.progress = some (r.created call now).traceId := by
    rw [hprogress, created_traceId]
    rfl
  have heventsOf : ∀ t, eventsOf ((w.create ⟨r.traceId, r.sequence, atMs, call⟩).setProgress i
      (.recording (r.created call now))) t =
        eventsOf w t ++ if r.traceId = t then [⟨r.traceId, r.sequence, atMs, call⟩] else [] := by
    intro t
    change ((w.create ⟨r.traceId, r.sequence, atMs, call⟩).events.filter fun e => e.traceId = t) = _
    rw [hevents, List.filter_append, List.filter_singleton]
    simp [eventsOf]
  have hsettledOf : ∀ t, settledOf ((w.create ⟨r.traceId, r.sequence, atMs, call⟩).setProgress i
      (.recording (r.created call now))) t = settledOf w t := by
    intro t
    change ((w.create ⟨r.traceId, r.sequence, atMs, call⟩).settled.filter fun s => s.1 = t).map Prod.snd = _
    rw [hsettled, settledOf]
  apply h.setRecorder hi hholds
  · rw [World.setProgress, hclaims, World.setProgress]
  · exact hcaptured
  · intro t _ hnow row hrow
    apply hnow row
    change (w.create ⟨r.traceId, r.sequence, atMs, call⟩).sessions.get? t = some row
    rw [hsessions]
    exact hrow
  · intro t ht
    rw [created_traceId] at ht
    rw [heventsOf, if_neg (Ne.symm ht), List.append_nil]
  · exact fun t _ => hsettledOf t
  · rw [created_traceId, heventsOf, hsettledOf, if_pos rfl]
    exact hok.created hcreating now

theorem Inv.closed (h : Inv w) (hr : w.recorder i = some r) {status : Status} {summary : Value}
    {completedAt : ℤ} (hclosing : r.doing = .closing status summary completedAt) :
    Inv ((w.settle r.traceId status summary completedAt).setProgress i
      (.recording { r with doing := .idle })) := by
  obtain ⟨claim, hi, hprogress⟩ := recorder_eq_some hr
  have hok := h.recorded i r hr
  obtain ⟨-, -, front, e, -, he⟩ := hok.position.of_closing hclosing
  have hholds : holds claim.progress = some r.traceId := by
    rw [hprogress]
    rfl
  obtain ⟨row, hrow, -⟩ := h.row (h.held i claim r.traceId hi hholds)
  have hsettle : w.settle r.traceId status summary completedAt =
      { w with
        sessions := w.sessions.set r.traceId
          { row with status := status, completedAt := some completedAt, summary := some summary }
        settled := w.settled ++ [(r.traceId, status)] } := by
    rw [World.settle, hrow]
  have hsettledOf : ∀ t, settledOf ((w.settle r.traceId status summary completedAt).setProgress i
      (.recording { r with doing := .idle })) t =
        settledOf w t ++ if r.traceId = t then [status] else [] := by
    intro t
    rw [hsettle]
    change ((w.settled ++ [(r.traceId, status)]).filter fun s => s.1 = t).map Prod.snd = _
    rw [List.filter_append, List.map_append, List.filter_singleton]
    by_cases ht : r.traceId = t
    · simp [ht, settledOf]
    · simp [ht, settledOf]
  apply h.setRecorder (r := { r with doing := .idle }) hi hholds
  · rw [hsettle]
    rfl
  · rw [hsettle]
    rfl
  · intro t _ hnow other hother
    by_cases ht : t = r.traceId
    · have hstatus := hnow { row with
        status := status, completedAt := some completedAt, summary := some summary } (by
          rw [hsettle, ht]
          exact KeyedMap.get?_set_self _ _ _)
      exact absurd hstatus (closing_ne_armed he)
    · apply hnow other
      rw [hsettle]
      change (w.sessions.set r.traceId _).get? t = some other
      rw [KeyedMap.get?_set_of_ne ht]
      exact hother
  · intro t _
    rw [hsettle]
    rfl
  · intro t ht
    rw [hsettledOf, if_neg (Ne.symm ht), List.append_nil]
  · rw [hsettledOf, if_pos rfl, hsettle]
    exact hok.settle hclosing

/-! ## Every step -/

/-- Nothing but a claim takes a session that is armed, and nothing arms one again. -/
theorem Inv.setSessions (h : Inv w) {sessions : KeyedMap String Session}
    (hrows : ∀ t row, w.sessions.get? t = some row → row.status ≠ .ARMED →
      ∃ row', sessions.get? t = some row' ∧ row'.status ≠ .ARMED) : Inv { w with sessions := sessions } := by
  refine @Inv.other w { w with sessions := sessions } h rfl rfl rfl rfl ?_
  intro t ht hnow
  obtain ⟨entry, hentry, rfl⟩ := List.mem_map.mp ht
  obtain ⟨row, hrow, hstatus⟩ := h.row hentry
  obtain ⟨row', hrow', hstatus'⟩ := hrows entry.1 row hrow hstatus
  exact absurd (hnow row' hrow') hstatus'

theorem Inv.create (h : Inv w) (hnone : w.sessions.get? traceId = none) (row : Session) :
    Inv { w with sessions := w.sessions.set traceId row } := by
  apply h.setSessions
  intro t other hother hstatus
  have hne : t ≠ traceId := by
    intro heq
    rw [heq, hnone] at hother
    cases hother
  exact ⟨other, (KeyedMap.get?_set_of_ne hne).trans hother, hstatus⟩

theorem Inv.cancel (h : Inv w) (traceId : String) :
    Inv { w with sessions := w.sessions.update traceId fun row => { row with status := .CANCELLED } } := by
  apply h.setSessions
  intro t row hrow hstatus
  rw [KeyedMap.get?_update, hrow]
  split
  · exact ⟨_, rfl, by simp⟩
  · exact ⟨row, rfl, hstatus⟩

theorem Inv.expire (h : Inv w) (now : ℤ) : Inv { w with sessions := w.sessions.mapValues (expire now) } := by
  apply h.setSessions
  intro t row hrow hstatus
  rw [KeyedMap.get?_mapValues, hrow]
  refine ⟨CoreTrace.expire now row, rfl, ?_⟩
  rw [CoreTrace.expire, if_neg fun harmed => hstatus harmed.1]
  exact hstatus

theorem Inv.memory (h : Inv w) (armedByCustomer : KeyedMap String String) (hydrations : List Hydration) :
    Inv { w with armedByCustomer := armedByCustomer, hydrations := hydrations } :=
  h.other rfl rfl rfl rfl fun _ _ hnow => hnow

theorem events_create (w : World) (e : TraceEvent) : w.events <+: (w.create e).events := by
  unfold World.create
  split
  · exact List.prefix_rfl
  · exact List.prefix_append _ _

theorem events_update (w : World) (i : ℕ) (claim : Claim) (traceId : String) (now : ℤ) (outcome : Outcome) :
    (w.update i claim traceId now outcome).events = w.events := by
  unfold World.update
  split <;> rfl

theorem events_resume (w : World) (i : ℕ) (claim : Claim) (traceId : String) (count : ℕ) (now : ℤ) :
    (w.resume i claim traceId count now).events = w.events := by
  unfold World.resume
  dsimp only
  split <;> rfl

theorem events_settle (w : World) (traceId : String) (status : Status) (summary : Value) (completedAt : ℤ) :
    (w.settle traceId status summary completedAt).events = w.events := by
  unfold World.settle
  split <;> rfl

theorem step_keeps (h : Inv w) (e : Event) (hstep : step w e = some w') :
    Inv w' ∧ w.events <+: w'.events := by
  cases e with
  | create traceId customerId expiresAt createdAt =>
    rw [step] at hstep
    split at hstep
    · cases hstep
    · rename_i hnone
      obtain rfl := Option.some.inj hstep
      exact ⟨h.create (Option.not_isSome_iff_eq_none.mp hnone) _, List.prefix_rfl⟩
  | cancel traceId =>
    obtain rfl := Option.some.inj hstep
    exact ⟨h.cancel traceId, List.prefix_rfl⟩
  | arm customerId traceId =>
    obtain rfl := Option.some.inj hstep
    exact ⟨h.memory _ w.hydrations, List.prefix_rfl⟩
  | disarm customerId traceId =>
    obtain rfl := Option.some.inj hstep
    exact ⟨h.memory _ w.hydrations, List.prefix_rfl⟩
  | hydrate now =>
    obtain rfl := Option.some.inj hstep
    exact ⟨(h.expire now).memory w.armedByCustomer _, List.prefix_rfl⟩
  | find k =>
    obtain ⟨hydration, -, hstep⟩ := Option.bind_eq_some_iff.mp hstep
    split at hstep
    · obtain rfl := Option.some.inj hstep
      exact ⟨h.memory w.armedByCustomer _, List.prefix_rfl⟩
    · cases hstep
  | rebuild k =>
    obtain ⟨hydration, -, hstep⟩ := Option.bind_eq_some_iff.mp hstep
    split at hstep
    · obtain rfl := Option.some.inj hstep
      exact ⟨h.memory _ _, List.prefix_rfl⟩
    · cases hstep
  | claim customerId requestId startedAtMs explicitTraceId requestSnapshot now =>
    obtain rfl := Option.some.inj hstep
    refine ⟨h.appendClaim ?_ ?_, List.prefix_rfl⟩
    · dsimp only
      split <;> rfl
    · dsimp only
      split <;> rfl
  | update i outcome =>
    obtain ⟨claim, hclaim, hstep⟩ := Option.bind_eq_some_iff.mp hstep
    split at hstep
    · rename_i traceId now hprogress
      obtain rfl := Option.some.inj hstep
      rw [events_update]
      exact ⟨h.update hclaim hprogress outcome, List.prefix_rfl⟩
    · cases hstep
  | resume i now =>
    obtain ⟨claim, hclaim, hstep⟩ := Option.bind_eq_some_iff.mp hstep
    split at hstep
    · rename_i traceId count hprogress
      obtain rfl := Option.some.inj hstep
      rw [events_resume]
      exact ⟨h.resume hclaim hprogress now, List.prefix_rfl⟩
    · cases hstep
  | call i call now =>
    obtain ⟨r, hr, hstep⟩ := Option.bind_eq_some_iff.mp hstep
    split at hstep
    · rename_i hidle
      obtain rfl := Option.some.inj hstep
      exact ⟨h.call hr hidle call now, List.prefix_rfl⟩
    · cases hstep
  | created i now =>
    obtain ⟨r, hr, hstep⟩ := Option.bind_eq_some_iff.mp hstep
    split at hstep
    · rename_i call atMs hcreating
      obtain rfl := Option.some.inj hstep
      exact ⟨h.created hr hcreating now, events_create w _⟩
    · cases hstep
  | closed i =>
    obtain ⟨r, hr, hstep⟩ := Option.bind_eq_some_iff.mp hstep
    split at hstep
    · rename_i status summary completedAt hclosing
      obtain rfl := Option.some.inj hstep
      refine ⟨h.closed hr hclosing, ?_⟩
      change w.events <+: (w.settle r.traceId status summary completedAt).events
      rw [events_settle]
    · cases hstep

theorem run_keeps (h : Inv w) {events : List Event} (hrun : run step w events = some w') :
    Inv w' ∧ w.events <+: w'.events := by
  refine run_invariant (fun v => Inv v ∧ w.events <+: v.events) ?_ ⟨h, List.prefix_rfl⟩ hrun
  intro v e v' hv hstep
  obtain ⟨hinv, hevents⟩ := step_keeps hv.1 e hstep
  exact ⟨hinv, hv.2.trans hevents⟩

/-! ## One-shot and well-formed -/

theorem Inv.numbered (h : Inv w) (traceId : String) :
    Numbered TraceEvent.sequence TraceEvent.terminal (eventsOf w traceId) := by
  by_cases hwriter : ∃ i r, w.recorder i = some r ∧ r.traceId = traceId
  · obtain ⟨i, r, hr, rfl⟩ := hwriter
    exact (h.recorded i r hr).numbered
  · have hnobody : ∀ i r, w.recorder i = some r → r.traceId ≠ traceId :=
      fun i r hr heq => hwriter ⟨i, r, hr, heq⟩
    rw [(h.silent traceId hnobody).1]
    exact numbered_nil

/-- What was set on a session is one status, that of its last event. -/
theorem Inv.settledOf (h : Inv w) (traceId : String) :
    settledOf w traceId = [] ∨ ∃ status summary front e, settledOf w traceId = [status] ∧
      eventsOf w traceId = front ++ [e] ∧ e.call.closing = some (status, summary) := by
  by_cases hwriter : ∃ i r, w.recorder i = some r ∧ r.traceId = traceId
  · obtain ⟨i, r, hr, rfl⟩ := hwriter
    cases (h.recorded i r hr).position with
    | opened hclosed hdoing hsequence hopen hsettled => exact .inl hsettled
    | creating call atMs hclosed hdoing hsequence hopen hsettled => exact .inl hsettled
    | closing status summary completedAt hclosed hdoing hsettled hlast => exact .inl hsettled
    | closed status summary hclosed hdoing hsettled hlast =>
      obtain ⟨front, e, hlog, he⟩ := hlast
      exact .inr ⟨status, summary, front, e, hsettled, hlog, he⟩
  · have hnobody : ∀ i r, w.recorder i = some r → r.traceId ≠ traceId :=
      fun i r hr heq => hwriter ⟨i, r, hr, heq⟩
    exact .inl (h.silent traceId hnobody).2

/-- A session is taken by one request at most. Its events are numbered from one;
a terminal event is the last and nothing follows it, and a recorder sets at most
one status, which is that of the last event. -/
theorem sessions_one_shot (events : List Event) (w : World) (h : run step start events = some w) :
    (w.captured.map Prod.fst).Nodup ∧
    (∀ (i : ℕ) (claim : Claim) r, w.claims[i]? = some claim → claim.progress = .recording r →
      (r.traceId, claim.requestId) ∈ w.captured) ∧
    (∀ i j r r', w.recorder i = some r → w.recorder j = some r' → r.traceId = r'.traceId → i = j) ∧
    ∀ traceId,
      (eventsOf w traceId).map TraceEvent.sequence = List.range' 1 (eventsOf w traceId).length ∧
      (∀ front e back, eventsOf w traceId = front ++ e :: back → e.terminal = true → back = []) ∧
      (settledOf w traceId = [] ∨ ∃ status summary front e, settledOf w traceId = [status] ∧
        eventsOf w traceId = front ++ [e] ∧ e.call.closing = some (status, summary)) ∧
      ∀ more w', run step w more = some w' → (∃ e ∈ eventsOf w traceId, e.terminal = true) →
        eventsOf w' traceId = eventsOf w traceId := by
  have hinv := (run_keeps inv_start h).1
  refine ⟨hinv.once.nodup, ?_, ?_, ?_⟩
  · intro i claim r hi hprogress
    apply hinv.held i claim r.traceId hi
    rw [hprogress]
    rfl
  · intro i j r r' hr hr' heq
    exact hinv.alone i j r.traceId (holder_of_recorder hr) (heq ▸ holder_of_recorder hr')
  · intro traceId
    have hnumbered := hinv.numbered traceId
    refine ⟨hnumbered.numbers, fun front e back => hnumbered.last, hinv.settledOf traceId, ?_⟩
    rintro more w' hmore ⟨e, he, hterminal⟩
    obtain ⟨hlater, added, hadded⟩ := run_keeps hinv hmore
    obtain ⟨front, back, hsplit⟩ := List.append_of_mem he
    have hall : eventsOf w' traceId = eventsOf w traceId ++ added.filter fun e => e.traceId = traceId := by
      rw [eventsOf, ← hadded, List.filter_append, eventsOf]
    have hsplit' : eventsOf w' traceId =
        front ++ e :: (back ++ added.filter fun e => e.traceId = traceId) := by
      rw [hall, hsplit, List.append_assoc, List.cons_append]
    have hnil := (hlater.numbered traceId).last hsplit' hterminal
    rw [hall, (List.append_eq_nil_iff.mp hnil).2, List.append_nil]

/-- Two requests claim one session; the one that takes it reports its end twice. -/
def sampleEvents : List Event :=
  [.create "t" "c" 100 0, .arm "c" "t", .claim "c" "r1" 1 none .null 1, .claim "c" "r2" 2 (some "t") .null 2,
    .update 1 .answered, .update 0 .answered, .resume 0 3, .resume 1 3, .created 1 4,
    .call 1 (.complete .null) 5, .created 1 6, .closed 1, .call 1 (.fail []) 7]

theorem sessions_one_shot_sample : ∃ w, run step start sampleEvents = some w ∧
    w.captured = [("t", "r2")] ∧ (eventsOf w "t").map TraceEvent.sequence = [1, 2] := by
  have hrun : (run step start sampleEvents).map (fun w => (w.captured, (eventsOf w "t").length)) =
      some ([("t", "r2")], 2) := by decide
  obtain ⟨w, hw, hfacts⟩ := Option.map_eq_some_iff.mp hrun
  obtain ⟨hcaptured, hlength⟩ := Prod.mk.inj hfacts
  have hnumbers := ((sessions_one_shot sampleEvents w hw).2.2.2 "t").1
  rw [hlength] at hnumbers
  exact ⟨w, hw, hcaptured, hnumbers⟩

end ModelForge.CoreTraceSessions
