import ModelForge.SloWindows
import ModelForge.RunInvariant

set_option autoImplicit false

/-!
# Credits and breached windows

A customer has a credit for a window exactly if a rollup job found the customer's
requests breached at some time in the window. That is the window's final status
where the requests that come or finish later do not change it.
-/
namespace ModelForge.SloCredits

open RunInvariant SloWindows
open ChatHandler (InferenceStatus)

/-! ## The credits of a customer -/

def creditCount (db : SloDb) (customerId reason : String) : ℕ :=
  (db.credits.filter fun credit => credit.customerId = customerId ∧ credit.reason = reason).length

/-- Where `P` holds there is one credit at least after, else there are as many as before. -/
structure Counted (P : Prop) (before after : ℕ) : Prop where
  credited : P → after = max before 1
  kept : ¬ P → after = before

theorem Counted.refl (n : ℕ) : Counted False n n := ⟨False.elim, fun _ => rfl⟩

theorem Counted.trans {P Q : Prop} {n m k : ℕ} (h : Counted P n m) (h' : Counted Q m k) :
    Counted (P ∨ Q) n k := by
  constructor
  · intro hor
    by_cases hP : P
    · have hm := h.credited hP
      by_cases hQ : Q
      · rw [h'.credited hQ, hm, max_assoc, max_self]
      · rw [h'.kept hQ, hm]
    · rw [h'.credited (hor.resolve_left hP), h.kept hP]
  · intro hnot
    rw [h'.kept fun hQ => hnot (.inr hQ), h.kept fun hP => hnot (.inl hP)]

theorem Counted.congr {P Q : Prop} {n m : ℕ} (h : Counted P n m) (hPQ : P ↔ Q) : Counted Q n m :=
  propext hPQ ▸ h

section Bucket

variable {definition : SloDefinition} (windowStart : ℤ) (customerId reason : String)

theorem issueCredit_spec (hcredit : 0 < definition.creditMicros) (owner : String) (db : SloDb) :
    (issueCredit definition windowStart owner db).2 = none ∧
      Counted (customerId = owner ∧ reason = creditReason definition windowStart)
        (creditCount db customerId reason)
        (creditCount (issueCredit definition windowStart owner db).1 customerId reason) := by
  have hamount : computeCreditMicros ⟨true, definition.creditMicros, none⟩ =
      .ok definition.creditMicros := by
    simp [computeCreditMicros, not_lt.mpr hcredit.le]
  unfold issueCredit
  rw [hamount]
  dsimp only
  cases hfind : db.credits.find? fun credit =>
      credit.customerId = owner ∧ credit.reason = creditReason definition windowStart with
  | none =>
    rw [if_pos ⟨rfl, hcredit⟩]
    refine ⟨rfl, ?_, ?_⟩
    · rintro ⟨rfl, rfl⟩
      have hzero : creditCount db customerId (creditReason definition windowStart) = 0 :=
        List.length_eq_zero_iff.mpr (List.filter_eq_nil_iff.mpr (List.find?_eq_none.mp hfind))
      rw [hzero]
      simp only [creditCount, List.filter_append, List.length_append] at hzero ⊢
      rw [hzero]
      simp
    · intro hother
      have hnew : ¬ (owner = customerId ∧ creditReason definition windowStart = reason) :=
        fun h => hother ⟨h.1.symm, h.2.symm⟩
      simp [creditCount, List.filter_append, hnew]
  | some credit =>
    rw [if_neg (by simp)]
    refine ⟨rfl, ?_, fun _ => rfl⟩
    rintro ⟨rfl, rfl⟩
    have hsame := List.find?_some hfind
    have hone : 0 < creditCount db customerId (creditReason definition windowStart) :=
      List.length_pos_of_mem (List.mem_filter.mpr ⟨List.mem_of_find?_eq_some hfind, hsame⟩)
    exact (max_eq_left hone).symm

/-- The bucket has this customer's requests, and they are breached. -/
def BucketBreached (definition : SloDefinition) (customerId : String)
    (bucket : Option String × List Request) : Prop :=
  bucket.1 = some customerId ∧ customerId ≠ "" ∧ bucketStatus definition bucket.2 = .ok .breached

theorem rollupBucket_spec (hcredit : 0 < definition.creditMicros)
    (bucket : Option String × List Request) (db : SloDb) :
    ((rollupBucket definition windowStart bucket.1 bucket.2 db).2 = none ↔
        ∃ status, bucketStatus definition bucket.2 = .ok status) ∧
      Counted (BucketBreached definition customerId bucket ∧ reason = creditReason definition windowStart)
        (creditCount db customerId reason)
        (creditCount (rollupBucket definition windowStart bucket.1 bucket.2 db).1 customerId reason) := by
  obtain ⟨owner, rows⟩ := bucket
  unfold rollupBucket BucketBreached
  cases hstatus : bucketStatus definition rows with
  | error error =>
    refine ⟨by simp, ?_⟩
    exact (Counted.refl _).congr (by simp)
  | ok status =>
    dsimp only
    generalize db.windows.set _ _ = windows
    cases howner : owner.filter fun id => id ≠ "" with
    | none =>
      have hnone : ¬ (owner = some customerId ∧ customerId ≠ "") := by
        rintro ⟨rfl, hne⟩
        simp [Option.filter, hne] at howner
      refine ⟨by simp, (Counted.refl _).congr ?_⟩
      exact ⟨False.elim, fun h => hnone ⟨h.1.1, h.1.2.1⟩⟩
    | some id =>
      obtain ⟨rfl, hid⟩ := Option.filter_eq_some_iff.mp howner
      have hid : id ≠ "" := by simpa using hid
      dsimp only
      by_cases hbreached : status = .breached
      · subst hbreached
        rw [if_pos rfl]
        obtain ⟨hnone, hcounted⟩ := issueCredit_spec windowStart customerId reason
          hcredit id ⟨db.requests, windows, db.credits⟩
        refine ⟨⟨fun _ => ⟨_, rfl⟩, fun _ => hnone⟩, hcounted.congr ?_⟩
        constructor
        · rintro ⟨rfl, hreason⟩
          exact ⟨⟨rfl, hid, rfl⟩, hreason⟩
        · rintro ⟨⟨hsame, -, -⟩, hreason⟩
          exact ⟨(Option.some.inj hsame).symm, hreason⟩
      · rw [if_neg hbreached]
        refine ⟨by simp, (Counted.refl _).congr ?_⟩
        simp [hbreached]

/-- A bucket with this customer's requests breached, that no bucket which throws is before. -/
def BreachedIn (definition : SloDefinition) (customerId : String) :
    List (Option String × List Request) → Prop
  | [] => False
  | bucket :: rest =>
    (∃ status, bucketStatus definition bucket.2 = .ok status) ∧
      (BucketBreached definition customerId bucket ∨ BreachedIn definition customerId rest)

theorem creditCount_rollupBuckets (hcredit : 0 < definition.creditMicros)
    (buckets : List (Option String × List Request)) (db : SloDb) :
    Counted (BreachedIn definition customerId buckets ∧ reason = creditReason definition windowStart)
      (creditCount db customerId reason)
      (creditCount (rollupBuckets definition windowStart buckets db).1 customerId reason) := by
  induction buckets generalizing db with
  | nil => exact (Counted.refl _).congr (by simp [BreachedIn])
  | cons bucket rest ih =>
    obtain ⟨hnone, hcounted⟩ := rollupBucket_spec windowStart customerId reason hcredit bucket db
    rw [rollupBuckets]
    rcases hresult : rollupBucket definition windowStart bucket.1 bucket.2 db with ⟨db', _ | error⟩
    · rw [hresult] at hnone hcounted
      refine (hcounted.trans (ih db')).congr ?_
      have hstatus := hnone.mp rfl
      simp only [BreachedIn, hstatus, true_and, or_and_right]
    · rw [hresult] at hnone hcounted
      have hthrows : ¬ ∃ status, bucketStatus definition bucket.2 = .ok status := by
        simpa using hnone.not
      refine hcounted.congr ?_
      simp only [BreachedIn, hthrows, false_and, iff_false]
      rintro ⟨⟨-, -, hbreached⟩, -⟩
      exact hthrows ⟨_, hbreached⟩

end Bucket

/-! ## A customer's bucket -/

def ownRequests (customerId : String) (requests : List Request) : List Request :=
  requests.filter fun request => request.customerId = customerId

/-- The buckets from which `null` has all the requests. -/
theorem get?_byCustomer (requests : List Request) (customerId : String) :
    (byCustomer requests).get? (some customerId) =
      if ownRequests customerId requests = [] then none else some (ownRequests customerId requests) := by
  have hfold : ∀ (rest before : List Request) (buckets : KeyedMap (Option String) (List Request)),
      (∀ id, buckets.get? (some id) =
        if ownRequests id before = [] then none else some (ownRequests id before)) →
      ∀ id, ((rest.foldl (fun buckets request => buckets.set (some request.customerId)
          ((buckets.get? (some request.customerId)).getD [] ++ [request])) buckets).get? (some id)) =
        if ownRequests id (before ++ rest) = [] then none else some (ownRequests id (before ++ rest)) := by
    intro rest
    induction rest with
    | nil =>
      intro before buckets h id
      rw [List.append_nil]
      exact h id
    | cons request rest ih =>
      intro before buckets h id
      have hsplit : before ++ request :: rest = before ++ [request] ++ rest := by simp
      rw [List.foldl_cons, hsplit]
      refine ih (before ++ [request]) _ (fun id => ?_) id
      rw [KeyedMap.get?_set]
      by_cases hid : id = request.customerId
      · subst hid
        have hbucket : (buckets.get? (some request.customerId)).getD [] =
            ownRequests request.customerId before := by
          rw [h]
          split
          · rename_i hnil
            exact hnil.symm
          · rfl
        rw [if_pos rfl, hbucket]
        simp [ownRequests]
      · rw [if_neg (by simpa using hid), h]
        simp [ownRequests, Ne.symm hid]
  refine hfold requests [] _ (fun id => ?_) customerId
  rw [KeyedMap.get?_set_of_ne (by simp)]
  rfl

/-- Every bucket that the loop takes before the customer's has a status. -/
def Reaches (definition : SloDefinition) (customerId : String) (requests : List Request) : Prop :=
  ∀ bucket ∈ (byCustomer requests).entries.takeWhile fun bucket => bucket.1 ≠ some customerId,
    ∃ status, bucketStatus definition bucket.2 = .ok status

theorem breachedIn_iff {definition : SloDefinition} {customerId : String}
    {buckets : List (Option String × List Request)} (hnodup : (buckets.map Prod.fst).Nodup) :
    BreachedIn definition customerId buckets ↔
      customerId ≠ "" ∧
      (∃ rows, (some customerId, rows) ∈ buckets ∧ bucketStatus definition rows = .ok .breached) ∧
      ∀ bucket ∈ buckets.takeWhile fun bucket => bucket.1 ≠ some customerId,
        ∃ status, bucketStatus definition bucket.2 = .ok status := by
  induction buckets with
  | nil => simp [BreachedIn]
  | cons bucket rest ih =>
    obtain ⟨owner, rows⟩ := bucket
    obtain ⟨hnew, hrest⟩ := List.nodup_cons.mp hnodup
    rw [BreachedIn, ih hrest]
    by_cases howner : owner = some customerId
    · subst howner
      have hnotRest : ∀ rows', (some customerId, rows') ∉ rest := fun rows' hmem =>
        hnew (List.mem_map.mpr ⟨_, hmem, rfl⟩)
      rw [List.takeWhile_cons_of_neg (by simp)]
      simp only [BucketBreached, hnotRest, List.mem_cons, Prod.mk.injEq, true_and, or_false, false_and,
        exists_false, and_false, List.not_mem_nil, false_implies, implies_true, and_true, exists_eq_left]
      exact ⟨fun h => h.2, fun h => ⟨⟨_, h.2⟩, h⟩⟩
    · have hfirst : ¬ BucketBreached definition customerId (owner, rows) := fun h => howner h.1
      have hmem : ∀ rows', (some customerId, rows') ∈ (owner, rows) :: rest ↔
          (some customerId, rows') ∈ rest := fun rows' => by
        rw [List.mem_cons, or_iff_right]
        exact fun h => howner (Prod.mk.inj h).1.symm
      rw [List.takeWhile_cons_of_pos (by simpa using howner), or_iff_right hfirst,
        List.forall_mem_cons]
      simp only [hmem]
      exact ⟨fun ⟨hs, ha, hb, hc⟩ => ⟨ha, hb, hs, hc⟩, fun ⟨ha, hb, hs, hc⟩ => ⟨hs, ha, hb, hc⟩⟩

theorem breachedIn_byCustomer {definition : SloDefinition} {customerId : String}
    {requests : List Request} :
    BreachedIn definition customerId (byCustomer requests).entries ↔
      customerId ≠ "" ∧ ownRequests customerId requests ≠ [] ∧
      bucketStatus definition (ownRequests customerId requests) = .ok .breached ∧
      Reaches definition customerId requests := by
  rw [breachedIn_iff (byCustomer requests).nodup]
  simp only [KeyedMap.mem_entries, get?_byCustomer]
  refine and_congr_right fun _ => ?_
  rw [← and_assoc]
  refine and_congr_left fun _ => ?_
  by_cases hnil : ownRequests customerId requests = []
  · simp [hnil]
  · simp [hnil]

/-! ## The runs -/

/-- A job at its definition finds a customer's requests of a window breached. -/
def Finds (s : System) (e : Event) (definition : SloDefinition) (customerId : String)
    (windowStart : ℤ) : Prop :=
  ∃ listed now pending, e = .rollup listed ∧ s.job = some ⟨now, definition :: pending⟩ ∧
    windowStartAt definition now = windowStart ∧ customerId ≠ "" ∧
    ownRequests customerId listed ≠ [] ∧
    bucketStatus definition (ownRequests customerId listed) = .ok .breached ∧
    Reaches definition customerId listed

/-- Some step of a history from `s` on finds it. -/
def FoundFrom (definitions : List SloDefinition) (s : System) (events : List Event)
    (definition : SloDefinition) (customerId : String) (windowStart : ℤ) : Prop :=
  ∃ before e after mid, events = before ++ e :: after ∧ run (step definitions) s before = some mid ∧
    Finds mid e definition customerId windowStart

theorem foundFrom_cons {definitions : List SloDefinition} {s : System} {e : Event}
    {events : List Event} {definition : SloDefinition} {customerId : String} {windowStart : ℤ} :
    FoundFrom definitions s (e :: events) definition customerId windowStart ↔
      Finds s e definition customerId windowStart ∨
        ∃ t, step definitions s e = some t ∧
          FoundFrom definitions t events definition customerId windowStart := by
  constructor
  · rintro ⟨before, e', after, mid, hsplit, hrun, hfinds⟩
    cases before with
    | nil =>
      obtain ⟨rfl, rfl⟩ := List.cons.inj hsplit
      obtain rfl := Option.some.inj hrun
      exact .inl hfinds
    | cons first before =>
      obtain ⟨rfl, rfl⟩ := List.cons.inj hsplit
      obtain ⟨t, ht, hmid⟩ := run_cons_some hrun
      exact .inr ⟨t, ht, before, e', after, mid, rfl, hmid, hfinds⟩
  · rintro (hfinds | ⟨t, ht, before, e', after, mid, rfl, hmid, hfinds⟩)
    · exact ⟨[], e, events, s, rfl, rfl, hfinds⟩
    · refine ⟨e :: before, e', after, mid, rfl, ?_, hfinds⟩
      rw [run_cons, ht]
      exact hmid

/-- The definitions that a job has still to do are enabled ones of the table. -/
def Listed (definitions : List SloDefinition) (s : System) : Prop :=
  ∀ job ∈ s.job, ∀ d ∈ job.pending, d ∈ definitions ∧ d.enabled = true

theorem nextJob_pending {now : ℤ} {pending : List SloDefinition} {error : Option String} {job : Job}
    (h : nextJob now pending error = some job) : job.pending = pending := by
  unfold nextJob at h
  split at h
  · cases h
  · exact (Option.some.inj h) ▸ rfl

variable {definitions : List SloDefinition}

/-- What an event can do: change the requests, start a job, or do one of its definitions. -/
theorem step_cases {s s' : System} {e : Event} (hstep : step definitions s e = some s') :
    (∃ requests, (∀ listed, e ≠ .rollup listed) ∧ s' = setRequests s requests) ∨
    (∃ now listed, e = .start now listed ∧ listed.Perm (definitions.filter SloDefinition.enabled) ∧
      s' = { s with job := nextJob now listed none }) ∨
    ∃ listed now definition pending, e = .rollup listed ∧ s.job = some ⟨now, definition :: pending⟩ ∧
      s' = ⟨(rollupBuckets definition (windowStartAt definition now) (byCustomer listed).entries s.db).1,
        nextJob now pending
          (rollupBuckets definition (windowStartAt definition now) (byCustomer listed).entries s.db).2⟩ := by
  cases e with
  | create id customerId createdAt =>
    obtain ⟨-, hs⟩ := Option.ite_none_right_eq_some.mp hstep
    exact .inl ⟨_, nofun, (Option.some.inj hs).symm⟩
  | update id status latencyMs => exact .inl ⟨_, nofun, (Option.some.inj hstep).symm⟩
  | start now listed =>
    obtain ⟨⟨-, hperm⟩, hs⟩ := Option.ite_none_right_eq_some.mp hstep
    exact .inr (.inl ⟨now, listed, rfl, hperm, (Option.some.inj hs).symm⟩)
  | rollup listed =>
    rw [step] at hstep
    rcases hjob : s.job with _ | ⟨now, _ | ⟨definition, pending⟩⟩
    · rw [hjob] at hstep
      cases hstep
    · rw [hjob] at hstep
      cases hstep
    · rw [hjob] at hstep
      obtain ⟨-, hs⟩ := Option.ite_none_right_eq_some.mp hstep
      exact .inr (.inr ⟨listed, now, definition, pending, rfl, rfl, (Option.some.inj hs).symm⟩)

theorem listed_step {s s' : System} {e : Event} (h : Listed definitions s)
    (hstep : step definitions s e = some s') : Listed definitions s' := by
  obtain ⟨requests, -, rfl⟩ | ⟨now, listed, -, hperm, rfl⟩ | ⟨listed, now, definition, pending, -, hjob, rfl⟩ :=
    step_cases hstep
  · exact h
  · intro job hjob d hd
    rw [nextJob_pending hjob] at hd
    have hmem := List.mem_filter.mp (hperm.mem_iff.mp hd)
    exact hmem
  · intro job' hjob' d hd
    rw [nextJob_pending hjob'] at hd
    exact h _ hjob d (List.mem_cons_of_mem _ hd)

/-- What a step does to the credits of a customer for a reason. -/
theorem creditCount_step (hcredit : ∀ d ∈ definitions, d.enabled = true → 0 < d.creditMicros)
    {s s' : System} {e : Event} (h : Listed definitions s) (hstep : step definitions s e = some s')
    (customerId reason : String) :
    Counted (∃ d w, Finds s e d customerId w ∧ reason = creditReason d w)
      (creditCount s.db customerId reason) (creditCount s'.db customerId reason) := by
  obtain ⟨requests, hother, rfl⟩ | ⟨now, listed, rfl, -, rfl⟩ |
    ⟨listed, now, definition, pending, rfl, hjob, rfl⟩ := step_cases hstep
  · refine (Counted.refl _).congr ⟨False.elim, ?_⟩
    rintro ⟨d, w, ⟨listed, _, _, he, _⟩, -⟩
    exact hother listed he
  · refine (Counted.refl _).congr ⟨False.elim, ?_⟩
    rintro ⟨d, w, ⟨listed, _, _, he, _⟩, -⟩
    cases he
  · obtain ⟨hmem, henabled⟩ := h _ hjob definition List.mem_cons_self
    have hcounted := creditCount_rollupBuckets (windowStartAt definition now) customerId reason
      (hcredit definition hmem henabled) (byCustomer listed).entries s.db
    refine hcounted.congr ?_
    rw [breachedIn_byCustomer]
    constructor
    · rintro ⟨hbreached, hreason⟩
      exact ⟨definition, _, ⟨listed, now, pending, rfl, hjob, rfl, hbreached⟩, hreason⟩
    · rintro ⟨d, w, ⟨listed', now', pending', he, hjob', rfl, hbreached⟩, hreason⟩
      obtain rfl := Event.rollup.inj he
      rw [hjob, Option.some.injEq, Job.mk.injEq, List.cons.injEq] at hjob'
      obtain ⟨rfl, rfl, -⟩ := hjob'
      exact ⟨hbreached, hreason⟩

/-- What a history does to them. -/
theorem creditCount_run (hcredit : ∀ d ∈ definitions, d.enabled = true → 0 < d.creditMicros)
    {s s' : System} {events : List Event} (h : Listed definitions s)
    (hrun : run (step definitions) s events = some s') (customerId reason : String) :
    Counted (∃ d w, FoundFrom definitions s events d customerId w ∧ reason = creditReason d w)
      (creditCount s.db customerId reason) (creditCount s'.db customerId reason) := by
  induction events generalizing s with
  | nil =>
    obtain rfl := Option.some.inj hrun
    refine (Counted.refl _).congr ⟨False.elim, ?_⟩
    rintro ⟨d, w, ⟨before, e, after, _, hsplit, _⟩, -⟩
    cases before <;> cases hsplit
  | cons e events ih =>
    obtain ⟨t, ht, hrest⟩ := run_cons_some hrun
    refine ((creditCount_step hcredit h ht customerId reason).trans
      (ih (listed_step h ht) hrest)).congr ?_
    simp only [foundFrom_cons, ht, Option.some.injEq, exists_eq_left', or_and_right, exists_or]

theorem mem_of_foundFrom {s : System} {events : List Event} {definition : SloDefinition}
    {customerId : String} {windowStart : ℤ} (h : Listed definitions s)
    (hfound : FoundFrom definitions s events definition customerId windowStart) :
    definition ∈ definitions := by
  obtain ⟨before, e, after, mid, -, hrun, listed, now, pending, -, hjob, -⟩ := hfound
  have hmid := run_invariant (Listed definitions) (fun _ _ _ => listed_step) h hrun
  exact (hmid _ hjob definition List.mem_cons_self).1

/-! ## The windows in the end -/

def Finished (status : InferenceStatus) : Prop := status ≠ .queued ∧ status ≠ .running

instance (status : InferenceStatus) : Decidable (Finished status) :=
  inferInstanceAs (Decidable (_ ∧ _))

/-- The finished requests of a customer in a window. -/
def finishedRequests (db : SloDb) (definition : SloDefinition) (customerId : String)
    (windowStart : ℤ) : List Request :=
  ownRequests customerId
    (db.requests.values.filter fun r => InWindow definition windowStart r ∧ Finished r.status)

/-- The window is breached by all its finished requests of the customer. -/
def FinallyBreached (db : SloDb) (definition : SloDefinition) (customerId : String)
    (windowStart : ℤ) : Prop :=
  bucketStatus definition (finishedRequests db definition customerId windowStart) = .ok .breached

instance (db : SloDb) (definition : SloDefinition) (customerId : String) (windowStart : ℤ) :
    Decidable (FinallyBreached db definition customerId windowStart) :=
  inferInstanceAs (Decidable (_ = _))

/-- One credit for a breached window, none for another. -/
def CreditsMatch (db : SloDb) (definition : SloDefinition) (customerId : String) (windowStart : ℤ) :
    Prop :=
  creditCount db customerId (creditReason definition windowStart) =
    if FinallyBreached db definition customerId windowStart then 1 else 0

instance (db : SloDb) (definition : SloDefinition) (customerId : String) (windowStart : ℤ) :
    Decidable (CreditsMatch db definition customerId windowStart) :=
  inferInstanceAs (Decidable (_ = _))

theorem creditReason_cancel {d d' : SloDefinition} {w w' : ℤ}
    (h : creditReason d w = creditReason d' w') : d.name = d'.name ∧ w = w' := by
  have htext := congrArg String.toList h
  have hblank : " breached for window ".toList = " breached for window".toList ++ [' '] := by decide
  simp only [creditReason, String.toList_append, hblank, List.append_assoc, List.singleton_append] at htext
  rw [← List.append_assoc, ← List.append_assoc, ← List.append_assoc, ← List.append_assoc] at htext
  obtain ⟨hname, hwindow⟩ := JsDate.append_toISOString_cancel htext
  rw [List.append_left_inj, List.append_right_inj] at hname
  exact ⟨String.toList_injective hname, hwindow⟩

/-- For every history of requests and jobs: a customer's credits for a window match
its final status if and only if a job that ran in the window found the customer's
requests breached exactly where they are so in the end. -/
theorem credits_match_iff (definitions : List SloDefinition)
    (hnames : (definitions.map SloDefinition.name).Nodup)
    (hcredit : ∀ d ∈ definitions, d.enabled = true → 0 < d.creditMicros) (events : List Event)
    (s : System) (hrun : run (step definitions) .initial events = some s)
    (definition : SloDefinition) (hdefinition : definition ∈ definitions) (customerId : String)
    (windowStart : ℤ) :
    CreditsMatch s.db definition customerId windowStart ↔
      (FoundFrom definitions .initial events definition customerId windowStart ↔
        FinallyBreached s.db definition customerId windowStart) := by
  have hlisted : Listed definitions .initial := nofun
  have hcount := creditCount_run hcredit hlisted hrun customerId (creditReason definition windowStart)
  have hone : (∃ d w, FoundFrom definitions .initial events d customerId w ∧
      creditReason definition windowStart = creditReason d w) ↔
        FoundFrom definitions .initial events definition customerId windowStart := by
    constructor
    · rintro ⟨d, w, hfound, hreason⟩
      obtain ⟨hname, rfl⟩ := creditReason_cancel hreason
      have hmem := mem_of_foundFrom hlisted hfound
      obtain rfl := List.inj_on_of_nodup_map hnames hdefinition hmem hname
      exact hfound
    · exact fun hfound => ⟨definition, windowStart, hfound, rfl⟩
  have hcounted := hcount.congr hone
  have hzero : creditCount System.initial.db customerId (creditReason definition windowStart) = 0 := rfl
  rw [hzero] at hcounted
  unfold CreditsMatch
  by_cases hfound : FoundFrom definitions .initial events definition customerId windowStart
  · rw [hcounted.credited hfound]
    simp [hfound]
  · rw [hcounted.kept hfound]
    simp [hfound]

def sampleDefinition : SloDefinition where
  id := "d"
  name := "default-chat"
  latencyP95Ms := 120000
  availabilityPct := 99
  windowMinutes := 60
  creditMicros := 100000
  enabled := true
  pos := hour_pos

/-- The start of an hour, 2025-10-09T08:00:00.000Z. -/
def sampleStart : ℤ := 1759996800000

/-- A request of the hour, seen by a job in it with this status, that ends with that
one; the job runs again when the hour is over. -/
def oneRequest (seen final : InferenceStatus) : List Event :=
  [.create "r" "a" sampleStart, .update "r" seen none, .start (sampleStart + 60000) [sampleDefinition],
    .rollup [⟨"a", seen, 0, sampleStart⟩], .update "r" final (some 40),
    .start (sampleStart + 3600000) [sampleDefinition], .rollup []]

theorem failed_request_credited :
    ∃ s, run (step [sampleDefinition]) .initial (oneRequest .failed .failed) = some s ∧
      CreditsMatch s.db sampleDefinition "a" sampleStart := by
  have hruns : ((run (step [sampleDefinition]) .initial (oneRequest .failed .failed)).map fun s =>
      decide (FinallyBreached s.db sampleDefinition "a" sampleStart)) = some true := by decide +kernel
  have hmid : ((run (step [sampleDefinition]) .initial ((oneRequest .failed .failed).take 3)).map
      System.job) = some (some ⟨sampleStart + 60000, [sampleDefinition]⟩) := by decide +kernel
  obtain ⟨s, hs, hfinal⟩ := Option.map_eq_some_iff.mp hruns
  obtain ⟨mid, hmid, hjob⟩ := Option.map_eq_some_iff.mp hmid
  refine ⟨s, hs, (credits_match_iff [sampleDefinition] (by decide) (by decide) _ s hs sampleDefinition
    List.mem_cons_self "a" sampleStart).mpr ⟨fun _ => of_decide_eq_true hfinal, fun _ => ?_⟩⟩
  refine ⟨(oneRequest .failed .failed).take 3, .rollup [⟨"a", .failed, 0, sampleStart⟩],
    (oneRequest .failed .failed).drop 4, mid, rfl, hmid, _, _, _, rfl, hjob, by decide +kernel,
    by decide, by decide +kernel, by decide +kernel, ?_⟩
  have hbefore : ((byCustomer [⟨"a", .failed, 0, sampleStart⟩]).entries.takeWhile fun bucket =>
      bucket.1 ≠ some "a") = [(none, [⟨"a", .failed, 0, sampleStart⟩])] := by decide +kernel
  unfold Reaches
  rw [hbefore]
  intro bucket hbucket
  rw [List.mem_singleton.mp hbucket]
  exact ⟨.breached, by decide +kernel⟩

/-- A request that still runs when the job sees it, and then succeeds. -/
theorem running_request_credited :
    ∃ s, run (step [sampleDefinition]) .initial (oneRequest .running .succeeded) = some s ∧
      ¬ CreditsMatch s.db sampleDefinition "a" sampleStart := by
  have hruns : ((run (step [sampleDefinition]) .initial (oneRequest .running .succeeded)).map fun s =>
      decide (CreditsMatch s.db sampleDefinition "a" sampleStart)) = some false := by decide +kernel
  obtain ⟨s, hs, hmatch⟩ := Option.map_eq_some_iff.mp hruns
  exact ⟨s, hs, of_decide_eq_false hmatch⟩

end ModelForge.SloCredits
