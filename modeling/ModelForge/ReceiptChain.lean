import ModelForge.ReceiptVerification
import ModelForge.Participants

set_option autoImplicit false

/-!
# The chain of usage receipts

`issueUsageReceipt` between its awaits, for calls that the usage worker runs
side by side: each reads the latest receipt, signs, and inserts its own.
-/
namespace ModelForge.ReceiptChain
open RunInvariant ChatHandler ReceiptVerification CanonicalJson JsonMembers JsonText Participants

/-- A row of the table; a request has at most one. -/
structure ReceiptRow where
  requestId : String
  usageEventId : Option String
  payloadCanonical : String
  payloadHash : String
  signature : String
  algorithm : String
  signingKeyId : String
  previousHash : Option String
  issuedAt : ℤ
  deriving DecidableEq

/-- What a call awaits. At `stamp` the latest receipt has come and `new Date()`
is next; a `create` carries the row it inserts. -/
inductive IssuePc where
  | findExisting
  | findPrevious
  | stamp (previous : Option ReceiptRow)
  | signingKey (previous : Option ReceiptRow) (issuedAt : ℤ)
  | create (previous : Option ReceiptRow) (receipt : ReceiptRow)
  | linkRequest
  | returned
  | failed
  deriving DecidableEq

structure Call where
  requestId : String
  request : InferenceRequest
  usageEventId : Option String
  pc : IssuePc

structure World where
  receipts : List ReceiptRow
  calls : List Call
  clock : ℤ

def IssuedNoEarlier (a b : ReceiptRow) : Prop := b.issuedAt ≤ a.issuedAt

instance : DecidableRel IssuedNoEarlier := fun a b => inferInstanceAs (Decidable (b.issuedAt ≤ a.issuedAt))

instance : Std.Total IssuedNoEarlier := ⟨fun a b => le_total b.issuedAt a.issuedAt⟩

instance : IsTrans ReceiptRow IssuedNoEarlier := ⟨fun _ _ _ hab hbc => le_trans hbc hab⟩

/-- `findFirst({ orderBy: { issuedAt: "desc" } })` -/
def latest (receipts : List ReceiptRow) : Option ReceiptRow :=
  (receipts.insertionSort IssuedNoEarlier).head?

variable (d : Deployment) (toISOString : ℤ → String)

def Call.payload (call : Call) (issuedAt : ℤ) : Payload :=
  receiptJson toISOString (receiptPayload call.requestId call.request call.usageEventId issuedAt)

/-- The row of a call: the payload is signed and written in its canonical form. -/
def usageReceipt (call : Call) (previous : Option ReceiptRow) (issuedAt : ℤ) :
    Except CanonicalError ReceiptRow := do
  let payload := toJs (call.payload toISOString issuedAt).json
  let signed ← d.sign payload
  return {
    requestId := call.requestId
    usageEventId := call.usageEventId
    payloadCanonical := ← canonicalStringify payload
    payloadHash := signed.payloadHash
    signature := signed.signature
    algorithm := signed.algorithm
    signingKeyId := signed.keyId
    previousHash := previous.map ReceiptRow.payloadHash
    issuedAt := issuedAt }

/-- The unique keys of the table let the row in. -/
def insertable (receipts : List ReceiptRow) (receipt : ReceiptRow) : Bool :=
  receipts.all fun r => r.requestId ≠ receipt.requestId ∧
    (receipt.usageEventId ≠ none → r.usageEventId ≠ receipt.usageEventId)

def World.at (w : World) (k : ℕ) (pc : IssuePc) : World :=
  { w with calls := w.calls.modify k fun call => { call with pc := pc } }

/-- What a call does once its promise is fulfilled. -/
def resume (w : World) (k : ℕ) (call : Call) (now : ℤ) : Option World :=
  match call.pc with
  | .findExisting =>
    some (w.at k (if w.receipts.any fun r => r.requestId = call.requestId then .returned
      else .findPrevious))
  | .findPrevious => some (w.at k (.stamp (latest w.receipts)))
  | .stamp previous =>
    -- issue times increase strictly
    if w.clock < now then some { w.at k (.signingKey previous now) with clock := now } else none
  | .signingKey previous issuedAt =>
    match usageReceipt d toISOString call previous issuedAt with
    | .ok receipt => some (w.at k (.create previous receipt))
    | .error _ => some (w.at k .failed)
  | .create _ receipt =>
    if insertable w.receipts receipt then
      some { w.at k .linkRequest with receipts := w.receipts ++ [receipt] }
    else some (w.at k .failed)
  | .linkRequest => some (w.at k .returned)
  | .returned | .failed => none

inductive Event where
  | call (requestId : String) (request : InferenceRequest) (usageEventId : Option String)
  | fulfil (k : ℕ) (now : ℤ)
  | reject (k : ℕ)

/-- The calls are for distinct requests. Any awaited query may fail. -/
def step (w : World) : Event → Option World
  | .call requestId request usageEventId =>
    if w.calls.all fun call => call.requestId ≠ requestId then
      some { w with calls := w.calls ++ [⟨requestId, request, usageEventId, .findExisting⟩] }
    else none
  | .fulfil k now => w.calls[k]?.bind fun call => resume d toISOString w k call now
  | .reject k =>
    w.calls[k]?.bind fun call =>
      match call.pc with
      | .findExisting | .findPrevious | .signingKey _ _ | .create _ _ | .linkRequest =>
        some (w.at k .failed)
      | .stamp _ | .returned | .failed => none

def initial (clock : ℤ) : World := ⟨[], [], clock⟩

/-! ## The law -/

def IssuedJustBefore (receipts : List ReceiptRow) (p r : ReceiptRow) : Prop :=
  p ∈ receipts ∧ p.issuedAt < r.issuedAt ∧
    ∀ q ∈ receipts, q.issuedAt < r.issuedAt → q.issuedAt ≤ p.issuedAt

/-- The hash sends two different stored payloads to one value. -/
def Collision (receipts : List ReceiptRow) : Prop :=
  ∃ p ∈ receipts, ∃ p' ∈ receipts, p.payloadCanonical ≠ p'.payloadCanonical ∧
    p.payloadHash = p'.payloadHash

structure SingleChain (receipts : List ReceiptRow) : Prop where
  root : receipts ≠ [] → ∃! r, r ∈ receipts ∧ r.previousHash = none
  linked : ∀ r ∈ receipts, r.previousHash ≠ none →
    ∃ p, IssuedJustBefore receipts p r ∧ r.previousHash = some p.payloadHash
  noFork : ∀ r ∈ receipts, ∀ r' ∈ receipts, r.previousHash = r'.previousHash →
    r = r' ∨ Collision receipts

/-- The same row, by its request. -/
def SameReceipt (a b : Option ReceiptRow) : Prop :=
  a.map ReceiptRow.requestId = b.map ReceiptRow.requestId

instance (a b : Option ReceiptRow) : Decidable (SameReceipt a b) :=
  inferInstanceAs (Decidable (a.map ReceiptRow.requestId = b.map ReceiptRow.requestId))

/-- Where the step inserts a receipt, what it read as the latest still is. -/
def PreviousIsLatest (w : World) : Event → Prop
  | .fulfil k _ =>
    match w.calls[k]?.map Call.pc with
    | some (.create previous receipt) =>
      insertable w.receipts receipt = true → SameReceipt previous (latest w.receipts)
    | _ => True
  | _ => True

instance (w : World) (e : Event) : Decidable (PreviousIsLatest w e) := by
  unfold PreviousIsLatest
  split
  · split <;> infer_instance
  · infer_instance

theorem previousIsLatest_iff {w : World} {k : ℕ} {now : ℤ} :
    PreviousIsLatest w (.fulfil k now) ↔ ∀ call previous receipt, w.calls[k]? = some call →
      call.pc = .create previous receipt → insertable w.receipts receipt = true →
        SameReceipt previous (latest w.receipts) := by
  cases hcall : w.calls[k]? with
  | none => simp [PreviousIsLatest, hcall]
  | some call =>
    cases hpc : call.pc with
    | create previous receipt =>
      simp only [PreviousIsLatest, hcall, Option.map_some, hpc]
      constructor
      · rintro h call' previous' receipt' ⟨rfl⟩ hpc'
        obtain ⟨rfl, rfl⟩ := IssuePc.create.inj (hpc.symm.trans hpc')
        exact h
      · exact fun h => h call previous receipt rfl hpc
    | _ =>
      simp only [PreviousIsLatest, hcall, Option.map_some, hpc, true_iff]
      rintro call' previous' receipt' ⟨rfl⟩ hpc'
      cases hpc.symm.trans hpc'

/-! ## The rows -/

/-- A row that is signed for its own request. -/
structure Genuine (r : ReceiptRow) : Prop where
  canonical : ∃ payload : ReceiptPayload, payload.requestId = r.requestId ∧
    r.payloadCanonical = (receiptJson toISOString payload).canonical
  hash : r.payloadHash = d.sha256Hex r.payloadCanonical

variable {d : Deployment} {toISOString : ℤ → String}

theorem usageReceipt_ok (d : Deployment) (toISOString : ℤ → String) (call : Call) (previous : Option ReceiptRow) (issuedAt : ℤ) :
    ∃ r, usageReceipt d toISOString call previous issuedAt = .ok r ∧ Genuine d toISOString r ∧
      r.previousHash = previous.map ReceiptRow.payloadHash ∧ r.issuedAt = issuedAt := by
  unfold usageReceipt Deployment.sign signPayload
  dsimp only
  rw [canonicalStringify_payload]
  exact ⟨_, rfl, ⟨⟨_, rfl, rfl⟩, rfl⟩, rfl, rfl⟩

theorem requestId_mem (toISOString : ℤ → String) (p : ReceiptPayload) :
    ("requestId", Json.string p.requestId) ∈ reorderMembers (Arrangement.byKey codeUnitLe)
      (receiptJson toISOString p).members := by
  refine List.mem_of_getElem? (i := 1) ?_
  rfl

/-- The canonical text of a payload names its request. -/
theorem canonical_requestId {p p' : ReceiptPayload}
    (h : (receiptJson toISOString p).canonical = (receiptJson toISOString p').canonical) :
    p.requestId = p'.requestId := by
  have hjson := text_injective h
  simp only [Payload.json, reorder, Json.object.injEq] at hjson
  have hmem := ((Arrangement.byKey codeUnitLe).perm _).mem_iff.mpr (requestId_mem toISOString p)
  rw [hjson] at hmem
  have hmem' := ((Arrangement.byKey codeUnitLe).perm _).mem_iff.mp hmem
  have hkeys : ((reorderMembers (Arrangement.byKey codeUnitLe)
      (receiptJson toISOString p').members).map Prod.fst).Nodup := by
    rw [reorderMembers_keys]
    exact (receiptJson toISOString p').distinct.1
  have hsame := List.inj_on_of_nodup_map hkeys hmem' (requestId_mem toISOString p') rfl
  exact Json.string.inj (Prod.mk.inj hsame).2

/-! ## The chain in the order of insertion -/

def Chained : Option String → List ReceiptRow → Prop
  | _, [] => True
  | previous, r :: rest => r.previousHash = previous ∧ Chained (some r.payloadHash) rest

theorem chained_append {previous : Option String} {rs : List ReceiptRow} {r : ReceiptRow} :
    Chained previous (rs ++ [r]) ↔ Chained previous rs ∧
      r.previousHash = (rs.getLast?.map ReceiptRow.payloadHash).or previous := by
  induction rs generalizing previous with
  | nil => simp [Chained]
  | cons x rest ih =>
    rw [List.cons_append, Chained, Chained, ih, and_assoc]
    cases rest with
    | nil => simp
    | cons y rest =>
      obtain ⟨z, hz⟩ := List.getLast?_isSome.mpr (List.cons_ne_nil y rest) |> Option.isSome_iff_exists.mp
      rw [List.getLast?_cons_cons, hz]
      rfl

/-- A row after the first points at the row before it. -/
theorem chained_split {previous : Option String} {xs ys : List ReceiptRow} {r : ReceiptRow}
    (h : Chained previous (xs ++ r :: ys)) :
    r.previousHash = (xs.getLast?.map ReceiptRow.payloadHash).or previous := by
  have hsplit : xs ++ r :: ys = xs ++ [r] ++ ys := by simp
  rw [hsplit] at h
  have htake : ∀ {previous : Option String} (zs ws : List ReceiptRow),
      Chained previous (zs ++ ws) → Chained previous zs := by
    intro previous zs
    induction zs generalizing previous with
    | nil => exact fun _ _ => trivial
    | cons z zs ih => exact fun ws hz => ⟨hz.1, ih ws hz.2⟩
  exact (chained_append.mp (htake _ _ h)).2

section
variable {rs : List ReceiptRow}

theorem latest_eq_getLast? (h : rs.Pairwise fun a b => a.issuedAt < b.issuedAt) :
    latest rs = rs.getLast? := by
  cases hlatest : latest rs with
  | none =>
    cases rs with
    | nil => rfl
    | cons r rest =>
      obtain ⟨a, ha⟩ := insertionSort_head_isSome (r := IssuedNoEarlier) (List.cons_ne_nil r rest)
      cases hlatest.symm.trans ha
  | some p =>
    obtain ⟨hmem, hmost⟩ := insertionSort_head hlatest
    obtain ⟨xs, ys, rfl⟩ := List.append_of_mem hmem
    cases ys with
    | nil => simp
    | cons y ys =>
      -- a later row was issued later
      have hlater : p.issuedAt < y.issuedAt :=
        List.rel_of_pairwise_cons (List.pairwise_append.mp h).2.1 List.mem_cons_self
      exact absurd (hmost y (by simp)) (not_le.mpr hlater)

theorem issuedJustBefore_getLast {xs ys : List ReceiptRow} {p r : ReceiptRow}
    (h : (xs ++ r :: ys).Pairwise fun a b => a.issuedAt < b.issuedAt)
    (hp : xs.getLast? = some p) : IssuedJustBefore (xs ++ r :: ys) p r := by
  obtain ⟨xs, rfl⟩ : ∃ zs, xs = zs ++ [p] := List.getLast?_eq_some_iff.mp hp
  obtain ⟨hbefore, hafter, hcross⟩ := List.pairwise_append.mp h
  refine ⟨by simp, hcross p (by simp) r List.mem_cons_self, fun q hq hlt => ?_⟩
  rcases List.mem_append.mp hq with hq | hq
  · rcases List.mem_append.mp hq with hq | hq
    · exact ((List.pairwise_append.mp hbefore).2.2 q hq p (List.mem_singleton_self p)).le
    · rw [List.mem_singleton.mp hq]
  · rcases List.mem_cons.mp hq with rfl | hq
    · exact absurd hlt (lt_irrefl _)
    · exact absurd hlt (List.rel_of_pairwise_cons hafter hq).not_gt

theorem issuedJustBefore_right {p r r' : ReceiptRow} (hr : r ∈ rs) (hr' : r' ∈ rs)
    (h : IssuedJustBefore rs p r) (h' : IssuedJustBefore rs p r') : r.issuedAt = r'.issuedAt := by
  rcases lt_trichotomy r.issuedAt r'.issuedAt with hlt | heq | hgt
  · exact absurd (h'.2.2 r hr hlt) (not_le.mpr h.2.1)
  · exact heq
  · exact absurd (h.2.2 r' hr' hgt) (not_le.mpr h'.2.1)

theorem eq_of_issuedAt (h : rs.Pairwise fun a b => a.issuedAt < b.issuedAt) {r r' : ReceiptRow}
    (hr : r ∈ rs) (hr' : r' ∈ rs) (he : r.issuedAt = r'.issuedAt) : r = r' := by
  have hnodup : (rs.map ReceiptRow.issuedAt).Nodup :=
    List.pairwise_map.mpr (h.imp fun hlt => hlt.ne)
  exact List.inj_on_of_nodup_map hnodup hr hr' he

theorem collision_of_ne (genuine : ∀ r ∈ rs, Genuine d toISOString r)
    (distinct : (rs.map ReceiptRow.requestId).Nodup) {p p' : ReceiptRow} (hp : p ∈ rs) (hp' : p' ∈ rs)
    (hne : p ≠ p') (hhash : p.payloadHash = p'.payloadHash) : Collision rs := by
  refine ⟨p, hp, p', hp', fun hsame => hne ?_, hhash⟩
  obtain ⟨payload, hid, hcanonical⟩ := (genuine p hp).canonical
  obtain ⟨payload', hid', hcanonical'⟩ := (genuine p' hp').canonical
  have hrequest : payload.requestId = payload'.requestId :=
    canonical_requestId (hcanonical.symm.trans (hsame.trans hcanonical'))
  exact List.inj_on_of_nodup_map distinct hp hp' (by rw [← hid, ← hid', hrequest])

/-- Rows inserted in the order of issue, each pointing at the one before it. -/
theorem singleChain_of_chained (genuine : ∀ r ∈ rs, Genuine d toISOString r)
    (distinct : (rs.map ReceiptRow.requestId).Nodup)
    (ordered : rs.Pairwise fun a b => a.issuedAt < b.issuedAt) (chained : Chained none rs) :
    SingleChain rs := by
  have hplace : ∀ r ∈ rs, (r.previousHash = none ∧ rs.head? = some r) ∨
      ∃ p, IssuedJustBefore rs p r ∧ r.previousHash = some p.payloadHash := by
    intro r hr
    obtain ⟨xs, ys, rfl⟩ := List.append_of_mem hr
    have hprevious := chained_split chained
    cases hlast : xs.getLast? with
    | none =>
      obtain rfl := List.getLast?_eq_none_iff.mp hlast
      exact .inl ⟨hprevious, rfl⟩
    | some p =>
      rw [hlast] at hprevious
      exact .inr ⟨p, issuedJustBefore_getLast ordered hlast, hprevious⟩
  have hroot : ∀ r ∈ rs, r.previousHash = none → rs.head? = some r := by
    intro r hr hnone
    rcases hplace r hr with ⟨-, hhead⟩ | ⟨p, -, hsome⟩
    · exact hhead
    · cases hnone.symm.trans hsome
  have hlinked : ∀ r ∈ rs, r.previousHash ≠ none →
      ∃ p, IssuedJustBefore rs p r ∧ r.previousHash = some p.payloadHash := by
    intro r hr hsome
    rcases hplace r hr with ⟨hnone, -⟩ | h
    · exact absurd hnone hsome
    · exact h
  refine ⟨fun hne => ?_, hlinked, fun r hr r' hr' hsame => ?_⟩
  · cases rs with
    | nil => exact absurd rfl hne
    | cons r rest =>
      refine ⟨r, ⟨List.mem_cons_self, chained.1⟩, fun r' hr' => ?_⟩
      exact (Option.some.inj (hroot r' hr'.1 hr'.2)).symm
  · by_cases hnone : r.previousHash = none
    · exact .inl (Option.some.inj ((hroot r hr hnone).symm.trans (hroot r' hr' (hsame ▸ hnone))))
    · obtain ⟨p, hp, hhash⟩ := hlinked r hr hnone
      obtain ⟨p', hp', hhash'⟩ := hlinked r' hr' (hsame ▸ hnone)
      by_cases hpp : p = p'
      · subst hpp
        exact .inl (eq_of_issuedAt ordered hr hr' (issuedJustBefore_right hr hr' hp hp'))
      · refine .inr (collision_of_ne genuine distinct hp.1 hp'.1 hpp ?_)
        exact Option.some.inj (hhash.symm.trans (hsame.trans hhash'))

end

/-! ## The calls under way -/

/-- What a call read as the latest receipt is stored, and was issued before. -/
def ReadBefore (receipts : List ReceiptRow) (previous : Option ReceiptRow) (issuedAt : ℤ) : Prop :=
  ∀ p, previous = some p → p ∈ receipts ∧ p.issuedAt < issuedAt

variable (d toISOString) in
def Pending (receipts : List ReceiptRow) (clock : ℤ) : IssuePc → Prop
  | .stamp previous => ∀ p, previous = some p → p ∈ receipts
  | .signingKey previous issuedAt => issuedAt ≤ clock ∧ ReadBefore receipts previous issuedAt
  | .create previous receipt =>
    Genuine d toISOString receipt ∧ receipt.previousHash = previous.map ReceiptRow.payloadHash ∧
      receipt.issuedAt ≤ clock ∧ ReadBefore receipts previous receipt.issuedAt
  | _ => True

theorem Pending.mono {receipts receipts' : List ReceiptRow} {clock clock' : ℤ} {pc : IssuePc}
    (h : Pending d toISOString receipts clock pc) (hsub : receipts ⊆ receipts')
    (hclock : clock ≤ clock') : Pending d toISOString receipts' clock' pc := by
  cases pc with
  | stamp previous => exact fun p hp => hsub (h p hp)
  | signingKey previous issuedAt =>
    exact ⟨h.1.trans hclock, fun p hp => ⟨hsub (h.2 p hp).1, (h.2 p hp).2⟩⟩
  | create previous receipt =>
    exact ⟨h.1, h.2.1, h.2.2.1.trans hclock, fun p hp => ⟨hsub (h.2.2.2 p hp).1, (h.2.2.2 p hp).2⟩⟩
  | findExisting => trivial
  | findPrevious => trivial
  | linkRequest => trivial
  | returned => trivial
  | failed => trivial

variable (d toISOString) in
structure Inv (w : World) : Prop where
  genuine : ∀ r ∈ w.receipts, Genuine d toISOString r
  distinct : (w.receipts.map ReceiptRow.requestId).Nodup
  ordered : w.receipts.Pairwise fun a b => a.issuedAt < b.issuedAt
  chained : Chained none w.receipts
  clock : ∀ r ∈ w.receipts, r.issuedAt ≤ w.clock
  pending : ∀ call ∈ w.calls, Pending d toISOString w.receipts w.clock call.pc

theorem Inv.singleChain {w : World} (h : Inv d toISOString w) : SingleChain w.receipts :=
  singleChain_of_chained h.genuine h.distinct h.ordered h.chained

theorem inv_initial (clock : ℤ) : Inv d toISOString (initial clock) where
  genuine r hr := by cases hr
  distinct := List.nodup_nil
  ordered := List.Pairwise.nil
  chained := trivial
  clock r hr := by cases hr
  pending call hcall := by cases hcall

theorem mem_at {w : World} {k : ℕ} {pc : IssuePc} {call : Call} (h : call ∈ (w.at k pc).calls) :
    call.pc = pc ∨ call ∈ w.calls := by
  rcases mem_of_modify h with ⟨old, -, rfl⟩ | hold
  · exact .inl rfl
  · exact .inr hold

/-- A step that inserts nothing moves one call or takes a new one on. -/
theorem Inv.move {w : World} (h : Inv d toISOString w) {k : ℕ} {pc : IssuePc} {clock : ℤ}
    (hclock : w.clock ≤ clock) (hpc : Pending d toISOString w.receipts clock pc) :
    Inv d toISOString { w.at k pc with clock := clock } where
  genuine := h.genuine
  distinct := h.distinct
  ordered := h.ordered
  chained := h.chained
  clock r hr := (h.clock r hr).trans hclock
  pending call hcall := by
    rcases mem_at hcall with hsame | hold
    · exact hsame ▸ hpc
    · exact (h.pending call hold).mono (List.Subset.refl _) hclock

theorem insertable_requestId {rs : List ReceiptRow} {r : ReceiptRow} (h : insertable rs r = true) :
    r.requestId ∉ rs.map ReceiptRow.requestId := by
  intro hmem
  obtain ⟨x, hx, hid⟩ := List.mem_map.mp hmem
  have hpasses := of_decide_eq_true (List.all_eq_true.mp h x hx)
  exact hpasses.1 hid

/-- A row whose call has read what is still the latest receipt extends the chain. -/
theorem Inv.insert {w : World} (h : Inv d toISOString w) {k : ℕ} {call : Call} {r : ReceiptRow}
    (hcall : w.calls[k]? = some call) (hpc : call.pc = .create (latest w.receipts) r)
    (hnew : insertable w.receipts r = true) :
    Inv d toISOString { w.at k .linkRequest with receipts := w.receipts ++ [r] } := by
  have hpending := h.pending call (List.mem_of_getElem? hcall)
  rw [hpc] at hpending
  obtain ⟨hgenuine, hprevious, hclock, hread⟩ := hpending
  have hlast := latest_eq_getLast? h.ordered
  have hlater : ∀ x ∈ w.receipts, x.issuedAt < r.issuedAt := by
    intro x hx
    obtain ⟨p, hp⟩ := insertionSort_head_isSome (r := IssuedNoEarlier) (List.ne_nil_of_mem hx)
    exact lt_of_le_of_lt ((insertionSort_head hp).2 x hx) (hread p hp).2
  refine ⟨fun x hx => ?_, ?_, ?_, ?_, fun x hx => ?_, fun other hother => ?_⟩
  · rcases List.mem_append.mp hx with hx | hx
    · exact h.genuine x hx
    · exact List.mem_singleton.mp hx ▸ hgenuine
  · rw [List.map_append]
    refine h.distinct.append (List.nodup_singleton _) fun id hid hid' => ?_
    exact insertable_requestId hnew (List.mem_singleton.mp hid' ▸ hid)
  · refine List.pairwise_append.mpr ⟨h.ordered, List.pairwise_singleton _ _, fun x hx y hy => ?_⟩
    exact List.mem_singleton.mp hy ▸ hlater x hx
  · refine chained_append.mpr ⟨h.chained, ?_⟩
    rw [hprevious, hlast, Option.or_none]
  · rcases List.mem_append.mp hx with hx | hx
    · exact h.clock x hx
    · exact List.mem_singleton.mp hx ▸ hclock
  · rcases mem_at hother with hsame | hold
    · change Pending d toISOString (w.receipts ++ [r]) w.clock other.pc
      rw [hsame]
      trivial
    · exact (h.pending other hold).mono (List.subset_append_left _ _) le_rfl

/-- What a call does once its promise is fulfilled: it moves on, or inserts its row. -/
theorem resume_cases {w w' : World} {k : ℕ} {call : Call} {now : ℤ} (h : Inv d toISOString w)
    (hcall : w.calls[k]? = some call) (hmove : resume d toISOString w k call now = some w') :
    (∃ pc clock, w' = { w.at k pc with clock := clock } ∧ w.clock ≤ clock ∧
        Pending d toISOString w.receipts clock pc ∧
        ∀ previous r, call.pc = .create previous r → insertable w.receipts r ≠ true) ∨
      ∃ previous r, call.pc = .create previous r ∧ insertable w.receipts r = true ∧
        w' = { w.at k .linkRequest with receipts := w.receipts ++ [r] } := by
  have hpending := h.pending call (List.mem_of_getElem? hcall)
  obtain ⟨requestId, request, usageEventId, pc⟩ := call
  cases pc with
  | findExisting =>
    obtain rfl := Option.some.inj hmove
    refine .inl ⟨_, w.clock, rfl, le_rfl, ?_, by simp⟩
    split <;> trivial
  | findPrevious =>
    obtain rfl := Option.some.inj hmove
    exact .inl ⟨_, w.clock, rfl, le_rfl, fun p hp => (insertionSort_head hp).1, by simp⟩
  | stamp previous =>
    obtain ⟨hclock, hmoved⟩ := Option.ite_none_right_eq_some.mp hmove
    obtain rfl := Option.some.inj hmoved
    refine .inl ⟨_, now, rfl, hclock.le, ⟨le_rfl, fun p hp => ⟨hpending p hp, ?_⟩⟩, by simp⟩
    exact lt_of_le_of_lt (h.clock p (hpending p hp)) hclock
  | signingKey previous issuedAt =>
    obtain ⟨r, hr, hgenuine, hprevious, hissued⟩ := usageReceipt_ok d toISOString
      ⟨requestId, request, usageEventId, .signingKey previous issuedAt⟩ previous issuedAt
    simp only [resume, hr, Option.some.injEq] at hmove
    subst hmove
    refine .inl ⟨_, w.clock, rfl, le_rfl, ⟨hgenuine, hprevious, ?_, ?_⟩, by simp⟩
    · exact hissued ▸ hpending.1
    · exact hissued ▸ hpending.2
  | create previous r =>
    simp only [resume] at hmove
    split at hmove
    · rename_i hnew
      obtain rfl := Option.some.inj hmove
      exact .inr ⟨previous, r, rfl, hnew, rfl⟩
    · rename_i hold
      obtain rfl := Option.some.inj hmove
      refine .inl ⟨_, w.clock, rfl, le_rfl, trivial, fun previous' r' hpc => ?_⟩
      obtain ⟨-, rfl⟩ := IssuePc.create.inj hpc
      exact hold
  | linkRequest =>
    obtain rfl := Option.some.inj hmove
    exact .inl ⟨_, w.clock, rfl, le_rfl, trivial, by simp⟩
  | returned => cases hmove
  | failed => cases hmove

/-- What a step does to the receipts: it keeps them, or inserts the row of one call. -/
theorem step_cases {w w' : World} {e : Event} (h : Inv d toISOString w)
    (hstep : step d toISOString w e = some w') :
    (w'.receipts = w.receipts ∧ Inv d toISOString w' ∧ PreviousIsLatest w e) ∨
      ∃ k now call previous r, e = .fulfil k now ∧ w.calls[k]? = some call ∧
        call.pc = .create previous r ∧ insertable w.receipts r = true ∧
        w' = { w.at k .linkRequest with receipts := w.receipts ++ [r] } := by
  cases e with
  | call requestId request usageEventId =>
    obtain ⟨-, hmoved⟩ := Option.ite_none_right_eq_some.mp hstep
    obtain rfl := Option.some.inj hmoved
    refine .inl ⟨rfl, ⟨h.genuine, h.distinct, h.ordered, h.chained, h.clock, fun call hcall => ?_⟩,
      trivial⟩
    rcases List.mem_append.mp hcall with hold | hnew
    · exact h.pending call hold
    · obtain rfl := List.mem_singleton.mp hnew
      trivial
  | reject k =>
    obtain ⟨call, hcall, hmove⟩ := Option.bind_eq_some_iff.mp hstep
    split at hmove <;> cases hmove <;> exact .inl ⟨rfl, h.move le_rfl trivial, trivial⟩
  | fulfil k now =>
    obtain ⟨call, hcall, hmove⟩ := Option.bind_eq_some_iff.mp hstep
    rcases resume_cases h hcall hmove with
      ⟨pc, clock, rfl, hclock, hpending, hidle⟩ | ⟨previous, r, hpc, hnew, rfl⟩
    · -- nothing is inserted, so the guard of an insertion is not in question
      refine .inl ⟨rfl, h.move hclock hpending, ?_⟩
      refine previousIsLatest_iff.mpr fun call' previous r hcall' hpc hnew => ?_
      obtain rfl := Option.some.inj (hcall.symm.trans hcall')
      exact absurd hnew (hidle previous r hpc)
    · exact .inr ⟨k, now, call, previous, r, rfl, hcall, hpc, hnew, rfl⟩

theorem eq_of_sameReceipt {rs : List ReceiptRow} (distinct : (rs.map ReceiptRow.requestId).Nodup)
    {previous : Option ReceiptRow} (stored : ∀ p, previous = some p → p ∈ rs)
    (h : SameReceipt previous (latest rs)) : previous = latest rs := by
  unfold SameReceipt at h
  cases hlatest : latest rs with
  | none =>
    rw [hlatest] at h
    exact Option.map_eq_none_iff.mp h
  | some q =>
    rw [hlatest] at h
    obtain ⟨p, rfl, hid⟩ := Option.map_eq_some_iff.mp h
    rw [List.inj_on_of_nodup_map distinct (stored p rfl) (insertionSort_head hlatest).1 hid]

theorem step_keeps {w w' : World} {e : Event} (h : Inv d toISOString w)
    (hstep : step d toISOString w e = some w') (hguard : PreviousIsLatest w e) :
    Inv d toISOString w' := by
  rcases step_cases h hstep with ⟨-, hkept, -⟩ | ⟨k, now, call, previous, r, rfl, hcall, hpc, hnew, rfl⟩
  · exact hkept
  · have hread := (h.pending call (List.mem_of_getElem? hcall))
    rw [hpc] at hread
    have hlatest := eq_of_sameReceipt h.distinct (fun p hp => (hread.2.2.2 p hp).1)
      (previousIsLatest_iff.mp hguard call previous r hcall hpc hnew)
    exact h.insert hcall (hlatest ▸ hpc) hnew

/-- Every row but the last is some row's predecessor, and none is the first's. -/
theorem eq_getLast?_of_unshared {rs : List ReceiptRow} (chained : Chained none rs)
    {previous : Option ReceiptRow} (stored : ∀ p, previous = some p → p ∈ rs)
    (unshared : ∀ x ∈ rs, x.previousHash ≠ previous.map ReceiptRow.payloadHash) :
    previous = rs.getLast? := by
  cases previous with
  | none =>
    cases rs with
    | nil => rfl
    | cons x rest => exact absurd chained.1 (unshared x List.mem_cons_self)
  | some p =>
    obtain ⟨xs, ys, rfl⟩ := List.append_of_mem (stored p rfl)
    cases ys with
    | nil => simp
    | cons y ys =>
      have hshift : xs ++ p :: y :: ys = (xs ++ [p]) ++ y :: ys := by simp
      rw [hshift] at chained
      have hy := chained_split chained
      rw [List.getLast?_concat] at hy
      exact absurd hy (unshared y (hshift ▸ by simp))

/-- Where the hash keeps the payloads apart, a row that points anywhere but at
the latest receipt shares its predecessor with an older row. -/
theorem step_needs {w w' : World} {e : Event} (h : Inv d toISOString w)
    (hstep : step d toISOString w e = some w') (injective : Function.Injective d.sha256Hex)
    (hchain : SingleChain w'.receipts) : PreviousIsLatest w e := by
  rcases step_cases h hstep with ⟨-, -, hguard⟩ | ⟨k, now, call, previous, r, rfl, hcall, hpc, hnew, rfl⟩
  · exact hguard
  · refine previousIsLatest_iff.mpr fun call' previous' r' hcall' hpc' _ => ?_
    obtain rfl := Option.some.inj (hcall.symm.trans hcall')
    obtain ⟨rfl, rfl⟩ := IssuePc.create.inj (hpc.symm.trans hpc')
    have hpending := h.pending call (List.mem_of_getElem? hcall)
    rw [hpc] at hpending
    obtain ⟨hgenuine, hprevious, -, hread⟩ := hpending
    have hapart : ¬ Collision (w.receipts ++ [r]) := by
      rintro ⟨p, hp, p', hp', hne, hhash⟩
      have hstored : ∀ x ∈ w.receipts ++ [r], x.payloadHash = d.sha256Hex x.payloadCanonical := by
        intro x hx
        rcases List.mem_append.mp hx with hx | hx
        · exact (h.genuine x hx).hash
        · exact List.mem_singleton.mp hx ▸ hgenuine.hash
      rw [hstored p hp, hstored p' hp'] at hhash
      exact hne (injective hhash)
    -- a stored row with the same predecessor would be the new row itself
    have hno : ∀ x ∈ w.receipts, x.previousHash ≠ r.previousHash := by
      intro x hx hsame
      rcases hchain.noFork x (List.mem_append_left _ hx) r (by simp) hsame with rfl | hcollision
      · exact insertable_requestId hnew (List.mem_map.mpr ⟨x, hx, rfl⟩)
      · exact hapart hcollision
    refine congrArg (Option.map ReceiptRow.requestId) ?_
    rw [latest_eq_getLast? h.ordered]
    exact eq_getLast?_of_unshared h.chained (fun p hp => (hread p hp).1) (hprevious ▸ hno)

/-- The receipts stay one chain in every run in which each inserted row points
at what is still the latest receipt; if the hash keeps the payloads apart, they
do so in no other run. -/
theorem receipts_chain_iff (d : Deployment) (toISOString : ℤ → String) (clock : ℤ)
    (events : List Event) :
    (EveryStep (step d toISOString) (fun w e _ => PreviousIsLatest w e) (initial clock) events →
        EveryStep (step d toISOString) (fun _ _ w => SingleChain w.receipts) (initial clock) events) ∧
      (Function.Injective d.sha256Hex →
        EveryStep (step d toISOString) (fun _ _ w => SingleChain w.receipts) (initial clock) events →
          EveryStep (step d toISOString) (fun w e _ => PreviousIsLatest w e) (initial clock) events) := by
  refine ⟨everyStep_guarded (Inv d toISOString) _ _ ?_ (inv_initial clock), fun injective => ?_⟩
  · intro w e w' h hstep hguard
    exact ⟨(step_keeps h hstep hguard).singleChain, step_keeps h hstep hguard⟩
  · refine (everyStep_iff_guarded (Inv d toISOString) _ _ ?_ ?_ (inv_initial clock) events).mp
    · intro w e w' h hstep hguard
      exact ⟨(step_keeps h hstep hguard).singleChain, step_keeps h hstep hguard⟩
    · intro w e w' h hstep hchain
      exact step_needs h hstep injective hchain

/-- Writes a character beside a mark that tells the two letters that base64url
has for itself. -/
def marked (c : Char) : List Char := [c, if c = '-' then 'm' else if c = '_' then 'u' else 'x']

def unmarked : List Char → List Char
  | c :: mark :: rest => (if mark = 'm' then '-' else if mark = 'u' then '_' else c) :: unmarked rest
  | _ => []

theorem unmarked_marked (cs : List Char) :
    unmarked ((cs.flatMap marked).map fun c => if c = '-' then '+' else if c = '_' then '/' else c) =
      cs := by
  induction cs with
  | nil => rfl
  | cons c cs ih =>
    rw [List.flatMap_cons, marked]
    simp only [List.cons_append, List.nil_append, List.map_cons, unmarked, ih]
    by_cases hm : c = '-'
    · simp [hm]
    · by_cases hu : c = '_'
      · simp [hu]
      · simp [hm, hu]

theorem sample_decodes (s : String) :
    String.ofList (unmarked (String.ofList ((String.ofList ('A' :: s.toList.flatMap marked)).toList.map
      fun c => if c = '-' then '+' else if c = '_' then '/' else c)).toList.tail) = s := by
  simp [unmarked_marked]

theorem sample_nonempty (s : String) : String.ofList ('A' :: s.toList.flatMap marked) ≠ "" := by
  intro h
  have htext := congrArg String.toList h
  simp at htext

/-- A deployment whose signature of a text is the text. -/
def sampleDeployment : Deployment where
  ed :=
    { Signature := String
      publicKey := "usage-pub"
      sign := id
      verify := fun _ m s => some (decide (m = s))
      base64url := fun s => String.ofList ('A' :: s.toList.flatMap marked)
      base64 := fun s => String.ofList (unmarked s.toList.tail)
      verifies := fun _ _ => rfl
      decodes := sample_decodes
      nonempty := sample_nonempty }
  sha256Hex := id
  keyId := "usage-key"
  findUnique := fun _ => some ⟨"usage-pub", "Ed25519", none⟩
  algorithm := "Ed25519"
  thrown := "Verification failed"
  named := by decide
  registered := rfl

def sampleRow : InferenceRequest :=
  ⟨"c", "k", "auto", false, .succeeded, 10, 20, 5, 0, 0, none, 0, 0, none, none, none, none, none, none,
    none, none, none, none, none⟩

def fulfilAll (k : ℕ) (now : ℤ) : List Event := List.replicate 6 (.fulfil k now)

/-- One call after the other. -/
theorem receipts_chain_in_turn :
    EveryStep (step sampleDeployment fun _ => "2026-01-01T00:00:00.000Z")
      (fun _ _ w => SingleChain w.receipts) (initial 0)
      (.call "a" sampleRow none :: fulfilAll 0 1 ++ .call "b" sampleRow none :: fulfilAll 1 2) :=
  (receipts_chain_iff sampleDeployment (fun _ => "2026-01-01T00:00:00.000Z") 0 _).1 (by decide +kernel)

/-- Two calls that both read the latest receipt before either has inserted its own. -/
def concurrentCalls : List Event :=
  [.call "a" sampleRow none, .call "b" sampleRow none, .fulfil 0 0, .fulfil 1 0, .fulfil 0 0,
    .fulfil 1 0, .fulfil 0 1, .fulfil 1 2, .fulfil 0 2, .fulfil 1 2, .fulfil 0 2, .fulfil 1 2]

theorem concurrent_receipts_fork :
    ¬ EveryStep (step sampleDeployment fun _ => "2026-01-01T00:00:00.000Z")
      (fun _ _ w => SingleChain w.receipts) (initial 0) concurrentCalls := by
  intro h
  have hrows : (run (step sampleDeployment fun _ => "2026-01-01T00:00:00.000Z") (initial 0)
      concurrentCalls).map (fun w => w.receipts.map fun r => (r.requestId, r.previousHash)) =
        some [("a", none), ("b", none)] := by decide +kernel
  obtain ⟨w, hw, hreceipts⟩ := Option.map_eq_some_iff.mp hrows
  obtain ⟨_, hchain⟩ := EveryStep.last
    (show EveryStep _ _ _ (concurrentCalls.dropLast ++ [concurrentCalls.getLast (by decide)]) from h) hw
  obtain ⟨r, hr, hunique⟩ := hchain.root (by rintro hnil; rw [hnil] at hreceipts; cases hreceipts)
  have hid : ∀ id, (id, none) ∈ w.receipts.map (fun r => (r.requestId, r.previousHash)) →
      id = r.requestId := by
    intro id hmem
    obtain ⟨x, hx, hpair⟩ := List.mem_map.mp hmem
    obtain ⟨rfl, hnone⟩ := Prod.mk.inj hpair
    rw [hunique x ⟨hx, hnone⟩]
  rw [hreceipts] at hid
  exact absurd ((hid "a" (by simp)).trans (hid "b" (by simp)).symm) (by decide)

end ModelForge.ReceiptChain
