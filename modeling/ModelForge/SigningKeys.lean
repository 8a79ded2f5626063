import ModelForge.KeyedMap
import ModelForge.Participants
import ModelForge.ReceiptVerification
import ModelForge.RunInvariant

set_option autoImplicit false

/-!
# The gateway's signing key

`LocalFileSigningProvider` keeps a key pair in two files and makes one where either is
missing. Between any two file operations the process may die, and a write may stop half
way. Receipts outlive all of this only if every later start finds the pair again.
-/
namespace ModelForge.SigningKeys
open CanonicalJson (CanonicalError JsValue canonicalStringify)
open ReceiptVerification (PayloadSignature SigningKey)
open RunInvariant (run run_invariant run_cons_some)

structure KeyPair where
  privateKey : String
  publicKey : String
  deriving DecidableEq

/-- `node:crypto`, with the key pairs in the order in which they are generated; `none`
where a call throws. -/
structure Crypto where
  Signature : Type
  generateKeyPairSync : ℕ → KeyPair
  sign : String → String → Option Signature
  verify : String → String → Signature → Option Bool
  base64url : Signature → String
  fromBase64url : String → Signature
  sha256Hex : String → String
  signs : ∀ n message, ∃ s, sign (generateKeyPairSync n).privateKey message = some s
  verifies : ∀ n message s, sign (generateKeyPairSync n).privateKey message = some s →
    verify (generateKeyPairSync n).publicKey message s = some true
  decodes : ∀ s, fromBase64url (base64url s) = s

def SIGNING_ALGORITHM : String := "Ed25519"

structure LocalFileSigningProvider where
  privateKey : String
  publicKey : String
  keyId : String
  deriving DecidableEq

/-- What `signPayload` throws: no canonical text, or no key that can sign. -/
inductive SigningError where
  | canonical (e : CanonicalError)
  | key

variable (crypto : Crypto)

/-- The end of the constructor. -/
def ofKeys (privateKey publicKey : String) : LocalFileSigningProvider where
  privateKey := privateKey
  publicKey := publicKey
  keyId := String.ofList ((crypto.sha256Hex publicKey).toList.take 32)

namespace LocalFileSigningProvider
variable (provider : LocalFileSigningProvider)

def signPayload (payload : JsValue) : Except SigningError PayloadSignature := do
  let canonical ← (canonicalStringify payload).mapError .canonical
  let signature ← match crypto.sign provider.privateKey canonical with
    | some s => pure s
    | none => throw .key
  return { keyId := provider.keyId
           signature := crypto.base64url signature
           payloadHash := crypto.sha256Hex canonical
           algorithm := SIGNING_ALGORITHM }

/-- The hash of the payload is computed outside the `try`, so a payload without a canonical
text throws. -/
def verifyPayload (payload : JsValue) (signed : PayloadSignature) : Except CanonicalError Bool :=
  if signed.algorithm ≠ SIGNING_ALGORITHM ∨ signed.keyId ≠ provider.keyId then .ok false
  else do
    let canonical ← canonicalStringify payload
    if signed.payloadHash ≠ crypto.sha256Hex canonical then return false
    return (crypto.verify provider.publicKey canonical (crypto.fromBase64url signed.signature)).getD false

end LocalFileSigningProvider

/-- The two files of the signing directory. -/
structure Directory where
  privateFile : Option String
  publicFile : Option String

/-- The file operation that the constructor is about to do; it runs without an await. -/
inductive Phase where
  | idle
  | readPrivate
  | readPublic (privateKey : String)
  | generate
  | writePrivate (keys : KeyPair)
  | writePublic (keys : KeyPair)
  deriving DecidableEq

inductive CallPc where
  | ensuring
  | signing
  | done
  deriving DecidableEq

/-- A call of `ensureSigningKey`: on its own when the gateway starts, else to sign the
payload of a receipt. -/
structure Call where
  payload : Option JsValue
  pc : CallPc

structure Receipt where
  payload : JsValue
  signed : PayloadSignature

structure World where
  directory : Directory
  generated : ℕ
  phase : Phase
  signingProvider : Option LocalFileSigningProvider
  calls : List Call
  signingKeys : KeyedMap String SigningKey
  receipts : List Receipt

def initial : World := ⟨⟨none, none⟩, 0, .idle, none, [], .empty, []⟩

/-- A torn write leaves the first `kept` characters of the file and throws; `fail` throws
with the files as they are. -/
inductive Event where
  | request (payload : Option JsValue)
  | advance (i : ℕ)
  | next
  | fail
  | tearPrivate (kept : ℕ)
  | tearPublic (kept : ℕ)
  | restart

def upsertKey (keys : KeyedMap String SigningKey) (provider : LocalFileSigningProvider) :
    KeyedMap String SigningKey :=
  match keys.get? provider.keyId with
  | some key => keys.set provider.keyId { key with revokedAt := none }
  | none => keys.set provider.keyId ⟨provider.publicKey, SIGNING_ALGORITHM, none⟩

def World.at (w : World) (i : ℕ) (pc : CallPc) : World :=
  { w with calls := w.calls.modify i fun call => { call with pc := pc } }

/-- A call goes on to its next await. -/
def advance (w : World) (i : ℕ) (call : Call) : Option World :=
  match call.pc, w.signingProvider with
  | .ensuring, none => some { w with phase := .readPrivate }
  | .ensuring, some provider =>
    some ({ w with signingKeys := upsertKey w.signingKeys provider }.at i
      (if call.payload.isSome then .signing else .done))
  | .signing, some provider => call.payload.map fun payload =>
    match provider.signPayload crypto payload with
    | .ok signed => ({ w with receipts := w.receipts ++ [⟨payload, signed⟩] } : World).at i .done
    | .error _ => w.at i .done
  | .signing, none => none
  | .done, _ => none

/-- The next file operation of the constructor. -/
def construct (w : World) : Option World :=
  match w.phase with
  | .idle => none
  | .readPrivate =>
    match w.directory.privateFile with
    | some privateKey => some { w with phase := .readPublic privateKey }
    | none => some { w with phase := .generate }
  | .readPublic privateKey =>
    match w.directory.publicFile with
    | some publicKey =>
      some { w with phase := .idle, signingProvider := some (ofKeys crypto privateKey publicKey) }
    | none => some { w with phase := .generate }
  | .generate =>
    some { w with generated := w.generated + 1, phase := .writePrivate (crypto.generateKeyPairSync w.generated) }
  | .writePrivate keys =>
    some { w with directory := { w.directory with privateFile := some keys.privateKey }, phase := .writePublic keys }
  | .writePublic keys =>
    some { w with
      directory := { w.directory with publicFile := some keys.publicKey }
      phase := .idle
      signingProvider := some (ofKeys crypto keys.privateKey keys.publicKey) }

def firstChars (s : String) (kept : ℕ) : String := String.ofList (s.toList.take kept)

def step (w : World) : Event → Option World
  | .request payload =>
    if w.phase = .idle then some { w with calls := w.calls ++ [⟨payload, .ensuring⟩] } else none
  | .advance i => if w.phase = .idle then w.calls[i]?.bind (advance crypto w i) else none
  | .next => construct crypto w
  | .fail => if w.phase = .idle then none else some { w with phase := .idle }
  | .tearPrivate kept =>
    match w.phase with
    | .writePrivate keys =>
      some { w with
        directory := { w.directory with privateFile := some (firstChars keys.privateKey kept) }
        phase := .idle }
    | _ => none
  | .tearPublic kept =>
    match w.phase with
    | .writePublic keys =>
      some { w with
        directory := { w.directory with publicFile := some (firstChars keys.publicKey kept) }
        phase := .idle }
    | _ => none
  | .restart => some { w with phase := .idle, signingProvider := none, calls := [] }

/-! ## The pair on disk -/

variable {crypto} {w v : World} {directory : Directory} {p q : LocalFileSigningProvider} {phase : Phase} {i : ℕ}
  {call : Call}

/-- The files hold a generated pair, which is the provider's. -/
def Stored (crypto : Crypto) (directory : Directory) (p : LocalFileSigningProvider) : Prop :=
  ∃ n, directory.privateFile = some (crypto.generateKeyPairSync n).privateKey ∧
    directory.publicFile = some (crypto.generateKeyPairSync n).publicKey ∧
    p = ofKeys crypto (crypto.generateKeyPairSync n).privateKey (crypto.generateKeyPairSync n).publicKey

theorem Stored.unique (hp : Stored crypto directory p) (hq : Stored crypto directory q) : p = q := by
  obtain ⟨n, hprivate, hpublic, rfl⟩ := hp
  obtain ⟨m, hprivate', hpublic', rfl⟩ := hq
  rw [Option.some.inj (hprivate.symm.trans hprivate'), Option.some.inj (hpublic.symm.trans hpublic')]

theorem Stored.public_ne_none (hp : Stored crypto directory p) : directory.publicFile ≠ none := by
  obtain ⟨n, -, hpublic, -⟩ := hp
  rw [hpublic]
  exact Option.some_ne_none _

/-- What the constructor knows of the files; it writes only where there is no public key. -/
def PhaseOk (crypto : Crypto) (directory : Directory) : Phase → Prop
  | .idle | .readPrivate => True
  | .readPublic privateKey => directory.privateFile = some privateKey
  | .generate => directory.publicFile = none
  | .writePrivate keys => directory.publicFile = none ∧ ∃ n, keys = crypto.generateKeyPairSync n
  | .writePublic keys => directory.publicFile = none ∧ directory.privateFile = some keys.privateKey ∧
    ∃ n, keys = crypto.generateKeyPairSync n

/-- A row of the table is the provider's, and not revoked. -/
def IsRow (p : LocalFileSigningProvider) (keyId : String) (key : SigningKey) : Prop :=
  keyId = p.keyId ∧ key = ⟨p.publicKey, SIGNING_ALGORITHM, none⟩

structure Inv (crypto : Crypto) (w : World) : Prop where
  disk : w.directory.publicFile ≠ none → ∃ p, Stored crypto w.directory p
  phase : PhaseOk crypto w.directory w.phase
  loaded : ∀ p, w.signingProvider = some p → Stored crypto w.directory p
  rows : ∀ keyId key, w.signingKeys.get? keyId = some key → ∃ p, Stored crypto w.directory p ∧ IsRow p keyId key
  pending : ∀ call ∈ w.calls, call.pc = .signing →
    ∃ p, Stored crypto w.directory p ∧ (w.signingKeys.get? p.keyId).isSome
  issued : ∀ receipt ∈ w.receipts, ∃ p, Stored crypto w.directory p ∧ (w.signingKeys.get? p.keyId).isSome ∧
    p.signPayload crypto receipt.payload = .ok receipt.signed

theorem inv_initial : Inv crypto initial where
  disk := fun h => absurd rfl h
  phase := trivial
  loaded := fun _ h => nomatch h
  rows := fun _ _ h => nomatch h
  pending := fun _ h => nomatch h
  issued := fun _ h => nomatch h

/-- Without a public key on disk nothing has been loaded, registered or signed, so the
files may be written. -/
theorem Inv.write (h : Inv crypto w) (hnone : w.directory.publicFile = none)
    (hdisk : directory.publicFile ≠ none → ∃ p, Stored crypto directory p) (hphase : PhaseOk crypto directory phase) :
    Inv crypto { w with directory := directory, phase := phase } where
  disk := hdisk
  phase := hphase
  loaded := fun p hp => absurd hnone (h.loaded p hp).public_ne_none
  rows := fun keyId key hkey => by
    obtain ⟨p, hp, -⟩ := h.rows keyId key hkey
    exact absurd hnone hp.public_ne_none
  pending := fun call hcall hsigning => by
    obtain ⟨p, hp, -⟩ := h.pending call hcall hsigning
    exact absurd hnone hp.public_ne_none
  issued := fun receipt hreceipt => by
    obtain ⟨p, hp, -⟩ := h.issued receipt hreceipt
    exact absurd hnone hp.public_ne_none

theorem Inv.turn (h : Inv crypto w) (hphase : PhaseOk crypto w.directory phase) : Inv crypto { w with phase := phase } :=
  { h with phase := hphase }

theorem Inv.load (h : Inv crypto w) (hp : Stored crypto w.directory p) :
    Inv crypto { w with phase := .idle, signingProvider := some p } :=
  { h with
    phase := trivial
    loaded := fun _ hq => Option.some.inj hq ▸ hp }

theorem Inv.construct (h : Inv crypto w) (hstep : construct crypto w = some v) : Inv crypto v := by
  have hphase := h.phase
  unfold SigningKeys.construct at hstep
  cases hw : w.phase with
  | idle => rw [hw] at hstep; cases hstep
  | readPrivate =>
    rw [hw] at hstep
    dsimp only at hstep
    split at hstep
    next privateKey hprivate =>
      obtain rfl := Option.some.inj hstep
      exact h.turn hprivate
    next hprivate =>
      obtain rfl := Option.some.inj hstep
      -- a stored pair has both files
      refine h.turn (Classical.byContradiction fun hne => ?_)
      obtain ⟨p, n, hsome, -⟩ := h.disk hne
      cases hprivate.symm.trans hsome
  | readPublic privateKey =>
    rw [hw] at hstep hphase
    dsimp only at hstep
    split at hstep
    next publicKey hpublic =>
      obtain rfl := Option.some.inj hstep
      obtain ⟨p, hp⟩ := h.disk (by rw [hpublic]; exact Option.some_ne_none _)
      obtain ⟨n, hprivate', hpublic', -⟩ := hp
      refine h.load ⟨n, hprivate', hpublic', ?_⟩
      rw [Option.some.inj (hphase.symm.trans hprivate'), Option.some.inj (hpublic.symm.trans hpublic')]
    next hpublic =>
      obtain rfl := Option.some.inj hstep
      exact h.turn hpublic
  | generate =>
    rw [hw] at hstep hphase
    obtain rfl := Option.some.inj hstep
    exact { h with phase := ⟨hphase, w.generated, rfl⟩ }
  | writePrivate keys =>
    rw [hw] at hstep hphase
    obtain rfl := Option.some.inj hstep
    obtain ⟨hnone, hkeys⟩ := hphase
    exact h.write hnone (fun hne => absurd hnone hne) ⟨hnone, rfl, hkeys⟩
  | writePublic keys =>
    rw [hw] at hstep hphase
    obtain rfl := Option.some.inj hstep
    obtain ⟨hnone, hprivate, n, rfl⟩ := hphase
    have hp : Stored crypto { w.directory with publicFile := some (crypto.generateKeyPairSync n).publicKey } _ :=
      ⟨n, hprivate, rfl, rfl⟩
    have hwritten := @Inv.write crypto w _ .idle h hnone (fun _ => ⟨_, hp⟩) trivial
    exact hwritten.load hp

/-! ## The calls -/

theorem get_upsertKey_self (keys : KeyedMap String SigningKey) (p : LocalFileSigningProvider) :
    ((upsertKey keys p).get? p.keyId).isSome := by
  unfold upsertKey
  split <;> rw [KeyedMap.get?_set, if_pos rfl] <;> rfl

theorem get_upsertKey_isSome {keys : KeyedMap String SigningKey} {keyId : String} (h : (keys.get? keyId).isSome)
    (p : LocalFileSigningProvider) : ((upsertKey keys p).get? keyId).isSome := by
  by_cases heq : keyId = p.keyId
  · rw [heq]
    exact get_upsertKey_self keys p
  · unfold upsertKey
    split <;> rwa [KeyedMap.get?_set_of_ne heq]

/-- A new row is the provider's; a row that is there stays, without its revocation. -/
theorem get_upsertKey {keys : KeyedMap String SigningKey} {keyId : String} {key : SigningKey}
    (h : (upsertKey keys p).get? keyId = some key) : keys.get? keyId = some key ∨ IsRow p keyId key ∨
      ∃ before, keys.get? keyId = some before ∧ key = { before with revokedAt := none } := by
  by_cases heq : keyId = p.keyId
  · subst heq
    unfold upsertKey at h
    split at h
    next before hbefore =>
      rw [KeyedMap.get?_set, if_pos rfl] at h
      exact .inr (.inr ⟨before, hbefore, (Option.some.inj h).symm⟩)
    next hnone =>
      rw [KeyedMap.get?_set, if_pos rfl] at h
      exact .inr (.inl ⟨rfl, (Option.some.inj h).symm⟩)
  · unfold upsertKey at h
    split at h <;> rw [KeyedMap.get?_set_of_ne heq] at h <;> exact .inl h

theorem Inv.upsert (h : Inv crypto w) (hp : Stored crypto w.directory p) :
    Inv crypto { w with signingKeys := upsertKey w.signingKeys p } :=
  { h with
    rows := fun keyId key hkey => by
      rcases get_upsertKey hkey with hbefore | hrow | ⟨before, hbefore, rfl⟩
      · exact h.rows keyId key hbefore
      · exact ⟨p, hp, hrow⟩
      · obtain ⟨q, hq, hid, rfl⟩ := h.rows keyId before hbefore
        exact ⟨q, hq, hid, rfl⟩
    pending := fun call hcall hsigning => by
      obtain ⟨q, hq, hrow⟩ := h.pending call hcall hsigning
      exact ⟨q, hq, get_upsertKey_isSome hrow p⟩
    issued := fun receipt hreceipt => by
      obtain ⟨q, hq, hrow, hsigned⟩ := h.issued receipt hreceipt
      exact ⟨q, hq, get_upsertKey_isSome hrow p, hsigned⟩ }

theorem Inv.move (h : Inv crypto w) {pc : CallPc}
    (hpc : pc = .signing → ∃ p, Stored crypto w.directory p ∧ (w.signingKeys.get? p.keyId).isSome) :
    Inv crypto (w.at i pc) :=
  { h with
    pending := fun call hcall hsigning => by
      rcases Participants.mem_of_modify hcall with ⟨before, -, rfl⟩ | hmem
      · exact hpc hsigning
      · exact h.pending call hmem hsigning }

theorem Inv.issue (h : Inv crypto w) {receipt : Receipt} (hp : Stored crypto w.directory p)
    (hrow : (w.signingKeys.get? p.keyId).isSome) (hsigned : p.signPayload crypto receipt.payload = .ok receipt.signed) :
    Inv crypto { w with receipts := w.receipts ++ [receipt] } :=
  { h with
    issued := fun r hr => by
      rcases List.mem_append.mp hr with hr | hr
      · exact h.issued r hr
      · obtain rfl := List.mem_singleton.mp hr
        exact ⟨p, hp, hrow, hsigned⟩ }

theorem Inv.advance (h : Inv crypto w) (hcall : w.calls[i]? = some call) (hstep : advance crypto w i call = some v) :
    Inv crypto v := by
  unfold SigningKeys.advance at hstep
  split at hstep
  · obtain rfl := Option.some.inj hstep
    exact h.turn trivial
  next provider _ hprovider =>
    obtain rfl := Option.some.inj hstep
    have hp := h.loaded provider hprovider
    exact (h.upsert hp).move fun _ => ⟨provider, hp, get_upsertKey_self w.signingKeys provider⟩
  next provider hsigning hprovider =>
    obtain ⟨payload, -, rfl⟩ := Option.map_eq_some_iff.mp hstep
    obtain ⟨q, hq, hrow⟩ := h.pending call (List.mem_of_getElem? hcall) hsigning
    obtain rfl := hq.unique (h.loaded provider hprovider)
    split
    next signed hsigned =>
      have hissued := @Inv.issue crypto w q h ⟨payload, signed⟩ hq hrow hsigned
      exact hissued.move nofun
    · exact h.move nofun
  · cases hstep
  · cases hstep

theorem Inv.request (h : Inv crypto w) (payload : Option JsValue) :
    Inv crypto { w with calls := w.calls ++ [⟨payload, .ensuring⟩] } :=
  { h with
    pending := fun call hcall hsigning => by
      rcases List.mem_append.mp hcall with hmem | hnew
      · exact h.pending call hmem hsigning
      · obtain rfl := List.mem_singleton.mp hnew
        cases hsigning }

theorem Inv.restart (h : Inv crypto w) :
    Inv crypto { w with phase := .idle, signingProvider := none, calls := [] } :=
  { h with
    phase := trivial
    loaded := fun _ hp => nomatch hp
    pending := fun _ hcall => nomatch hcall }

/-- Every step but a torn write of the public key keeps the invariant. -/
theorem Inv.step (h : Inv crypto w) {e : Event} (hwhole : ∀ kept, e ≠ .tearPublic kept)
    (hstep : step crypto w e = some v) : Inv crypto v := by
  cases e with
  | request payload =>
    obtain ⟨-, hv⟩ := Option.ite_none_right_eq_some.mp hstep
    exact Option.some.inj hv ▸ h.request payload
  | advance i =>
    obtain ⟨-, hv⟩ := Option.ite_none_right_eq_some.mp hstep
    obtain ⟨call, hcall, hv⟩ := Option.bind_eq_some_iff.mp hv
    exact h.advance hcall hv
  | next => exact h.construct hstep
  | fail =>
    obtain ⟨-, hv⟩ := Option.ite_none_left_eq_some.mp hstep
    exact Option.some.inj hv ▸ h.turn trivial
  | tearPrivate kept =>
    have hphase := h.phase
    simp only [SigningKeys.step] at hstep
    split at hstep
    next keys hw =>
      obtain rfl := Option.some.inj hstep
      rw [hw] at hphase
      exact h.write hphase.1 (fun hne => absurd hphase.1 hne) trivial
    · cases hstep
  | tearPublic kept => exact absurd rfl (hwhole kept)
  | restart => exact Option.some.inj hstep ▸ h.restart

/-! ## Receipts outlive restarts -/

theorem signPayload_ok {payload : JsValue} {signed : PayloadSignature}
    (h : p.signPayload crypto payload = .ok signed) : ∃ canonical s, canonicalStringify payload = .ok canonical ∧
      crypto.sign p.privateKey canonical = some s ∧
      signed = ⟨p.keyId, crypto.base64url s, crypto.sha256Hex canonical, SIGNING_ALGORITHM⟩ := by
  unfold LocalFileSigningProvider.signPayload at h
  cases hcanonical : canonicalStringify payload with
  | error e => rw [hcanonical] at h; cases h
  | ok canonical =>
    rw [hcanonical] at h
    dsimp only [Except.mapError, bind, Except.bind] at h
    split at h
    next s hsign => exact ⟨canonical, s, rfl, hsign, (Except.ok.inj h).symm⟩
    · cases h

theorem Stored.verifyPayload (hp : Stored crypto directory p) {payload : JsValue} {signed : PayloadSignature}
    (h : p.signPayload crypto payload = .ok signed) : p.verifyPayload crypto payload signed = .ok true := by
  obtain ⟨canonical, s, hcanonical, hsign, rfl⟩ := signPayload_ok h
  obtain ⟨n, -, -, rfl⟩ := hp
  have hverify := crypto.verifies n canonical s hsign
  unfold LocalFileSigningProvider.verifyPayload
  rw [if_neg (by simp), hcanonical]
  change (if crypto.sha256Hex canonical ≠ crypto.sha256Hex canonical then _ else _) = _
  rw [if_neg (not_not.mpr rfl), crypto.decodes]
  exact congrArg (fun verified => Except.ok (verified.getD false)) hverify

/-- The receipt verifies, and the key that verifies it is the one that its row publishes. -/
structure Verified (crypto : Crypto) (w : World) (p : LocalFileSigningProvider) (receipt : Receipt) : Prop where
  verifies : p.verifyPayload crypto receipt.payload receipt.signed = .ok true
  published : w.signingKeys.get? receipt.signed.keyId = some ⟨p.publicKey, SIGNING_ALGORITHM, none⟩

theorem Inv.verified (h : Inv crypto w) (hp : w.signingProvider = some p) {receipt : Receipt}
    (hreceipt : receipt ∈ w.receipts) : Verified crypto w p receipt := by
  obtain ⟨q, hq, hrow, hsigned⟩ := h.issued receipt hreceipt
  obtain rfl := hq.unique (h.loaded p hp)
  refine ⟨hq.verifyPayload hsigned, ?_⟩
  obtain ⟨key, hkey⟩ := Option.isSome_iff_exists.mp hrow
  obtain ⟨q', hq', hid, rfl⟩ := h.rows _ key hkey
  obtain rfl := hq'.unique hq
  obtain ⟨canonical, s, -, -, heq⟩ := signPayload_ok hsigned
  rw [heq]
  exact hkey

theorem inv_run {events : List Event} (hwhole : ∀ kept, .tearPublic kept ∉ events) (h : Inv crypto w)
    (hrun : run (step crypto) w events = some v) : Inv crypto v := by
  induction events generalizing w with
  | nil => exact Option.some.inj hrun ▸ h
  | cons e rest ih =>
    obtain ⟨u, hu, hrest⟩ := run_cons_some hrun
    refine ih (fun kept hmem => hwhole kept (List.mem_cons_of_mem e hmem)) (h.step ?_ hu) hrest
    rintro kept rfl
    exact hwhole kept List.mem_cons_self

/-- However often the gateway starts, dies and fails, also half way through the private key,
each provider it loads verifies every receipt issued before, under the one registered key. -/
theorem receipts_outlive_restarts (crypto : Crypto) {events : List Event} {w : World}
    (hwhole : ∀ kept, .tearPublic kept ∉ events) (h : run (step crypto) initial events = some w)
    {p : LocalFileSigningProvider} (hp : w.signingProvider = some p) :
    (∀ receipt ∈ w.receipts, Verified crypto w p receipt) ∧
      ∀ keyId key, w.signingKeys.get? keyId = some key → IsRow p keyId key := by
  have hinv := inv_run hwhole inv_initial h
  refine ⟨fun receipt hreceipt => hinv.verified hp hreceipt, fun keyId key hkey => ?_⟩
  obtain ⟨q, hq, hrow⟩ := hinv.rows keyId key hkey
  exact hq.unique (hinv.loaded p hp) ▸ hrow

/-- Signatures that spell out their key and message. -/
def sampleCrypto : Crypto where
  Signature := String
  generateKeyPairSync n := ⟨toString n, "public " ++ toString n⟩
  sign key message := some ("public " ++ key ++ message)
  verify key message signature := if key = "" then none else some (key ++ message = signature)
  base64url := id
  fromBase64url := id
  sha256Hex := id
  signs _ _ := ⟨_, rfl⟩
  verifies _ _ _ h := by
    rw [if_neg (by simp)]
    exact congrArg some (decide_eq_true (Option.some.inj h))
  decodes _ := rfl

/-- The first start dies within the private key, the second after it; the third signs a
receipt, which the fourth is there to verify. -/
def sampleEvents : List Event :=
  [.request none, .advance 0, .next, .next, .tearPrivate 1, .restart,
    .request none, .advance 0, .next, .next, .next, .next, .restart,
    .request (some .null), .advance 0, .next, .next, .next, .next, .next, .advance 0, .advance 0, .restart,
    .request none, .advance 0, .next, .next]

theorem receipts_outlive_sample : ∃ w p, run (step sampleCrypto) initial sampleEvents = some w ∧
    w.signingProvider = some p ∧ w.receipts.length = 1 ∧ ∀ receipt ∈ w.receipts, Verified sampleCrypto w p receipt := by
  have hwhole : ∀ kept, .tearPublic kept ∉ sampleEvents := by simp [sampleEvents]
  exact ⟨_, _, rfl, rfl, rfl, (receipts_outlive_restarts sampleCrypto hwhole rfl rfl).1⟩

/-! ## A torn public key -/

/-- Both files are there, and the constructor writes neither. -/
structure Settled (crypto : Crypto) (privateKey publicKey : String) (w : World) : Prop where
  privateFile : w.directory.privateFile = some privateKey
  publicFile : w.directory.publicFile = some publicKey
  phase : w.phase = .idle ∨ w.phase = .readPrivate ∨ w.phase = .readPublic privateKey
  loaded : ∀ p, w.signingProvider = some p → p = ofKeys crypto privateKey publicKey

variable {privateKey publicKey : String}

theorem Settled.construct (h : Settled crypto privateKey publicKey w)
    (hstep : SigningKeys.construct crypto w = some v) : Settled crypto privateKey publicKey v := by
  unfold SigningKeys.construct at hstep
  rcases h.phase with hw | hw | hw <;> rw [hw] at hstep <;> dsimp only at hstep
  · cases hstep
  · rw [h.privateFile] at hstep
    obtain rfl := Option.some.inj hstep
    exact { h with phase := .inr (.inr rfl) }
  · rw [h.publicFile] at hstep
    obtain rfl := Option.some.inj hstep
    exact { h with
      phase := .inl rfl
      loaded := fun _ hp => (Option.some.inj hp).symm }

theorem Settled.advance (h : Settled crypto privateKey publicKey w)
    (hstep : SigningKeys.advance crypto w i call = some v) : Settled crypto privateKey publicKey v := by
  unfold SigningKeys.advance at hstep
  split at hstep
  · exact Option.some.inj hstep ▸ { h with phase := .inr (.inl rfl) }
  · exact Option.some.inj hstep ▸ { h with }
  · obtain ⟨payload, -, rfl⟩ := Option.map_eq_some_iff.mp hstep
    split <;> exact { h with }
  · cases hstep
  · cases hstep

theorem Settled.step (h : Settled crypto privateKey publicKey w) {e : Event} (hstep : step crypto w e = some v) :
    Settled crypto privateKey publicKey v := by
  cases e with
  | request payload =>
    obtain ⟨-, hv⟩ := Option.ite_none_right_eq_some.mp hstep
    exact Option.some.inj hv ▸ { h with }
  | advance i =>
    obtain ⟨-, hv⟩ := Option.ite_none_right_eq_some.mp hstep
    obtain ⟨call, -, hv⟩ := Option.bind_eq_some_iff.mp hv
    exact h.advance hv
  | next => exact h.construct hstep
  | fail =>
    obtain ⟨-, hv⟩ := Option.ite_none_left_eq_some.mp hstep
    exact Option.some.inj hv ▸ { h with phase := .inl rfl }
  | tearPrivate kept =>
    simp only [SigningKeys.step] at hstep
    rcases h.phase with hw | hw | hw <;> rw [hw] at hstep <;> cases hstep
  | tearPublic kept =>
    simp only [SigningKeys.step] at hstep
    rcases h.phase with hw | hw | hw <;> rw [hw] at hstep <;> cases hstep
  | restart =>
    exact Option.some.inj hstep ▸ { h with
      phase := .inl rfl
      loaded := fun _ hp => nomatch hp }

theorem Inv.torn (h : Inv crypto w) {kept : ℕ} (hstep : SigningKeys.step crypto w (.tearPublic kept) = some v) :
    ∃ n, Settled crypto (crypto.generateKeyPairSync n).privateKey
      (firstChars (crypto.generateKeyPairSync n).publicKey kept) v := by
  have hphase := h.phase
  simp only [SigningKeys.step] at hstep
  split at hstep
  next keys hw =>
    obtain rfl := Option.some.inj hstep
    rw [hw] at hphase
    obtain ⟨hnone, hprivate, n, rfl⟩ := hphase
    exact ⟨n, hprivate, rfl, .inl rfl, fun p hp => absurd hnone (h.loaded p hp).public_ne_none⟩
  · cases hstep

end ModelForge.SigningKeys
