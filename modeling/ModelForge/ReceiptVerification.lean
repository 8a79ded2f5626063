import ModelForge.CanonicalJson
import ModelForge.ChatHandler

set_option autoImplicit false

/-!
# Signing receipts and verifying them

The gateway signs the canonical text of a receipt; the web route parses the
presented payload, writes it again its own way and checks the signature on that.
-/
namespace ModelForge.ReceiptVerification
open JsonText JsonMembers CanonicalJson ChatHandler

/-- Ed25519 with one key pair, and the two base64 codings of its signatures. -/
structure Ed25519 where
  Signature : Type
  publicKey : String
  sign : String → Signature
  verify : String → String → Signature → Option Bool
  base64url : Signature → String
  base64 : String → Signature
  verifies : ∀ m m', verify publicKey m (sign m') = some (decide (m = m'))
  decodes : ∀ s, base64 (String.ofList ((base64url s).toList.map
    fun c => if c = '-' then '+' else if c = '_' then '/' else c)) = s
  nonempty : ∀ s, base64url s ≠ ""

structure PayloadSignature where
  keyId : String
  signature : String
  payloadHash : String
  algorithm : String

/-- `signPayload` of a provider; verification does not read the hash. -/
def signPayload (ed : Ed25519) (sha256Hex : String → String) (keyId : String) (payload : JsValue) :
    Except CanonicalError PayloadSignature := do
  let canonical ← canonicalStringify payload
  return { keyId := keyId
           signature := ed.base64url (ed.sign canonical)
           payloadHash := sha256Hex canonical
           algorithm := "Ed25519" }

structure SigningKey where
  publicKey : String
  algorithm : String
  revokedAt : Option ℤ

structure VerifyBody where
  payload : Option String
  signature : Option String
  keyId : Option String

structure VerifyResponse where
  status : ℕ
  ok : Bool
  error : Option String := none
  message : Option String := none
  payloadHash : Option String := none
  algorithm : Option String := none

/-- An absent or empty field of the body counts as missing. -/
def given (field : Option String) : Option String := field.filter fun s => s ≠ ""

def isWhiteSpace (c : Char) : Bool :=
  c.toNat ∈ [9, 10, 11, 12, 13, 32, 160, 5760, 8192, 8193, 8194, 8195, 8196, 8197, 8198, 8199, 8200,
    8201, 8202, 8232, 8233, 8239, 8287, 12288, 65279]

/-- `s.trim().startsWith("\x7b")`. -/
def trimmedStartsWithBrace (s : String) : Bool :=
  (((s.toList.dropWhile isWhiteSpace).reverse.dropWhile isWhiteSpace).reverse).head? = some '\x7b'

/-- The text the route checks the signature on; `none` where parsing throws. -/
def verifiedText (c : Collation) (parser : JsonParser) (payload : String) : Option String :=
  if trimmedStartsWithBrace payload then (parser.parse payload).map (stableStringify c)
  else some payload

def POST (c : Collation) (parser : JsonParser) (ed : Ed25519) (sha256Hex : String → String)
    (findUnique : String → Option SigningKey) (thrown : String) (body : VerifyBody) : VerifyResponse :=
  match given body.payload, given body.signature, given body.keyId with
  | some payload, some signature, some keyId =>
    match findUnique keyId with
    | none => { status := 404, ok := false, error := some "Unknown or revoked signing key" }
    | some key =>
      if key.revokedAt.isSome then
        { status := 404, ok := false, error := some "Unknown or revoked signing key" }
      else
        let decoded := ed.base64 (String.ofList (signature.toList.map
          fun c => if c = '-' then '+' else if c = '_' then '/' else c))
        let checked := (verifiedText c parser payload).bind fun canonical =>
          (ed.verify key.publicKey canonical decoded).map fun ok => (canonical, ok)
        match checked with
        | none => { status := 400, ok := false, error := some thrown }
        | some (canonical, ok) =>
          { status := 200
            ok := ok
            message := some (if ok then "Signature valid" else "Signature mismatch")
            payloadHash := some (sha256Hex canonical)
            algorithm := some key.algorithm }
  | _, _, _ =>
    { status := 400, ok := false, error := some "payload, signature, and keyId are required" }

/-- A JSON object: no two of its members, at any depth, share a key. -/
structure Payload where
  members : List (String × Json)
  distinct : DistinctKeys (.object members)

def Payload.json (p : Payload) : Json := .object p.members

/-- The string that is signed and stored for a payload. -/
def Payload.canonical (p : Payload) : String := text (reorder (Arrangement.byKey codeUnitLe) p.json)

theorem canonicalStringify_payload (p : Payload) :
    canonicalStringify (toJs p.json) = .ok p.canonical := canonicalStringify_toJs p.json

theorem canonical_head (p : Payload) : p.canonical.toList.head? = some '\x7b' := by
  unfold Payload.canonical
  rw [toList_text]
  rfl

theorem startsWithBrace {s : String} (h : s.toList.head? = some '\x7b') :
    trimmedStartsWithBrace s = true := by
  have hbrace : isWhiteSpace '\x7b' = false := by decide
  obtain ⟨rest, hs⟩ : ∃ rest, s.toList = '\x7b' :: rest := by
    cases hl : s.toList with
    | nil => rw [hl] at h; cases h
    | cons c rest =>
      rw [hl] at h
      exact ⟨rest, by rw [Option.some.inj h]⟩
  unfold trimmedStartsWithBrace
  rw [hs, List.dropWhile_cons_of_neg (by rw [hbrace]; exact Bool.false_ne_true), List.reverse_cons,
    List.dropWhile_append]
  split <;> simp [hbrace]

theorem canonical_ne_empty (p : Payload) : p.canonical ≠ "" := by
  intro h
  have := canonical_head p
  rw [h] at this
  cases this

/-- A gateway whose signing key is registered and not revoked. -/
structure Deployment where
  ed : Ed25519
  sha256Hex : String → String
  keyId : String
  findUnique : String → Option SigningKey
  algorithm : String
  thrown : String
  named : keyId ≠ ""
  registered : findUnique keyId = some ⟨ed.publicKey, algorithm, none⟩

namespace Deployment
variable (d : Deployment)

def sign (payload : JsValue) : Except CanonicalError PayloadSignature :=
  signPayload d.ed d.sha256Hex d.keyId payload

def verify (c : Collation) (parser : JsonParser) (body : VerifyBody) : VerifyResponse :=
  POST c parser d.ed d.sha256Hex d.findUnique d.thrown body

/-- The payload as it is stored, with its signature and key. -/
def presented (p : Payload) : VerifyBody :=
  ⟨some p.canonical, some (d.ed.base64url (d.ed.sign p.canonical)), some d.keyId⟩

theorem sign_payload (p : Payload) : ∃ signed, d.sign (toJs p.json) = .ok signed ∧
    d.presented p = ⟨some p.canonical, some signed.signature, some signed.keyId⟩ := by
  refine ⟨⟨d.keyId, d.ed.base64url (d.ed.sign p.canonical), d.sha256Hex p.canonical, "Ed25519"⟩, ?_, rfl⟩
  rw [sign, signPayload, canonicalStringify_payload]
  rfl

/-- The route accepts a genuine payload, signature and key exactly when it
writes the parsed payload as it was signed. -/
theorem verify_presented (c : Collation) (parser : JsonParser) (p : Payload) :
    (d.verify c parser (d.presented p)).ok = true ↔
      (parser.parse p.canonical).map (stableStringify c) = some p.canonical := by
  have hpayload : given (some p.canonical) = some p.canonical := by
    simp [given, canonical_ne_empty]
  have hsignature : given (some (d.ed.base64url (d.ed.sign p.canonical))) =
      some (d.ed.base64url (d.ed.sign p.canonical)) := by
    simp [given, d.ed.nonempty]
  have hid : given (some d.keyId) = some d.keyId := by
    simp [given, d.named]
  have htext : verifiedText c parser p.canonical =
      (parser.parse p.canonical).map (stableStringify c) :=
    if_pos (startsWithBrace (canonical_head p))
  simp only [verify, presented, POST, hpayload, hsignature, hid, d.registered, htext, d.ed.decodes,
    Option.isSome_none, Bool.false_eq_true, ↓reduceIte]
  cases (parser.parse p.canonical).map (stableStringify c) with
  | none => simp
  | some s => simp [d.ed.verifies]

end Deployment

/-- Signing and verifying agree on a payload exactly when, in every object of
it, the two orders agree on the keys. -/
theorem sign_verify_agree_iff (c : Collation) (parser : JsonParser) (d : Deployment) (p : Payload) :
    ∃ s signed, canonicalStringify (toJs p.json) = .ok s ∧ d.sign (toJs p.json) = .ok signed ∧
      ((parser.parse s).map (stableStringify c) = some s ↔ KeysAgree c p.json) ∧
      ((d.verify c parser ⟨some s, some signed.signature, some signed.keyId⟩).ok = true ↔
        KeysAgree c p.json) := by
  obtain ⟨signed, hsigned, hbody⟩ := d.sign_payload p
  have hstable := restringify_iff c parser p.json p.distinct
  refine ⟨p.canonical, signed, canonicalStringify_payload p, hsigned, hstable, ?_⟩
  rw [← hbody, d.verify_presented]
  exact hstable

/-- The text of an integer, as `JSON.stringify` and `toString` write it. -/
def integerChars (n : ℤ) : List Char :=
  if n < 0 then '-' :: Nat.toDigits 10 n.natAbs else Nat.toDigits 10 n.natAbs

def integer (n : ℤ) : JsNumber where
  chars := integerChars n
  nonempty := by
    unfold integerChars
    split
    · exact List.cons_ne_nil _ _
    · exact Nat.toDigits_ne_nil
  numeric := by
    have hdigit : ∀ c ∈ Nat.toDigits 10 n.natAbs, isNumeric c = true := fun c hc => by
      simp [isNumeric, Nat.isDigit_of_mem_toDigits (by decide) (by decide) hc]
    unfold integerChars
    split
    · exact List.forall_mem_cons.mpr ⟨by decide, hdigit⟩
    · exact hdigit

def statusName : InferenceStatus → String
  | .queued => "QUEUED"
  | .running => "RUNNING"
  | .succeeded => "SUCCEEDED"
  | .failed => "FAILED"
  | .canceled => "CANCELED"
  | .rejected => "REJECTED"

def nullable (s : Option String) : Json := (s.map Json.string).getD .null

def receiptKeys : List String :=
  ["version", "requestId", "customerId", "apiKeyId", "requestedModel", "resolvedModel", "promptTokens",
    "completionTokens", "costMicros", "finishReason", "status", "usageEventId", "issuedAt"]

/-- The payload that `issueUsageReceipt` signs. -/
def receiptJson (toISOString : ℤ → String) (r : ReceiptPayload) : Payload where
  members := [
    ("version", .number (integer r.version)),
    ("requestId", .string r.requestId),
    ("customerId", .string r.customerId),
    ("apiKeyId", .string r.apiKeyId),
    ("requestedModel", .string r.requestedModel),
    ("resolvedModel", nullable r.resolvedModel),
    ("promptTokens", .number (integer r.promptTokens)),
    ("completionTokens", .number (integer r.completionTokens)),
    ("costMicros", .string (String.ofList (integerChars r.costMicros))),
    ("finishReason", nullable r.finishReason),
    ("status", .string (statusName r.status)),
    ("usageEventId", nullable r.usageEventId),
    ("issuedAt", .string (toISOString r.issuedAt))]
  distinct := by
    have hleaf : ∀ s, Everywhere List.Nodup (nullable s) := fun s => by cases s <;> trivial
    refine ⟨?_, ?_⟩
    · change receiptKeys.Nodup
      decide
    · simp only [EverywhereMembers, Everywhere, hleaf, and_self]

/-- A locale that compares letters without case first puts `requestedModel`
before `requestId`, so no receipt verifies. -/
theorem receipt_never_verifies (c : Collation) (parser : JsonParser) (d : Deployment)
    (toISOString : ℤ → String) (r : ReceiptPayload)
    (letters : c.localeCompare "requestId" "requestedModel" = .gt) :
    (d.verify c parser (d.presented (receiptJson toISOString r))).ok = false := by
  rw [← Bool.not_eq_true, d.verify_presented]
  intro hstable
  have hagree := (restringify_iff c parser _ (receiptJson toISOString r).distinct).mp hstable
  have hkeys : OrdersAgree c receiptKeys := hagree.1
  exact (hkeys "requestId" (by decide) "requestedModel" (by decide) (by decide)).1 letters

/-- The places of the printable ASCII characters other than letters. -/
def asciiOrder : List ℕ :=
  [9, 10, 11, 12, 13, 32, 95, 45, 44, 59, 58, 33, 63, 46, 39, 34, 40, 41, 91, 93, 123, 125, 64, 42, 47,
    92, 38, 35, 37, 96, 94, 43, 60, 61, 62, 124, 126, 36, 48, 49, 50, 51, 52, 53, 54, 55, 56, 57]

/-- Letters come last and compare without case; a control character has no weight. -/
def primaryWeight (c : Char) : List ℕ :=
  if c.isAlpha then [100 + c.toLower.toNat]
  else if c.toNat < 128 then (asciiOrder.idxOf? c.toNat).toList.map fun i => i + 1
  else [1000 + c.toNat]

def caseWeight (c : Char) : ℕ := if c.isUpper then 2 else 1

/-- The default collation on ASCII strings: letters without case first, then a
lower case letter before its upper case. -/
def defaultCollation : Collation where
  sortKey s := s.toList.flatMap primaryWeight ++ 0 :: s.toList.map caseWeight

/-- Reads back exactly the texts of values. -/
noncomputable def textParser : JsonParser where
  parse s := open Classical in
    if h : ∃ t, DistinctKeys t ∧ text t = s then some (reorder propertyOrder h.choose) else none
  inverts t ht := by
    have h : ∃ t', DistinctKeys t' ∧ text t' = text t := ⟨t, ht, rfl⟩
    rw [dif_pos h, text_injective h.choose_spec.2]

/-- A deployment whose signature of a text is the text's number. -/
def sampleDeployment : Deployment where
  ed :=
    { Signature := ℕ
      publicKey := "pub"
      sign := fun m => Encodable.encode (m.toList.map Char.toNat)
      verify := fun _ m s => some (decide (Encodable.encode (m.toList.map Char.toNat) = s))
      base64url := fun n => String.ofList (List.replicate (n + 1) 'A')
      base64 := fun s => s.toList.length - 1
      verifies := fun m m' => by
        congr 1
        rw [decide_eq_decide, Encodable.encode_inj,
          (List.map_injective_iff.mpr fun _ _ => Char.toNat_inj.mp).eq_iff, String.toList_inj]
      decodes := fun n => by simp
      nonempty := fun n h => by
        have := congrArg String.toList h
        simp at this }
  sha256Hex := id
  keyId := "key"
  findUnique := fun _ => some ⟨"pub", "Ed25519", none⟩
  algorithm := "Ed25519"
  thrown := "Verification failed"
  named := by decide
  registered := rfl

/-- A receipt of a finished request: the verifier writes its `requestedModel`
before its `requestId`, and refuses the genuine signature. -/
theorem genuine_receipt_refused :
    let p := receiptJson (fun _ => "2026-01-01T00:00:00.000Z")
      ⟨1, "e", "c", "k", "auto", some "small", 10, 20, 5, some "stop", .succeeded, some "u", 0⟩
    canonicalStringify (toJs p.json) = .ok p.canonical ∧
      (textParser.parse p.canonical).map (stableStringify defaultCollation) ≠ some p.canonical ∧
      (sampleDeployment.verify defaultCollation textParser (sampleDeployment.presented p)).ok = false := by
  intro p
  have hrefused : (sampleDeployment.verify defaultCollation textParser
      (sampleDeployment.presented p)).ok = false :=
    receipt_never_verifies defaultCollation textParser sampleDeployment _ _ (by decide)
  refine ⟨canonicalStringify_payload p, fun hstable => ?_, hrefused⟩
  rw [(sampleDeployment.verify_presented defaultCollation textParser p).mpr hstable] at hrefused
  cases hrefused

end ModelForge.ReceiptVerification
