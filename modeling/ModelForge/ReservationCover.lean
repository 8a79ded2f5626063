import ModelForge.ChatHandler
import ModelForge.PiiRedaction

set_option autoImplicit false

/-!
# What a reservation covers

The tokens that the chat handler reserves before it routes a request, and the
prompt and the completion limit that it passes to the engine after redaction and
retrieval.
-/
namespace ModelForge.ReservationCover
open ChatHandler (ChatPlan)
open EventStream (JsString js)
open PiiRedaction (redact between unit findingCount)

/-! ## Messages -/

def isWhiteSpace (u : UInt16) : Bool := LlamaPool.isWhiteSpace (Char.ofNat u.toNat)

def trim (text : JsString) : JsString :=
  ((text.dropWhile isWhiteSpace).reverse.dropWhile isWhiteSpace).reverse

inductive Role where
  | system
  | user
  | assistant
  | tool
deriving DecidableEq

/-- A part of a message; only its text goes on. -/
structure ContentPart where
  type : JsString
  text : Option JsString

inductive Content where
  | text (s : JsString)
  | parts (ps : List ContentPart)

structure ChatMessage where
  role : Role
  content : Content

structure ChatTurn where
  role : Role
  content : JsString
deriving DecidableEq

def normalizeMessages (messages : List ChatMessage) : List ChatTurn :=
  messages.map fun m =>
    { role := m.role
      content := match m.content with
        | .text s => s
        | .parts ps =>
          (js "\n").intercalate ((ps.map fun part => part.text.getD []).filter (· ≠ [])) }

def coalescable (role : Role) : Bool := role = .user || role = .assistant

/-- One turn of the loop that merges consecutive messages of a side. -/
def coalesceTurn (output : List ChatTurn) (message : ChatTurn) : List ChatTurn :=
  if trim message.content = [] then output
  else
    match output.getLast? with
    | some last =>
      if last.role = message.role && coalescable message.role then
        output.dropLast ++
          [{ last with content := trim (last.content ++ js "\n\n" ++ message.content) }]
      else output ++ [message]
    | none => output ++ [message]

def coalesceAlternatingRoles (messages : List ChatTurn) : List ChatTurn :=
  messages.foldl coalesceTurn []

structure ChatRequest where
  messages : List ChatMessage
  max_tokens : ℕ
  knowledge_base_ids : List String

def ChatRequest.conversation (request : ChatRequest) : List ChatTurn :=
  coalesceAlternatingRoles (normalizeMessages request.messages)

def characters (messages : List ChatTurn) : ℕ := (messages.map fun m => m.content.length).sum

/-- The handler's estimate of a prompt, four characters a token. -/
def estimate (messages : List ChatTurn) : ℕ := (characters messages + 3) / 4

/-- The plan of an account, for the size of this request. -/
def planned (account : ChatPlan) (request : ChatRequest) : ChatPlan :=
  { account with
    promptCharacters := characters request.conversation
    maxTokens := request.max_tokens
    knowledgeBases := request.knowledge_base_ids.length }

def reservedTokens (account : ChatPlan) (request : ChatRequest) : ℤ :=
  if (planned account request).needsReservation then (planned account request).estimatedTokens
  else 0

/-! ## Retrieval -/

structure RetrievalHit where
  documentTitle : JsString
  content : JsString

inductive Mode where
  | passages
  | catalog
deriving DecidableEq

def passageCharBudget (contextLength : ℤ) : ℤ := max 800 (contextLength * 9 / 10)

def fitFrom (budget : ℤ) : List RetrievalHit → List RetrievalHit → ℕ → List RetrievalHit
  | [], fitted, _ => fitted
  | hit :: hits, fitted, used =>
    if fitted.length > 0 ∧ ((used + hit.content.length : ℕ) : ℤ) > budget then fitted
    else fitFrom budget hits (fitted ++ [hit]) (used + hit.content.length)

def fitHitsToBudget (hits : List RetrievalHit) (contextLength : ℤ) : List RetrievalHit :=
  let fitted := fitFrom (passageCharBudget contextLength) hits [] 0
  if fitted.length > 0 then fitted else hits.take 1

/-- What the knowledge bases have for a query: passages in the order of their rank, or a catalog. -/
inductive Knowledge where
  | ranked (hits : List RetrievalHit)
  | catalog (hits : List RetrievalHit)

structure RetrievalResult where
  hits : List RetrievalHit
  mode : Mode

def retrieveCustomerKnowledge (contextLength : ℤ) : Knowledge → RetrievalResult
  | .ranked hits =>
    { hits := if contextLength ≠ 0 then fitHitsToBudget hits contextLength else hits
      mode := .passages }
  | .catalog hits => { hits := hits, mode := .catalog }

def GROUNDED_SYSTEM_PROMPT : JsString := js (
  "Answer using ONLY the knowledge passages below. " ++
  "If a passage lists steps or a procedure, include every step in order — do not shorten it to one sentence. " ++
  "If several passages apply, combine them. " ++
  "If the passages do not contain the answer, say that you do not have that information — in the same language as the user. " ++
  "When the user writes Bangla, do not reply with the English words \"I do not know\". " ++
  "Do not invent facts. " ++
  "Always answer in the user's language. Passages may mix Bangla and English; translate the facts, keep official menu names. " ++
  "When giving instructions, address the user as you (Bangla: আপনি), not I (আমি).")

def CATALOG_SYSTEM_PROMPT : JsString := js (
  "The user asked what is in their knowledge base. Answer from the catalog below. " ++
  "List each knowledge base and its documents, and briefly say what they cover. " ++
  "Do not say you do not know. Do not invent extra documents. " ++
  "Always answer in the user's language. When the user writes Bangla, answer in Bangla.")

def lastUserQuery (messages : List ChatTurn) : JsString :=
  match messages.reverse.find? fun m => m.role = .user && trim m.content ≠ [] with
  | some m => m.content
  | none => []

/-- `\p{Script=Bengali}`, as ranges of code units -/
def bengaliRanges : List (ℕ × ℕ) :=
  [(0x980, 0x983), (0x985, 0x98C), (0x98F, 0x990), (0x993, 0x9A8), (0x9AA, 0x9B0), (0x9B2, 0x9B2),
    (0x9B6, 0x9B9), (0x9BC, 0x9C4), (0x9C7, 0x9C8), (0x9CB, 0x9CE), (0x9D7, 0x9D7), (0x9DC, 0x9DD),
    (0x9DF, 0x9E3), (0x9E6, 0x9FE)]

def isBengali (u : UInt16) : Bool :=
  bengaliRanges.any fun r => r.1 ≤ u.toNat && u.toNat ≤ r.2

def prefersBanglaReply (query : JsString) : Bool :=
  let bangla := query.countP isBengali
  let latin := query.countP PiiRedaction.letter
  bangla ≥ 4 && bangla ≥ latin

def replyLanguageDirective (query : JsString) : JsString :=
  if prefersBanglaReply query then js (
    "Language lock: The user wrote Bangla. Write the entire answer in Bangla script. " ++
    "Do not write paragraphs in English. Keep only official labels in Latin " ++
    "(e-Return, TIN, Return submission, Assessment) if they appear in the passages. " ++
    "Address the user as আপনি, never as আমি. Do not copy the user's first-person phrasing. " ++
    "Use second-person instructions (করুন, যান, দিন).\n" ++
    "ভাষা: ব্যবহারকারী বাংলায় প্রশ্ন করেছেন। পুরো উত্তর বাংলায় লিখুন। ইংরেজিতে অনুচ্ছেদ লিখবেন না। " ++
    "ব্যবহারকারীকে আপনি বলে সম্বোধন করুন, আমি নয়। প্রশ্নের আমি কপি করবেন না।")
  else js "Language lock: Reply in the same language as the user. Address the user as you, not I."

def passage (index : ℕ) (hit : RetrievalHit) : JsString :=
  js "[" ++ js (toString (index + 1)) ++ js "] " ++ hit.documentTitle ++ js "\n" ++ hit.content

def passagesText (hits : List RetrievalHit) : JsString :=
  if hits.length = 0 then js (
    "No relevant passages were found. Tell the user you do not have that information, " ++
    "in the same language they used.")
  else (js "\n\n").intercalate (hits.mapIdx passage)

def grounding (messages : List ChatTurn) (result : RetrievalResult) : ChatTurn :=
  { role := .system
    content :=
      (if result.mode = .catalog then CATALOG_SYSTEM_PROMPT else GROUNDED_SYSTEM_PROMPT) ++
      js "\n\nKnowledge " ++ js (if result.mode = .catalog then "catalog" else "passages") ++
      js ":\n" ++ passagesText result.hits ++ js "\n\n" ++
      replyLanguageDirective (lastUserQuery messages) }

def applyRetrievalContext (messages : List ChatTurn) (result : RetrievalResult) : List ChatTurn :=
  grounding messages result :: messages.filter fun m => m.role ≠ .system

/-! ## The call of the engine -/

def estimatePromptTokens (text : JsString) : ℕ := max 1 ((text.length + 1) / 2)

def clampMaxTokens (contextLength : ℤ) (messages : List ChatTurn) (requested : ℕ) : ℤ :=
  let prompt : ℕ := (messages.map fun m => estimatePromptTokens m.content).sum + 96
  let room := contextLength - prompt
  max 48 (min requested (max 48 room))

/-- What a request meets on its way: the redaction's switch, the model's context and its knowledge. -/
structure Surroundings where
  applyPii : Bool
  contextLength : ℤ
  knowledge : Knowledge

variable (request : ChatRequest) (s : Surroundings)

def redactedMessages : List ChatTurn :=
  if s.applyPii then
    request.conversation.map fun m => { m with content := (redact m.content).text }
  else request.conversation

def inferenceMessages : List ChatTurn :=
  if request.knowledge_base_ids.length > 0 then
    applyRetrievalContext (redactedMessages request s)
      (retrieveCustomerKnowledge s.contextLength s.knowledge)
  else redactedMessages request s

def completionTokensLimit : ℤ :=
  clampMaxTokens s.contextLength (inferenceMessages request s) request.max_tokens

/-! ## Sizes -/

theorem clampMaxTokens_ge (contextLength : ℤ) (messages : List ChatTurn) (requested : ℕ) :
    48 ≤ clampMaxTokens contextLength messages requested := le_max_left _ _

theorem clampMaxTokens_le (contextLength : ℤ) (messages : List ChatTurn) (requested : ℕ) :
    clampMaxTokens contextLength messages requested ≤ max 48 (requested : ℤ) := by
  dsimp only [clampMaxTokens]
  omega

theorem characters_cons (m : ChatTurn) (messages : List ChatTurn) :
    characters (m :: messages) = m.content.length + characters messages := List.sum_cons

theorem characters_filter_le (keep : ChatTurn → Bool) (messages : List ChatTurn) :
    characters (messages.filter keep) ≤ characters messages := by
  induction messages with
  | nil => exact le_rfl
  | cons m messages ih =>
    rw [List.filter_cons, characters_cons]
    split
    · rw [characters_cons]
      omega
    · omega

def redactionFindings : ℕ :=
  if s.applyPii then
    (request.conversation.map fun m => findingCount (redact m.content).findings).sum
  else 0

theorem characters_redact_le (messages : List ChatTurn) :
    characters (messages.map fun m => { m with content := (redact m.content).text }) ≤
      characters messages +
        10 * (messages.map fun m => findingCount (redact m.content).findings).sum := by
  induction messages with
  | nil => exact le_rfl
  | cons m messages ih =>
    have hm := PiiRedaction.length_redact m.content
    simp only [List.map_cons, characters_cons, List.sum_cons]
    omega

theorem characters_redactedMessages_le : characters (redactedMessages request s) ≤
    characters request.conversation + 10 * redactionFindings request s := by
  unfold redactedMessages redactionFindings
  split
  · exact characters_redact_le request.conversation
  · exact Nat.le_add_right _ _

/-- The length of the system message that retrieval puts in front. -/
def groundingLength : ℕ :=
  if request.knowledge_base_ids.length > 0 then
    (grounding (redactedMessages request s)
      (retrieveCustomerKnowledge s.contextLength s.knowledge)).content.length
  else 0

theorem characters_inferenceMessages_le : characters (inferenceMessages request s) ≤
    groundingLength request s + characters (redactedMessages request s) := by
  unfold inferenceMessages groundingLength
  split
  · rw [applyRetrievalContext, characters_cons]
    exact Nat.add_le_add_left (characters_filter_le _ _) _
  · exact Nat.le_add_left _ _

theorem groundingLength_le :
    groundingLength request s ≤ characters (inferenceMessages request s) := by
  unfold inferenceMessages groundingLength
  split
  · rw [applyRetrievalContext, characters_cons]
    exact Nat.le_add_right _ _
  · exact Nat.zero_le _

theorem sum_length_le_intercalate {α : Type} (separator : List α) (ls : List (List α)) :
    (ls.map List.length).sum ≤ (separator.intercalate ls).length := by
  induction ls with
  | nil => exact Nat.zero_le _
  | cons l ls ih =>
    cases ls with
    | nil => simp [List.intercalate]
    | cons l' ls =>
      simp only [List.intercalate, List.map_cons, List.sum_cons, List.intersperse_cons_cons,
        List.flatten_cons, List.length_append] at ih ⊢
      omega

theorem sum_length_le_mapIdx (hits : List RetrievalHit) (f : ℕ → RetrievalHit → JsString)
    (hf : ∀ i hit, hit.content.length ≤ (f i hit).length) :
    (hits.map fun hit => hit.content.length).sum ≤ ((hits.mapIdx f).map List.length).sum := by
  induction hits generalizing f with
  | nil => exact le_rfl
  | cons hit hits ih =>
    have hhit := hf 0 hit
    have htail := ih (fun i => f (i + 1)) (fun i => hf (i + 1))
    simp only [List.map_cons, List.mapIdx_cons, List.sum_cons]
    omega

/-- Every passage goes into the prompt. -/
theorem passages_le_grounding (messages : List ChatTurn) (result : RetrievalResult) :
    (result.hits.map fun hit => hit.content.length).sum ≤
      (grounding messages result).content.length := by
  have hpassages : (result.hits.map fun hit => hit.content.length).sum ≤
      (passagesText result.hits).length := by
    unfold passagesText
    split
    next h => simp [List.eq_nil_of_length_eq_zero h]
    next =>
      apply (sum_length_le_mapIdx result.hits passage _).trans (sum_length_le_intercalate _ _)
      intro i hit
      simp only [passage, List.length_append]
      omega
  simp only [grounding, List.length_append]
  omega

/-! ## The cover -/

/-- The tokens for which the reservation has no room: ten characters a marker, what a grounding
has beyond the 4,096 characters of its allowance, and the floor of the completion limit. -/
def unreserved : ℕ :=
  (10 * redactionFindings request s + (groundingLength request s - 4096) + 3) / 4 +
    (48 - request.max_tokens)

theorem estimate_le (account : ChatPlan) :
    (estimate (inferenceMessages request s) : ℤ) + max 48 (request.max_tokens : ℤ) ≤
      (planned account request).estimatedTokens + unreserved request s := by
  have hinference := characters_inferenceMessages_le request s
  have hredacted := characters_redactedMessages_le request s
  have hlimit : max 48 request.max_tokens = request.max_tokens + (48 - request.max_tokens) := by
    omega
  have hprompt : estimate (inferenceMessages request s) + (48 - request.max_tokens) ≤
      max 64 ((characters request.conversation + 3) / 4) +
        (if request.knowledge_base_ids.length > 0 then 1024 else 0) + unreserved request s := by
    unfold estimate unreserved
    by_cases hbases : request.knowledge_base_ids.length > 0
    · rw [if_pos hbases]
      omega
    · rw [if_neg hbases]
      have hnone : groundingLength request s = 0 := if_neg hbases
      omega
  dsimp only [ChatPlan.estimatedTokens, planned]
  split at hprompt
  next hbases =>
    rw [if_pos hbases]
    omega
  next hbases =>
    rw [if_neg hbases]
    omega

/-- The completion limit keeps to its floor and to what was asked for; the prompt's estimate and
the limit fit in the reservation but for the tokens that it leaves out. -/
theorem reservation_covers (account : ChatPlan)
    (h : (planned account request).needsReservation = true) :
    48 ≤ completionTokensLimit request s ∧
    completionTokensLimit request s ≤ max 48 (request.max_tokens : ℤ) ∧
    (estimate (inferenceMessages request s) : ℤ) + completionTokensLimit request s ≤
      reservedTokens account request + unreserved request s ∧
    (redactionFindings request s = 0 → groundingLength request s ≤ 4096 →
      48 ≤ request.max_tokens → completionTokensLimit request s ≤ request.max_tokens ∧
        (estimate (inferenceMessages request s) : ℤ) + completionTokensLimit request s ≤
          reservedTokens account request) := by
  have hle := clampMaxTokens_le s.contextLength (inferenceMessages request s) request.max_tokens
  have hcover := estimate_le request s account
  have hreserved : reservedTokens account request = (planned account request).estimatedTokens :=
    if_pos h
  rw [hreserved]
  unfold completionTokensLimit
  refine ⟨clampMaxTokens_ge _ _ _, hle, by omega, ?_⟩
  intro hfindings hgrounding hmax
  have hnone : unreserved request s = 0 := by
    unfold unreserved
    omega
  rw [hnone] at hcover
  constructor
  · omega
  · omega

def sampleRequest (content : JsString) (max_tokens : ℕ) : ChatRequest :=
  { messages := [⟨.user, .text content⟩], max_tokens := max_tokens, knowledge_base_ids := [] }

def samplePassage : RetrievalHit := ⟨js "FAQ", List.replicate 800 (unit 'a')⟩

def sampleSurroundings : Surroundings :=
  { applyPii := true
    contextLength := 8192
    knowledge := .ranked (List.replicate 6 samplePassage) }

def groundedRequest : ChatRequest :=
  { sampleRequest (js "how?") 48 with knowledge_base_ids := ["kb"] }

def addresses : JsString := (List.replicate 16 (js "a@b.cc ")).flatten

theorem length_samplePassage : samplePassage.content.length = 800 := by
  rw [samplePassage, List.length_replicate]

theorem characters_grounded :
    4800 ≤ characters (inferenceMessages groundedRequest sampleSurroundings) := by
  have hhits : ((List.replicate 6 samplePassage).map fun hit => hit.content.length).sum = 4800 := by
    rw [List.map_replicate, List.sum_replicate, length_samplePassage]
    rfl
  have hfit : fitHitsToBudget (List.replicate 6 samplePassage) 8192 =
      List.replicate 6 samplePassage := by
    simp [fitHitsToBudget, fitFrom, passageCharBudget, length_samplePassage, List.replicate_succ]
  have hretrieved : retrieveCustomerKnowledge sampleSurroundings.contextLength
      sampleSurroundings.knowledge = ⟨List.replicate 6 samplePassage, .passages⟩ := by
    simp only [retrieveCustomerKnowledge, sampleSurroundings, hfit]
    rfl
  calc 4800
    _ = ((List.replicate 6 samplePassage).map fun hit => hit.content.length).sum := hhits.symm
    _ ≤ (grounding (redactedMessages groundedRequest sampleSurroundings)
          ⟨List.replicate 6 samplePassage, .passages⟩).content.length :=
      passages_le_grounding _ ⟨List.replicate 6 samplePassage, .passages⟩
    _ = groundingLength groundedRequest sampleSurroundings := by
      have hbases : groundedRequest.knowledge_base_ids.length > 0 := Nat.one_pos
      rw [groundingLength, hretrieved, if_pos hbases]
    _ ≤ _ := groundingLength_le groundedRequest sampleSurroundings

theorem characters_addresses :
    characters (inferenceMessages (sampleRequest addresses 48) sampleSurroundings) = 272 := by
  have hconversation : (sampleRequest addresses 48).conversation = [⟨.user, addresses⟩] := by
    decide +kernel
  have hredacted : (redact addresses).text.length = 272 := by decide +kernel
  have hsent : inferenceMessages (sampleRequest addresses 48) sampleSurroundings =
      redactedMessages (sampleRequest addresses 48) sampleSurroundings := if_neg (Nat.lt_irrefl 0)
  rw [hsent, redactedMessages, hconversation]
  simp only [sampleSurroundings, if_true, List.map_cons, List.map_nil, characters_cons, hredacted]
  rfl

/-- A limit of one token; sixteen short addresses; six passages of 800 characters. -/
theorem allowances_exceeded :
    ¬ completionTokensLimit (sampleRequest (js "hi") 1) sampleSurroundings ≤ 1 ∧
    ¬ ((estimate (inferenceMessages (sampleRequest addresses 48) sampleSurroundings) : ℤ) +
        completionTokensLimit (sampleRequest addresses 48) sampleSurroundings ≤
      reservedTokens ChatHandler.samplePlan (sampleRequest addresses 48)) ∧
    ¬ ((estimate (inferenceMessages groundedRequest sampleSurroundings) : ℤ) +
        completionTokensLimit groundedRequest sampleSurroundings ≤
      reservedTokens ChatHandler.samplePlan groundedRequest) := by
  have hlimit (request : ChatRequest) : 48 ≤ completionTokensLimit request sampleSurroundings :=
    clampMaxTokens_ge _ _ _
  constructor
  · have := hlimit (sampleRequest (js "hi") 1)
    omega
  constructor
  · have hreserved : reservedTokens ChatHandler.samplePlan (sampleRequest addresses 48) = 112 := by
      decide +kernel
    have := hlimit (sampleRequest addresses 48)
    rw [hreserved, estimate, characters_addresses]
    omega
  · have hreserved : reservedTokens ChatHandler.samplePlan groundedRequest = 1136 := by
      decide +kernel
    have := hlimit groundedRequest
    have := characters_grounded
    rw [hreserved, estimate]
    omega

theorem reservation_covers_hi :
    completionTokensLimit (sampleRequest (js "hi") 256) sampleSurroundings ≤ 256 ∧
    (estimate (inferenceMessages (sampleRequest (js "hi") 256) sampleSurroundings) : ℤ) +
      completionTokensLimit (sampleRequest (js "hi") 256) sampleSurroundings ≤
        reservedTokens ChatHandler.samplePlan (sampleRequest (js "hi") 256) :=
  (reservation_covers (sampleRequest (js "hi") 256) sampleSurroundings ChatHandler.samplePlan
    (by decide +kernel)).2.2.2 (by decide +kernel) (by decide +kernel) (by decide)

end ModelForge.ReservationCover
