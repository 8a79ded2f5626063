import ModelForge.EchoGeneration
import ModelForge.LlamaGeneration
import ModelForge.ValueParse

set_option autoImplicit false

/-!
# From the engine to the customer

What the Rust engine sends for a request, through the service, the gRPC call, the
gateway's event stream and the bytes of the connection, to the message that the web
client shows.
-/
namespace ModelForge.EngineReply
open EventStream (FinishReason JsString Reply Turn Value buildChunk errorMessage events js natural onChunk receive
  stringify toSse wire)
open LlamaGeneration (Llama generate_real)
open ModelPool (EngineError)
open StopSequences (GenerateParams GenerateToken Text)
open StreamDecoding (Reader utf8)
open StreamRoundTrip (Readable)
open ValueParse (Listed Parsed)

/-! ## The service -/

def code : EngineError → String
  | .ModelNotFound _ => "MODEL_NOT_FOUND"
  | .ModelUnavailable _ => "MODEL_UNAVAILABLE"
  | .Oom _ => "OOM"
  | .InvalidArgument _ => "INVALID_ARGUMENT"
  | .Internal _ => "INTERNAL"

/-- The `Display` of an error. -/
def display : EngineError → String
  | .ModelNotFound message => "model not found: " ++ message
  | .ModelUnavailable message => "model unavailable: " ++ message
  | .Oom message => "out of memory: " ++ message
  | .InvalidArgument message => "invalid argument: " ++ message
  | .Internal message => "internal: " ++ message

inductive StatusCode where
  | NOT_FOUND
  | INVALID_ARGUMENT
  | UNAVAILABLE
  | DEADLINE_EXCEEDED
  | INTERNAL
  deriving DecidableEq, Repr

structure Status where
  code : StatusCode
  message : String
  deriving DecidableEq, Repr

def status_from (err : EngineError) : Status where
  code := match err with
    | .ModelNotFound _ => .NOT_FOUND
    | .InvalidArgument _ => .INVALID_ARGUMENT
    | .Oom _ | .ModelUnavailable _ => .UNAVAILABLE
    | .Internal _ => .INTERNAL
  message := code err ++ ": " ++ display err

/-- The start of the service's `generate`; the temperature and the nucleus are the
sampler's. -/
def generate (req : GenerateParams) : Except Status GenerateParams :=
  if req.model_id = [] then .error ⟨.INVALID_ARGUMENT, "model_id required"⟩
  else if req.messages = [] then .error ⟨.INVALID_ARGUMENT, "messages required"⟩
  else .ok { req with max_tokens := if req.max_tokens ≤ 0 then 512 else req.max_tokens }

/-- A handle of a resident model, with or without real weights. -/
inductive Handle where
  | echo
  | real (model : Option Llama)

def render_chat (messages : List StopSequences.ChatMessage) : Text :=
  (messages.flatMap fun m => "<|".toList ++ m.role ++ "|>\n".toList ++ m.content ++ ['\n']) ++
    "<|assistant|>\n".toList

/-- What the pool answers, what it estimates of a prompt, and when the thread of the
llama loop finds its channel closed. -/
structure Engine where
  ensure_loaded : Text → Except EngineError Handle
  estimate_tokens : Text → ℤ
  btx : ℕ → Bool

/-- `generate_stream`, for a receiver that stays open. -/
def Engine.generate_stream (engine : Engine) (params : GenerateParams) : List (Except EngineError GenerateToken) :=
  let prompt := render_chat params.messages
  match engine.ensure_loaded params.model_id with
  | .error e => [.error e]
  | .ok .echo => (EchoGeneration.generate_echo params (engine.estimate_tokens prompt) fun _ => true).1.map .ok
  | .ok (.real model) =>
    (generate_real model params prompt (engine.estimate_tokens prompt) engine.btx fun _ => true).1

/-- The task between the engine's channel and the response stream. -/
def relay : List (Except EngineError GenerateToken) → List (Except Status GenerateToken)
  | [] => []
  | .ok tok :: rest => if tok.is_final then [.ok tok] else .ok tok :: relay rest
  | .error e :: rest => .error (status_from e) :: relay rest

/-! ## The gateway -/

/-- What the call yields before it ends, and the status that it fails with. -/
def received : List (Except Status GenerateToken) → List GenerateToken × Option Status
  | [] => ([], none)
  | .ok tok :: rest => (tok :: (received rest).1, (received rest).2)
  | .error status :: _ => ([], some status)

def Engine.call (engine : Engine) (req : GenerateParams) : List GenerateToken × Option Status :=
  match generate req with
  | .error status => ([], some status)
  | .ok params => received (relay (engine.generate_stream params))

def units (text : Text) : JsString := js (String.ofList text)

def toChunk (tok : GenerateToken) : EventStream.GenerateChunk where
  delta := units tok.delta
  prompt_tokens := tok.prompt_tokens.toNat
  completion_tokens := tok.completion_tokens
  is_final := tok.is_final
  finish_reason := js tok.finish_reason

/-- `mapGrpcError` of the error that the client library makes of a status; `text` is the
error's own message. -/
def mapGrpcError (text : Status → String) (status : Status) : String × String :=
  let details := if status.message ≠ "" then status.message
    else if text status ≠ "" then text status else "engine error"
  match status.code with
  | .NOT_FOUND => ("MODEL_NOT_FOUND", details)
  | .UNAVAILABLE => ("MODEL_UNAVAILABLE", details)
  | .DEADLINE_EXCEEDED => ("DEADLINE_EXCEEDED", details)
  | .INVALID_ARGUMENT => ("INVALID_ARGUMENT", details)
  | .INTERNAL => if "OOM".toList <:+: details.toList then ("OOM", details) else ("INTERNAL", text status)

structure ApiError where
  type : String
  message : String
  status : ℕ
  retryAfter : Option ℕ
  deriving DecidableEq, Repr

def mapEngineError (code message : String) : ApiError :=
  let orElse (default : String) := if message = "" then default else message
  if code = "MODEL_NOT_FOUND" then ⟨"model_not_found", orElse "Model not found", 404, none⟩
  else if code = "MODEL_UNAVAILABLE" ∨ code = "OOM" ∨ code = "LOAD_FAILED" then
    ⟨"model_unavailable", orElse "Model temporarily unavailable", 503, some 30⟩
  else if code = "DEADLINE_EXCEEDED" then ⟨"timeout", orElse "Inference timed out", 504, none⟩
  else if code = "INVALID_ARGUMENT" then ⟨"invalid_request", orElse "Invalid request", 400, none⟩
  else ⟨"server_error", orElse "Internal server error", 500, none⟩

variable (text : Status → String)

def apiError (status : Status) : ApiError :=
  mapEngineError (mapGrpcError text status).1 (mapGrpcError text status).2

def errorEvent (e : ApiError) : Value :=
  .object [(js "error", .object [(js "type", .string (js e.type)), (js "message", .string (js e.message))])]

/-- The events of the streaming branch and of its `catch`: the loop is left at a final
chunk, so a failure behind it is never seen. -/
def respond (reply : Reply) (clock : ℕ → ℕ) (chunks : List EventStream.GenerateChunk) (failure : Option Status) :
    List Value :=
  events reply clock chunks ++
    match failure with
    | some status => if chunks.any fun chunk => chunk.is_final then [] else [errorEvent (apiError text status)]
    | none => []

/-- The text of the whole response. -/
def Engine.response (engine : Engine) (reply : Reply) (clock : ℕ → ℕ) (req : GenerateParams) : List Char :=
  let (tokens, failure) := engine.call req
  wire (respond text reply clock (tokens.map toChunk) failure)

/-! ## What the customer is shown -/

/-- How the engine's reply ends: with a final token, a failure, or neither. -/
inductive Ending where
  | final (reason : String)
  | failed (status : Status)
  | closed
  deriving DecidableEq

/-- The text that the engine has said when its reply ends. -/
def spoken : List (Except EngineError GenerateToken) → Text × Ending
  | [] => ([], .closed)
  | .ok tok :: rest =>
    if tok.is_final then (tok.delta, .final tok.finish_reason)
    else (tok.delta ++ (spoken rest).1, (spoken rest).2)
  | .error e :: _ => ([], .failed (status_from e))

def Engine.said (engine : Engine) (req : GenerateParams) : Text × Ending :=
  match generate req with
  | .error status => ([], .failed status)
  | .ok params => spoken (engine.generate_stream params)

/-- A reply ends by the length, an error or a stop. -/
def finishReason (reason : String) : FinishReason :=
  if reason = "length" then .length else if reason = "error" then .error else .stop

def shown (reply : Reply) (said : Text × Ending) : EventStream.ChatMessage :=
  let sources := reply.sources.map Prod.snd
  match said.2 with
  | .final reason => ⟨units said.1, some (finishReason reason).text, false, sources⟩
  | .failed status =>
    ⟨if units said.1 = [] then js (apiError text status).message else units said.1, some (js "error"), true, sources⟩
  | .closed => ⟨units said.1, none, false, sources⟩

/-! ## From the engine to the gateway -/

/-- What a call yields, against what the engine has said. -/
inductive Carried : List GenerateToken × Option Status → Text × Ending → Prop
  | final {init : List GenerateToken} {last : GenerateToken} (hinit : ∀ tok ∈ init, tok.is_final = false)
      (hlast : last.is_final = true) :
      Carried (init ++ [last], none) ((init ++ [last]).flatMap GenerateToken.delta, .final last.finish_reason)
  | failed {init : List GenerateToken} {status : Status} (hinit : ∀ tok ∈ init, tok.is_final = false) :
      Carried (init, some status) (init.flatMap GenerateToken.delta, .failed status)
  | closed {init : List GenerateToken} (hinit : ∀ tok ∈ init, tok.is_final = false) :
      Carried (init, none) (init.flatMap GenerateToken.delta, .closed)

theorem Carried.cons {call : List GenerateToken × Option Status} {said : Text × Ending} (h : Carried call said)
    {tok : GenerateToken} (htok : tok.is_final = false) :
    Carried (tok :: call.1, call.2) (tok.delta ++ said.1, said.2) := by
  cases h with
  | final hinit hlast => exact .final (List.forall_mem_cons.mpr ⟨htok, hinit⟩) hlast
  | failed hinit => exact .failed (List.forall_mem_cons.mpr ⟨htok, hinit⟩)
  | closed hinit => exact .closed (List.forall_mem_cons.mpr ⟨htok, hinit⟩)

theorem carried (items : List (Except EngineError GenerateToken)) : Carried (received (relay items)) (spoken items) := by
  induction items with
  | nil => exact .closed (List.forall_mem_nil _)
  | cons item rest ih =>
    cases item with
    | error e => exact .failed (List.forall_mem_nil _)
    | ok tok =>
      cases hfinal : tok.is_final with
      | false =>
        simp only [relay, spoken, received, hfinal, Bool.false_eq_true, if_false]
        exact ih.cons hfinal
      | true =>
        have hone : Carried ([] ++ [tok], none) _ := .final (List.forall_mem_nil _) hfinal
        simpa [relay, spoken, received, hfinal] using hone

theorem Engine.call_carried (engine : Engine) (req : GenerateParams) : Carried (engine.call req) (engine.said req) := by
  unfold Engine.call Engine.said
  split
  · exact .failed (List.forall_mem_nil _)
  · exact carried _

theorem units_append (a b : Text) : units (a ++ b) = units a ++ units b := by
  simp [units, js, CanonicalJson.utf16]

theorem flatMap_toChunk (tokens : List GenerateToken) :
    (tokens.map toChunk).flatMap EventStream.GenerateChunk.delta = units (tokens.flatMap GenerateToken.delta) := by
  induction tokens with
  | nil => rfl
  | cons tok rest ih =>
    rw [List.map_cons, List.flatMap_cons, List.flatMap_cons, units_append, ih]
    rfl

theorem finishReason_toChunk (tok : GenerateToken) : (toChunk tok).finishReason = finishReason tok.finish_reason := by
  simp only [EventStream.GenerateChunk.finishReason, toChunk, finishReason, StreamRoundTrip.js_inj]

theorem open_toChunk {init : List GenerateToken} (hinit : ∀ tok ∈ init, tok.is_final = false) :
    ∀ chunk ∈ init.map toChunk, chunk.is_final = false := by
  intro chunk hchunk
  obtain ⟨tok, htok, rfl⟩ := List.mem_map.mp hchunk
  exact hinit tok htok

/-! ## From the gateway to the client -/

variable {readNumber : List Char → Option JsonText.JsNumber} {text} {reply : Reply} {clock : ℕ → ℕ}

theorem parsed_natural (hnumber : ∀ n, readNumber (natural n).chars = some (natural n)) (n : ℕ) :
    Parsed readNumber (.number (natural n)) := .number (hnumber n)

theorem parsed_buildChunk (hnumber : ∀ n, readNumber (natural n).chars = some (natural n)) (created : ℕ)
    (input : EventStream.ChunkInput) : Parsed readNumber (buildChunk created input) := by
  have hdelta : Parsed readNumber (.object
      ((if input.role then [(js "role", .string (js "assistant"))] else []) ++
        (input.delta.map fun delta => (js "content", .string delta)).toList)) := by
    cases input.role <;> cases input.delta
    · exact .object (by decide +kernel : Listed []) (List.forall_mem_nil _)
    · exact .object (by decide +kernel : Listed [js "content"]) (List.forall_mem_singleton.mpr (.string _))
    · exact .object (by decide +kernel : Listed [js "role"]) (List.forall_mem_singleton.mpr (.string _))
    · refine .object (by decide +kernel : Listed [js "role", js "content"]) ?_
      exact List.forall_mem_cons.mpr ⟨.string _, List.forall_mem_singleton.mpr (.string _)⟩
  have hreason : Parsed readNumber ((input.finishReason.map fun reason => Value.string reason.text).getD .null) := by
    cases input.finishReason with
    | none => exact .null
    | some reason => exact .string _
  have hchoice : Parsed readNumber (.array [.object
      [(js "index", .number (natural 0)),
       (js "delta", .object
         ((if input.role then [(js "role", .string (js "assistant"))] else []) ++
           (input.delta.map fun delta => (js "content", .string delta)).toList)),
       (js "finish_reason", (input.finishReason.map fun reason => .string reason.text).getD .null)]]) := by
    refine .array (List.forall_mem_singleton.mpr (.object ?_ ?_))
    · exact (by decide +kernel : Listed [js "index", js "delta", js "finish_reason"])
    · simp only [List.forall_mem_cons]
      exact ⟨parsed_natural hnumber 0, hdelta, hreason, List.forall_mem_nil _⟩
  unfold buildChunk
  cases input.usage with
  | none =>
    refine .object ?_ ?_
    · exact (by decide +kernel : Listed [js "id", js "object", js "created", js "model", js "choices"])
    · simp only [List.forall_mem_append, List.forall_mem_cons]
      exact ⟨⟨.string _, .string _, parsed_natural hnumber _, .string _, hchoice, List.forall_mem_nil _⟩,
        List.forall_mem_nil _⟩
  | some usage =>
    have husage : Parsed readNumber (.object
        [(js "prompt_tokens", .number (natural usage.prompt_tokens)),
         (js "completion_tokens", .number (natural usage.completion_tokens)),
         (js "total_tokens", .number (natural usage.total_tokens))]) := by
      refine .object ?_ ?_
      · exact (by decide +kernel : Listed [js "prompt_tokens", js "completion_tokens", js "total_tokens"])
      · simp only [List.forall_mem_cons]
        exact ⟨parsed_natural hnumber _, parsed_natural hnumber _, parsed_natural hnumber _, List.forall_mem_nil _⟩
    refine .object ?_ ?_
    · exact (by decide +kernel : Listed [js "id", js "object", js "created", js "model", js "choices", js "usage"])
    · simp only [List.forall_mem_append, List.forall_mem_cons]
      refine ⟨⟨.string _, .string _, parsed_natural hnumber _, .string _, hchoice, List.forall_mem_nil _⟩, ?_⟩
      exact List.forall_mem_singleton.mpr husage

theorem parsed_errorEvent (e : ApiError) : Parsed readNumber (errorEvent e) := by
  have herror : Parsed readNumber (.object [(js "type", .string (js e.type)), (js "message", .string (js e.message))]) := by
    refine .object ?_ ?_
    · exact (by decide +kernel : Listed [js "type", js "message"])
    · simp only [List.forall_mem_cons]
      exact ⟨.string _, .string _, List.forall_mem_nil _⟩
  refine .object ?_ (List.forall_mem_singleton.mpr herror)
  exact (by decide +kernel : Listed [js "error"])

/-- The line of an event, whatever the client makes of its value. -/
theorem feed_event {parse : List Char → Option Value} {t : Turn} (ht : t.over = false)
    (members : List (JsString × Value)) (rest : List Char) :
    Reader.feed '\n' (EventStream.onLine parse) ⟨[], t⟩ (toSse (.object members) ++ rest) =
      Reader.feed '\n' (EventStream.onLine parse) ⟨[], EventStream.onData parse t (stringify (.object members))⟩ rest := by
  obtain ⟨inner, hframed⟩ : ∃ inner, stringify (.object members) = '\x7b' :: (inner ++ ['\x7d']) := ⟨_, by rw [stringify]⟩
  have hline : '\n' ∉ "data: ".toList ++ stringify (.object members) := by
    apply StreamRoundTrip.Printable.newline_notMem
    apply StreamRoundTrip.Printable.append _ (StreamRoundTrip.printable_stringify _)
    simp [StreamRoundTrip.Printable]
  rw [StreamRoundTrip.toSse_append, Reader.feed_line _ _ hline, Reader.feed_line _ _ List.not_mem_nil,
    StreamRoundTrip.onLine_nil, hframed, StreamRoundTrip.onLine_data ht (by decide) (by decide), ← hframed]

theorem feed_events {parse : List Char → Option Value} {values : List Value} (h : ∀ v ∈ values, Readable parse v)
    {t : Turn} (ht : t.over = false) (rest : List Char) :
    Reader.feed '\n' (EventStream.onLine parse) ⟨[], t⟩ (values.flatMap toSse ++ rest) =
      Reader.feed '\n' (EventStream.onLine parse) ⟨[], { t with message := values.foldl onChunk t.message }⟩ rest := by
  induction values generalizing t with
  | nil => rfl
  | cons v values ih =>
    obtain ⟨hv, hvalues⟩ := List.forall_mem_cons.mp h
    rw [List.flatMap_cons, List.append_assoc, StreamRoundTrip.feed_toSse hv ht, ih hvalues (by exact ht)]
    rfl

theorem errorMessage_errorEvent (e : ApiError) : errorMessage (errorEvent e) = js e.message := by
  simp [errorMessage, errorEvent, Value.member, Value.string?, List.lookup]

theorem message_ne_empty (c message : String) : (mapEngineError c message).message ≠ "" := by
  unfold mapEngineError
  by_cases hempty : message = ""
  · simp only [hempty, if_true]
    split_ifs <;> decide
  · simp only [hempty, if_false]
    split_ifs <;> exact hempty

theorem js_ne_nil {s : String} (h : s ≠ "") : js s ≠ [] := by
  intro heq
  exact h (StreamRoundTrip.js_injective heq)

/-- After the events of a failure the client throws its message and reads no further. -/
theorem feed_failure {values : List Value} (h : ∀ v ∈ values, Readable (ValueParse.parse readNumber) v) {e : ApiError}
    (he : e.message ≠ "") {t : Turn} (ht : t.over = false) :
    (Reader.feed '\n' (EventStream.onLine (ValueParse.parse readNumber)) ⟨[], t⟩ (wire (values ++ [errorEvent e]))).state =
      { t with message := values.foldl onChunk t.message, thrown := some (js e.message) } := by
  have hwire : wire (values ++ [errorEvent e]) =
      values.flatMap toSse ++ (toSse (errorEvent e) ++ EventStream.doneEvent) := by
    simp [wire]
  have hdone : stringify (errorEvent e) ≠ "[DONE]".toList := by
    rw [errorEvent, stringify]
    simp
  have hthrown : ∀ u : Turn, EventStream.onData (ValueParse.parse readNumber) u (stringify (errorEvent e)) =
      { u with thrown := some (js e.message) } := by
    intro u
    rw [EventStream.onData, if_neg hdone, ValueParse.parse_stringify (parsed_errorEvent e)]
    simp only [errorEvent]
    rw [← errorEvent, errorMessage_errorEvent, if_pos (js_ne_nil he)]
  rw [hwire, feed_events h ht, errorEvent, feed_event (by exact ht), ← errorEvent, hthrown,
    StreamRoundTrip.feed_over (by simp [Turn.over])]

/-! ## The events of a reply -/

/-- What chunks in a row say: their deltas, and the reason that one of them has. -/
def Written (values : List Value) (content : JsString) (reason : Option JsString) : Prop :=
  ∃ inputs : List (ℕ × EventStream.ChunkInput), values = inputs.map (fun input => buildChunk input.1 input.2) ∧
    (inputs.flatMap fun input => input.2.delta.getD []) = content ∧
    inputs.foldl (fun reason input => (input.2.finishReason.map FinishReason.text).or reason) none = reason

/-- A stream without a final chunk, by induction on the chunks. -/
theorem streamed_open (reply : Reply) (clock : ℕ → ℕ) {init : List EventStream.GenerateChunk}
    (hinit : ∀ chunk ∈ init, chunk.is_final = false) (k promptTokens completionTokens : ℕ) (content : JsString) :
    ∃ inputs : List (ℕ × EventStream.ChunkInput),
      EventStream.streamed reply clock k promptTokens completionTokens content init =
        inputs.map (fun input => buildChunk input.1 input.2) ∧
      (inputs.flatMap fun input => input.2.delta.getD []) = init.flatMap EventStream.GenerateChunk.delta ∧
      ∀ reason, inputs.foldl (fun reason input =>
        (input.2.finishReason.map FinishReason.text).or reason) reason = reason := by
  induction init generalizing k promptTokens completionTokens content with
  | nil => exact ⟨[], rfl, rfl, fun _ => rfl⟩
  | cons chunk init ih =>
    obtain ⟨hchunk, hinit⟩ := List.forall_mem_cons.mp hinit
    obtain ⟨inputs, hwritten, hdelta, hreason⟩ := StreamRoundTrip.written_eq reply (clock k) chunk
    rw [EventStream.streamed]
    simp only [hchunk, Bool.false_eq_true, if_false, hwritten]
    obtain ⟨more, hmore, hmoreDelta, hmoreReason⟩ := ih hinit
      (k + (inputs.map fun input => buildChunk input.1 input.2).length)
      (if chunk.prompt_tokens = 0 then promptTokens else chunk.prompt_tokens)
      (if chunk.completion_tokens = 0 then completionTokens else chunk.completion_tokens)
      (content ++ chunk.delta)
    refine ⟨inputs ++ more, ?_, ?_, ?_⟩
    · rw [hmore, List.map_append]
    · rw [List.flatMap_append, hdelta, hmoreDelta, List.flatMap_cons]
    · intro reason
      rw [List.foldl_append, hreason, hmoreReason]

theorem written_open (reply : Reply) (clock : ℕ → ℕ) {init : List EventStream.GenerateChunk}
    (hinit : ∀ chunk ∈ init, chunk.is_final = false) :
    Written (EventStream.streamed reply clock (1 + reply.retrieval.length) 0 0 [] init)
      (init.flatMap EventStream.GenerateChunk.delta) none := by
  obtain ⟨inputs, hstreamed, hdelta, hreason⟩ :=
    streamed_open reply clock hinit (1 + reply.retrieval.length) 0 0 []
  exact ⟨inputs, hstreamed, hdelta, hreason none⟩

theorem written_final (reply : Reply) (clock : ℕ → ℕ) {init : List EventStream.GenerateChunk}
    {last : EventStream.GenerateChunk} (hinit : ∀ chunk ∈ init, chunk.is_final = false) (hlast : last.is_final = true) :
    Written (EventStream.streamed reply clock (1 + reply.retrieval.length) 0 0 [] (init ++ [last]))
      ((init ++ [last]).flatMap EventStream.GenerateChunk.delta) (some last.finishReason.text) := by
  obtain ⟨inputs, hstreamed, hdelta, hreason⟩ :=
    StreamRoundTrip.streamed_eq reply clock hinit hlast [] (1 + reply.retrieval.length) 0 0 []
  exact ⟨inputs, hstreamed, hdelta, hreason none⟩

variable {chunks : List EventStream.GenerateChunk} {content : JsString} {reason : Option JsString}

theorem events_readable (hnumber : ∀ n, readNumber (natural n).chars = some (natural n))
    (hsources : ∀ v ∈ reply.retrieval, Parsed readNumber v)
    (h : Written (EventStream.streamed reply clock (1 + reply.retrieval.length) 0 0 [] chunks) content reason) :
    ∀ v ∈ events reply clock chunks, Readable (ValueParse.parse readNumber) v := by
  obtain ⟨inputs, hstreamed, -, -⟩ := h
  have hbuild : ∀ created input, Readable (ValueParse.parse readNumber) (buildChunk created input) := fun created input =>
    ValueParse.readable (parsed_buildChunk hnumber created input) ⟨_, rfl⟩ (StreamRoundTrip.errorMessage_buildChunk _ _)
  intro v hv
  rw [events, List.mem_cons, List.mem_append, hstreamed] at hv
  rcases hv with rfl | hv | hv
  · exact hbuild _ _
  · exact StreamRoundTrip.readable_retrieval hv (ValueParse.parse_stringify (hsources v hv))
  · obtain ⟨input, -, rfl⟩ := List.mem_map.mp hv
    exact hbuild _ _

theorem foldl_events
    (h : Written (EventStream.streamed reply clock (1 + reply.retrieval.length) 0 0 [] chunks) content reason) :
    (events reply clock chunks).foldl onChunk Turn.start.message =
      ⟨content, reason, false, reply.sources.map Prod.snd⟩ := by
  obtain ⟨inputs, hstreamed, hdelta, hreason⟩ := h
  rw [events, List.foldl_cons, StreamRoundTrip.onChunk_buildChunk, List.foldl_append, hstreamed,
    StreamRoundTrip.foldl_retrieval _ _ rfl, StreamRoundTrip.foldl_buildChunk, hdelta]
  simp [Turn.start, hreason]

/-! ## The whole way -/

theorem any_open {init : List EventStream.GenerateChunk} (hinit : ∀ chunk ∈ init, chunk.is_final = false) :
    (init.any fun chunk => chunk.is_final) = false := by
  rw [List.any_eq_false]
  intro chunk hchunk
  rw [hinit chunk hchunk]
  exact Bool.false_ne_true

/-- One case for each way in which a reply ends. -/
theorem Carried.shown {call : List GenerateToken × Option Status} {said : Text × Ending} (h : Carried call said)
    (text : Status → String) (hnumber : ∀ n, readNumber (natural n).chars = some (natural n))
    (hsources : ∀ v ∈ reply.retrieval, Parsed readNumber v) :
    (Reader.feed '\n' (EventStream.onLine (ValueParse.parse readNumber)) ⟨[], .start⟩
      (wire (respond text reply clock (call.1.map toChunk) call.2))).state.settled = shown text reply said := by
  unfold respond EngineReply.shown
  cases h with
  | @final init last hinit hlast =>
    have hfinal : (toChunk last).is_final = true := hlast
    have hwritten := written_final reply clock (open_toChunk hinit) hfinal
    rw [List.append_nil, List.map_append, List.map_singleton,
      StreamRoundTrip.feed_wire (events_readable hnumber hsources hwritten) rfl, foldl_events hwritten,
      finishReason_toChunk, ← flatMap_toChunk, List.map_append, List.map_singleton]
    rfl
  | @failed init status hinit =>
    have hwritten := written_open reply clock (open_toChunk hinit)
    have hmessage : (apiError text status).message ≠ "" := message_ne_empty _ _
    simp only [any_open (open_toChunk hinit), Bool.false_eq_true, if_false]
    rw [feed_failure (events_readable hnumber hsources hwritten) hmessage rfl, foldl_events hwritten, ← flatMap_toChunk]
    rfl
  | @closed init hinit =>
    have hwritten := written_open reply clock (open_toChunk hinit)
    rw [List.append_nil, StreamRoundTrip.feed_wire (events_readable hnumber hsources hwritten) rfl,
      foldl_events hwritten, ← flatMap_toChunk]
    rfl

/-- The customer is shown what the engine says, and how it ends, however the bytes of the
response are cut. -/
theorem customer_is_shown (engine : Engine) (text : Status → String) (reply : Reply) (clock : ℕ → ℕ)
    (req : GenerateParams) (hnumber : ∀ n, readNumber (natural n).chars = some (natural n))
    (hsources : ∀ v ∈ reply.retrieval, Parsed readNumber v) (pieces : List (List UInt8))
    (hpieces : pieces.flatten = utf8.encodeAll (engine.response text reply clock req)) :
    (receive (ValueParse.parse readNumber) (utf8.decodeEach [] pieces)).settled =
      shown text reply (engine.said req) := by
  rw [StreamRoundTrip.receive_eq, utf8.decodeEach_flatten hpieces]
  exact (engine.call_carried req).shown text hnumber hsources

/-- Natural numbers, read back from their digits. -/
def readNatural (cs : List Char) : Option JsonText.JsNumber :=
  if (natural (Nat.ofDigitChars 10 cs 0)).chars = cs then some (natural (Nat.ofDigitChars 10 cs 0)) else none

theorem readNatural_natural (n : ℕ) : readNatural (natural n).chars = some (natural n) := by
  have hdigits : Nat.ofDigitChars 10 (natural n).chars 0 = n := Nat.ofDigitChars_ten_toDigits
  rw [readNatural, hdigits, if_pos rfl]

section Sample

/-- A model that says one word and then cannot go on. -/
def sampleLlama : Llama where
  backend := .ok ()
  new_context := .ok ()
  new_message := fun _ => true
  apply_chat_template := fun _ => none
  str_to_token := fun _ => .ok 3
  add_prompt := .ok ()
  decode_prompt := .ok ()
  sample := fun _ => .token (some "é".toList)
  add_token := fun _ => .ok ()
  decode_token := fun _ => .error "no kv slot"

def sampleEngine : Engine := ⟨fun _ => .ok (.real (some sampleLlama)), fun text => text.length, fun _ => true⟩

def sampleRequest : GenerateParams := ⟨['m'], [⟨"user".toList, "Hi".toList⟩], 0, []⟩

def sampleReply : Reply := ⟨js "chatcmpl", js "m", none, 2⟩

/-- The response, cut at every byte. -/
def samplePieces : List (List UInt8) :=
  (utf8.encodeAll (sampleEngine.response Status.message sampleReply id sampleRequest)).map ([·])

theorem customer_is_shown_failure :
    (receive (ValueParse.parse readNatural) (utf8.decodeEach [] samplePieces)).settled =
        shown Status.message sampleReply (sampleEngine.said sampleRequest) ∧
      sampleEngine.said sampleRequest = ("é".toList, .failed ⟨.INTERNAL, "INTERNAL: internal: decode token: no kv slot"⟩) := by
  have hpieces : samplePieces.flatten =
      utf8.encodeAll (sampleEngine.response Status.message sampleReply id sampleRequest) := by
    rw [samplePieces, ← List.flatMap_def]
    exact List.flatMap_singleton' _
  refine ⟨?_, by decide +kernel⟩
  exact customer_is_shown sampleEngine Status.message sampleReply id sampleRequest readNatural_natural nofun
    samplePieces hpieces

end Sample

/-! ## A model without weights -/

theorem spoken_final {others : List GenerateToken} {last : GenerateToken}
    (hothers : ∀ tok ∈ others, tok.is_final = false) (hlast : last.is_final = true) :
    spoken ((others ++ [last]).map .ok) = ((others ++ [last]).flatMap GenerateToken.delta, .final last.finish_reason) := by
  induction others with
  | nil => simp [spoken, hlast]
  | cons tok others ih =>
    obtain ⟨htok, hothers⟩ := List.forall_mem_cons.mp hothers
    rw [List.cons_append, List.map_cons, spoken, htok, ih hothers]
    rfl

/-- The service's default for a request that gives no limit. -/
def withLimit (req : GenerateParams) : GenerateParams :=
  { req with max_tokens := if req.max_tokens ≤ 0 then 512 else req.max_tokens }

/-- Of a model without weights the customer is shown the echo, up to where it ends: after
the first stop sequence, at the limit, or as a whole. -/
theorem echo_is_shown (engine : Engine) (text : Status → String) (reply : Reply) (clock : ℕ → ℕ)
    (req : GenerateParams) (hnumber : ∀ n, readNumber (natural n).chars = some (natural n))
    (hsources : ∀ v ∈ reply.retrieval, Parsed readNumber v) (pieces : List (List UInt8))
    (hpieces : pieces.flatten = utf8.encodeAll (engine.response text reply clock req))
    (hmodel : req.model_id ≠ []) (hmessages : req.messages ≠ [])
    (hecho : engine.ensure_loaded req.model_id = .ok .echo) :
    ∃ n reason, EchoGeneration.EndsAt (EchoGeneration.echoReply req) req.stop_sequences (withLimit req).limit n reason ∧
      (∀ j < n, StopSequences.hit_stop ((EchoGeneration.echoReply req).take j) req.stop_sequences = false) ∧
      (receive (ValueParse.parse readNumber) (utf8.decodeEach [] pieces)).settled =
        ⟨units ((EchoGeneration.echoReply req).take n), some (js reason), false, reply.sources.map Prod.snd⟩ := by
  have hgenerate : generate req = .ok (withLimit req) := by
    rw [generate, if_neg hmodel, if_neg hmessages]
    rfl
  obtain ⟨n, reason, hechoed⟩ := EchoGeneration.generate_echo_echoed (withLimit req)
    (engine.estimate_tokens (render_chat (withLimit req).messages))
  obtain ⟨others, delta, hsent, hothers⟩ := hechoed.final
  have hsaid : engine.said req = ((EchoGeneration.echoReply req).take n, .final reason) := by
    have hload : engine.ensure_loaded (withLimit req).model_id = .ok .echo := hecho
    have htext := hechoed.text_eq
    unfold Engine.said
    rw [hgenerate]
    dsimp only
    unfold Engine.generate_stream
    rw [hload]
    dsimp only
    rw [hsent] at htext ⊢
    rw [spoken_final hothers rfl, htext]
    rfl
  have hreason : (finishReason reason).text = js reason := by
    cases hechoed.ends <;> rfl
  refine ⟨n, reason, hechoed.ends, hechoed.before, ?_⟩
  rw [StreamRoundTrip.receive_eq, utf8.decodeEach_flatten hpieces]
  have hshown := @Carried.shown _ reply clock _ _ (engine.call_carried req) text hnumber hsources
  rw [hsaid] at hshown
  rw [← hreason]
  exact hshown

section Sample

def echoEngine : Engine := ⟨fun _ => .ok .echo, fun text => text.length, fun _ => true⟩

/-- The reply has a stop sequence behind its model's name. -/
def stopRequest : GenerateParams := ⟨['m'], [⟨"user".toList, "Hi".toList⟩], 0, [[')']]⟩

def stopPieces : List (List UInt8) :=
  (utf8.encodeAll (echoEngine.response Status.message sampleReply id stopRequest)).map ([·])

theorem echo_is_shown_stopped :
    ∃ n reason, EchoGeneration.EndsAt (EchoGeneration.echoReply stopRequest) [[')']] 512 n reason ∧
      (∀ j < n, StopSequences.hit_stop ((EchoGeneration.echoReply stopRequest).take j) [[')']] = false) ∧
      (receive (ValueParse.parse readNatural) (utf8.decodeEach [] stopPieces)).settled =
        ⟨units ((EchoGeneration.echoReply stopRequest).take n), some (js reason), false, none⟩ := by
  have hpieces : stopPieces.flatten =
      utf8.encodeAll (echoEngine.response Status.message sampleReply id stopRequest) := by
    rw [stopPieces, ← List.flatMap_def]
    exact List.flatMap_singleton' _
  exact echo_is_shown echoEngine Status.message sampleReply id stopRequest readNatural_natural nofun stopPieces hpieces
    (by decide) (by decide) rfl

end Sample

/-! ## What a failure says -/

/-- The engine's message reaches the customer word for word, but for an internal error that
does not speak of memory. -/
theorem apiError_status_from (e : EngineError) : apiError text (status_from e) =
    match e with
    | .ModelNotFound _ => ⟨"model_not_found", code e ++ ": " ++ display e, 404, none⟩
    | .ModelUnavailable _ | .Oom _ => ⟨"model_unavailable", code e ++ ": " ++ display e, 503, some 30⟩
    | .InvalidArgument _ => ⟨"invalid_request", code e ++ ": " ++ display e, 400, none⟩
    | .Internal _ =>
      if "OOM".toList <:+: (code e ++ ": " ++ display e).toList then
        ⟨"model_unavailable", code e ++ ": " ++ display e, 503, some 30⟩
      else ⟨"server_error", if text (status_from e) = "" then "Internal server error" else text (status_from e), 500, none⟩ := by
  have hne : code e ++ ": " ++ display e ≠ "" := by simp
  cases e with
  | Internal message =>
    simp only [apiError, mapGrpcError, status_from, ne_eq, hne, not_false_eq_true, if_true]
    split
    · simp [mapEngineError, hne]
    · rfl
  | _ => simp [apiError, mapGrpcError, status_from, mapEngineError, hne]

end ModelForge.EngineReply
