import ModelForge.CanonicalJson
import ModelForge.LlamaPool
import ModelForge.StreamDecoding

set_option autoImplicit false

/-!
# The event stream of a chat reply

The events that the gateway's streaming branch writes with `buildChunk` and
`toSse`, and the loop of the web client that reads them. Strings are code units,
in pairs or not; what goes over the wire is text.
-/
namespace ModelForge.EventStream
open JsonText (JsNumber escapeChar hexDigit quotationMark backslash isNumeric)
open LlamaPool (trim)
open StreamDecoding (Reader utf8)

/-! ## Values and their text -/

abbrev JsString := List UInt16

def js (s : String) : JsString := (CanonicalJson.utf16 s).map UInt16.ofNat

inductive Value where
  | null
  | bool (b : Bool)
  | number (n : JsNumber)
  | string (s : JsString)
  | array (items : List Value)
  | object (members : List (JsString × Value))

def isHigh (u : UInt16) : Bool := 0xD800 ≤ u.toNat && u.toNat < 0xDC00

def isLow (u : UInt16) : Bool := 0xDC00 ≤ u.toNat && u.toNat < 0xE000

/-- The code points of a string, a surrogate that is in no pair by itself. -/
def codePoints : JsString → List JsString
  | [] => []
  | [u] => [[u]]
  | u :: v :: rest => if isHigh u && isLow v then [u, v] :: codePoints rest else [u] :: codePoints (v :: rest)

def pairChar (high low : UInt16) : Char :=
  Char.ofNat (0x10000 + (high.toNat - 0xD800) * 0x400 + (low.toNat - 0xDC00))

/-- One code unit inside a string; a surrogate that is in no pair is escaped. -/
def escapeUnit (u : UInt16) : List Char :=
  if isHigh u || isLow u then
    [backslash, 'u', hexDigit (u.toNat / 4096), hexDigit (u.toNat / 256 % 16),
      hexDigit (u.toNat / 16 % 16), hexDigit (u.toNat % 16)]
  else escapeChar (Char.ofNat u.toNat)

def escapeUnits : JsString → List Char
  | [] => []
  | [u] => escapeUnit u
  | u :: v :: rest =>
    if isHigh u && isLow v then pairChar u v :: escapeUnits rest
    else escapeUnit u ++ escapeUnits (v :: rest)

def quote (s : JsString) : List Char := quotationMark :: (escapeUnits s ++ [quotationMark])

mutual

/-- `JSON.stringify` -/
def stringify : Value → List Char
  | .null => "null".toList
  | .bool b => if b then "true".toList else "false".toList
  | .number n => n.chars
  | .string s => quote s
  | .array items => '[' :: ([','].intercalate (stringifyItems items) ++ [']'])
  | .object members => '\x7b' :: ([','].intercalate (stringifyMembers members) ++ ['\x7d'])

def stringifyItems : List Value → List (List Char)
  | [] => []
  | v :: rest => stringify v :: stringifyItems rest

def stringifyMembers : List (JsString × Value) → List (List Char)
  | [] => []
  | (k, v) :: rest => (quote k ++ ':' :: stringify v) :: stringifyMembers rest

end

def natural (n : ℕ) : JsNumber where
  chars := Nat.toDigits 10 n
  nonempty := Nat.toDigits_ne_nil
  numeric := fun c hc => by
    simp [isNumeric, Nat.isDigit_of_mem_toDigits (by decide) (by decide) hc]

namespace Value

/-- `value?.key` -/
def member (key : String) : Value → Option Value
  | .object members => members.lookup (js key)
  | _ => none

/-- `value?.[i]` -/
def item (i : ℕ) : Value → Option Value
  | .array items => items[i]?
  | _ => none

def string? : Value → Option JsString
  | .string s => some s
  | _ => none

def array? : Value → Option (List Value)
  | .array items => some items
  | _ => none

end Value

/-! ## The gateway -/

inductive FinishReason where
  | stop
  | length
  | error
  deriving DecidableEq, Repr

def FinishReason.text : FinishReason → JsString
  | .stop => js "stop"
  | .length => js "length"
  | .error => js "error"

structure Usage where
  prompt_tokens : ℕ
  completion_tokens : ℕ
  total_tokens : ℕ

structure ChunkInput where
  id : JsString
  model : JsString
  delta : Option JsString
  role : Bool
  finishReason : Option FinishReason
  usage : Option Usage

/-- `created` is the time in seconds. -/
def buildChunk (created : ℕ) (input : ChunkInput) : Value :=
  .object
    ([(js "id", .string input.id),
      (js "object", .string (js "chat.completion.chunk")),
      (js "created", .number (natural created)),
      (js "model", .string input.model),
      (js "choices", .array
        [.object
          [(js "index", .number (natural 0)),
           (js "delta", .object
             ((if input.role then [(js "role", .string (js "assistant"))] else []) ++
               (input.delta.map fun delta => (js "content", .string delta)).toList)),
           (js "finish_reason",
             (input.finishReason.map fun reason => .string reason.text).getD .null)]])] ++
     (input.usage.map fun usage =>
       (js "usage", .object
         [(js "prompt_tokens", .number (natural usage.prompt_tokens)),
          (js "completion_tokens", .number (natural usage.completion_tokens)),
          (js "total_tokens", .number (natural usage.total_tokens))])).toList)

def toSse (data : Value) : List Char := "data: ".toList ++ (stringify data ++ ['\n', '\n'])

def doneEvent : List Char := "data: [DONE]\n\n".toList

/-- What the streaming branch is given; `sources` are the knowledge bases and the
public hits of a retrieval, and `promptChars` the characters of the messages. -/
structure Reply where
  completionId : JsString
  resolvedModelSlug : JsString
  sources : Option (List Value × List Value)
  promptChars : ℕ

structure GenerateChunk where
  delta : JsString
  prompt_tokens : ℕ
  completion_tokens : ℕ
  is_final : Bool
  finish_reason : JsString

def estimateChatTokens (promptChars : ℕ) (completion : JsString) : ℕ × ℕ :=
  (max 1 ((promptChars + 3) / 4), (completion.length + 3) / 4)

def Reply.retrieval (reply : Reply) : List Value :=
  match reply.sources with
  | none => []
  | some (knowledgeBaseIds, hits) =>
    [.object [(js "modelforge", .object [(js "retrieval", .object
      [(js "knowledge_base_ids", .array knowledgeBaseIds), (js "hits", .array hits)])])]]

def GenerateChunk.finishReason (chunk : GenerateChunk) : FinishReason :=
  if chunk.finish_reason = js "length" then .length
  else if chunk.finish_reason = js "error" then .error
  else .stop

/-- The events of the `for await` loop; `clock k` is the time at the `k`th event. -/
def streamed (reply : Reply) (clock : ℕ → ℕ) :
    ℕ → ℕ → ℕ → JsString → List GenerateChunk → List Value
  | _, _, _, _, [] => []
  | k, promptTokens, completionTokens, content, chunk :: rest =>
    let promptTokens := if chunk.prompt_tokens = 0 then promptTokens else chunk.prompt_tokens
    let completionTokens :=
      if chunk.completion_tokens = 0 then completionTokens else chunk.completion_tokens
    let content := content ++ chunk.delta
    let written :=
      if chunk.delta = [] then []
      else [buildChunk (clock k)
        ⟨reply.completionId, reply.resolvedModelSlug, some chunk.delta, false, none, none⟩]
    let k := k + written.length
    if chunk.is_final then
      let (promptTokens, completionTokens) :=
        if promptTokens + completionTokens = 0 then estimateChatTokens reply.promptChars content
        else (promptTokens, completionTokens)
      written ++ [buildChunk (clock k)
        ⟨reply.completionId, reply.resolvedModelSlug, none, false, some chunk.finishReason,
          some ⟨promptTokens, completionTokens, promptTokens + completionTokens⟩⟩]
    else written ++ streamed reply clock k promptTokens completionTokens content rest

def events (reply : Reply) (clock : ℕ → ℕ) (stream : List GenerateChunk) : List Value :=
  buildChunk (clock 0) ⟨reply.completionId, reply.resolvedModelSlug, some [], true, none, none⟩ ::
    (reply.retrieval ++ streamed reply clock (1 + reply.retrieval.length) 0 0 [] stream)

def wire (events : List Value) : List Char := events.flatMap toSse ++ doneEvent

/-! ## The web client -/

structure ChatMessage where
  content : JsString
  finishReason : Option JsString
  error : Bool
  sources : Option (List Value)

/-- The assistant's message, whether the stream is complete, and the message of
an error that was thrown. -/
structure Turn where
  message : ChatMessage
  complete : Bool
  thrown : Option JsString

def Turn.start : Turn := ⟨⟨[], none, false, none⟩, false, none⟩

def Turn.over (t : Turn) : Bool := t.complete || t.thrown.isSome

/-- What the members of a `StreamChunk` do to the message; a member of another
type than the interface gives it is read as absent. -/
def onChunk (m : ChatMessage) (chunk : Value) : ChatMessage :=
  let hits := (((chunk.member "modelforge").bind (Value.member "retrieval")).bind
    (Value.member "hits")).bind Value.array?
  let m := if hits.isSome then { m with sources := hits } else m
  let choice := (chunk.member "choices").bind (Value.item 0)
  let delta := (((choice.bind (Value.member "delta")).bind (Value.member "content")).bind
    Value.string?).getD []
  let finishReason := (choice.bind (Value.member "finish_reason")).bind Value.string?
  if delta ≠ [] ∨ finishReason.getD [] ≠ [] then
    { m with content := m.content ++ delta, finishReason := finishReason.or m.finishReason }
  else m

def errorMessage (chunk : Value) : JsString :=
  (((chunk.member "error").bind (Value.member "message")).bind Value.string?).getD []

section Client

variable (parse : List Char → Option Value)

/-- One event's data; `parse` is `JSON.parse`, `none` where it throws. -/
def onData (t : Turn) (data : List Char) : Turn :=
  if data = "[DONE]".toList then { t with complete := true }
  else
    match parse data with
    | none => t
    | some .null => { t with thrown := some (js "Cannot read properties of null (reading 'error')") }
    | some chunk =>
      if errorMessage chunk ≠ [] then { t with thrown := some (errorMessage chunk) }
      else { t with message := onChunk t.message chunk }

def onLine (t : Turn) (line : List Char) : Turn :=
  if t.over then t
  else
    let trimmed := trim line
    if "data:".toList.isPrefixOf trimmed then onData parse t (trim (trimmed.drop 5)) else t

/-- One read of the loop: the buffer is split into lines, and the last is kept. -/
def onPiece (r : Reader Turn Char) (piece : List Char) : Reader Turn Char :=
  if r.state.over then r else r.feed '\n' (onLine parse) piece

/-- The loop over the texts that the decoder returns. -/
def receive (pieces : List (List Char)) : Turn := (pieces.foldl (onPiece parse) ⟨[], .start⟩).state

end Client

/-- What the `catch` leaves as the message. -/
def Turn.settled (t : Turn) : ChatMessage :=
  match t.thrown with
  | none => t.message
  | some message =>
    { t.message with
      content := if t.message.content = [] then message else t.message.content
      finishReason := some (js "error")
      error := true }

end ModelForge.EventStream
