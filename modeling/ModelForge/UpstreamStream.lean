import ModelForge.EventStream
import ModelForge.TextDecoder

set_option autoImplicit false

/-!
# The reply of llama-server

How `generateStream` reads the reply of the server behind it, streamed as events
or whole: which text it makes of a part, and which lines of the stream it reads.
-/
namespace ModelForge.UpstreamStream

open EventStream (JsString js)
open LlamaPool (trim)
open StreamDecoding (Reader)
open TextDecoder (Decoder)

/-! ## Responses -/

structure UpstreamPart where
  content : Option JsString
  reasoning_content : Option JsString
  deriving DecidableEq

structure UpstreamChoice where
  delta : Option UpstreamPart
  message : Option UpstreamPart
  finish_reason : Option JsString
  deriving DecidableEq

structure UpstreamUsage where
  prompt_tokens : Option ℚ
  completion_tokens : Option ℚ
  deriving DecidableEq

structure UpstreamResponse where
  choices : Option (List UpstreamChoice)
  usage : Option UpstreamUsage
  deriving DecidableEq

/-- What `JSON.parse` returns of an event's data. -/
inductive Parsed where
  | null
  | response (r : UpstreamResponse)
  deriving DecidableEq

def contentOf (part : Option UpstreamPart) : JsString := (part.bind UpstreamPart.content).getD []

def reasoningOf (part : Option UpstreamPart) : JsString :=
  (part.bind UpstreamPart.reasoning_content).getD []

def partText (part : Option UpstreamPart) (preferContentOnly : Bool) : JsString :=
  let content := contentOf part
  if preferContentOnly then content
  else if content.length ≠ 0 then content
  else reasoningOf part

theorem partText_false (part : Option UpstreamPart) :
    partText part false = if contentOf part = [] then reasoningOf part else contentOf part := by
  by_cases h : contentOf part = []
  · simp [partText, h]
  · simp [partText, h]

structure GenerateChunk where
  delta : JsString
  is_final : Bool
  prompt_tokens : ℚ
  completion_tokens : ℚ
  finish_reason : JsString
  deriving DecidableEq

def firstChoice (r : UpstreamResponse) : Option UpstreamChoice := r.choices.bind fun choices => choices[0]?

/-- The reply to a request without `stream`. -/
def generateWhole (jsonMode : Bool) (body : UpstreamResponse) : GenerateChunk where
  delta := partText ((firstChoice body).bind UpstreamChoice.message) jsonMode
  is_final := true
  prompt_tokens := (body.usage.bind UpstreamUsage.prompt_tokens).getD 0
  completion_tokens := (body.usage.bind UpstreamUsage.completion_tokens).getD 0
  finish_reason := ((firstChoice body).bind UpstreamChoice.finish_reason).getD (js "stop")

/-! ## The streamed reply -/

/-- The loop's variables, what it has yielded, and what it threw. `processed` is
no variable of the program: the data that went through the loop. -/
structure Stream where
  promptTokens : ℚ
  completionTokens : ℚ
  finishReason : JsString
  yielded : List GenerateChunk
  thrown : Option String
  processed : List Parsed
  deriving DecidableEq

def Stream.start : Stream := ⟨0, 0, js "stop", [], none, []⟩

def onResponse (jsonMode : Bool) (s : Stream) (parsed : UpstreamResponse) : Stream :=
  let s := match parsed.usage with
    | none => s
    | some usage =>
      { s with
        promptTokens := usage.prompt_tokens.getD s.promptTokens
        completionTokens := usage.completion_tokens.getD s.completionTokens }
  let choice := firstChoice parsed
  let finishReason := (choice.bind UpstreamChoice.finish_reason).getD []
  let s := if finishReason ≠ [] then { s with finishReason := finishReason } else s
  let delta := partText (choice.bind UpstreamChoice.delta) jsonMode
  if delta ≠ [] then
    { s with yielded := s.yielded ++ [⟨delta, false, s.promptTokens, s.completionTokens, []⟩] }
  else s

/-- An event's data. A generator that threw has ended. -/
def onParsed (jsonMode : Bool) (s : Stream) (parsed : Parsed) : Stream :=
  if s.thrown.isSome then s
  else
    match parsed with
    | .null => { s with thrown := some "Cannot read properties of null (reading 'usage')" }
    | .response r =>
      { onResponse jsonMode s r with processed := s.processed ++ [parsed] }

section
variable (parse : List Char → Option Parsed)

/-- The data of a line, where it has some that `JSON.parse` reads. -/
def dataOf (line : List Char) : Option Parsed :=
  let trimmed := trim line
  if "data:".toList.isPrefixOf trimmed then
    let data := trim (trimmed.drop 5)
    if data = "[DONE]".toList then none else parse data
  else none

def onLine (jsonMode : Bool) (s : Stream) (line : List Char) : Stream :=
  match dataOf parse line with
  | none => s
  | some parsed => onParsed jsonMode s parsed

/-- The loop over the chunks of the body. -/
def consume (jsonMode : Bool) (chunks : List (List UInt8)) : Reader Stream Char :=
  (Decoder.start.decodeChunks chunks).foldl (Reader.feed '\n' (onLine parse jsonMode)) ⟨[], .start⟩

/-- What the generator yields, and what it throws. -/
def generateStream (jsonMode : Bool) (chunks : List (List UInt8)) : List GenerateChunk × Option String :=
  let s := (consume parse jsonMode chunks).state
  if s.thrown.isSome then (s.yielded, s.thrown)
  else (s.yielded ++ [⟨[], true, s.promptTokens, s.completionTokens, s.finishReason⟩], none)

/-! ## The lines of a body -/

/-- The text of a whole body, with what its end makes of an incomplete character. -/
def bodyText (body : List UInt8) : List Char :=
  let (d, text) := Decoder.start.decode body
  text ++ d.flush

def terminatedLines (body : List UInt8) : List (List Char) := ((bodyText body).splitOn '\n').dropLast

/-- What follows the last newline. -/
def lastLine (body : List UInt8) : List Char := ((bodyText body).splitOn '\n').getLastD []

/-- The complete data of all lines of a body. -/
def allData (body : List UInt8) : List Parsed := ((bodyText body).splitOn '\n').filterMap (dataOf parse)

theorem allData_eq (body : List UInt8) :
    allData parse body = (terminatedLines body).filterMap (dataOf parse) ++
      (dataOf parse (lastLine body)).toList := by
  have hne : (bodyText body).splitOn '\n' ≠ [] := List.splitOn_ne_nil _ _
  have hsplit : (bodyText body).splitOn '\n' = terminatedLines body ++ [lastLine body] := by
    rw [terminatedLines, lastLine, List.getLastD_eq_getLast?, List.getLast?_eq_some_getLast hne,
      Option.getD_some, List.dropLast_append_getLast]
  rw [allData, hsplit, List.filterMap_append]
  cases hlast : dataOf parse (lastLine body) <;> simp [hlast]

/-- The end of the body makes no newline: the lines before it are those that the
loop has seen. -/
theorem terminatedLines_eq (body : List UInt8) :
    terminatedLines body = (((Decoder.start.decode body).2).splitOn '\n').dropLast := by
  have hflush : '\n' ∉ (Decoder.start.decode body).1.flush := by
    cases (Decoder.start.decode body).1.flush_cases with
    | inl h => simp [h]
    | inr h =>
      rw [h]
      decide
  have hlast : '\n' ∉ (((Decoder.start.decode body).2).splitOn '\n').getLastD [] := by
    rw [List.getLastD_eq_getLast?, List.getLast?_eq_some_getLast (List.splitOn_ne_nil _ _), Option.getD_some]
    exact StreamDecoding.not_mem_of_mem_splitOn (List.getLast_mem _)
  have htail : '\n' ∉ (((Decoder.start.decode body).2).splitOn '\n').getLastD [] ++
      (Decoder.start.decode body).1.flush := by
    rw [List.mem_append, not_or]
    exact ⟨hlast, hflush⟩
  rw [terminatedLines, bodyText, StreamDecoding.splitOn_append, List.splitOn_eq_singleton htail,
    List.dropLast_concat]

/-! ## The loop over lines -/

theorem foldl_onLine (jsonMode : Bool) (lines : List (List Char)) (s : Stream) :
    lines.foldl (onLine parse jsonMode) s = (lines.filterMap (dataOf parse)).foldl (onParsed jsonMode) s := by
  induction lines generalizing s with
  | nil => rfl
  | cons line lines ih =>
    rw [List.foldl_cons, ih, List.filterMap_cons, onLine]
    cases dataOf parse line <;> rfl

theorem consume_state (jsonMode : Bool) (chunks : List (List UInt8)) :
    (consume parse jsonMode chunks).state =
      ((terminatedLines chunks.flatten).filterMap (dataOf parse)).foldl (onParsed jsonMode) .start := by
  rw [consume, Reader.foldl_feed_start, Decoder.decodeChunks_flatten, terminatedLines_eq, ← foldl_onLine]
  rfl

end

theorem onResponse_thrown (jsonMode : Bool) (s : Stream) (r : UpstreamResponse) :
    (onResponse jsonMode s r).thrown = s.thrown := by
  unfold onResponse
  dsimp only
  cases r.usage <;> split_ifs <;> rfl

theorem foldl_onParsed_thrown {jsonMode : Bool} {s : Stream} (h : s.thrown.isSome = true)
    (data : List Parsed) : data.foldl (onParsed jsonMode) s = s := by
  induction data with
  | nil => rfl
  | cons parsed data ih =>
    have hstep : onParsed jsonMode s parsed = s := by
      unfold onParsed
      rw [if_pos h]
    rw [List.foldl_cons, hstep, ih]

/-- The data goes through up to a `null`. -/
theorem foldl_onParsed_processed {jsonMode : Bool} {s : Stream} (h : s.thrown = none)
    (data : List Parsed) :
    (data.foldl (onParsed jsonMode) s).processed = s.processed ++ data.takeWhile (· ≠ .null) := by
  induction data generalizing s with
  | nil => simp
  | cons parsed data ih =>
    rw [List.foldl_cons]
    cases parsed with
    | null =>
      have hstep : (onParsed jsonMode s .null).thrown.isSome = true := by simp [onParsed, h]
      rw [foldl_onParsed_thrown hstep]
      simp [onParsed, h]
    | response r =>
      have hthrown : (onParsed jsonMode s (.response r)).thrown = none := by
        simp [onParsed, h, onResponse_thrown]
      rw [ih hthrown]
      simp [onParsed, h]

/-- All splits of a body give one result, and all complete data of the body goes
through the loop. -/
def LosesNothing (parse : List Char → Option Parsed) (jsonMode : Bool) (body : List UInt8) : Prop :=
  (∀ chunks chunks', chunks.flatten = body → chunks'.flatten = body →
    generateStream parse jsonMode chunks = generateStream parse jsonMode chunks') ∧
  ∀ chunks, chunks.flatten = body →
    (consume parse jsonMode chunks).state.processed = allData parse body

theorem generateStream_split (parse : List Char → Option Parsed) (jsonMode : Bool)
    {chunks chunks' : List (List UInt8)} (h : chunks.flatten = chunks'.flatten) :
    generateStream parse jsonMode chunks = generateStream parse jsonMode chunks' := by
  simp only [generateStream, consume_state, h]

/-- Nothing is lost where no line's data is `null` and none follows the last newline. -/
theorem losesNothing_iff (parse : List Char → Option Parsed) (jsonMode : Bool) (body : List UInt8) :
    LosesNothing parse jsonMode body ↔
      dataOf parse (lastLine body) = none ∧ ∀ line ∈ terminatedLines body, dataOf parse line ≠ some .null := by
  have hprocessed : ∀ chunks, chunks.flatten = body →
      (consume parse jsonMode chunks).state.processed =
        ((terminatedLines body).filterMap (dataOf parse)).takeWhile (· ≠ .null) := by
    intro chunks hchunks
    rw [consume_state, hchunks, foldl_onParsed_processed rfl]
    rfl
  have hnull : (∀ line ∈ terminatedLines body, dataOf parse line ≠ some .null) ↔
      ∀ parsed ∈ (terminatedLines body).filterMap (dataOf parse), decide (parsed ≠ .null) = true := by
    simp only [List.mem_filterMap, decide_eq_true_eq]
    constructor
    · intro h parsed ⟨line, hline, hparsed⟩ hnull
      exact h line hline (hnull ▸ hparsed)
    · intro h line hline hparsed
      exact h .null ⟨line, hline, hparsed⟩ rfl
  constructor
  · intro ⟨_, hall⟩
    have hlost := hall [body] (by simp)
    rw [hprocessed [body] (by simp), allData_eq] at hlost
    -- a prefix is not longer than the list it is taken from
    have hlength := congrArg List.length hlost
    have hle := (List.takeWhile_prefix (· ≠ Parsed.null)
      (l := (terminatedLines body).filterMap (dataOf parse))).length_le
    rw [List.length_append] at hlength
    have hlast : (dataOf parse (lastLine body)).toList = [] :=
      List.length_eq_zero_iff.mp (by omega)
    rw [hlast, List.append_nil] at hlost
    exact ⟨Option.toList_eq_nil_iff.mp hlast, hnull.mpr (List.takeWhile_eq_self_iff.mp hlost)⟩
  · intro ⟨hlast, hnulls⟩
    constructor
    · intro chunks chunks' h h'
      exact generateStream_split parse jsonMode (h.trans h'.symm)
    · intro chunks hchunks
      rw [hprocessed chunks hchunks, allData_eq, hlast, List.takeWhile_eq_self_iff.mpr (hnull.mp hnulls)]
      simp

def ascii (text : String) : List UInt8 := text.toList.map fun c => UInt8.ofNat c.toNat

def usageJson : String := "\x7b\"usage\":\x7b\"prompt_tokens\":7,\"completion_tokens\":3\x7d\x7d"

/-- `JSON.parse`, on one text. -/
def parseUsage (data : List Char) : Option Parsed :=
  if data = usageJson.toList then some (.response ⟨none, some ⟨some 7, some 3⟩⟩) else none

/-- The usage of a last line without a newline is not reported. -/
theorem last_usage_lost :
    ¬ LosesNothing parseUsage false (ascii ("data: " ++ usageJson)) ∧
      generateStream parseUsage false [ascii ("data: " ++ usageJson)] =
        ([⟨[], true, 0, 0, js "stop"⟩], none) ∧
      generateStream parseUsage false [ascii ("data: " ++ usageJson ++ "\n")] =
        ([⟨[], true, 7, 3, js "stop"⟩], none) := by
  refine ⟨?_, by decide +kernel, by decide +kernel⟩
  intro h
  have hprocessed := h.2 [ascii ("data: " ++ usageJson)] (by simp)
  exact absurd hprocessed (by decide +kernel)

/-! ## Streamed and whole -/

/-- The part that a streamed response carries. -/
def deltaOf (r : UpstreamResponse) : Option UpstreamPart := (firstChoice r).bind UpstreamChoice.delta

/-- What the generator yields for a sequence of responses, put together. -/
def streamedText (jsonMode : Bool) (responses : List UpstreamResponse) : JsString :=
  ((responses.map Parsed.response).foldl (onParsed jsonMode) .start).yielded.flatMap GenerateChunk.delta

/-- A message with the whole content and the whole reasoning of the responses. -/
def wholeMessage (responses : List UpstreamResponse) : UpstreamResponse :=
  ⟨some [⟨none, some ⟨some (responses.flatMap fun r => contentOf (deltaOf r)),
    some (responses.flatMap fun r => reasoningOf (deltaOf r))⟩, some (js "stop")⟩], none⟩

theorem onResponse_text (jsonMode : Bool) (s : Stream) (r : UpstreamResponse) :
    (onResponse jsonMode s r).yielded.flatMap GenerateChunk.delta =
      s.yielded.flatMap GenerateChunk.delta ++ partText (deltaOf r) jsonMode := by
  have hdelta : partText ((firstChoice r).bind UpstreamChoice.delta) jsonMode =
      partText (deltaOf r) jsonMode := rfl
  unfold onResponse
  dsimp only
  rw [hdelta]
  by_cases hempty : partText (deltaOf r) jsonMode = []
  · rw [if_neg (not_not.mpr hempty), hempty, List.append_nil]
    cases r.usage <;> split_ifs <;> rfl
  · rw [if_pos hempty]
    cases r.usage <;> split_ifs <;> simp

theorem streamedText_eq (jsonMode : Bool) (responses : List UpstreamResponse) :
    streamedText jsonMode responses = responses.flatMap fun r => partText (deltaOf r) jsonMode := by
  have hloop : ∀ s : Stream, s.thrown = none →
      ((responses.map Parsed.response).foldl (onParsed jsonMode) s).yielded.flatMap GenerateChunk.delta =
        s.yielded.flatMap GenerateChunk.delta ++ responses.flatMap fun r => partText (deltaOf r) jsonMode := by
    induction responses with
    | nil =>
      intro s _
      simp
    | cons r responses ih =>
      intro s hs
      have hthrown : (onParsed jsonMode s (.response r)).thrown = none := by
        simp [onParsed, hs, onResponse_thrown]
      have htext : (onParsed jsonMode s (.response r)).yielded = (onResponse jsonMode s r).yielded := by
        simp [onParsed, hs]
      rw [List.map_cons, List.foldl_cons, ih _ hthrown, htext, onResponse_text, List.flatMap_cons,
        List.append_assoc]
  exact hloop .start rfl

/-- The deltas of a body whose data are these responses. -/
theorem generateStream_text (parse : List Char → Option Parsed) (jsonMode : Bool)
    (chunks : List (List UInt8)) {responses : List UpstreamResponse}
    (h : (terminatedLines chunks.flatten).filterMap (dataOf parse) = responses.map Parsed.response) :
    (generateStream parse jsonMode chunks).1.flatMap GenerateChunk.delta = streamedText jsonMode responses := by
  have hstate : (consume parse jsonMode chunks).state =
      (responses.map Parsed.response).foldl (onParsed jsonMode) .start := by
    rw [consume_state, h]
  unfold generateStream streamedText
  rw [hstate]
  dsimp only
  split_ifs <;> simp

/-- The stream is as long as its content and the reasoning of the parts without content. -/
theorem streamed_length (parts : List (Option UpstreamPart)) :
    (parts.flatMap fun part => partText part false).length =
      (parts.flatMap contentOf).length +
        (parts.flatMap fun part => if contentOf part = [] then reasoningOf part else []).length := by
  induction parts with
  | nil => rfl
  | cons part parts ih =>
    simp only [List.flatMap_cons, List.length_append, ih]
    by_cases hempty : contentOf part = []
    · simp [partText_false, hempty]
      omega
    · simp [partText_false, hempty]
      omega

/-- Streamed and whole text agree where there is no content at all, or no part
has reasoning without content. -/
theorem stream_agrees_iff (responses : List UpstreamResponse) :
    streamedText false responses = (generateWhole false (wholeMessage responses)).delta ↔
      (∀ r ∈ responses, contentOf (deltaOf r) = []) ∨
        ∀ r ∈ responses, reasoningOf (deltaOf r) ≠ [] → contentOf (deltaOf r) ≠ [] := by
  have hwhole : (generateWhole false (wholeMessage responses)).delta =
      if (responses.flatMap fun r => contentOf (deltaOf r)) = [] then
        responses.flatMap fun r => reasoningOf (deltaOf r)
      else responses.flatMap fun r => contentOf (deltaOf r) := by
    exact partText_false _
  rw [streamedText_eq, hwhole]
  by_cases hnone : ∀ r ∈ responses, contentOf (deltaOf r) = []
  · have hcontent : (responses.flatMap fun r => contentOf (deltaOf r)) = [] :=
      List.flatMap_eq_nil_iff.mpr hnone
    rw [if_pos hcontent]
    constructor
    · intro _
      exact .inl hnone
    · intro _
      apply List.flatMap_congr
      intro r hr
      rw [partText_false, if_pos (hnone r hr)]
  · have hcontent : (responses.flatMap fun r => contentOf (deltaOf r)) ≠ [] :=
      fun h => hnone (List.flatMap_eq_nil_iff.mp h)
    rw [if_neg hcontent]
    constructor
    · intro h
      right
      have hlength := streamed_length (responses.map deltaOf)
      simp only [List.flatMap_map] at hlength
      rw [h, Nat.left_eq_add, List.length_eq_zero_iff, List.flatMap_eq_nil_iff] at hlength
      intro r hr hreasoning hempty
      have := hlength r hr
      rw [if_pos hempty] at this
      exact hreasoning this
    · intro h
      apply List.flatMap_congr
      intro r hr
      by_cases hempty : contentOf (deltaOf r) = []
      · have hreasoning : reasoningOf (deltaOf r) = [] := by
          by_contra hne
          exact (h.resolve_left hnone) r hr hne hempty
        rw [partText_false, if_pos hempty, hreasoning, hempty]
      · rw [partText_false, if_neg hempty]

def thoughtThenAnswer : List UpstreamResponse :=
  [⟨some [⟨some ⟨none, some (js "thought ")⟩, none, none⟩], none⟩,
    ⟨some [⟨some ⟨some (js "answer"), none⟩, none, none⟩], none⟩]

/-- The thought is part of the streamed reply, and not of the whole one. -/
theorem thought_streamed :
    streamedText false thoughtThenAnswer = js "thought answer" ∧
      (generateWhole false (wholeMessage thoughtThenAnswer)).delta = js "answer" := by
  decide +kernel

end ModelForge.UpstreamStream
