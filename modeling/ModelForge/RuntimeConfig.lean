import ModelForge.ReservationCover
import ModelForge.ValueParse

set_option autoImplicit false

/-!
# The voice runtime file

An admin's choice of a speech model is kept in `runtime.json`, which every transcription
reads. A write truncates the file and then writes its text from the start, so two writes
at a time can leave the tail of the longer text behind the shorter one.
-/
namespace ModelForge.RuntimeConfig
open EventStream (JsString Value js quote)
open ItemReader (items items_last items_more)
open JsonParse (skipSpace)
open JsonText (JsNumber quotationMark)
open ReservationCover (trim)
open ValueParse (Listed parse readMember readValue)

inductive SttProviderId where
  | fasterWhisper
  | nemo
  | hfSpace
  deriving DecidableEq, Repr

def SttProviderId.text : SttProviderId → JsString
  | .fasterWhisper => js "faster-whisper"
  | .nemo => js "nemo"
  | .hfSpace => js "hf-space"

structure VoiceRuntimeConfig where
  provider : SttProviderId
  model : JsString
  updatedAt : JsString
  deriving DecidableEq

/-! ## The file -/

/-- A member of `JSON.stringify(next, null, 2)`, with the line break before it. -/
def memberText (key : String) (value : JsString) : List Char :=
  '\n' :: ' ' :: ' ' :: (quote (js key) ++ ':' :: ' ' :: quote value)

def fileText (config : VoiceRuntimeConfig) : List Char :=
  '\x7b' :: (memberText "provider" config.provider.text ++ ',' :: (memberText "model" config.model ++
    ',' :: (memberText "updatedAt" config.updatedAt ++ ['\n', '\x7d', '\n'])))

/-- The text is written over what is there. -/
def overwrite (text file : List Char) : List Char := text ++ file.drop text.length

def asProvider (value : JsString) : Option SttProviderId :=
  if value = js "faster-whisper" then some .fasterWhisper
  else if value = js "nemo" then some .nemo
  else if value = js "hf-space" then some .hfSpace
  else none

def configOf (parsed : Value) : Option VoiceRuntimeConfig := do
  let model ← (parsed.member "model").bind Value.string?
  if model = [] then none
  else return {
    provider := (((parsed.member "provider").bind Value.string?).bind asProvider).getD .fasterWhisper
    model := trim model
    updatedAt := ((parsed.member "updatedAt").bind Value.string?).getD (js "1970-01-01T00:00:00.000Z") }

-- the number that a run of number characters denotes, for `JSON.parse`
variable (readNumber : List Char → Option JsNumber)

/-- A file that is missing or that `JSON.parse` refuses counts as no choice. -/
def readVoiceRuntimeConfig (file : Option (List Char)) : Option VoiceRuntimeConfig :=
  (file.bind (parse readNumber)).bind configOf

/-! ## The environment -/

/-- The speech settings of the process; numbers stand as their texts. -/
structure VoiceEnv where
  STT_PROVIDER : SttProviderId
  STT_FASTER_WHISPER_MODEL : JsString
  STT_FASTER_WHISPER_DEVICE : JsString
  STT_FASTER_WHISPER_COMPUTE_TYPE : JsString
  STT_FASTER_WHISPER_BEAM_SIZE : JsString
  STT_FASTER_WHISPER_BEST_OF : JsString
  STT_FASTER_WHISPER_TEMPERATURE : JsString
  STT_FASTER_WHISPER_NO_SPEECH_THRESHOLD : JsString
  STT_PYTHON_BIN : JsString
  STT_FASTER_WHISPER_SCRIPT : JsString
  STT_NEMO_MODEL : JsString
  STT_NEMO_DEVICE : JsString
  STT_NEMO_SCRIPT : JsString
  STT_HF_SPACE_ID : JsString
  STT_HF_SPACE_URL : JsString
  STT_HF_SPACE_FN_INDEX : JsString
  HF_TOKEN : JsString
  deriving DecidableEq

def DEFAULT_HF_SPACE_ID : JsString := js "bengaliAI/regional_bengali-asr_tugstugi_whisper-medium"

def orElse (text default : JsString) : JsString := if text = [] then default else text

def resolveActiveSttSelection (env : VoiceEnv) (runtime : Option VoiceRuntimeConfig) : SttProviderId × JsString :=
  match runtime.filter fun config => config.model ≠ [] with
  | some config => (config.provider, config.model)
  | none =>
    match env.STT_PROVIDER with
    | .nemo => (.nemo, orElse (trim env.STT_NEMO_MODEL) env.STT_FASTER_WHISPER_MODEL)
    | .hfSpace => (.hfSpace, orElse (trim env.STT_HF_SPACE_ID) DEFAULT_HF_SPACE_ID)
    | .fasterWhisper => (.fasterWhisper, orElse (trim env.STT_FASTER_WHISPER_MODEL) (js "small"))

def withSelection (env : VoiceEnv) (provider : SttProviderId) (model : JsString) : VoiceEnv :=
  match provider with
  | .nemo => { env with STT_PROVIDER := .nemo, STT_NEMO_MODEL := model }
  | .hfSpace => { env with STT_PROVIDER := .hfSpace, STT_HF_SPACE_ID := model }
  | .fasterWhisper => { env with STT_PROVIDER := .fasterWhisper, STT_FASTER_WHISPER_MODEL := model }

/-- `resolveVoiceEnv`, once the runtime file has been read. -/
def resolveVoiceEnv (env : VoiceEnv) (runtime : Option VoiceRuntimeConfig) : VoiceEnv :=
  withSelection env (resolveActiveSttSelection env runtime).1 (resolveActiveSttSelection env runtime).2

/-! ## The provider -/

/-- A provider by what its constructor is given; the space's address is worked out of its
first three fields. -/
inductive SttProvider where
  | nemo (pythonBin scriptPath model device : JsString)
  | hfSpace (spaceId spaceUrl fnIndex hfToken : JsString)
  | fasterWhisper (pythonBin scriptPath model device computeType beamSize bestOf temperature
      noSpeechThreshold : JsString)
  deriving DecidableEq

def newSttProvider (env : VoiceEnv) : SttProvider :=
  match env.STT_PROVIDER with
  | .nemo => .nemo env.STT_PYTHON_BIN env.STT_NEMO_SCRIPT env.STT_NEMO_MODEL env.STT_NEMO_DEVICE
  | .hfSpace => .hfSpace env.STT_HF_SPACE_ID env.STT_HF_SPACE_URL env.STT_HF_SPACE_FN_INDEX env.HF_TOKEN
  | .fasterWhisper =>
    .fasterWhisper env.STT_PYTHON_BIN env.STT_FASTER_WHISPER_SCRIPT env.STT_FASTER_WHISPER_MODEL
      env.STT_FASTER_WHISPER_DEVICE env.STT_FASTER_WHISPER_COMPUTE_TYPE env.STT_FASTER_WHISPER_BEAM_SIZE
      env.STT_FASTER_WHISPER_BEST_OF env.STT_FASTER_WHISPER_TEMPERATURE env.STT_FASTER_WHISPER_NO_SPEECH_THRESHOLD

def providerKey (env : VoiceEnv) : JsString :=
  (js "|").intercalate [env.STT_PROVIDER.text, env.STT_FASTER_WHISPER_MODEL, env.STT_FASTER_WHISPER_DEVICE,
    env.STT_FASTER_WHISPER_COMPUTE_TYPE, env.STT_NEMO_MODEL, env.STT_NEMO_DEVICE, env.STT_HF_SPACE_ID,
    env.STT_HF_SPACE_URL, env.STT_HF_SPACE_FN_INDEX, env.STT_PYTHON_BIN, env.STT_FASTER_WHISPER_SCRIPT,
    env.STT_NEMO_SCRIPT]

/-- `cachedProvider` and `cachedProviderKey`, which are set and reset together. -/
structure CachedProvider where
  provider : SttProvider
  key : JsString
  deriving DecidableEq

def createSttProvider (cached : Option CachedProvider) (env : VoiceEnv) : CachedProvider :=
  match cached.filter fun entry => entry.key = providerKey env with
  | some entry => entry
  | none => ⟨newSttProvider env, providerKey env⟩

/-! ## Reading a file back -/

variable {readNumber}

theorem skipSpace_space {c : Char} (h : c ∈ JsonParse.spaces) (rest : List Char) :
    skipSpace (c :: rest) = skipSpace rest := List.dropWhile_cons_of_pos (by simpa using h)

theorem readValue_quote (fuel : ℕ) (s : JsString) (more : List Char) :
    readValue readNumber (fuel + 1) (quote s ++ more) = some (.string s, more) := by
  rw [quote, List.cons_append, List.append_assoc, List.singleton_append, readValue, if_pos rfl,
    ValueParse.readUnits_escapeUnits]
  rfl

theorem skipSpace_quote (s : JsString) (more : List Char) : skipSpace (quote s ++ more) = quote s ++ more := by
  rw [quote, List.cons_append, JsonParse.skipSpace_cons (by decide)]

theorem skipSpace_memberText (key : String) (value : JsString) (more : List Char) :
    skipSpace (memberText key value ++ more) = quote (js key) ++ ':' :: ' ' :: (quote value ++ more) := by
  have htext : memberText key value ++ more =
      '\n' :: ' ' :: ' ' :: (quote (js key) ++ ':' :: ' ' :: (quote value ++ more)) := by
    simp [memberText]
  rw [htext, skipSpace_space (by decide), skipSpace_space (by decide), skipSpace_space (by decide), skipSpace_quote]

theorem readMember_memberText (fuel : ℕ) (key : String) (value : JsString) (more : List Char) :
    readMember (readValue readNumber (fuel + 1)) (skipSpace (memberText key value ++ more)) =
      some ((js key, .string value), more) := by
  rw [skipSpace_memberText, quote, List.cons_append, readMember, if_pos rfl, List.append_assoc, List.singleton_append,
    ValueParse.readUnits_escapeUnits]
  simp only [Option.bind_eq_bind, Option.bind_some]
  rw [JsonParse.skipSpace_cons (by decide), List.head?_cons, if_pos rfl, List.tail_cons, skipSpace_space (by decide),
    skipSpace_quote, readValue_quote]
  rfl

def configValue (config : VoiceRuntimeConfig) : Value :=
  .object [(js "provider", .string config.provider.text), (js "model", .string config.model),
    (js "updatedAt", .string config.updatedAt)]

theorem readValue_fileText (config : VoiceRuntimeConfig) (fuel : ℕ) (tail : List Char) :
    readValue readNumber (fuel + 4) (fileText config ++ tail) = some (configValue config, '\n' :: tail) := by
  have hclose : skipSpace ('\n' :: '\x7d' :: '\n' :: tail) = '\x7d' :: '\n' :: tail := by
    rw [skipSpace_space (by decide), JsonParse.skipSpace_cons (by decide)]
  have hcomma : ∀ more, skipSpace (',' :: more) = ',' :: more := JsonParse.skipSpace_cons (by decide)
  let one : ItemReader.Reader Char (JsString × Value) := fun text =>
    readMember (readValue readNumber (fuel + 3)) (skipSpace text)
  have hmember : ∀ key value more, one (memberText key value ++ more) = some ((js key, .string value), more) :=
    fun key value more => readMember_memberText (fuel + 2) key value more
  have hupdatedAt : items skipSpace ',' '\x7d' one (fuel + 1)
      (memberText "updatedAt" config.updatedAt ++ '\n' :: '\x7d' :: '\n' :: tail) =
        some ([(js "updatedAt", .string config.updatedAt)], '\n' :: tail) := items_last (hmember _ _ _) hclose
  have hmodel : items skipSpace ',' '\x7d' one (fuel + 2)
      (memberText "model" config.model ++ ',' :: (memberText "updatedAt" config.updatedAt ++
        '\n' :: '\x7d' :: '\n' :: tail)) = some (_, '\n' :: tail) :=
    items_more (hmember _ _ _) (hcomma _) (by decide) hupdatedAt
  have hprovider : items skipSpace ',' '\x7d' one (fuel + 3)
      (memberText "provider" config.provider.text ++ ',' :: (memberText "model" config.model ++
        ',' :: (memberText "updatedAt" config.updatedAt ++ '\n' :: '\x7d' :: '\n' :: tail))) = some (_, '\n' :: tail) :=
    items_more (hmember _ _ _) (hcomma _) (by decide) hmodel
  have htext : fileText config ++ tail = '\x7b' :: (memberText "provider" config.provider.text ++
      ',' :: (memberText "model" config.model ++ ',' :: (memberText "updatedAt" config.updatedAt ++
        '\n' :: '\x7d' :: '\n' :: tail))) := by
    simp [fileText]
  have hkeys : Listed [js "provider", js "model", js "updatedAt"] := by decide +kernel
  have hown : ValueParse.ownProperties [(js "provider", Value.string config.provider.text),
      (js "model", .string config.model), (js "updatedAt", .string config.updatedAt)] =
        [(js "provider", .string config.provider.text), (js "model", .string config.model),
          (js "updatedAt", .string config.updatedAt)] := ValueParse.ownProperties_of_listed hkeys
  have hopen : (skipSpace (memberText "provider" config.provider.text ++ ',' :: (memberText "model" config.model ++
      ',' :: (memberText "updatedAt" config.updatedAt ++ '\n' :: '\x7d' :: '\n' :: tail)))).head? ≠ some '\x7d' := by
    rw [skipSpace_memberText, quote, List.cons_append]
    simp [quotationMark]
  rw [htext, readValue, if_neg (by decide), if_neg (by decide), if_pos rfl, if_neg hopen, hprovider, Option.map_some]
  exact congrArg (fun members => some (Value.object members, '\n' :: tail)) hown

/-- The text of a choice is read back as the choice, unless something other than blanks
stands behind it. -/
theorem parse_fileText (config : VoiceRuntimeConfig) (tail : List Char) :
    parse readNumber (fileText config ++ tail) = if skipSpace tail = [] then some (configValue config) else none := by
  obtain ⟨fuel, hfuel⟩ : ∃ fuel, (fileText config ++ tail).length = fuel + 4 := by
    refine ⟨(fileText config ++ tail).length - 4, ?_⟩
    simp only [fileText, List.length_append, List.length_cons]
    omega
  have hopen : skipSpace (fileText config ++ tail) = fileText config ++ tail := by
    rw [fileText, List.cons_append, JsonParse.skipSpace_cons (by decide)]
  rw [parse, hopen, hfuel, readValue_fileText]
  dsimp only
  rw [skipSpace_space (by decide)]

/-- A choice as it is written: its model has a name, without blanks around it. -/
structure Written (config : VoiceRuntimeConfig) : Prop where
  named : config.model ≠ []
  trimmed : trim config.model = config.model

theorem asProvider_text (provider : SttProviderId) : asProvider provider.text = some provider := by
  cases provider <;> decide +kernel

theorem configOf_configValue {config : VoiceRuntimeConfig} (h : Written config) :
    configOf (configValue config) = some config := by
  have hprovider : (configValue config).member "provider" = some (.string config.provider.text) := by
    simp [configValue, Value.member, List.lookup]
  have hmodel : (configValue config).member "model" = some (.string config.model) := by
    simp [configValue, Value.member, List.lookup]
  have hupdatedAt : (configValue config).member "updatedAt" = some (.string config.updatedAt) := by
    simp [configValue, Value.member, List.lookup]
  rw [configOf, hprovider, hmodel, hupdatedAt]
  simp [Value.string?, asProvider_text, h.named, h.trimmed]

theorem readVoiceRuntimeConfig_fileText {config : VoiceRuntimeConfig} (h : Written config) (tail : List Char) :
    readVoiceRuntimeConfig readNumber (some (fileText config ++ tail)) =
      if skipSpace tail = [] then some config else none := by
  unfold readVoiceRuntimeConfig
  rw [Option.bind_some, parse_fileText]
  split
  · exact configOf_configValue h
  · rfl

theorem readVoiceRuntimeConfig_empty : readVoiceRuntimeConfig readNumber (some []) = none := rfl

/-! ## The cached provider -/

theorem text_prefixFree {p q : SttProviderId} {x y : JsString} (h : p.text ++ js "|" ++ x = q.text ++ js "|" ++ y) :
    p = q ∧ x = y := by
  have hhead : (p.text ++ js "|" ++ x).head? = (q.text ++ js "|" ++ y).head? := congrArg List.head? h
  have hheads : ∀ (r : SttProviderId) (z : JsString), (r.text ++ js "|" ++ z).head? = r.text.head? := by
    intro r z
    cases r <;> rfl
  rw [hheads, hheads] at hhead
  have hpq : p = q := by
    revert hhead
    cases p <;> cases q <;> decide +kernel
  subst hpq
  exact ⟨rfl, List.append_cancel_left h⟩

theorem providerKey_eq (env : VoiceEnv) : providerKey env = env.STT_PROVIDER.text ++ js "|" ++
    (js "|").intercalate [env.STT_FASTER_WHISPER_MODEL, env.STT_FASTER_WHISPER_DEVICE,
      env.STT_FASTER_WHISPER_COMPUTE_TYPE, env.STT_NEMO_MODEL, env.STT_NEMO_DEVICE, env.STT_HF_SPACE_ID,
      env.STT_HF_SPACE_URL, env.STT_HF_SPACE_FN_INDEX, env.STT_PYTHON_BIN, env.STT_FASTER_WHISPER_SCRIPT,
      env.STT_NEMO_SCRIPT] := List.intercalate_cons_cons

/-- Two choices in one environment have different keys, whatever the texts contain. -/
theorem providerKey_injective {env : VoiceEnv} {p q : SttProviderId} {m n : JsString}
    (h : providerKey (withSelection env p m) = providerKey (withSelection env q n)) : p = q ∧ m = n := by
  have hprovider : ∀ r k, (withSelection env r k).STT_PROVIDER = r := by
    intro r k
    cases r <;> rfl
  rw [providerKey_eq, providerKey_eq, hprovider, hprovider] at h
  obtain ⟨rfl, hrest⟩ := text_prefixFree h
  refine ⟨rfl, ?_⟩
  cases p <;> simpa [withSelection, List.intercalate, List.intersperse] using hrest

/-- What the cache keeps is what the constructor makes for the key it is kept under. -/
def CacheOk (env : VoiceEnv) (cached : Option CachedProvider) : Prop :=
  ∀ entry ∈ cached, ∃ provider model, entry =
    ⟨newSttProvider (withSelection env provider model), providerKey (withSelection env provider model)⟩

theorem createSttProvider_eq {env : VoiceEnv} {cached : Option CachedProvider} (h : CacheOk env cached)
    (provider : SttProviderId) (model : JsString) : createSttProvider cached (withSelection env provider model) =
      ⟨newSttProvider (withSelection env provider model), providerKey (withSelection env provider model)⟩ := by
  unfold createSttProvider
  split
  next entry hentry =>
    obtain ⟨hmem, hkey⟩ := Option.filter_eq_some_iff.mp hentry
    obtain ⟨p, m, rfl⟩ := h entry hmem
    obtain ⟨rfl, rfl⟩ := providerKey_injective (of_decide_eq_true hkey)
    rfl
  · rfl

end ModelForge.RuntimeConfig
