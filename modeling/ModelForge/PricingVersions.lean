import ModelForge.RunInvariant
import ModelForge.InvoiceScan
import ModelForge.RegistryStatus
import ModelForge.WeightDeletion

set_option autoImplicit false

/-!
# Pricing versions and advertised prices

The admin actions and the internal registration that write a `HostedModel` row,
the pricing versions they leave beside it, and `getActivePricingVersion`, which
metering asks for a request's prices. A row is known by its unique `modelId`.
-/
namespace ModelForge.PricingVersions
open RunInvariant
open InvoiceScan (Rates)
open RegistryStatus (ModelStatus)
open WeightDeletion (ProviderKind)
open WeightFiles (DiscoveredWeight)

/-! ## Numbers of forms and columns -/

inductive Num where
  | nan
  | infinite (negative : Bool)
  | finite (value : ℚ)
  deriving DecidableEq, Repr

namespace Num

/-- `x || fallback` -/
def orElse : Num → ℚ → Num
  | .nan, fallback => .finite fallback
  | .infinite negative, _ => .infinite negative
  | .finite value, fallback => if value = 0 then .finite fallback else .finite value

/-- `Number.isFinite(x) && x >= bound` -/
def atLeast (bound : ℚ) : Num → Bool
  | .finite value => bound ≤ value
  | _ => false

/-- What a `Float` column takes; the client refuses the rest. -/
def asFloat : Num → Option ℚ
  | .finite value => some value
  | _ => none

/-- What an `Int` column takes: a whole number of 32 bits. -/
def asInt : Num → Option ℤ
  | .finite value => if value.den = 1 ∧ -2 ^ 31 ≤ value.num ∧ value.num < 2 ^ 31 then some value.num else none
  | _ => none

end Num

def asRates (pricePerMTokIn pricePerMTokOut : Num) : Option Rates :=
  match pricePerMTokIn.asFloat, pricePerMTokOut.asFloat with
  | some input, some output => some ⟨input, output⟩
  | _, _ => none

/-! ## Rows -/

structure HostedModel extends Rates where
  displayName : String
  weightsPath : String
  quantization : String
  contextLength : ℤ
  nThreads : ℤ
  gpuLayers : ℤ
  status : ModelStatus
  providerKind : ProviderKind
  remoteBaseUrl : Option String
  remoteModelId : Option String
  credentialId : Option String
  deriving DecidableEq, Repr

/-- The defaults of the schema. The prices have none: every create gives them. -/
def HostedModel.defaults (rates : Rates) : HostedModel where
  toRates := rates
  displayName := ""
  weightsPath := ""
  quantization := "remote"
  contextLength := 8192
  nThreads := 8
  gpuLayers := 0
  status := .INACTIVE
  providerKind := .localGguf
  remoteBaseUrl := none
  remoteModelId := none
  credentialId := none

structure PricingVersion extends Rates where
  hostedModelId : String
  effectiveFrom : ℤ
  effectiveTo : Option ℤ
  deriving DecidableEq, Repr

structure Db where
  hostedModel : KeyedMap String HostedModel
  pricingVersion : List PricingVersion

namespace Db

/-- `hostedModel.upsert` with the same data in both branches. -/
def upsert (db : Db) (modelId : String) (rates : Rates) (data : HostedModel → HostedModel) : Db :=
  { db with
    hostedModel := db.hostedModel.set modelId
      { data ((db.hostedModel.get? modelId).getD (.defaults rates)) with toRates := rates } }

/-- `pricingVersion.create` -/
def create (db : Db) (hostedModelId : String) (rates : Rates) (effectiveFrom : ℤ) : Db :=
  { db with pricingVersion := db.pricingVersion ++ [⟨rates, hostedModelId, effectiveFrom, none⟩] }

/-- `pricingVersion.updateMany` of the versions that have no end. -/
def closeOpen (db : Db) (hostedModelId : String) (now : ℤ) : Db :=
  { db with
    pricingVersion := db.pricingVersion.map fun v =>
      if v.hostedModelId = hostedModelId ∧ v.effectiveTo = none then { v with effectiveTo := some now }
      else v }

end Db

/-! ## `getActivePricingVersion` -/

def PricingVersion.inEffect (v : PricingVersion) (now : ℤ) : Bool :=
  v.effectiveFrom ≤ now && v.effectiveTo.all fun e => now < e

/-- The first row in the order of `effectiveFrom: "desc"`. -/
def latest : List PricingVersion → Option PricingVersion
  | [] => none
  | v :: rest =>
    match latest rest with
    | none => some v
    | some w => if v.effectiveFrom < w.effectiveFrom then some w else some v

/-- `pricingVersion.findFirst` -/
def findActive (db : Db) (hostedModelId : String) (now : ℤ) : Option PricingVersion :=
  latest (db.pricingVersion.filter fun v => v.hostedModelId = hostedModelId && v.inEffect now)

/-- The version is `none` where `findUniqueOrThrow` throws. -/
def getActivePricingVersion (db : Db) (now : ℤ) (hostedModelId : String) :
    Db × Option PricingVersion :=
  match findActive db hostedModelId now with
  | some active => (db, some active)
  | none =>
    match db.hostedModel.get? hostedModelId with
    | none => (db, none)
    | some model =>
      (db.create hostedModelId model.toRates now, some ⟨model.toRates, hostedModelId, now, none⟩)

/-! ## The admin actions -/

/-- `String(formData.get(name) ?? "").trim()` -/
def trimmed (text : Option String) : String :=
  String.ofList (LlamaPool.trim (text.getD "").toList)

/-- `.replace(/\/+$/, "")` -/
def withoutSlashes (url : String) : String := String.ofList (url.toList.rdropWhile (· = '/'))

/-- What the two applications read from their surroundings; `invalidWrite` is
the message with which the client refuses a value. -/
structure Env where
  GEMINI_API_KEY : Option String
  OPENROUTER_API_KEY : Option String
  REMOTE_LLM_API_KEY : Option String
  invalidWrite : String

def Env.hasKey (env : Env) : Bool :=
  [env.GEMINI_API_KEY, env.OPENROUTER_API_KEY, env.REMOTE_LLM_API_KEY].any fun key =>
    key.getD "" ≠ ""

structure Reply where
  ok : Bool
  message : String
  deriving DecidableEq, Repr

/-- A form. A number is what `Number` makes of its field's text, and `none`
where the field is absent or empty. -/
structure ModelForm where
  modelId : Option String
  displayName : Option String
  weightsPath : Option String
  quantization : Option String
  contextLength : Option Num
  nThreads : Option Num
  pricePerMTokIn : Option Num
  pricePerMTokOut : Option Num
  remoteBaseUrl : Option String
  remoteModelId : Option String
  apiKey : Option String
  makeDefault : Option String

/-- `String(formData.get(name))` -/
def stringOf (text : Option String) : String := text.getD "null"

/-- `formData.get(name) || fallback` -/
def textOr (text : Option String) (fallback : String) : String :=
  if text.getD "" = "" then fallback else text.getD ""

/-- The prices of the forms, with the defaults of both upserts. -/
def ModelForm.rates (form : ModelForm) : Option Rates :=
  asRates (form.pricePerMTokIn.getD (.finite 20)) (form.pricePerMTokOut.getD (.finite 60))

/-- `none` where the action throws. -/
def upsertModelAction (db : Db) (now : ℤ) (form : ModelForm) : Db × Option Unit :=
  let modelId := stringOf form.modelId
  match form.rates, (form.contextLength.getD (.finite 8192)).asInt,
      (form.nThreads.getD (.finite 8)).asInt with
  | some rates, some contextLength, some nThreads =>
    let model := db.upsert modelId rates fun row =>
      { row with
        displayName := stringOf form.displayName
        weightsPath := stringOf form.weightsPath
        quantization := textOr form.quantization "Q4_K_M"
        contextLength := contextLength
        nThreads := nThreads
        gpuLayers := 0
        providerKind := .localGguf }
    (model.create modelId rates now, some ())
  | _, _, _ => (db, none)

/-- The credential of a remote model, or the message that asks for a key;
`created` is the id the database gives a new credential. -/
def credentialOf (env : Env) (created apiKey : String) (existing : Option String) :
    Except String (Option String) :=
  if apiKey ≠ "" then .ok (some (existing.getD created))
  else if existing.isSome then .ok existing
  else if ¬ env.hasKey then
    .error "Paste an API key, or set GEMINI_API_KEY / OPENROUTER_API_KEY / REMOTE_LLM_API_KEY in the gateway env"
  else .ok none

def upsertRemoteModelAction (env : Env) (db : Db) (now : ℤ) (form : ModelForm) (created : String) :
    Db × Reply :=
  let modelId := trimmed form.modelId
  let displayName := trimmed form.displayName
  let remoteBaseUrl := withoutSlashes (trimmed form.remoteBaseUrl)
  let remoteModelId := trimmed form.remoteModelId
  let makeDefault := form.makeDefault = some "on"
  if modelId = "" ∨ displayName = "" ∨ remoteBaseUrl = "" ∨ remoteModelId = "" then
    (db, ⟨false, "modelId, displayName, remoteBaseUrl, and remoteModelId are required"⟩)
  else
    match credentialOf env created (trimmed form.apiKey)
        ((db.hostedModel.get? modelId).bind HostedModel.credentialId) with
    | .error message => (db, ⟨false, message⟩)
    | .ok credentialId =>
      match form.rates, (form.contextLength.getD (.finite 128000)).asInt with
      | some rates, some contextLength =>
        let model := db.upsert modelId rates fun row =>
          { row with
            displayName := displayName
            weightsPath := ""
            quantization := "remote"
            contextLength := contextLength
            nThreads := 0
            gpuLayers := 0
            providerKind := .openaiCompat
            remoteBaseUrl := some remoteBaseUrl
            remoteModelId := some remoteModelId
            status := .LOADED
            credentialId := credentialId.or row.credentialId }
        (model.create modelId rates now,
          ⟨true, displayName ++
            if makeDefault then " registered as remote provider and set as platform default"
            else " registered as remote OpenAI-compatible provider"⟩)
      | _, _ => (db, ⟨false, env.invalidWrite⟩)

/-- The columns that `updateModelPropertiesAction` writes beside the name, the
context length and the prices, or the message of the field it refuses. -/
def providerColumns (form : ModelForm) (created : String) (existing : HostedModel) :
    Except String (Option ℤ × HostedModel) :=
  match existing.providerKind with
  | .openaiCompat =>
    let remoteBaseUrl := withoutSlashes (trimmed form.remoteBaseUrl)
    let remoteModelId := trimmed form.remoteModelId
    let quantization := trimmed (some (form.quantization.getD existing.quantization))
    if remoteBaseUrl = "" ∨ remoteModelId = "" then
      .error "Base URL and upstream model id are required"
    else
      let credentialId :=
        if trimmed form.apiKey ≠ "" then some (existing.credentialId.getD created)
        else existing.credentialId
      .ok (some existing.nThreads,
        { existing with
          quantization := if quantization = "" then "remote" else quantization
          remoteBaseUrl := some remoteBaseUrl
          remoteModelId := some remoteModelId
          credentialId := credentialId })
  | .localGguf =>
    let weightsPath := trimmed form.weightsPath
    let quantization := trimmed (some (form.quantization.getD existing.quantization))
    let nThreads := form.nThreads.getD (.finite existing.nThreads)
    if weightsPath = "" then .error "GGUF path is required"
    else if ¬ nThreads.atLeast 1 then .error "Threads must be at least 1"
    else
      .ok (nThreads.asInt,
        { existing with
          weightsPath := weightsPath
          quantization := if quantization = "" then "Q4_K_M" else quantization })

/-- The row that `updateModelPropertiesAction` writes over `existing`, or the
message with which it returns. -/
def propertiesOf (env : Env) (form : ModelForm) (created : String) (existing : HostedModel) :
    Except String HostedModel :=
  let displayName := trimmed form.displayName
  let contextLength := form.contextLength.getD (.finite existing.contextLength)
  let pricePerMTokIn := form.pricePerMTokIn.getD (.finite existing.pricePerMTokIn)
  let pricePerMTokOut := form.pricePerMTokOut.getD (.finite existing.pricePerMTokOut)
  if displayName = "" then .error "Display name is required"
  else if ¬ contextLength.atLeast 512 then .error "Context length must be at least 512"
  else if ¬ pricePerMTokIn.atLeast 0 then .error "Input price must be a non-negative number"
  else if ¬ pricePerMTokOut.atLeast 0 then .error "Output price must be a non-negative number"
  else
    match providerColumns form created existing with
    | .error message => .error message
    | .ok (nThreads, row) =>
      match asRates pricePerMTokIn pricePerMTokOut, contextLength.asInt, nThreads with
      | some rates, some contextLength, some nThreads =>
        .ok
          { row with
            toRates := rates
            displayName := displayName
            contextLength := contextLength
            nThreads := nThreads }
      | _, _, _ => .error env.invalidWrite

def updateModelPropertiesAction (env : Env) (db : Db) (now : ℤ) (form : ModelForm)
    (created : String) : Db × Reply :=
  let modelId := trimmed form.modelId
  if modelId = "" then (db, ⟨false, "Model id required"⟩)
  else
    match db.hostedModel.get? modelId with
    | none => (db, ⟨false, "Model not found"⟩)
    | some existing =>
      match propertiesOf env form created existing with
      | .error message => (db, ⟨false, message⟩)
      | .ok row =>
        let written := { db with hostedModel := db.hostedModel.set modelId row }
        let pricesChanged := row.toRates ≠ existing.toRates
        (if pricesChanged then (written.closeOpen modelId now).create modelId row.toRates now
          else written,
          ⟨true, trimmed form.displayName ++ " properties saved"⟩)

/-! ## The internal registration -/

/-- The body of `POST /engine/models/register`; a number is what `Number` makes
of the member, `NaN` of an absent one. -/
structure RegisterBody where
  weightsPath : Option String
  modelId : Option String
  displayName : Option String
  quantization : Option String
  contextLength : Num
  nThreads : Num
  pricePerMTokIn : Num
  pricePerMTokOut : Num

inductive Response where
  | invalidRequest (message : String)
  | failed
  | created (modelId weightsPath : String)
  deriving DecidableEq, Repr

def RegisterBody.rates (body : RegisterBody) : Option Rates :=
  asRates (body.pricePerMTokIn.orElse 20) (body.pricePerMTokOut.orElse 60)

/-- The row and the columns that a registration writes, when it writes. -/
def RegisterBody.data (body : RegisterBody) (weights : List DiscoveredWeight) :
    Option (Rates × (HostedModel → HostedModel)) :=
  match weights.find? fun file => some file.relativePath = body.weightsPath with
  | none => none
  | some discovered =>
    match body.rates, (body.contextLength.orElse 8192).asInt, (body.nThreads.orElse 8).asInt with
    | some rates, some contextLength, some nThreads =>
      some (rates, fun row =>
        { row with
          displayName :=
            if trimmed body.displayName = "" then discovered.suggestedDisplayName
            else trimmed body.displayName
          weightsPath := discovered.relativePath
          quantization :=
            if trimmed body.quantization = "" then discovered.quantization
            else trimmed body.quantization
          contextLength := contextLength
          nThreads := nThreads
          gpuLayers := 0 })
    | _, _, _ => none

/-- `POST /engine/models/register`, where the scan finds `weights`. -/
def register (db : Db) (weights : List DiscoveredWeight) (body : RegisterBody) : Db × Response :=
  let modelId := body.modelId.getD ""
  let weightsPath := body.weightsPath.getD ""
  if weightsPath = "" ∨ modelId = "" then
    (db, .invalidRequest "weightsPath and modelId required")
  else if ¬ weights.any fun file => some file.relativePath = body.weightsPath then
    (db, .invalidRequest "weightsPath is not a GGUF file inside MODEL_WEIGHTS_DIR")
  else
    match body.data weights with
    | none => (db, .failed)
    | some (rates, data) => (db.upsert modelId rates data, .created modelId weightsPath)

/-! ## Runs -/

inductive Op where
  | upsertModel (form : ModelForm)
  | upsertRemoteModel (form : ModelForm) (created : String)
  | updateModelProperties (form : ModelForm) (created : String)
  | register (weights : List DiscoveredWeight) (body : RegisterBody)
  | getActivePricingVersion (hostedModelId : String)

def perform (env : Env) (db : Db) (now : ℤ) : Op → Db
  | .upsertModel form => (upsertModelAction db now form).1
  | .upsertRemoteModel form created => (upsertRemoteModelAction env db now form created).1
  | .updateModelProperties form created => (updateModelPropertiesAction env db now form created).1
  | .register weights body => (register db weights body).1
  | .getActivePricingVersion hostedModelId => (getActivePricingVersion db now hostedModelId).1

/-- The rows, and the time of the last operation. -/
structure World where
  now : ℤ
  db : Db

def World.boot (now : ℤ) : World := ⟨now, KeyedMap.empty, []⟩

/-- An operation happens later than the ones before it. -/
def step (env : Env) (w : World) (e : ℤ × Op) : Option World :=
  if w.now < e.1 then some ⟨e.1, perform env w.db e.1 e.2⟩ else none

/-- At every later time metering gets the prices of the row. -/
def Advertised (w : World) : Prop :=
  ∀ modelId row, w.db.hostedModel.get? modelId = some row →
    ∀ now, w.now < now →
      (getActivePricingVersion w.db now modelId).2.map PricingVersion.toRates = some row.toRates

def RegisterBody.written (body : RegisterBody) (weights : List DiscoveredWeight) :
    Option (Rates × (HostedModel → HostedModel)) :=
  if body.weightsPath.getD "" = "" ∨ body.modelId.getD "" = "" then none else body.data weights

/-- A registration that writes a row with a version in effect writes the prices
that the row has. -/
def KeepsPrices (w : World) (e : ℤ × Op) : Prop :=
  match e.2 with
  | .register weights body =>
    ∀ row, w.db.hostedModel.get? (body.modelId.getD "") = some row →
      (findActive w.db (body.modelId.getD "") e.1).isSome →
        ∀ d, body.written weights = some d → d.1 = row.toRates
  | _ => True

/-! ## What an operation does to the rows -/

/-- The writes of an operation at `now`. -/
inductive Move (db : Db) (now : ℤ) : Db → Prop where
  | idle : Move db now db
  | priced (modelId : String) (row : HostedModel) :
      Move db now
        (Db.create { db with hostedModel := db.hostedModel.set modelId row } modelId row.toRates now)
  | kept (modelId : String) (existing row : HostedModel)
      (found : db.hostedModel.get? modelId = some existing) (same : row.toRates = existing.toRates) :
      Move db now { db with hostedModel := db.hostedModel.set modelId row }
  | superseded (modelId : String) (existing row : HostedModel)
      (found : db.hostedModel.get? modelId = some existing) :
      Move db now
        ((Db.closeOpen { db with hostedModel := db.hostedModel.set modelId row } modelId now).create
          modelId row.toRates now)
  | opened (modelId : String) (existing : HostedModel)
      (found : db.hostedModel.get? modelId = some existing)
      (absent : findActive db modelId now = none) :
      Move db now (db.create modelId existing.toRates now)
  | registered (modelId : String) (row : HostedModel)
      (same : ∀ existing, db.hostedModel.get? modelId = some existing →
        (findActive db modelId now).isSome → row.toRates = existing.toRates) :
      Move db now { db with hostedModel := db.hostedModel.set modelId row }

theorem move_upsertModelAction (db : Db) (now : ℤ) (form : ModelForm) :
    Move db now (upsertModelAction db now form).1 := by
  unfold upsertModelAction
  split
  · exact Move.priced _ _
  · exact Move.idle

theorem move_upsertRemoteModelAction (env : Env) (db : Db) (now : ℤ) (form : ModelForm)
    (created : String) : Move db now (upsertRemoteModelAction env db now form created).1 := by
  unfold upsertRemoteModelAction
  dsimp only
  split_ifs
  all_goals try exact Move.idle
  all_goals
    split
    · exact Move.idle
    · split
      · exact Move.priced _ _
      · exact Move.idle

theorem move_updateModelPropertiesAction (env : Env) (db : Db) (now : ℤ) (form : ModelForm)
    (created : String) : Move db now (updateModelPropertiesAction env db now form created).1 := by
  unfold updateModelPropertiesAction
  dsimp only
  by_cases hid : trimmed form.modelId = ""
  · rw [if_pos hid]
    exact Move.idle
  · rw [if_neg hid]
    cases hfound : db.hostedModel.get? (trimmed form.modelId) with
    | none => exact Move.idle
    | some existing =>
      dsimp only
      cases propertiesOf env form created existing with
      | error message => exact Move.idle
      | ok row =>
        dsimp only
        by_cases hchanged : row.toRates ≠ existing.toRates
        · rw [if_pos hchanged]
          exact Move.superseded _ existing row hfound
        · rw [if_neg hchanged]
          exact Move.kept _ existing row hfound (not_not.mp hchanged)

theorem move_getActivePricingVersion (db : Db) (now : ℤ) (hostedModelId : String) :
    Move db now (getActivePricingVersion db now hostedModelId).1 := by
  unfold getActivePricingVersion
  cases hactive : findActive db hostedModelId now with
  | some active => exact Move.idle
  | none =>
    cases hfound : db.hostedModel.get? hostedModelId with
    | none => exact Move.idle
    | some model => exact Move.opened _ model hfound hactive

theorem register_fst (db : Db) (weights : List DiscoveredWeight) (body : RegisterBody) :
    (register db weights body).1 =
      match body.written weights with
      | none => db
      | some (rates, data) => db.upsert (body.modelId.getD "") rates data := by
  unfold register RegisterBody.written
  dsimp only
  by_cases hmissing : body.weightsPath.getD "" = "" ∨ body.modelId.getD "" = ""
  · rw [if_pos hmissing, if_pos hmissing]
  · rw [if_neg hmissing, if_neg hmissing]
    by_cases hfound : weights.any fun file => decide (some file.relativePath = body.weightsPath)
    · rw [if_neg (not_not.mpr hfound)]
      cases body.data weights <;> rfl
    · rw [if_pos hfound]
      have hnone : (weights.find? fun file => decide (some file.relativePath = body.weightsPath)) = none := by
        simpa using hfound
      rw [RegisterBody.data, hnone]

theorem move_perform (env : Env) {w : World} {e : ℤ × Op} (h : KeepsPrices w e) :
    Move w.db e.1 (perform env w.db e.1 e.2) := by
  obtain ⟨now, op⟩ := e
  cases op with
  | upsertModel form => exact move_upsertModelAction w.db now form
  | upsertRemoteModel form created => exact move_upsertRemoteModelAction env w.db now form created
  | updateModelProperties form created =>
    exact move_updateModelPropertiesAction env w.db now form created
  | getActivePricingVersion id => exact move_getActivePricingVersion w.db now id
  | register weights body =>
    change Move w.db now (register w.db weights body).1
    rw [register_fst]
    cases hwritten : body.written weights with
    | none => exact Move.idle
    | some d =>
      apply Move.registered
      intro existing hfound hactive
      exact h existing hfound hactive d hwritten

/-! ## The version in effect -/

def current (db : Db) (hostedModelId : String) : Option PricingVersion :=
  latest (db.pricingVersion.filter fun v => v.hostedModelId = hostedModelId && v.effectiveTo.isNone)

theorem latest_append_newest {l : List PricingVersion} {w : PricingVersion}
    (h : ∀ v ∈ l, v.effectiveFrom < w.effectiveFrom) : latest (l ++ [w]) = some w := by
  induction l with
  | nil => rfl
  | cons v rest ih =>
    have hrest : latest (rest ++ [w]) = some w := ih fun u hu => h u (List.mem_cons_of_mem v hu)
    rw [List.cons_append, latest, hrest]
    exact if_pos (h v List.mem_cons_self)

theorem latest_mem {l : List PricingVersion} {v : PricingVersion} (h : latest l = some v) :
    v ∈ l := by
  induction l with
  | nil => cases h
  | cons u rest ih =>
    rw [latest] at h
    cases hrest : latest rest with
    | none =>
      rw [hrest] at h
      exact Option.some.inj h ▸ List.mem_cons_self
    | some w =>
      rw [hrest] at h
      dsimp only at h
      split at h
      · exact List.mem_cons_of_mem u (ih (hrest.trans h))
      · exact Option.some.inj h ▸ List.mem_cons_self

/-- Nothing in the versions is later than the last operation. -/
structure Timed (now : ℤ) (db : Db) : Prop where
  began : ∀ v ∈ db.pricingVersion, v.effectiveFrom ≤ now
  ended : ∀ v ∈ db.pricingVersion, ∀ e, v.effectiveTo = some e → e ≤ now

theorem Timed.before {last now : ℤ} {db : Db} (h : Timed last db) (hlater : last < now) :
    ∀ v ∈ db.pricingVersion, v.effectiveFrom < now :=
  fun v hv => lt_of_le_of_lt (h.began v hv) hlater

theorem findActive_eq_current {db : Db} {last now : ℤ} (h : Timed last db) (hlater : last < now)
    (hostedModelId : String) : findActive db hostedModelId now = current db hostedModelId := by
  unfold findActive current
  congr 1
  apply List.filter_congr
  intro v hv
  have hbegan : v.effectiveFrom ≤ now := (h.began v hv).trans hlater.le
  cases hend : v.effectiveTo with
  | none => simp [PricingVersion.inEffect, hend, hbegan]
  | some e =>
    have hpast : ¬ now < e := not_lt.mpr ((h.ended v hv e hend).trans hlater.le)
    simp [PricingVersion.inEffect, hend, hpast]

theorem current_create {db : Db} {now : ℤ} (h : ∀ v ∈ db.pricingVersion, v.effectiveFrom < now)
    (modelId : String) (rates : Rates) (j : String) :
    current (db.create modelId rates now) j =
      if j = modelId then some ⟨rates, modelId, now, none⟩ else current db j := by
  unfold current Db.create
  rw [List.filter_append]
  by_cases hj : j = modelId
  · subst hj
    rw [if_pos rfl, List.filter_cons_of_pos (by simp), List.filter_nil]
    apply latest_append_newest
    intro v hv
    exact h v (List.mem_filter.mp hv).1
  · have hne : ¬ modelId = j := fun h => hj h.symm
    simp [hj, hne]

theorem current_closeOpen {db : Db} {modelId j : String} (hj : j ≠ modelId) (now : ℤ) :
    current (db.closeOpen modelId now) j = current db j := by
  unfold current Db.closeOpen
  congr 1
  induction db.pricingVersion with
  | nil => rfl
  | cons v rest ih =>
    by_cases hv : v.hostedModelId = modelId ∧ v.effectiveTo = none
    · have hne : ¬ v.hostedModelId = j := fun h => hj (h.symm.trans hv.1)
      have hne' : ¬ modelId = j := fun h => hj h.symm
      simpa [hv, hne'] using ih
    · rw [List.map_cons, if_neg hv, List.filter_cons, List.filter_cons, ih]

/-! ## The invariant -/

theorem mem_closeOpen {db : Db} {modelId : String} {now : ℤ} {v : PricingVersion}
    (hv : v ∈ (db.closeOpen modelId now).pricingVersion) :
    ∃ u ∈ db.pricingVersion, v.hostedModelId = u.hostedModelId ∧ v.effectiveFrom = u.effectiveFrom ∧
      (v.effectiveTo = u.effectiveTo ∨ v.effectiveTo = some now) := by
  obtain ⟨u, hu, huv⟩ := List.mem_map.mp hv
  split at huv
  · subst huv
    exact ⟨u, hu, rfl, rfl, .inr rfl⟩
  · subst huv
    exact ⟨u, hu, rfl, rfl, .inl rfl⟩

theorem mem_create {db : Db} {modelId : String} {rates : Rates} {now : ℤ} {v : PricingVersion}
    (hv : v ∈ (db.create modelId rates now).pricingVersion) :
    v ∈ db.pricingVersion ∨ v = ⟨rates, modelId, now, none⟩ :=
  (List.mem_append.mp hv).imp_right List.mem_singleton.mp

theorem before_closeOpen {db : Db} {now : ℤ} (h : ∀ v ∈ db.pricingVersion, v.effectiveFrom < now)
    (modelId : String) (t : ℤ) :
    ∀ v ∈ (db.closeOpen modelId t).pricingVersion, v.effectiveFrom < now := by
  intro v hv
  obtain ⟨u, hu, -, hfrom, -⟩ := mem_closeOpen hv
  rw [hfrom]
  exact h u hu

theorem Timed.mono {last now : ℤ} {db : Db} (h : Timed last db) (hlater : last < now) :
    Timed now db where
  began := fun v hv => (h.began v hv).trans hlater.le
  ended := fun v hv e he => (h.ended v hv e he).trans hlater.le

theorem Timed.set {now : ℤ} {db : Db} (h : Timed now db) (modelId : String) (row : HostedModel) :
    Timed now { db with hostedModel := db.hostedModel.set modelId row } :=
  ⟨h.began, h.ended⟩

theorem Timed.create {now : ℤ} {db : Db} (h : Timed now db) (modelId : String) (rates : Rates) :
    Timed now (db.create modelId rates now) := by
  constructor
  · intro v hv
    cases mem_create hv with
    | inl hold => exact h.began v hold
    | inr hnew => rw [hnew]
  · intro v hv e he
    cases mem_create hv with
    | inl hold => exact h.ended v hold e he
    | inr hnew =>
      rw [hnew] at he
      cases he

theorem Timed.closeOpen {now : ℤ} {db : Db} (h : Timed now db) (modelId : String) :
    Timed now (db.closeOpen modelId now) := by
  constructor
  · intro v hv
    obtain ⟨u, hu, -, hfrom, -⟩ := mem_closeOpen hv
    rw [hfrom]
    exact h.began u hu
  · intro v hv e he
    obtain ⟨u, hu, -, -, hto | hto⟩ := mem_closeOpen hv
    · exact h.ended u hu e (hto.symm.trans he)
    · exact (Option.some.inj (he.symm.trans hto)).le

/-- Every version is a version of some row. -/
def Owned (db : Db) : Prop :=
  ∀ v ∈ db.pricingVersion, (db.hostedModel.get? v.hostedModelId).isSome

/-- The version in effect has the prices of its row. -/
def Priced (db : Db) : Prop :=
  ∀ modelId row, db.hostedModel.get? modelId = some row →
    ∀ v, current db modelId = some v → v.toRates = row.toRates

structure Inv (w : World) : Prop where
  timed : Timed w.now w.db
  owned : Owned w.db
  priced : Priced w.db

theorem inv_boot (now : ℤ) : Inv (World.boot now) where
  timed := ⟨fun v hv => (List.not_mem_nil hv).elim, fun v hv => (List.not_mem_nil hv).elim⟩
  owned := fun v hv => (List.not_mem_nil hv).elim
  priced := fun modelId row hrow => by cases hrow

theorem Owned.set {db : Db} (h : Owned db) (modelId : String) (row : HostedModel) :
    Owned { db with hostedModel := db.hostedModel.set modelId row } := by
  intro v hv
  change ((db.hostedModel.set modelId row).get? v.hostedModelId).isSome
  rw [KeyedMap.get?_set]
  split
  · rfl
  · exact h v hv

theorem Owned.create {db : Db} (h : Owned db) {modelId : String}
    (hfound : (db.hostedModel.get? modelId).isSome) (rates : Rates) (now : ℤ) :
    Owned (db.create modelId rates now) := by
  intro v hv
  cases mem_create hv with
  | inl hold => exact h v hold
  | inr hnew =>
    rw [hnew]
    exact hfound

theorem Owned.closeOpen {db : Db} (h : Owned db) (modelId : String) (now : ℤ) :
    Owned (db.closeOpen modelId now) := by
  intro v hv
  obtain ⟨u, hu, hid, -, -⟩ := mem_closeOpen hv
  change (db.hostedModel.get? v.hostedModelId).isSome
  rw [hid]
  exact h u hu

theorem Owned.current_isSome {db : Db} (h : Owned db) {modelId : String} {v : PricingVersion}
    (hcurrent : current db modelId = some v) : (db.hostedModel.get? modelId).isSome := by
  obtain ⟨hmem, hselected⟩ := List.mem_filter.mp (latest_mem hcurrent)
  have hid : v.hostedModelId = modelId := by simp_all
  exact hid ▸ h v hmem

/-- A write of a row whose version in effect has the prices written. -/
theorem Priced.set {db : Db} (h : Priced db) {modelId : String} {row : HostedModel}
    (hrow : ∀ v, current db modelId = some v → v.toRates = row.toRates) :
    Priced { db with hostedModel := db.hostedModel.set modelId row } := by
  intro j r hr v hv
  change (db.hostedModel.set modelId row).get? j = some r at hr
  by_cases hj : j = modelId
  · subst hj
    rw [KeyedMap.get?_set_self] at hr
    exact Option.some.inj hr ▸ hrow v hv
  · rw [KeyedMap.get?_set_of_ne hj] at hr
    exact h j r hr v hv

theorem priced_create {db : Db} {now : ℤ} (hbefore : ∀ v ∈ db.pricingVersion, v.effectiveFrom < now)
    {modelId : String} {rates : Rates}
    (hrow : ∀ row, db.hostedModel.get? modelId = some row → rates = row.toRates)
    (hothers : ∀ j row, j ≠ modelId → db.hostedModel.get? j = some row →
      ∀ v, current db j = some v → v.toRates = row.toRates) :
    Priced (db.create modelId rates now) := by
  intro j row hj v hv
  rw [current_create hbefore] at hv
  by_cases hid : j = modelId
  · subst hid
    rw [if_pos rfl] at hv
    exact Option.some.inj hv ▸ hrow row hj
  · rw [if_neg hid] at hv
    exact hothers j row hid hj v hv

theorem Priced.others {db : Db} (h : Priced db) {modelId j : String} {row r : HostedModel}
    (hj : j ≠ modelId) (hr : (db.hostedModel.set modelId row).get? j = some r) :
    ∀ v, current db j = some v → v.toRates = r.toRates := by
  rw [KeyedMap.get?_set_of_ne hj] at hr
  exact h j r hr

theorem priced_move {last now : ℤ} {db db' : Db} (htimed : Timed last db) (howned : Owned db)
    (hpriced : Priced db) (hlater : last < now) (h : Move db now db') : Priced db' := by
  cases h with
  | idle => exact hpriced
  | priced modelId row =>
    apply priced_create
    · exact htimed.before hlater
    · intro r hr
      change (db.hostedModel.set modelId row).get? modelId = some r at hr
      rw [KeyedMap.get?_set_self] at hr
      exact congrArg HostedModel.toRates (Option.some.inj hr)
    · exact fun j r hj hr => hpriced.others hj hr
  | kept modelId existing row found same =>
    apply hpriced.set
    intro v hv
    exact (hpriced modelId existing found v hv).trans same.symm
  | superseded modelId existing row found =>
    apply priced_create
    · exact before_closeOpen (htimed.before hlater) modelId now
    · intro r hr
      change (db.hostedModel.set modelId row).get? modelId = some r at hr
      rw [KeyedMap.get?_set_self] at hr
      exact congrArg HostedModel.toRates (Option.some.inj hr)
    · intro j r hj hr v hv
      rw [current_closeOpen hj] at hv
      exact hpriced.others hj hr v hv
  | opened modelId existing found absent =>
    apply priced_create (htimed.before hlater)
    · intro row hrow
      rw [found] at hrow
      exact congrArg HostedModel.toRates (Option.some.inj hrow)
    · exact fun j row _ hrow => hpriced j row hrow
  | registered modelId row same =>
    apply hpriced.set
    intro v hv
    obtain ⟨existing, hfound⟩ := Option.isSome_iff_exists.mp (howned.current_isSome hv)
    have hactive : (findActive db modelId now).isSome := by
      rw [findActive_eq_current htimed hlater, hv]
      rfl
    exact (hpriced modelId existing hfound v hv).trans (same existing hfound hactive).symm

theorem timed_move {last now : ℤ} {db db' : Db} (h : Timed last db) (hlater : last < now)
    (hmove : Move db now db') : Timed now db' := by
  have hnow : Timed now db := h.mono hlater
  cases hmove with
  | idle => exact hnow
  | priced modelId row => exact (hnow.set modelId row).create modelId row.toRates
  | kept modelId existing row => exact hnow.set modelId row
  | superseded modelId existing row =>
    exact ((hnow.set modelId row).closeOpen modelId).create modelId row.toRates
  | opened modelId existing => exact hnow.create modelId existing.toRates
  | registered modelId row => exact hnow.set modelId row

theorem isSome_get?_set (rows : KeyedMap String HostedModel) (modelId : String) (row : HostedModel) :
    ((rows.set modelId row).get? modelId).isSome := by
  rw [KeyedMap.get?_set_self]
  rfl

theorem owned_move {now : ℤ} {db db' : Db} (h : Owned db) (hmove : Move db now db') : Owned db' := by
  cases hmove with
  | idle => exact h
  | priced modelId row =>
    apply (h.set modelId row).create
    exact isSome_get?_set db.hostedModel modelId row
  | kept modelId existing row => exact h.set modelId row
  | superseded modelId existing row =>
    apply ((h.set modelId row).closeOpen modelId now).create
    exact isSome_get?_set db.hostedModel modelId row
  | opened modelId existing found => exact h.create (found ▸ rfl) existing.toRates now
  | registered modelId row => exact h.set modelId row

/-- What metering gets at a later time, said of the version in effect. -/
theorem advertised_iff_priced {w : World} (h : Timed w.now w.db) : Advertised w ↔ Priced w.db := by
  have hgets : ∀ modelId row, w.db.hostedModel.get? modelId = some row → ∀ now, w.now < now →
      ((getActivePricingVersion w.db now modelId).2.map PricingVersion.toRates = some row.toRates ↔
        ∀ v, current w.db modelId = some v → v.toRates = row.toRates) := by
    intro modelId row hrow now hnow
    rw [getActivePricingVersion, findActive_eq_current h hnow]
    cases hcurrent : current w.db modelId with
    | none => simp [hrow]
    | some v => simp
  constructor
  · intro hadvertised modelId row hrow
    exact (hgets modelId row hrow (w.now + 1) (by omega)).mp
      (hadvertised modelId row hrow (w.now + 1) (by omega))
  · intro hpriced modelId row hrow now hnow
    exact (hgets modelId row hrow now hnow).mpr (hpriced modelId row hrow)

theorem step_eq_some {env : Env} {w t : World} {e : ℤ × Op} (h : step env w e = some t) :
    w.now < e.1 ∧ t = ⟨e.1, perform env w.db e.1 e.2⟩ := by
  unfold step at h
  split at h
  · exact ⟨‹_›, (Option.some.inj h).symm⟩
  · cases h

theorem inv_step {env : Env} {w t : World} {e : ℤ × Op} (h : Inv w) (hstep : step env w e = some t)
    (hkeeps : KeepsPrices w e) : Inv t := by
  obtain ⟨hlater, rfl⟩ := step_eq_some hstep
  have hmove : Move w.db e.1 (perform env w.db e.1 e.2) := move_perform env hkeeps
  exact ⟨timed_move h.timed hlater hmove, owned_move h.owned hmove,
    priced_move h.timed h.owned h.priced hlater hmove⟩

/-- A registration after which the prices agree wrote the prices that were there. -/
theorem keepsPrices_of_advertised {env : Env} {w t : World} {e : ℤ × Op} (h : Inv w)
    (hstep : step env w e = some t) (hadvertised : Advertised t) : KeepsPrices w e := by
  obtain ⟨now, op⟩ := e
  obtain ⟨hlater, rfl⟩ := step_eq_some hstep
  cases op with
  | register weights body =>
    intro row hrow hactive d hwritten
    rw [findActive_eq_current h.timed hlater] at hactive
    obtain ⟨v, hv⟩ := Option.isSome_iff_exists.mp hactive
    have hdb : perform env w.db now (.register weights body) =
        w.db.upsert (body.modelId.getD "") d.1 d.2 := by
      change (register w.db weights body).1 = _
      rw [register_fst, hwritten]
    have htimed : Timed now (perform env w.db now (.register weights body)) := by
      rw [hdb]
      exact (h.timed.mono hlater).set _ _
    have hpriced : Priced (w.db.upsert (body.modelId.getD "") d.1 d.2) :=
      hdb ▸ (advertised_iff_priced htimed).mp hadvertised
    have hnew : v.toRates = d.1 := hpriced _ _ (KeyedMap.get?_set_self _ _ _) v hv
    exact hnew.symm.trans (h.priced _ row hrow v hv)
  | _ => trivial

/-- Metering gets the advertised prices after every operation exactly in the
runs whose registrations keep the prices of rows that have a version in effect. -/
theorem advertised_iff (env : Env) (now : ℤ) (events : List (ℤ × Op)) :
    EveryStep (step env) (fun _ _ t => Advertised t) (World.boot now) events ↔
      EveryStep (step env) (fun w e _ => KeepsPrices w e) (World.boot now) events := by
  apply everyStep_iff_guarded Inv
  · intro w e t hinv hstep hkeeps
    have ht : Inv t := inv_step hinv hstep hkeeps
    exact ⟨(advertised_iff_priced ht.timed).mpr ht.priced, ht⟩
  · intro w e t hinv hstep hadvertised
    exact keepsPrices_of_advertised hinv hstep hadvertised
  · exact inv_boot now

def sampleForm : ModelForm where
  modelId := some "m"
  displayName := some "Model"
  weightsPath := some "m.gguf"
  quantization := none
  contextLength := none
  nThreads := none
  pricePerMTokIn := some (.finite 100)
  pricePerMTokOut := some (.finite 300)
  remoteBaseUrl := none
  remoteModelId := none
  apiKey := none
  makeDefault := none

def sampleWeight : DiscoveredWeight := ⟨"m.gguf", "m.gguf", 1048576, "GGUF", "m", "m", 1⟩

/-- What the admin page sends for a file found: no prices. -/
def sampleBody : RegisterBody where
  weightsPath := some "m.gguf"
  modelId := some "m"
  displayName := some ""
  quantization := some ""
  contextLength := .finite 8192
  nThreads := .finite 8
  pricePerMTokIn := .nan
  pricePerMTokOut := .nan

/-- A model priced at 100 and 300 and then registered again: the row says 20
and 60, and metering still gets 100 and 300. -/
theorem registration_leaves_version :
    ¬ ∀ (env : Env) (now : ℤ) (events : List (ℤ × Op)),
      EveryStep (step env) (fun _ _ t => Advertised t) (World.boot now) events := by
  intro h
  have hrun := h ⟨none, none, none, "invalid"⟩ 0
    [(1, .upsertModel sampleForm), (2, .register [sampleWeight] sampleBody)]
  have hstep := ((hrun _ rfl).2 _ rfl).1
  have hprices := hstep "m" _ rfl 3 (by decide)
  revert hprices
  decide

end ModelForge.PricingVersions
