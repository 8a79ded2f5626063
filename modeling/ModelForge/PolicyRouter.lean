import ModelForge.RoutingPolicy
import ModelForge.ReceiptVerification
import ModelForge.KeyedMap

set_option autoImplicit false

/-!
# resolveModelForRequest

The gateway's use of the routing policy: the candidates are the key's models and
the one that was asked for, and what the policy resolves to is checked against
the key's models again.
-/
namespace ModelForge.PolicyRouter
open RoutingPolicy

structure AuthContext where
  customerId : String
  apiKeyId : String
  allowedModelIds : List String
  planId : Option String

structure HostedModel where
  modelId : String
  pricePerMTokIn : ℚ
  pricePerMTokOut : ℚ
  qualityClass : ℤ
  latencyClass : ℤ
  isPlatformDefault : Bool
  deriving DecidableEq

inductive PolicyKind where
  | ROUTING
  | other
  deriving DecidableEq

inductive PolicyScope where
  | PLATFORM
  | other
  deriving DecidableEq

structure PolicyVersion where
  id : String
  version : ℤ
  document : Option RoutingPolicyDocument

structure PolicyRow where
  kind : PolicyKind
  scope : PolicyScope
  enabled : Bool
  versions : List PolicyVersion

structure PolicyBinding where
  policy : PolicyRow
  planId : Option String
  customerId : Option String
  apiKeyId : Option String
  priority : ℤ

structure Message where
  role : String
  content : String
  deriving DecidableEq

/-- `LocalPiiProvider.redact`: the text, and how often each rule was found. -/
abbrev Redact := String → String × List (String × ℕ)

structure ResolveInput where
  auth : AuthContext
  requestedModel : String
  maxTokens : ℕ
  messages : Option (List Message)
  applyPii : Bool

structure ResolveModelResult where
  hosted : HostedModel
  requestedModelSlug : String
  resolvedModelSlug : String
  reason : String
  decisionHash : String
  policyVersionId : Option String
  redactedMessages : Option (List Message)
  piiFindings : Option (List (String × ℕ))

inductive ResolveCode where
  | MODEL_NOT_FOUND
  | ROUTING_POLICY_FAILED
  deriving DecidableEq

structure ResolveError where
  code : ResolveCode
  message : String

/-- What the three queries read, each at its own time. -/
structure Reads where
  models : List HostedModel
  bindings : List PolicyBinding
  modelsLater : List HostedModel

def estimateCandidateCost (model : HostedModel) (maxTokens : ℕ) : ℤ :=
  ⌈(512 + maxTokens) * (model.pricePerMTokIn + model.pricePerMTokOut) / 100⌉

/-- The `where` of the first query. -/
def findModels (models : List HostedModel) (input : ResolveInput) : List HostedModel :=
  models.filter fun model => model.modelId ∈ input.auth.allowedModelIds ∨
    (input.requestedModel ≠ "auto" ∧ model.modelId = input.requestedModel)

def toCandidate (maxTokens : ℕ) (model : HostedModel) : RoutingCandidate where
  modelSlug := model.modelId
  costMicros := .finite (estimateCandidateCost model maxTokens)
  qualityClass := .finite model.qualityClass
  latencyClass := .finite model.latencyClass
  available := some true

def toCandidates (models : List HostedModel) (input : ResolveInput) : List RoutingCandidate :=
  (models.filter fun model => model.modelId ∈ input.auth.allowedModelIds ∨
    input.requestedModel = model.modelId).map (toCandidate input.maxTokens)

def appliesTo (auth : AuthContext) (binding : PolicyBinding) : Bool :=
  (binding.apiKeyId = some auth.apiKeyId ∨ binding.customerId = some auth.customerId ∨
    (auth.planId.any fun id => id ≠ "" ∧ binding.planId = some id) ∨
    (binding.policy.scope = .PLATFORM ∧ binding.policy.kind = .ROUTING)) ∧
  binding.policy.enabled ∧ binding.policy.kind = .ROUTING

/-- The binding of the lowest priority number that applies to the key. -/
def findBinding (auth : AuthContext) (bindings : List PolicyBinding) : Option PolicyBinding :=
  ((bindings.filter (appliesTo auth)).insertionSort fun a b => a.priority ≤ b.priority).head?

def latestVersion (binding : PolicyBinding) : Option PolicyVersion :=
  (binding.policy.versions.insertionSort fun a b => b.version ≤ a.version).head?

def emptyDocument : RoutingPolicyDocument := ⟨none, none, none, none, none⟩

def routingDocument (binding : Option PolicyBinding) : RoutingPolicyDocument :=
  ((binding.bind latestVersion).bind PolicyVersion.document).getD emptyDocument

def addFinding (findings : KeyedMap String ℕ) (finding : String × ℕ) : KeyedMap String ℕ :=
  findings.set finding.1 ((findings.get? finding.1).getD 0 + finding.2)

/-- The messages as they go on, and what was redacted in them. -/
def redactMessages (redact : Redact) (input : ResolveInput) :
    Option (List Message) × Option (List (String × ℕ)) :=
  match input.messages with
  | some messages =>
    if input.applyPii then
      let found := messages.flatMap fun message => (redact message.content).2
      (some (messages.map fun message => { message with content := (redact message.content).1 }),
        some (found.foldl addFinding .empty).entries)
    else (some messages, none)
  | none => (none, none)

def notOnPlan (model : String) : ResolveError :=
  ⟨.MODEL_NOT_FOUND, "Model " ++ model ++ " not available on your plan"⟩

/-- `resolveModelForRequest`; `schemaMessage` is what the validator says of a
document or context that it refuses. -/
def resolveModelForRequest (rt : Runtime) (redact : Redact) (schemaMessage : String) (reads : Reads)
    (input : ResolveInput) : Except ResolveError ResolveModelResult :=
  let models := findModels reads.models input
  let candidates := toCandidates models input
  if candidates = [] then .error (notOnPlan input.requestedModel)
  else
    let binding := findBinding input.auth reads.bindings
    let platformDefault := reads.modelsLater.find? fun model => model.isPlatformDefault
    let context : RoutingContext :=
      ⟨input.requestedModel, candidates, platformDefault.map HostedModel.modelId⟩
    match evaluateRoutingPolicy rt (routingDocument binding) context with
    | .error e => .error ⟨.ROUTING_POLICY_FAILED, e.message schemaMessage⟩
    | .ok decision =>
      if input.requestedModel ≠ "auto" ∧ input.requestedModel ∉ input.auth.allowedModelIds then
        .error (notOnPlan input.requestedModel)
      else if decision.resolvedModelSlug ∉ input.auth.allowedModelIds then
        .error ⟨.MODEL_NOT_FOUND, "Resolved model " ++ decision.resolvedModelSlug ++ " not entitled"⟩
      else
        match models.find? fun model => model.modelId = decision.resolvedModelSlug with
        | none => .error ⟨.MODEL_NOT_FOUND, "Resolved model missing"⟩
        | some hosted =>
          let redacted := redactMessages redact input
          .ok {
            hosted := hosted
            requestedModelSlug := input.requestedModel
            resolvedModelSlug := decision.resolvedModelSlug
            reason := decision.reason
            decisionHash := if decision.decisionHash = "" then
              rt.sha256Hex (input.requestedModel ++ ":" ++ decision.resolvedModelSlug)
              else decision.decisionHash
            policyVersionId := (binding.bind latestVersion).map PolicyVersion.id
            redactedMessages := redacted.1
            piiFindings := redacted.2 }

/-- What is returned was decided by the policy, and is one of the key's models. -/
theorem resolve_ok {rt : Runtime} {redact : Redact} {schemaMessage : String} {reads : Reads}
    {input : ResolveInput} {result : ResolveModelResult}
    (h : resolveModelForRequest rt redact schemaMessage reads input = .ok result) :
    result.hosted.modelId = result.resolvedModelSlug ∧
      result.resolvedModelSlug ∈ input.auth.allowedModelIds ∧
      result.hosted ∈ reads.models := by
  unfold resolveModelForRequest at h
  dsimp only at h
  split at h
  · cases h
  · split at h
    · cases h
    · split at h
      · cases h
      · split at h
        · cases h
        · rename_i hallowed
          split at h
          · cases h
          · rename_i hosted hfound
            obtain rfl := Except.ok.inj h
            have hmem := (List.mem_filter.mp (List.mem_of_find?_eq_some hfound)).1
            exact ⟨by simpa using List.find?_some hfound, not_not.mp hallowed, hmem⟩

/-- The policy's decision on schema-valid input, and the key's entitlement. -/
theorem routing_respects_policy_and_entitlement (rt : Runtime) :
    (∀ (document : RoutingPolicyDocument) (context : RoutingContext) (policy : Policy) (input : Input),
      document.parse = some policy → context.parse = some input →
        ((∃ e, evaluateRoutingPolicy rt document context = .error e) ↔
          (∀ slug, ¬ Eligible policy input slug) ∨ DefaultBlocked policy input) ∧
        ∀ decision, evaluateRoutingPolicy rt document context = .ok decision →
          ∃ c ∈ input.candidates, satisfies policy c = true ∧
            decision.resolvedModelSlug = c.modelSlug ∧ Chosen rt.collation policy input c) ∧
    ∀ (redact : Redact) (schemaMessage : String) (reads : Reads) (input : ResolveInput)
      (result : ResolveModelResult),
      resolveModelForRequest rt redact schemaMessage reads input = .ok result →
        result.hosted.modelId ∈ input.auth.allowedModelIds ∧
          result.resolvedModelSlug ∈ input.auth.allowedModelIds := by
  refine ⟨fun document context policy input hpolicy hinput => ?_,
    fun redact schemaMessage reads input result h => ?_⟩
  · have hroute : evaluateRoutingPolicy rt document context = route rt policy input := by
      unfold evaluateRoutingPolicy
      rw [hpolicy, hinput]
    rw [hroute]
    rcases route_cases rt policy input with ⟨hthrows, e, he⟩ | ⟨hsome, hdefault, c, reason, hash, hc, hok⟩
    · refine ⟨⟨fun _ => hthrows, fun _ => ⟨e, he⟩⟩, fun decision hdecision => ?_⟩
      cases he.symm.trans hdecision
    · refine ⟨⟨fun ⟨e, he⟩ => ?_, fun hthrows => ?_⟩, fun decision hdecision => ?_⟩
      · cases hok.symm.trans he
      · rcases hthrows with hnone | hblocked
        · obtain ⟨slug, hslug⟩ := hsome
          exact absurd hslug (hnone slug)
        · exact absurd hblocked hdefault
      · obtain rfl := Except.ok.inj (hok.symm.trans hdecision)
        obtain ⟨hmem, hsatisfies, hchosen⟩ := selected_spec hdefault hc
        exact ⟨c, hmem, hsatisfies, rfl, hchosen⟩
  · obtain ⟨hhosted, hallowed, -⟩ := resolve_ok h
    exact ⟨hhosted ▸ hallowed, hallowed⟩

def sampleRuntime : Runtime :=
  ⟨ReceiptVerification.defaultCollation, fun q => ReceiptVerification.integer ⌊q⌋, id⟩

def sampleModel (modelId : String) (price quality : ℤ) : HostedModel :=
  ⟨modelId, price, price, quality, 30, false⟩

def sampleReads : Reads :=
  ⟨[sampleModel "premium" 80 95, sampleModel "balanced" 45 80, sampleModel "economy" 20 60],
    [⟨⟨.ROUTING, .PLATFORM, true,
      [⟨"v1", 1, some ⟨none, some (.finite 70), none, some ["economy", "balanced"], none⟩⟩]⟩,
      none, none, none, 100⟩], []⟩

def sampleRequest : ResolveInput :=
  ⟨⟨"c", "k", ["premium", "balanced", "economy"], none⟩, "auto", 256, none, false⟩

def onlyEconomy : RoutingContext :=
  ⟨"auto", [⟨"economy", .finite 20, .finite 60, .finite 35, none⟩], some "economy"⟩

/-- The first preferred model has too low a quality, the second is chosen. -/
theorem sample_request_routed :
    ∃ result, resolveModelForRequest sampleRuntime (fun text => (text, [])) "" sampleReads
        sampleRequest = .ok result ∧ result.resolvedModelSlug = "balanced" ∧
      result.hosted.modelId ∈ sampleRequest.auth.allowedModelIds ∧
      ∀ decision, evaluateRoutingPolicy sampleRuntime emptyDocument onlyEconomy = .ok decision →
        decision.resolvedModelSlug = "economy" := by
  have hslug : ((resolveModelForRequest sampleRuntime (fun text => (text, [])) "" sampleReads
      sampleRequest).map ResolveModelResult.resolvedModelSlug).toOption = some "balanced" := by
    decide +kernel
  cases hresult : resolveModelForRequest sampleRuntime (fun text => (text, [])) "" sampleReads
      sampleRequest with
  | error e =>
    rw [hresult] at hslug
    cases hslug
  | ok result =>
    rw [hresult] at hslug
    refine ⟨result, rfl, Option.some.inj hslug, ?_, fun decision hdecision => ?_⟩
    · exact ((routing_respects_policy_and_entitlement sampleRuntime).2 (fun text => (text, [])) ""
        sampleReads sampleRequest result hresult).1
    · obtain ⟨c, hc, -, hslug', -⟩ := ((routing_respects_policy_and_entitlement sampleRuntime).1
        emptyDocument onlyEconomy ⟨none, none, none, [], []⟩
        ⟨"auto", [⟨"economy", 20, 60, 35, true⟩], some "economy"⟩ (by decide +kernel)
        (by decide +kernel)).2 decision hdecision
      obtain rfl := List.mem_singleton.mp hc
      exact hslug'

end ModelForge.PolicyRouter
