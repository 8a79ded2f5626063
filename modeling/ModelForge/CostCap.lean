import ModelForge.InvoiceAmount
import ModelForge.RoutingOrder

set_option autoImplicit false

/-!
# The cost cap of a routing policy

A policy's `maxCostMicros` is held against an estimate for 512 prompt tokens and
the asked completion, both at the sum of the two prices. What the estimate says
about the charge for the tokens of the request.
-/
namespace ModelForge.CostCap

open InvoiceAmount (computeCostMicros mathRound)
open PolicyRouter RoutingPolicy

/-! ## What a returned model was admitted by -/

/-- The context that the policy is evaluated in. -/
def routingContext (reads : Reads) (input : ResolveInput) : RoutingContext :=
  ⟨input.requestedModel, toCandidates (findModels reads.models input) input,
    (reads.modelsLater.find? fun model => model.isPlatformDefault).map HostedModel.modelId⟩

theorem resolve_decision {rt : Runtime} {redact : Redact} {schemaMessage : String} {reads : Reads}
    {input : ResolveInput} {result : ResolveModelResult}
    (h : resolveModelForRequest rt redact schemaMessage reads input = .ok result) :
    ∃ decision,
      evaluateRoutingPolicy rt (routingDocument (findBinding input.auth reads.bindings))
          (routingContext reads input) = .ok decision ∧
        decision.resolvedModelSlug = result.resolvedModelSlug := by
  unfold resolveModelForRequest at h
  dsimp only at h
  split at h
  · cases h
  · split at h
    · cases h
    · rename_i decision hdecision
      split at h
      · cases h
      · split at h
        · cases h
        · split at h
          · cases h
          · cases h
            exact ⟨decision, hdecision, rfl⟩

theorem asNatural_eq_some {q : ℚ} {n : ℕ} (h : (JsNum.finite q).asNatural = some n) : (n : ℚ) = q := by
  unfold JsNum.asNatural at h
  dsimp only at h
  split_ifs at h with hnat
  obtain rfl := Option.some.inj h
  have hnum : ((q.num.toNat : ℤ) : ℚ) = q.num := by
    rw [Int.toNat_of_nonneg (Rat.num_nonneg.mpr hnat.2)]
  calc ((q.num.toNat : ℕ) : ℚ) = ((q.num.toNat : ℤ) : ℚ) := rfl
    _ = q.num := hnum
    _ = q := Rat.coe_int_num_of_den_eq_one hnat.1

/-- The candidate of a hosted model is parsed to its slug and its estimate. -/
theorem toCandidate_parse {maxTokens : ℕ} {model : HostedModel} {c : Candidate}
    (h : (toCandidate maxTokens model).parse = some c) :
    c.modelSlug = model.modelId ∧ (c.costMicros : ℚ) = estimateCandidateCost model maxTokens := by
  refine ⟨RoutingOrder.parse_slug _ _ h, ?_⟩
  unfold RoutingCandidate.parse toCandidate at h
  simp only [Option.bind_eq_bind, Option.bind_eq_some_iff] at h
  obtain ⟨slug, _, cost, hcost, quality, _, latency, _, h⟩ := h
  cases h
  exact asNatural_eq_some hcost

theorem policy_maxCost {document : RoutingPolicyDocument} {policy : Policy} {B : ℚ}
    (h : document.parse = some policy) (hcap : document.maxCostMicros = some (.finite B)) :
    ∃ n : ℕ, policy.maxCostMicros = some n ∧ (n : ℚ) = B := by
  unfold RoutingPolicyDocument.parse at h
  simp only [Option.bind_eq_bind, Option.bind_eq_some_iff] at h
  obtain ⟨cost, hcost, quality, _, latency, _, preferred, _, fallback, _, h⟩ := h
  cases h
  rw [hcap, RoutingPolicy.optional, Option.map_eq_some_iff] at hcost
  obtain ⟨n, hn, rfl⟩ := hcost
  exact ⟨n, rfl, asNatural_eq_some hn⟩

/-- What the policy bounds is the estimate of the model that is returned. -/
theorem estimate_bounds {rt : Runtime} {redact : Redact} {schemaMessage : String} {reads : Reads}
    {input : ResolveInput} {result : ResolveModelResult} {B : ℚ}
    (hunique : (reads.models.map HostedModel.modelId).Nodup)
    (hcap : (routingDocument (findBinding input.auth reads.bindings)).maxCostMicros = some (.finite B))
    (h : resolveModelForRequest rt redact schemaMessage reads input = .ok result) :
    0 ≤ estimateCandidateCost result.hosted input.maxTokens ∧
      (estimateCandidateCost result.hosted input.maxTokens : ℚ) ≤ B := by
  obtain ⟨decision, hdecision, hslug⟩ := resolve_decision h
  obtain ⟨hhosted, _, hmodels⟩ := resolve_ok h
  unfold evaluateRoutingPolicy at hdecision
  split at hdecision
  case h_2 => cases hdecision
  case h_1 policy parsed hpolicy hparsed =>
    have hvalid := ((routing_respects_policy_and_entitlement rt).1 _ _ policy parsed hpolicy hparsed).2
      decision (by rw [evaluateRoutingPolicy, hpolicy, hparsed]; exact hdecision)
    obtain ⟨c, hc, hsatisfies, hchosen, _⟩ := hvalid
    obtain ⟨_, hcandidates, _⟩ := RoutingOrder.parse_spec hparsed
    obtain ⟨raw, hraw, hrawc⟩ := CheckedList.mem_of_mapM hcandidates hc
    obtain ⟨model, hmodel, rfl⟩ := List.mem_map.mp hraw
    obtain ⟨hcslug, hcost⟩ := toCandidate_parse hrawc
    have hmodel' : model ∈ reads.models :=
      (List.mem_filter.mp (List.mem_filter.mp hmodel).1).1
    have hsame : model = result.hosted := by
      apply List.inj_on_of_nodup_map hunique hmodel' hmodels
      rw [← hcslug, ← hchosen, hslug, hhosted]
    obtain ⟨n, hn, rfl⟩ := policy_maxCost hpolicy hcap
    simp only [satisfies, hn, Option.all_some, Bool.and_eq_true, decide_eq_true_eq] at hsatisfies
    rw [← hsame]
    constructor
    · have hnonneg : (0 : ℚ) ≤ estimateCandidateCost model input.maxTokens := by
        rw [← hcost]
        exact Nat.cast_nonneg _
      exact_mod_cast hnonneg
    · rw [← hcost]
      exact_mod_cast hsatisfies.1.1.2

/-! ## The estimate and the charge -/

/-- The tokens at their prices, in the estimate's hundredths. -/
def rated (model : HostedModel) (promptTokens completionTokens : ℕ) : ℚ :=
  promptTokens * model.pricePerMTokIn + completionTokens * model.pricePerMTokOut

def charge (model : HostedModel) (promptTokens completionTokens : ℕ) : ℤ :=
  computeCostMicros promptTokens completionTokens model.pricePerMTokIn model.pricePerMTokOut

theorem charge_le_estimate {model : HostedModel} {maxTokens promptTokens completionTokens : ℕ}
    (hestimate : 0 ≤ estimateCandidateCost model maxTokens)
    (h : rated model promptTokens completionTokens ≤
      (512 + maxTokens) * (model.pricePerMTokIn + model.pricePerMTokOut)) :
    charge model promptTokens completionTokens ≤ estimateCandidateCost model maxTokens := by
  have hceil : (512 + maxTokens) * (model.pricePerMTokIn + model.pricePerMTokOut) / 100 ≤
      (estimateCandidateCost model maxTokens : ℚ) := Int.le_ceil _
  apply max_le hestimate
  rw [InvoiceAmount.mathRound_le]
  have hrated : ((promptTokens : ℤ) : ℚ) * model.pricePerMTokIn +
      ((completionTokens : ℤ) : ℚ) * model.pricePerMTokOut = rated model promptTokens completionTokens := rfl
  rw [hrated]
  linarith

/-- Tokens within the figures of the estimate are rated within it. -/
theorem rated_le {model : HostedModel} {maxTokens promptTokens completionTokens : ℕ}
    (hin : 0 ≤ model.pricePerMTokIn) (hout : 0 ≤ model.pricePerMTokOut)
    (hprompt : promptTokens ≤ 512 + maxTokens) (hcompletion : completionTokens ≤ maxTokens) :
    rated model promptTokens completionTokens ≤
      (512 + maxTokens) * (model.pricePerMTokIn + model.pricePerMTokOut) := by
  have hprompt' : (promptTokens : ℚ) ≤ 512 + maxTokens := by exact_mod_cast hprompt
  have hcompletion' : (completionTokens : ℚ) ≤ 512 + maxTokens := by
    exact_mod_cast (by omega : completionTokens ≤ 512 + maxTokens)
  calc rated model promptTokens completionTokens
      ≤ (512 + maxTokens) * model.pricePerMTokIn + (512 + maxTokens) * model.pricePerMTokOut :=
        add_le_add (mul_le_mul_of_nonneg_right hprompt' hin) (mul_le_mul_of_nonneg_right hcompletion' hout)
    _ = (512 + maxTokens) * (model.pricePerMTokIn + model.pricePerMTokOut) := by ring

/-- The cap bounds the estimate, and with it the charge for tokens that are rated
within the estimate, such as a prompt of up to `512 + maxTokens` tokens. -/
theorem cost_cap_honoured (rt : Runtime) (redact : Redact) (schemaMessage : String) (reads : Reads)
    (input : ResolveInput) (result : ResolveModelResult) (B : ℚ)
    (hunique : (reads.models.map HostedModel.modelId).Nodup)
    (hcap : (routingDocument (findBinding input.auth reads.bindings)).maxCostMicros = some (.finite B))
    (h : resolveModelForRequest rt redact schemaMessage reads input = .ok result) :
    (estimateCandidateCost result.hosted input.maxTokens : ℚ) ≤ B ∧
      ∀ promptTokens completionTokens, completionTokens ≤ input.maxTokens →
        (rated result.hosted promptTokens completionTokens ≤
            (512 + input.maxTokens) * (result.hosted.pricePerMTokIn + result.hosted.pricePerMTokOut) ∨
          0 ≤ result.hosted.pricePerMTokIn ∧ 0 ≤ result.hosted.pricePerMTokOut ∧
            promptTokens ≤ 512 + input.maxTokens) →
        (charge result.hosted promptTokens completionTokens : ℚ) ≤ B := by
  obtain ⟨hnonneg, hle⟩ := estimate_bounds hunique hcap h
  refine ⟨hle, ?_⟩
  intro promptTokens completionTokens hcompletion hwithin
  have hrated : rated result.hosted promptTokens completionTokens ≤
      (512 + input.maxTokens) * (result.hosted.pricePerMTokIn + result.hosted.pricePerMTokOut) := by
    cases hwithin with
    | inl hwithin => exact hwithin
    | inr hwithin => exact rated_le hwithin.1 hwithin.2.1 hwithin.2.2 hcompletion
  have hcharge := charge_le_estimate hnonneg hrated
  calc (charge result.hosted promptTokens completionTokens : ℚ)
      ≤ estimateCandidateCost result.hosted input.maxTokens := by exact_mod_cast hcharge
    _ ≤ B := hle

/-! ## A policy with a cap of 1000 -/

def cappedModel : HostedModel := ⟨"m", 20, 60, 80, 30, false⟩

def cappedReads : Reads :=
  ⟨[cappedModel], [⟨⟨.ROUTING, .PLATFORM, true,
    [⟨"v1", 1, some ⟨some (.finite 1000), none, none, none, none⟩⟩]⟩, none, none, none, 100⟩], []⟩

def cappedRequest : ResolveInput := ⟨⟨"c", "k", ["m"], none⟩, "m", 256, none, false⟩

theorem capped_resolved :
    ∃ result, resolveModelForRequest sampleRuntime (fun text => (text, [])) "" cappedReads
      cappedRequest = .ok result ∧ result.hosted = cappedModel := by
  have hhosted : ((resolveModelForRequest sampleRuntime (fun text => (text, [])) "" cappedReads
      cappedRequest).map ResolveModelResult.hosted).toOption = some cappedModel := by
    decide +kernel
  cases hresult : resolveModelForRequest sampleRuntime (fun text => (text, [])) "" cappedReads
      cappedRequest with
  | error e =>
    rw [hresult] at hhosted
    cases hhosted
  | ok result =>
    rw [hresult] at hhosted
    exact ⟨result, rfl, Option.some.inj hhosted⟩

/-- A short prompt stays within the cap. -/
theorem short_prompt_capped : (charge cappedModel 700 256 : ℚ) ≤ 1000 := by
  obtain ⟨result, hresult, hhosted⟩ := capped_resolved
  have hcapped := cost_cap_honoured sampleRuntime (fun text => (text, [])) "" cappedReads cappedRequest
    result 1000 (by decide) (by decide +kernel) hresult
  rw [hhosted] at hcapped
  exact hcapped.2 700 256 (by decide) (.inr ⟨by decide +kernel, by decide +kernel, by decide⟩)

/-- The same request with a prompt of ten thousand tokens costs more than the cap. -/
theorem long_prompt_over_cap :
    (routingDocument (findBinding cappedRequest.auth cappedReads.bindings)).maxCostMicros =
        some (.finite 1000) ∧
      (∃ result, resolveModelForRequest sampleRuntime (fun text => (text, [])) "" cappedReads
        cappedRequest = .ok result ∧ result.hosted = cappedModel) ∧
      256 ≤ cappedRequest.maxTokens ∧
      computeCostMicros 10000 256 cappedModel.pricePerMTokIn cappedModel.pricePerMTokOut = 2154 := by
  refine ⟨by decide +kernel, ?_, by decide, by decide +kernel⟩
  exact capped_resolved

end ModelForge.CostCap
