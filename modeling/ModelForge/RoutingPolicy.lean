import ModelForge.CanonicalJson

set_option autoImplicit false

/-!
# The routing policy

`evaluateRoutingPolicy`: the candidates that the policy's limits let through,
and the order in which the requested model, the platform default, the two lists
and the price decide between them.
-/
namespace ModelForge.RoutingPolicy
open JsonText JsonMembers CanonicalJson

/-- A JavaScript number; NaN and the infinities are not finite. -/
inductive JsNum where
  | finite (q : ℚ)
  | nonFinite
  deriving DecidableEq, Repr

/-- `z.number().finite()` -/
def JsNum.asFinite : JsNum → Option ℚ
  | .finite q => some q
  | .nonFinite => none

/-- `z.number().int().nonnegative()` -/
def JsNum.asNatural : JsNum → Option ℕ
  | .finite q => if q.den = 1 ∧ 0 ≤ q then some q.num.toNat else none
  | .nonFinite => none

structure RoutingPolicyDocument where
  maxCostMicros : Option JsNum
  minQuality : Option JsNum
  maxLatencyClass : Option JsNum
  preferredModels : Option (List String)
  fallbackModels : Option (List String)

structure RoutingCandidate where
  modelSlug : String
  costMicros : JsNum
  qualityClass : JsNum
  latencyClass : JsNum
  available : Option Bool

structure RoutingContext where
  requestedModel : String
  candidates : List RoutingCandidate
  platformDefaultModel : Option String

/-! ## What the schemas return -/

structure Policy where
  maxCostMicros : Option ℕ
  minQuality : Option ℚ
  maxLatencyClass : Option ℚ
  preferredModels : List String
  fallbackModels : List String
  deriving DecidableEq, Repr

structure Candidate where
  modelSlug : String
  costMicros : ℕ
  qualityClass : ℚ
  latencyClass : ℚ
  available : Bool
  deriving DecidableEq, Repr

structure Input where
  requestedModel : String
  candidates : List Candidate
  platformDefaultModel : Option String
  deriving DecidableEq, Repr

/-- `optional()`: an absent field passes, a present one is checked. -/
def optional {α β : Type} (check : α → Option β) : Option α → Option (Option β)
  | none => some none
  | some a => (check a).map some

/-- `z.string().min(1)` -/
def nonEmpty (s : String) : Option String := if s = "" then none else some s

/-- `z.array(z.string().min(1)).default([])` -/
def slugs (xs : Option (List String)) : Option (List String) := (xs.getD []).mapM nonEmpty

/-- `routingPolicyDocumentSchema.parse`, without a result where it throws. -/
def RoutingPolicyDocument.parse (document : RoutingPolicyDocument) : Option Policy := do
  return {
    maxCostMicros := ← optional JsNum.asNatural document.maxCostMicros
    minQuality := ← optional JsNum.asFinite document.minQuality
    maxLatencyClass := ← optional JsNum.asFinite document.maxLatencyClass
    preferredModels := ← slugs document.preferredModels
    fallbackModels := ← slugs document.fallbackModels }

/-- `routingCandidateSchema.parse` -/
def RoutingCandidate.parse (candidate : RoutingCandidate) : Option Candidate := do
  return {
    modelSlug := ← nonEmpty candidate.modelSlug
    costMicros := ← candidate.costMicros.asNatural
    qualityClass := ← candidate.qualityClass.asFinite
    latencyClass := ← candidate.latencyClass.asFinite
    available := candidate.available.getD true }

/-- `routingContextSchema.parse` -/
def RoutingContext.parse (context : RoutingContext) : Option Input := do
  let requestedModel ← nonEmpty context.requestedModel
  let candidates ← context.candidates.mapM RoutingCandidate.parse
  let platformDefaultModel ← optional nonEmpty context.platformDefaultModel
  if candidates = [] then none else return ⟨requestedModel, candidates, platformDefaultModel⟩

/-! ## The decision -/

/-- The locale, the texts of numbers and the hash of the platform. -/
structure Runtime where
  collation : Collation
  numberText : ℚ → JsNumber
  sha256Hex : String → String

inductive RoutingError where
  | schema
  | noCandidate
  | notEntitled (slug : String)
  | blocked (slug : String)
  | notSelected
  | canonical (e : CanonicalError)
  deriving DecidableEq

/-- The message of each error; that of a schema is the validator's own. -/
def RoutingError.message (schemaMessage : String) : RoutingError → String
  | .schema => schemaMessage
  | .noCandidate => "No routing candidate satisfies the policy"
  | .notEntitled slug => "Platform default " ++ slug ++ " is not entitled on this API key"
  | .blocked slug => "Platform default " ++ slug ++ " is blocked by routing policy constraints"
  | .notSelected => "No routing candidate could be selected"
  | .canonical e => e.message

structure RoutingDecision where
  resolvedModelSlug : String
  reason : String
  decisionHash : String
  deriving DecidableEq, Repr

/-- Available, and within the policy's limits. -/
def satisfies (policy : Policy) (candidate : Candidate) : Bool :=
  candidate.available &&
    policy.maxCostMicros.all (fun most => candidate.costMicros ≤ most) &&
    policy.minQuality.all (fun least => least ≤ candidate.qualityClass) &&
    policy.maxLatencyClass.all fun most => candidate.latencyClass ≤ most

def named (slug : String) (candidates : List Candidate) : Option Candidate :=
  candidates.find? fun candidate => candidate.modelSlug = slug

def firstListedCandidate : List String → List Candidate → Option Candidate
  | [], _ => none
  | slug :: rest, candidates =>
    match named slug candidates with
    | some candidate => some candidate
    | none => firstListedCandidate rest candidates

/-- The comparator of the sort: each difference decides unless it is 0. -/
def compareCandidates (collation : Collation) (left right : Candidate) : Ordering :=
  (cmp left.costMicros right.costMicros).then <|
    (cmp right.qualityClass left.qualityClass).then <|
      (cmp left.latencyClass right.latencyClass).then <|
        collation.localeCompare left.modelSlug right.modelSlug

def SortsBefore (collation : Collation) (left right : Candidate) : Prop :=
  compareCandidates collation left right ≠ .gt

instance (collation : Collation) : DecidableRel (SortsBefore collation) := fun left right =>
  inferInstanceAs (Decidable (compareCandidates collation left right ≠ .gt))

def bestEligible (collation : Collation) (eligible : List Candidate) : Option Candidate :=
  (eligible.insertionSort (SortsBefore collation)).head?

/-- What is selected so far, and the reason so far. -/
abbrev Selection := Option Candidate × String

def requestedSelection (input : Input) (eligible : List Candidate) : Selection :=
  if input.requestedModel ≠ "auto" then
    match named input.requestedModel eligible with
    | some candidate => (some candidate, "requested_model_eligible")
    | none => (none, "requested_model_ineligible")
  else (none, "auto_routing")

def platformDefault (input : Input) (eligible : List Candidate) (selection : Selection) :
    Except RoutingError Selection :=
  if input.requestedModel = "auto" then
    match input.platformDefaultModel with
    | none => .ok selection
    | some slug =>
      match named slug input.candidates, named slug eligible with
      | none, _ => .error (.notEntitled slug)
      | some _, none => .error (.blocked slug)
      | some _, some candidate => .ok (some candidate, selection.2 ++ ":platform_default")
  else .ok selection

/-- One of the steps that are taken while nothing is selected. -/
def orElse (found : Option Candidate) (suffix : String) (selection : Selection) : Selection :=
  match selection.1, found with
  | some _, _ => selection
  | none, some candidate => (some candidate, selection.2 ++ suffix)
  | none, none => selection

def texts (xs : List String) : Json := .array (xs.map .string)

def field (key : String) (value : Option Json) : List (String × Json) :=
  value.toList.map fun v => (key, v)

def policyJson (rt : Runtime) (policy : Policy) : Json :=
  .object <|
    field "maxCostMicros" (policy.maxCostMicros.map fun n => .number (rt.numberText n)) ++
    field "minQuality" (policy.minQuality.map fun q => .number (rt.numberText q)) ++
    field "maxLatencyClass" (policy.maxLatencyClass.map fun q => .number (rt.numberText q)) ++
    [("preferredModels", texts policy.preferredModels), ("fallbackModels", texts policy.fallbackModels)]

def candidateJson (rt : Runtime) (candidate : Candidate) : Json :=
  .object [
    ("modelSlug", .string candidate.modelSlug),
    ("costMicros", .number (rt.numberText candidate.costMicros)),
    ("qualityClass", .number (rt.numberText candidate.qualityClass)),
    ("latencyClass", .number (rt.numberText candidate.latencyClass)),
    ("available", .bool candidate.available)]

def inputJson (rt : Runtime) (input : Input) : Json :=
  .object <|
    [("requestedModel", .string input.requestedModel),
      ("candidates", .array (input.candidates.map (candidateJson rt)))] ++
    field "platformDefaultModel" (input.platformDefaultModel.map .string)

def decisionData (rt : Runtime) (policy : Policy) (input : Input) (slug reason : String) : Json :=
  .object [
    ("resolvedModelSlug", .string slug),
    ("reason", .string reason),
    ("policy", policyJson rt policy),
    ("context", inputJson rt input)]

def hashCanonicalPayload (rt : Runtime) (value : JsValue) : Except CanonicalError String :=
  (canonicalStringify value).map rt.sha256Hex

def decision (rt : Runtime) (policy : Policy) (input : Input) (selection : Selection) :
    Except RoutingError RoutingDecision :=
  match selection.1 with
  | none => .error .notSelected
  | some selected =>
    match hashCanonicalPayload rt (toJs (decisionData rt policy input selected.modelSlug selection.2)) with
    | .error e => .error (.canonical e)
    | .ok hash => .ok ⟨selected.modelSlug, selection.2, hash⟩

/-- The three steps after the platform default. -/
def lastSelection (collation : Collation) (policy : Policy) (input : Input) (selection : Selection) :
    Selection :=
  let eligible := input.candidates.filter (satisfies policy)
  let selection :=
    orElse (firstListedCandidate policy.preferredModels eligible) ":preferred_model" selection
  let selection :=
    orElse (firstListedCandidate policy.fallbackModels eligible) ":fallback_model" selection
  orElse (bestEligible collation eligible) ":best_eligible" selection

/-- `evaluateRoutingPolicy` on what the schemas return. -/
def route (rt : Runtime) (policy : Policy) (input : Input) : Except RoutingError RoutingDecision :=
  let eligible := input.candidates.filter (satisfies policy)
  if eligible = [] then .error .noCandidate
  else
    match platformDefault input eligible (requestedSelection input eligible) with
    | .error e => .error e
    | .ok selection => decision rt policy input (lastSelection rt.collation policy input selection)

def evaluateRoutingPolicy (rt : Runtime) (document : RoutingPolicyDocument) (context : RoutingContext) :
    Except RoutingError RoutingDecision :=
  match document.parse, context.parse with
  | some policy, some input => route rt policy input
  | _, _ => .error .schema

/-! ## The least candidate -/

section
variable (collation : Collation)

/-- Cost, descending quality, latency, slug. -/
def rank (candidate : Candidate) : ℕ ×ₗ ℚᵒᵈ ×ₗ ℚ ×ₗ List ℕ :=
  toLex (candidate.costMicros, toLex (OrderDual.toDual candidate.qualityClass,
    toLex (candidate.latencyClass, collation.sortKey candidate.modelSlug)))

theorem then_ne_gt {α : Type} [LinearOrder α] (a b : α) (o : Ordering) :
    (cmp a b).then o ≠ .gt ↔ a < b ∨ a = b ∧ o ≠ .gt := by
  rcases lt_trichotomy a b with h | rfl | h
  · simp [cmp_eq_lt_iff a b |>.mpr h, h]
  · simp [cmp_self_eq_eq]
  · simp [cmp_eq_gt_iff a b |>.mpr h, h.not_gt, h.ne']

theorem sortsBefore_iff (left right : Candidate) :
    SortsBefore collation left right ↔ rank collation left ≤ rank collation right := by
  have hslug : collation.localeCompare left.modelSlug right.modelSlug ≠ .gt ↔
      collation.sortKey left.modelSlug ≤ collation.sortKey right.modelSlug :=
    collation.le_iff left.modelSlug right.modelSlug
  unfold SortsBefore compareCandidates rank
  rw [then_ne_gt, then_ne_gt, then_ne_gt, hslug]
  simp only [Prod.Lex.toLex_le_toLex, OrderDual.toDual_lt_toDual, OrderDual.toDual_inj,
    eq_comm (a := right.qualityClass)]

instance : Std.Total (SortsBefore collation) := ⟨fun left right => by
  rw [sortsBefore_iff, sortsBefore_iff]
  exact le_total _ _⟩

instance : IsTrans Candidate (SortsBefore collation) := ⟨fun _ _ _ => by
  simp only [sortsBefore_iff]
  exact le_trans⟩

theorem bestEligible_spec {eligible : List Candidate} {c : Candidate}
    (h : bestEligible collation eligible = some c) :
    c ∈ eligible ∧ ∀ c' ∈ eligible, SortsBefore collation c c' := insertionSort_head h

theorem bestEligible_isSome {eligible : List Candidate} (h : eligible ≠ []) :
    ∃ c, bestEligible collation eligible = some c := insertionSort_head_isSome h

end

/-! ## What a decision is -/

/-- The slug of an available candidate within the policy's limits. -/
def Eligible (policy : Policy) (input : Input) (slug : String) : Prop :=
  ∃ c ∈ input.candidates, satisfies policy c = true ∧ c.modelSlug = slug

/-- The first of the list that has the property. -/
def FirstOf (P : String → Prop) (listed : List String) (slug : String) : Prop :=
  ∃ before after, listed = before ++ slug :: after ∧ P slug ∧ ∀ s ∈ before, ¬ P s

open Classical in
/-- The candidate that the request, the platform default, the lists and the
order of the candidates single out. -/
def Chosen (collation : Collation) (policy : Policy) (input : Input) (c : Candidate) : Prop :=
  if input.requestedModel ≠ "auto" ∧ Eligible policy input input.requestedModel then
    c.modelSlug = input.requestedModel
  else if input.requestedModel = "auto" ∧ input.platformDefaultModel ≠ none then
    input.platformDefaultModel = some c.modelSlug
  else if ∃ slug ∈ policy.preferredModels, Eligible policy input slug then
    FirstOf (Eligible policy input) policy.preferredModels c.modelSlug
  else if ∃ slug ∈ policy.fallbackModels, Eligible policy input slug then
    FirstOf (Eligible policy input) policy.fallbackModels c.modelSlug
  else ∀ c' ∈ input.candidates, satisfies policy c' = true → rank collation c ≤ rank collation c'

section
variable {policy : Policy} {input : Input}

theorem named_eq_some {slug : String} {c : Candidate}
    (h : named slug (input.candidates.filter (satisfies policy)) = some c) :
    c ∈ input.candidates ∧ satisfies policy c = true ∧ c.modelSlug = slug := by
  have hmem := List.mem_filter.mp (List.mem_of_find?_eq_some h)
  exact ⟨hmem.1, hmem.2, by simpa using List.find?_some h⟩

theorem named_eq_none {slug : String} :
    named slug (input.candidates.filter (satisfies policy)) = none ↔ ¬ Eligible policy input slug := by
  simp [named, Eligible]

theorem eligible_of_named {slug : String} {c : Candidate}
    (h : named slug (input.candidates.filter (satisfies policy)) = some c) :
    Eligible policy input slug := by
  obtain ⟨hmem, hsatisfies, hslug⟩ := named_eq_some h
  exact ⟨c, hmem, hsatisfies, hslug⟩

theorem firstListed_eq_some {listed : List String} {c : Candidate}
    (h : firstListedCandidate listed (input.candidates.filter (satisfies policy)) = some c) :
    c ∈ input.candidates ∧ satisfies policy c = true ∧
      FirstOf (Eligible policy input) listed c.modelSlug := by
  induction listed with
  | nil => cases h
  | cons slug rest ih =>
    unfold firstListedCandidate at h
    split at h
    · rename_i found hfound
      obtain rfl := Option.some.inj h
      obtain ⟨hmem, hsatisfies, rfl⟩ := named_eq_some hfound
      refine ⟨hmem, hsatisfies, [], rest, rfl, eligible_of_named hfound, fun s hs => ?_⟩
      cases hs
    · rename_i hnone
      obtain ⟨hmem, hsatisfies, before, after, rfl, hc, hbefore⟩ := ih h
      refine ⟨hmem, hsatisfies, slug :: before, after, rfl, hc, fun s hs => ?_⟩
      rcases List.mem_cons.mp hs with rfl | hlater
      · exact named_eq_none.mp hnone
      · exact hbefore s hlater

theorem firstListed_eq_none {listed : List String}
    (h : firstListedCandidate listed (input.candidates.filter (satisfies policy)) = none) :
    ¬ ∃ slug ∈ listed, Eligible policy input slug := by
  induction listed with
  | nil => simp
  | cons slug rest ih =>
    unfold firstListedCandidate at h
    split at h
    · cases h
    · rename_i hnone
      rintro ⟨s, hs, hs'⟩
      rcases List.mem_cons.mp hs with rfl | hlater
      · exact named_eq_none.mp hnone hs'
      · exact ih h ⟨s, hlater, hs'⟩

theorem FirstOf.exists {P : String → Prop} {listed : List String} {slug : String}
    (h : FirstOf P listed slug) : ∃ s ∈ listed, P s := by
  obtain ⟨before, after, rfl, hslug, -⟩ := h
  exact ⟨slug, by simp, hslug⟩

/-- What the request itself names: its model, or for `auto` the platform default. -/
def explicit (policy : Policy) (input : Input) : Option Candidate :=
  let eligible := input.candidates.filter (satisfies policy)
  if input.requestedModel ≠ "auto" then named input.requestedModel eligible
  else input.platformDefaultModel.bind fun slug => named slug eligible

/-- The platform default is set, asked for, and not eligible. -/
def DefaultBlocked (policy : Policy) (input : Input) : Prop :=
  input.requestedModel = "auto" ∧
    ∃ slug, input.platformDefaultModel = some slug ∧ ¬ Eligible policy input slug

theorem orElse_fst (found : Option Candidate) (suffix : String) (selection : Selection) :
    (orElse found suffix selection).1 = selection.1.or found := by
  obtain ⟨selected, reason⟩ := selection
  cases selected <;> cases found <;> rfl

/-- The first two stages fail exactly where the default is blocked. -/
theorem platformDefault_cases (policy : Policy) (input : Input) :
    let eligible := input.candidates.filter (satisfies policy)
    let result := platformDefault input eligible (requestedSelection input eligible)
    (DefaultBlocked policy input ∧ ∃ e, result = .error e) ∨
      ¬ DefaultBlocked policy input ∧ ∃ reason, result = .ok (explicit policy input, reason) := by
  dsimp only
  unfold platformDefault requestedSelection explicit
  by_cases hauto : input.requestedModel = "auto"
  · simp only [hauto, ne_eq, not_true_eq_false, if_false, if_true]
    cases hdefault : input.platformDefaultModel with
    | none =>
      refine .inr ⟨?_, _, rfl⟩
      rintro ⟨-, slug, hslug, -⟩
      cases hdefault.symm.trans hslug
    | some slug =>
      dsimp only [Option.bind_some]
      cases hfound : named slug (input.candidates.filter (satisfies policy)) with
      | none =>
        refine .inl ⟨⟨hauto, slug, hdefault, named_eq_none.mp hfound⟩, ?_⟩
        cases named slug input.candidates <;> exact ⟨_, rfl⟩
      | some c =>
        refine .inr ⟨?_, ?_⟩
        · rintro ⟨-, slug', hslug', hblocked⟩
          obtain rfl := Option.some.inj (hdefault.symm.trans hslug')
          exact hblocked (eligible_of_named hfound)
        · -- an eligible candidate of that name is a candidate of that name
          cases hcandidate : named slug input.candidates with
          | none =>
            obtain ⟨hmem, -, hslug⟩ := named_eq_some hfound
            have := List.find?_eq_none.mp hcandidate c hmem
            simp [hslug] at this
          | some c' => exact ⟨_, rfl⟩
  · simp only [hauto, ne_eq, not_false_eq_true, if_true, if_false]
    refine .inr ⟨fun h => hauto h.1, ?_⟩
    cases named input.requestedModel (input.candidates.filter (satisfies policy)) <;>
      exact ⟨_, rfl⟩

/-- The candidate that all five stages come to. -/
def selected (collation : Collation) (policy : Policy) (input : Input) : Option Candidate :=
  let eligible := input.candidates.filter (satisfies policy)
  (((explicit policy input).or (firstListedCandidate policy.preferredModels eligible)).or
    (firstListedCandidate policy.fallbackModels eligible)).or (bestEligible collation eligible)

theorem explicit_eq_none (hdefault : ¬ DefaultBlocked policy input) (h : explicit policy input = none) :
    (¬ (input.requestedModel ≠ "auto" ∧ Eligible policy input input.requestedModel)) ∧
      ¬ (input.requestedModel = "auto" ∧ input.platformDefaultModel ≠ none) := by
  unfold explicit at h
  by_cases hauto : input.requestedModel = "auto"
  · refine ⟨fun hrequested => hrequested.1 hauto, ?_⟩
    rintro ⟨-, hset⟩
    obtain ⟨slug, hslug⟩ := Option.ne_none_iff_exists'.mp hset
    simp only [hauto, hslug, ne_eq, not_true_eq_false, if_false, Option.bind_some] at h
    exact hdefault ⟨hauto, slug, hslug, named_eq_none.mp h⟩
  · refine ⟨fun hrequested => ?_, fun hset => hauto hset.1⟩
    rw [if_pos hauto] at h
    exact named_eq_none.mp h hrequested.2

theorem explicit_eq_some {c : Candidate} (collation : Collation) (h : explicit policy input = some c) :
    c ∈ input.candidates ∧ satisfies policy c = true ∧ Chosen collation policy input c := by
  unfold explicit at h
  by_cases hauto : input.requestedModel = "auto"
  · simp only [hauto, ne_eq, not_true_eq_false, if_false] at h
    obtain ⟨slug, hslug, hfound⟩ := Option.bind_eq_some_iff.mp h
    obtain ⟨hmem, hsatisfies, rfl⟩ := named_eq_some hfound
    refine ⟨hmem, hsatisfies, ?_⟩
    rw [Chosen, if_neg fun h => h.1 hauto, if_pos ⟨hauto, by simp [hslug]⟩]
    exact hslug
  · simp only [hauto, ne_eq, not_false_eq_true, if_true] at h
    obtain ⟨hmem, hsatisfies, hslug⟩ := named_eq_some h
    refine ⟨hmem, hsatisfies, ?_⟩
    rw [Chosen, if_pos ⟨hauto, eligible_of_named h⟩]
    exact hslug

theorem selected_spec {collation : Collation} {c : Candidate}
    (hdefault : ¬ DefaultBlocked policy input) (h : selected collation policy input = some c) :
    c ∈ input.candidates ∧ satisfies policy c = true ∧ Chosen collation policy input c := by
  unfold selected at h
  dsimp only at h
  cases hexplicit : explicit policy input with
  | some c' =>
    rw [hexplicit] at h
    obtain rfl : c' = c := Option.some.inj h
    exact explicit_eq_some collation hexplicit
  | none =>
    obtain ⟨hrequested, hset⟩ := explicit_eq_none hdefault hexplicit
    rw [Chosen, if_neg hrequested, if_neg hset]
    rw [hexplicit, Option.none_or] at h
    cases hpreferred : firstListedCandidate policy.preferredModels
        (input.candidates.filter (satisfies policy)) with
    | some c' =>
      rw [hpreferred] at h
      obtain rfl : c' = c := Option.some.inj h
      obtain ⟨hmem, hsatisfies, hfirst⟩ := firstListed_eq_some hpreferred
      exact ⟨hmem, hsatisfies, by rw [if_pos hfirst.exists]; exact hfirst⟩
    | none =>
      rw [if_neg (firstListed_eq_none hpreferred)]
      rw [hpreferred, Option.none_or] at h
      cases hfallback : firstListedCandidate policy.fallbackModels
          (input.candidates.filter (satisfies policy)) with
      | some c' =>
        rw [hfallback] at h
        obtain rfl : c' = c := Option.some.inj h
        obtain ⟨hmem, hsatisfies, hfirst⟩ := firstListed_eq_some hfallback
        exact ⟨hmem, hsatisfies, by rw [if_pos hfirst.exists]; exact hfirst⟩
      | none =>
        rw [if_neg (firstListed_eq_none hfallback)]
        rw [hfallback, Option.none_or] at h
        obtain ⟨hmem, hleast⟩ := bestEligible_spec collation h
        obtain ⟨hcandidate, hsatisfies⟩ := List.mem_filter.mp hmem
        refine ⟨hcandidate, hsatisfies, fun c' hc' hc'' => ?_⟩
        exact (sortsBefore_iff collation c c').mp (hleast c' (List.mem_filter.mpr ⟨hc', hc''⟩))

theorem hashCanonicalPayload_json (rt : Runtime) (value : Json) :
    ∃ hash, hashCanonicalPayload rt (toJs value) = .ok hash := by
  unfold hashCanonicalPayload
  rw [canonicalStringify_toJs]
  exact ⟨_, rfl⟩

theorem decision_ok (rt : Runtime) (policy : Policy) (input : Input) {selection : Selection}
    {c : Candidate} (h : selection.1 = some c) :
    ∃ hash, decision rt policy input selection = .ok ⟨c.modelSlug, selection.2, hash⟩ := by
  obtain ⟨hash, hhash⟩ :=
    hashCanonicalPayload_json rt (decisionData rt policy input c.modelSlug selection.2)
  refine ⟨hash, ?_⟩
  unfold decision
  rw [h]
  dsimp only
  rw [hhash]

theorem selected_isSome (collation : Collation)
    (h : input.candidates.filter (satisfies policy) ≠ []) :
    ∃ c, selected collation policy input = some c := by
  obtain ⟨best, hbest⟩ := bestEligible_isSome collation h
  unfold selected
  dsimp only
  rw [hbest]
  exact ⟨_, Option.or_some⟩

theorem filter_eq_nil_iff :
    input.candidates.filter (satisfies policy) = [] ↔ ∀ slug, ¬ Eligible policy input slug := by
  rw [List.filter_eq_nil_iff]
  refine ⟨fun h slug hslug => ?_, fun h c hc hsatisfies => ?_⟩
  · obtain ⟨c, hc, hsatisfies, -⟩ := hslug
    exact h c hc hsatisfies
  · exact h c.modelSlug ⟨c, hc, hsatisfies, rfl⟩

/-- `route` throws where nothing is eligible or the default is blocked, and
elsewhere returns what the five stages come to. -/
theorem route_cases (rt : Runtime) (policy : Policy) (input : Input) :
    (((∀ slug, ¬ Eligible policy input slug) ∨ DefaultBlocked policy input) ∧
        ∃ e, route rt policy input = .error e) ∨
      (∃ slug, Eligible policy input slug) ∧ ¬ DefaultBlocked policy input ∧
        ∃ c reason hash, selected rt.collation policy input = some c ∧
          route rt policy input = .ok ⟨c.modelSlug, reason, hash⟩ := by
  unfold route
  dsimp only
  by_cases hnone : input.candidates.filter (satisfies policy) = []
  · rw [if_pos hnone]
    exact .inl ⟨.inl (filter_eq_nil_iff.mp hnone), _, rfl⟩
  · rw [if_neg hnone]
    have hsome : ∃ slug, Eligible policy input slug := by
      simpa using mt filter_eq_nil_iff.mpr hnone
    rcases platformDefault_cases policy input with ⟨hblocked, e, he⟩ | ⟨hdefault, reason, hok⟩
    · rw [he]
      exact .inl ⟨.inr hblocked, e, rfl⟩
    · rw [hok]
      refine .inr ⟨hsome, hdefault, ?_⟩
      obtain ⟨c, hc⟩ := selected_isSome rt.collation hnone
      have hfinal : (lastSelection rt.collation policy input (explicit policy input, reason)).1 = some c := by
        unfold lastSelection
        rw [orElse_fst, orElse_fst, orElse_fst]
        exact hc
      obtain ⟨hash, hhash⟩ := decision_ok rt policy input hfinal
      exact ⟨c, _, hash, hc, hhash⟩

end

end ModelForge.RoutingPolicy
