import ModelForge.CheckedList
import ModelForge.PolicyRouter

set_option autoImplicit false

/-!
# Routing and the order of the candidates

The candidates come from a query without an order. What `evaluateRoutingPolicy`
decides, and which error it throws, for two orders of the same candidates.
-/
namespace ModelForge.RoutingOrder

open CanonicalJson CheckedList RoutingPolicy

/-! ## The fields that a schema complains about -/

inductive Place where
  | key (name : String)
  | index (i : ℕ)
  deriving DecidableEq, Repr

/-- The `path` of an issue. -/
abbrev FieldPath := List Place

section
variable {α β : Type}

def complaint (path : FieldPath) (check : α → Option β) (value : α) : List FieldPath :=
  if (check value).isNone then [path] else []

def optionalComplaint (path : FieldPath) (check : α → Option β) : Option α → List FieldPath
  | none => []
  | some value => complaint path check value

/-- The complaints about the elements of an array, in their order. -/
def elements (path : FieldPath) (issues : FieldPath → α → List FieldPath) (values : List α) :
    List FieldPath :=
  values.zipIdx.flatMap fun (value, i) => issues (path ++ [.index i]) value

end

def documentIssues (document : RoutingPolicyDocument) : List FieldPath :=
  optionalComplaint [.key "maxCostMicros"] JsNum.asNatural document.maxCostMicros ++
    optionalComplaint [.key "minQuality"] JsNum.asFinite document.minQuality ++
    optionalComplaint [.key "maxLatencyClass"] JsNum.asFinite document.maxLatencyClass ++
    elements [.key "preferredModels"] (complaint · nonEmpty) (document.preferredModels.getD []) ++
    elements [.key "fallbackModels"] (complaint · nonEmpty) (document.fallbackModels.getD [])

def candidateIssues (path : FieldPath) (candidate : RoutingCandidate) : List FieldPath :=
  complaint (path ++ [.key "modelSlug"]) nonEmpty candidate.modelSlug ++
    complaint (path ++ [.key "costMicros"]) JsNum.asNatural candidate.costMicros ++
    complaint (path ++ [.key "qualityClass"]) JsNum.asFinite candidate.qualityClass ++
    complaint (path ++ [.key "latencyClass"]) JsNum.asFinite candidate.latencyClass

def contextIssues (context : RoutingContext) : List FieldPath :=
  complaint [.key "requestedModel"] nonEmpty context.requestedModel ++
    (if context.candidates = [] then [[.key "candidates"]] else []) ++
    elements [.key "candidates"] candidateIssues context.candidates ++
    optionalComplaint [.key "platformDefaultModel"] nonEmpty context.platformDefaultModel

/-- A `ZodError` with the paths of its issues, or an error of the function itself. -/
inductive Thrown where
  | schema (issues : List FieldPath)
  | routing (error : RoutingError)
  deriving DecidableEq

/-- `evaluateRoutingPolicy` with what its schemas say. -/
def evaluate (rt : Runtime) (document : RoutingPolicyDocument) (context : RoutingContext) :
    Except Thrown RoutingDecision :=
  if documentIssues document ≠ [] then .error (.schema (documentIssues document))
  else if contextIssues context ≠ [] then .error (.schema (contextIssues context))
  else (evaluateRoutingPolicy rt document context).mapError .routing

/-! ## Complaints and parsing -/

section
variable {α β : Type}

theorem complaint_eq_nil {path : FieldPath} {check : α → Option β} {value : α} :
    complaint path check value = [] ↔ ∃ parsed, check value = some parsed := by
  unfold complaint
  cases check value <;> simp

theorem optionalComplaint_eq_nil {path : FieldPath} {check : α → Option β} {value : Option α} :
    optionalComplaint path check value = [] ↔ ∃ parsed, RoutingPolicy.optional check value = some parsed := by
  cases value with
  | none => simp [optionalComplaint, RoutingPolicy.optional]
  | some value => simp [optionalComplaint, RoutingPolicy.optional, complaint_eq_nil]

theorem elements_eq_nil {path : FieldPath} {issues : FieldPath → α → List FieldPath} {values : List α} :
    elements path issues values = [] ↔
      ∀ i, ∀ h : i < values.length, issues (path ++ [.index i]) values[i] = [] := by
  unfold elements
  rw [List.flatMap_eq_nil_iff]
  constructor
  · intro h i hi
    exact h (values[i], i) (List.mk_mem_zipIdx_iff_getElem?.mpr (List.getElem?_eq_getElem hi))
  · intro h ⟨value, i⟩ hmem
    obtain ⟨hi, hvalue⟩ := List.getElem?_eq_some_iff.mp (List.mk_mem_zipIdx_iff_getElem?.mp hmem)
    rw [← hvalue]
    exact h i hi

theorem elements_eq_nil_iff_mapM {path : FieldPath} {check : α → Option β}
    {issues : FieldPath → α → List FieldPath}
    (hissues : ∀ path value, issues path value = [] ↔ ∃ parsed, check value = some parsed)
    {values : List α} :
    elements path issues values = [] ↔ ∃ parsed, values.mapM check = some parsed := by
  rw [elements_eq_nil, mapM_isSome_iff]
  constructor
  · intro h value hvalue
    obtain ⟨i, hi, rfl⟩ := List.getElem_of_mem hvalue
    exact (hissues _ _).mp (h i hi)
  · intro h i hi
    exact (hissues _ _).mpr (h _ (List.getElem_mem hi))

end

theorem documentIssues_eq_nil (document : RoutingPolicyDocument) :
    documentIssues document = [] ↔ ∃ policy, document.parse = some policy := by
  simp only [documentIssues, List.append_eq_nil_iff, optionalComplaint_eq_nil,
    elements_eq_nil_iff_mapM fun _ _ => complaint_eq_nil]
  unfold RoutingPolicyDocument.parse slugs
  constructor
  · intro ⟨⟨⟨⟨⟨cost, hcost⟩, quality, hquality⟩, latency, hlatency⟩, preferred, hpreferred⟩, fallback, hfallback⟩
    exact ⟨⟨cost, quality, latency, preferred, fallback⟩,
      by simp [hcost, hquality, hlatency, hpreferred, hfallback]⟩
  · intro ⟨policy, h⟩
    simp only [Option.bind_eq_bind, Option.bind_eq_some_iff] at h
    obtain ⟨cost, hcost, quality, hquality, latency, hlatency, preferred, hpreferred, fallback, hfallback, _⟩ := h
    exact ⟨⟨⟨⟨⟨cost, hcost⟩, quality, hquality⟩, latency, hlatency⟩, preferred, hpreferred⟩, fallback, hfallback⟩

theorem candidateIssues_eq_nil (path : FieldPath) (candidate : RoutingCandidate) :
    candidateIssues path candidate = [] ↔ ∃ parsed, candidate.parse = some parsed := by
  simp only [candidateIssues, List.append_eq_nil_iff, complaint_eq_nil]
  unfold RoutingCandidate.parse
  constructor
  · intro ⟨⟨⟨⟨slug, hslug⟩, cost, hcost⟩, quality, hquality⟩, latency, hlatency⟩
    exact ⟨⟨slug, cost, quality, latency, candidate.available.getD true⟩,
      by simp [hslug, hcost, hquality, hlatency]⟩
  · intro ⟨parsed, h⟩
    simp only [Option.bind_eq_bind, Option.bind_eq_some_iff] at h
    obtain ⟨slug, hslug, cost, hcost, quality, hquality, latency, hlatency, _⟩ := h
    exact ⟨⟨⟨⟨slug, hslug⟩, cost, hcost⟩, quality, hquality⟩, latency, hlatency⟩

theorem contextIssues_eq_nil (context : RoutingContext) :
    contextIssues context = [] ↔ ∃ input, context.parse = some input := by
  simp only [contextIssues, List.append_eq_nil_iff, optionalComplaint_eq_nil, complaint_eq_nil,
    elements_eq_nil_iff_mapM candidateIssues_eq_nil]
  have hempty : ∀ parsed, context.candidates.mapM RoutingCandidate.parse = some parsed →
      (parsed = [] ↔ context.candidates = []) := by
    intro parsed hparsed
    rw [← List.length_eq_zero_iff, ← List.length_eq_zero_iff, length_of_mapM hparsed]
  unfold RoutingContext.parse
  constructor
  · intro ⟨⟨⟨⟨requested, hrequested⟩, hne⟩, candidates, hcandidates⟩, default, hdefault⟩
    refine ⟨⟨requested, candidates, default⟩, ?_⟩
    have hcandidates' : candidates ≠ [] := by
      intro h
      simp [(hempty _ hcandidates).mp h] at hne
    simp [hrequested, hcandidates, hdefault, hcandidates']
  · intro ⟨input, h⟩
    simp only [Option.bind_eq_bind, Option.bind_eq_some_iff] at h
    obtain ⟨requested, hrequested, candidates, hcandidates, default, hdefault, h⟩ := h
    split_ifs at h with hnil
    refine ⟨⟨⟨⟨requested, hrequested⟩, ?_⟩, candidates, hcandidates⟩, default, hdefault⟩
    rw [if_neg (mt (hempty _ hcandidates).mpr hnil)]

theorem parse_spec {context : RoutingContext} {input : Input} (h : context.parse = some input) :
    nonEmpty context.requestedModel = some input.requestedModel ∧
      context.candidates.mapM RoutingCandidate.parse = some input.candidates ∧
      RoutingPolicy.optional nonEmpty context.platformDefaultModel = some input.platformDefaultModel ∧
      input.candidates ≠ [] := by
  unfold RoutingContext.parse at h
  simp only [Option.bind_eq_bind, Option.bind_eq_some_iff] at h
  obtain ⟨requested, hrequested, candidates, hcandidates, default, hdefault, h⟩ := h
  split_ifs at h with hnil
  cases h
  exact ⟨hrequested, hcandidates, hdefault, hnil⟩

/-! ## Selection from a permuted list -/

section
variable {eligible eligible' : List Candidate} (hperm : eligible.Perm eligible')
  (hdistinct : (eligible.map Candidate.modelSlug).Nodup)
include hperm hdistinct

theorem named_perm (slug : String) : named slug eligible = named slug eligible' := by
  apply List.find?_eq_find?_of_perm hperm
  intro a ⟨ha, haslug⟩ b ⟨hb, hbslug⟩
  apply List.inj_on_of_nodup_map hdistinct ha hb
  rw [of_decide_eq_true haslug, of_decide_eq_true hbslug]

theorem firstListed_perm (listed : List String) :
    firstListedCandidate listed eligible = firstListedCandidate listed eligible' := by
  induction listed with
  | nil => rfl
  | cons slug listed ih =>
    unfold firstListedCandidate
    rw [named_perm hperm hdistinct slug, ih]

/-- The least by a total order, whatever the order of the list. -/
theorem bestEligible_perm (collation : Collation)
    (hlocale : ∀ a ∈ eligible, ∀ b ∈ eligible,
      collation.localeCompare a.modelSlug b.modelSlug = .eq → a.modelSlug = b.modelSlug) :
    bestEligible collation eligible = bestEligible collation eligible' := by
  cases eligible with
  | nil => rw [hperm.nil_eq]
  | cons first rest =>
    have hne : eligible' ≠ [] := by
      intro h
      rw [h] at hperm
      exact absurd hperm.eq_nil (by simp)
    obtain ⟨c, hc⟩ := bestEligible_isSome collation (List.cons_ne_nil first rest)
    obtain ⟨c', hc'⟩ := bestEligible_isSome collation hne
    rw [hc, hc']
    obtain ⟨hmem, hleast⟩ := bestEligible_spec collation hc
    obtain ⟨hmem', hleast'⟩ := bestEligible_spec collation hc'
    have hle := hleast c' (hperm.mem_iff.mpr hmem')
    have hge := hleast' c (hperm.mem_iff.mp hmem)
    rw [sortsBefore_iff] at hle hge
    have hrank : rank collation c = rank collation c' := le_antisymm hle hge
    have hkey : collation.sortKey c.modelSlug = collation.sortKey c'.modelSlug := by
      simp only [rank, EmbeddingLike.apply_eq_iff_eq, Prod.mk.injEq] at hrank
      exact hrank.2.2.2
    have hequal : collation.localeCompare c.modelSlug c'.modelSlug = .eq := by
      simp [Collation.localeCompare, hkey, cmp, cmpUsing]
    have hslug := hlocale c hmem c' (hperm.mem_iff.mpr hmem') hequal
    rw [List.inj_on_of_nodup_map hdistinct hmem (hperm.mem_iff.mpr hmem') hslug]

end

/-! ## Two orders of one candidate list -/

section
variable {rt : Runtime} {policy : Policy} {input : Input} {candidates' : List Candidate}
  (hperm : input.candidates.Perm candidates')
  (hdistinct : (input.candidates.map Candidate.modelSlug).Nodup)
  (hlocale : ∀ a ∈ input.candidates, ∀ b ∈ input.candidates,
    rt.collation.localeCompare a.modelSlug b.modelSlug = .eq → a.modelSlug = b.modelSlug)
include hperm hdistinct

theorem stages_perm :
    let eligible := input.candidates.filter (satisfies policy)
    let eligible' := candidates'.filter (satisfies policy)
    let input' := { input with candidates := candidates' }
    platformDefault input eligible (requestedSelection input eligible) =
      platformDefault input' eligible' (requestedSelection input' eligible') := by
  have hfilter := hperm.filter (satisfies policy)
  have hdistinct' : ((input.candidates.filter (satisfies policy)).map Candidate.modelSlug).Nodup :=
    hdistinct.sublist (List.Sublist.map _ List.filter_sublist)
  have hnamed := named_perm hfilter hdistinct'
  have hcandidate := named_perm hperm hdistinct
  simp only [platformDefault, requestedSelection, hnamed, hcandidate]

include hlocale

theorem lastSelection_perm (selection : Selection) :
    lastSelection rt.collation policy input selection =
      lastSelection rt.collation policy { input with candidates := candidates' } selection := by
  have hfilter := hperm.filter (satisfies policy)
  have hdistinct' : ((input.candidates.filter (satisfies policy)).map Candidate.modelSlug).Nodup :=
    hdistinct.sublist (List.Sublist.map _ List.filter_sublist)
  have hbest : bestEligible rt.collation (input.candidates.filter (satisfies policy)) =
      bestEligible rt.collation (candidates'.filter (satisfies policy)) := by
    apply bestEligible_perm hfilter hdistinct'
    intro a ha b hb
    exact hlocale a (List.mem_filter.mp ha).1 b (List.mem_filter.mp hb).1
  simp only [lastSelection, firstListed_perm hfilter hdistinct', hbest]

/-- The decision's slug and reason, or its error. -/
theorem route_perm :
    (route rt policy input).map (fun d => (d.resolvedModelSlug, d.reason)) =
      (route rt policy { input with candidates := candidates' }).map
        fun d => (d.resolvedModelSlug, d.reason) := by
  have hfilter := hperm.filter (satisfies policy)
  have hempty : input.candidates.filter (satisfies policy) = [] ↔
      candidates'.filter (satisfies policy) = [] := by
    rw [← List.length_eq_zero_iff, hfilter.length_eq, List.length_eq_zero_iff]
  have hstages := @stages_perm policy input candidates' hperm hdistinct
  unfold route
  dsimp only at hstages ⊢
  rw [hstages]
  by_cases hnone : input.candidates.filter (satisfies policy) = []
  · rw [if_pos hnone, if_pos (hempty.mp hnone)]
  · rw [if_neg hnone, if_neg (mt hempty.mpr hnone)]
    cases platformDefault { input with candidates := candidates' } (candidates'.filter (satisfies policy))
        (requestedSelection { input with candidates := candidates' }
          (candidates'.filter (satisfies policy))) with
    | error e => rfl
    | ok selection =>
      dsimp only
      rw [lastSelection_perm hperm hdistinct hlocale selection]
      generalize lastSelection rt.collation policy { input with candidates := candidates' } selection = final
      cases hfinal : final.1 with
      | none => simp only [decision, hfinal]
      | some c =>
        obtain ⟨hash, hhash⟩ := decision_ok rt policy input hfinal
        obtain ⟨hash', hhash'⟩ := decision_ok rt policy { input with candidates := candidates' } hfinal
        rw [hhash, hhash']
        rfl

end

/-! ## The errors of two orders -/

/-- A path without the positions in arrays. -/
def fieldNames (path : FieldPath) : List String :=
  path.filterMap fun place => match place with
    | .key name => some name
    | .index _ => none

theorem complaint_fieldNames {α β : Type} (path : FieldPath) (check : α → Option β) (value : α) :
    (complaint path check value).map fieldNames =
      if (check value).isNone then [fieldNames path] else [] := by
  unfold complaint
  split <;> rfl

theorem candidateIssues_fieldNames {path path' : FieldPath} (h : fieldNames path = fieldNames path')
    (candidate : RoutingCandidate) :
    (candidateIssues path candidate).map fieldNames = (candidateIssues path' candidate).map fieldNames := by
  have hfield : ∀ name, fieldNames (path ++ [.key name]) = fieldNames (path' ++ [.key name]) := by
    intro name
    rw [fieldNames, fieldNames, List.filterMap_append, List.filterMap_append]
    exact congrArg (· ++ _) h
  simp only [candidateIssues, List.map_append, complaint_fieldNames, hfield]

theorem elements_fieldNames (candidates : List RoutingCandidate) :
    (elements [.key "candidates"] candidateIssues candidates).map fieldNames =
      candidates.flatMap fun candidate => (candidateIssues [.key "candidates"] candidate).map fieldNames := by
  have hindex : ∀ (i : ℕ) (candidate : RoutingCandidate),
      (candidateIssues ([.key "candidates"] ++ [.index i]) candidate).map fieldNames =
        (candidateIssues [.key "candidates"] candidate).map fieldNames :=
    fun i => candidateIssues_fieldNames rfl
  simp only [elements, List.map_flatMap, hindex]
  rw [← List.flatMap_map (f := Prod.fst)
    (g := fun candidate => (candidateIssues [.key "candidates"] candidate).map fieldNames),
    List.zipIdx_map_fst]

theorem contextIssues_perm (context : RoutingContext) {candidates' : List RoutingCandidate}
    (hperm : context.candidates.Perm candidates') :
    ((contextIssues context).map fieldNames).Perm
      ((contextIssues { context with candidates := candidates' }).map fieldNames) := by
  have hnil : context.candidates = [] ↔ candidates' = [] := by
    rw [← List.length_eq_zero_iff, hperm.length_eq, List.length_eq_zero_iff]
  simp only [contextIssues, List.map_append, elements_fieldNames, hnil]
  exact ((hperm.flatMap_right _).append_left _).append_right _

/-- What two orders of the candidates come to: one decision up to its hash, or
one error. Only where the schema refuses candidates the error can differ, in the
positions that it names. -/
def SameOutcome (context context' : RoutingContext) :
    Except Thrown RoutingDecision → Except Thrown RoutingDecision → Prop
  | .ok d, .ok d' => d.resolvedModelSlug = d'.resolvedModelSlug ∧ d.reason = d'.reason
  | .error e, .error e' => e = e' ∨
      e = .schema (contextIssues context) ∧ e' = .schema (contextIssues context') ∧
        ((contextIssues context).map fieldNames).Perm ((contextIssues context').map fieldNames)
  | _, _ => False

theorem parse_slug (candidate : RoutingCandidate) (parsed : Candidate)
    (h : candidate.parse = some parsed) : parsed.modelSlug = candidate.modelSlug := by
  unfold RoutingCandidate.parse at h
  simp only [Option.bind_eq_bind, Option.bind_eq_some_iff] at h
  obtain ⟨slug, hslug, _, _, _, _, _, _, h⟩ := h
  cases h
  unfold nonEmpty at hslug
  split_ifs at hslug
  exact (Option.some.inj hslug).symm

theorem sameOutcome_of_map {context context' : RoutingContext}
    {result result' : Except RoutingError RoutingDecision}
    (h : result.map (fun d => (d.resolvedModelSlug, d.reason)) =
      result'.map fun d => (d.resolvedModelSlug, d.reason)) :
    SameOutcome context context' (result.mapError .routing) (result'.mapError .routing) := by
  cases result with
  | error e =>
    cases result' with
    | error e' => exact .inl (congrArg Thrown.routing (Except.error.inj h))
    | ok d' => cases h
  | ok d =>
    cases result' with
    | error e' => cases h
    | ok d' => exact Prod.mk.inj (Except.ok.inj h)

theorem routing_order_irrelevant (rt : Runtime) (document : RoutingPolicyDocument)
    (context : RoutingContext) (candidates' : List RoutingCandidate)
    (hperm : context.candidates.Perm candidates')
    (hdistinct : (context.candidates.map RoutingCandidate.modelSlug).Nodup)
    (hlocale : ∀ a ∈ context.candidates, ∀ b ∈ context.candidates,
      rt.collation.localeCompare a.modelSlug b.modelSlug = .eq → a.modelSlug = b.modelSlug) :
    SameOutcome context { context with candidates := candidates' } (evaluate rt document context)
      (evaluate rt document { context with candidates := candidates' }) := by
  unfold evaluate
  by_cases hdocument : documentIssues document = []
  · rw [if_neg (not_not.mpr hdocument), if_neg (not_not.mpr hdocument)]
    have hissues := contextIssues_perm context hperm
    have hnil : contextIssues context = [] ↔
        contextIssues { context with candidates := candidates' } = [] := by
      rw [← List.length_eq_zero_iff, ← List.length_map (f := fieldNames), hissues.length_eq,
        List.length_map, List.length_eq_zero_iff]
    by_cases hcontext : contextIssues context = []
    · rw [if_neg (not_not.mpr hcontext), if_neg (not_not.mpr (hnil.mp hcontext))]
      obtain ⟨policy, hpolicy⟩ := (documentIssues_eq_nil document).mp hdocument
      obtain ⟨input, hinput⟩ := (contextIssues_eq_nil context).mp hcontext
      obtain ⟨hrequested, hcandidates, hdefault, hne⟩ := parse_spec hinput
      obtain ⟨parsed', hparsed', hparsed⟩ := mapM_perm hperm hcandidates
      have hne' : parsed' ≠ [] := by
        intro h
        rw [h] at hparsed
        exact hne hparsed.eq_nil
      have hinput' : RoutingContext.parse { context with candidates := candidates' } =
          some { input with candidates := parsed' } := by
        simp [RoutingContext.parse, hrequested, hparsed', hdefault, hne']
      have hslugs := map_eq_of_mapM parse_slug hcandidates
      have hlocale' : ∀ a ∈ input.candidates, ∀ b ∈ input.candidates,
          rt.collation.localeCompare a.modelSlug b.modelSlug = .eq → a.modelSlug = b.modelSlug := by
        have hmem : ∀ c ∈ input.candidates, ∃ c' ∈ context.candidates, c'.modelSlug = c.modelSlug := by
          intro c hc
          have := List.mem_map_of_mem (f := Candidate.modelSlug) hc
          rw [hslugs] at this
          exact List.mem_map.mp this
        intro a ha b hb
        obtain ⟨a', ha', hslug⟩ := hmem a ha
        obtain ⟨b', hb', hslug'⟩ := hmem b hb
        rw [← hslug, ← hslug']
        exact hlocale a' ha' b' hb'
      apply sameOutcome_of_map
      rw [evaluateRoutingPolicy, evaluateRoutingPolicy, hpolicy, hinput, hinput']
      exact route_perm hparsed (hslugs ▸ hdistinct) hlocale'
    · rw [if_pos hcontext, if_pos (mt hnil.mpr hcontext)]
      exact .inr ⟨rfl, rfl, hissues⟩
  · rw [if_pos hdocument, if_pos hdocument]
    exact .inl rfl

def tiedContext : RoutingContext :=
  ⟨"auto", [⟨"a", .finite 20, .finite 60, .finite 35, none⟩, ⟨"b", .finite 20, .finite 60, .finite 35, none⟩], none⟩

/-- Two candidates that differ in their slugs only. -/
theorem tied_order_irrelevant :
    SameOutcome tiedContext { tiedContext with candidates := tiedContext.candidates.reverse }
      (evaluate PolicyRouter.sampleRuntime PolicyRouter.emptyDocument tiedContext)
      (evaluate PolicyRouter.sampleRuntime PolicyRouter.emptyDocument
        { tiedContext with candidates := tiedContext.candidates.reverse }) :=
  routing_order_irrelevant PolicyRouter.sampleRuntime PolicyRouter.emptyDocument tiedContext
    tiedContext.candidates.reverse (List.reverse_perm _).symm (by decide) (by decide +kernel)

def refusedContext : RoutingContext :=
  ⟨"auto", [⟨"a", .finite 20, .finite 60, .finite 35, none⟩, ⟨"b", .finite (-1), .finite 60, .finite 35, none⟩], none⟩

/-- The schema names the position of the candidate that it refuses. -/
theorem refused_position :
    evaluate PolicyRouter.sampleRuntime PolicyRouter.emptyDocument refusedContext =
        .error (.schema [[.key "candidates", .index 1, .key "costMicros"]]) ∧
      evaluate PolicyRouter.sampleRuntime PolicyRouter.emptyDocument
          { refusedContext with candidates := refusedContext.candidates.reverse } =
        .error (.schema [[.key "candidates", .index 0, .key "costMicros"]]) := by
  decide +kernel

end ModelForge.RoutingOrder
