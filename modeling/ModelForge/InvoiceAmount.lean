import ModelForge.InvoicePayment

set_option autoImplicit false

/-!
# The amount of an invoice

`generateInvoice` adds up the costs recorded for the requests, each cut to whole
cents; only where these come to nothing it prices the tokens of all events and
rounds their sum. Prices are exact rationals.
-/
namespace ModelForge.InvoiceAmount
open InvoiceScan InvoicePayment

/-- `Math.round`: the nearest integer, the larger of two. -/
def mathRound (x : ℚ) : ℤ := ⌊x + 1 / 2⌋

def inCost (e : UsageLine) : ℚ := e.promptTokens / 1000000 * e.rates.pricePerMTokIn

def outCost (e : UsageLine) : ℚ := e.completionTokens / 1000000 * e.rates.pricePerMTokOut

def calculateUsageCents (lines : List UsageLine) : ℤ :=
  let amount := lines.foldl (fun sum e => sum + inCost e + outCost e) 0
  max 0 (mathRound amount)

/-! ## What the amount is made of -/

/-- The whole cents of a recorded cost. -/
def wholeCents (e : PricedUsage) : ℤ := (e.costMicros.map fun micros => micros.tdiv 10000).getD 0

def recorded (found : List PricedUsage) : ℤ := (found.map wholeCents).sum

def price (e : PricedUsage) : ℚ := (e.line.map fun line => inCost line + outCost line).getD 0

/-- The tokens of all events at their rates, in cents. -/
def rated (found : List PricedUsage) : ℚ := (found.map price).sum

abbrev invoiced (found : List PricedUsage) : ℤ := amountOf calculateUsageCents found

theorem foldl_cost (lines : List UsageLine) (sum : ℚ) :
    lines.foldl (fun sum e => sum + inCost e + outCost e) sum =
      sum + (lines.map fun e => inCost e + outCost e).sum := by
  induction lines generalizing sum with
  | nil => simp
  | cons e rest ih =>
    rw [List.foldl_cons, ih, List.map_cons, List.sum_cons]
    ring

theorem sum_lines (found : List PricedUsage) :
    ((found.filterMap PricedUsage.line).map fun e => inCost e + outCost e).sum = rated found := by
  induction found with
  | nil => rfl
  | cons e rest ih =>
    rw [rated, List.map_cons, List.sum_cons, ← rated, ← ih]
    cases hline : e.line with
    | none =>
      rw [List.filterMap_cons_none hline]
      simp [price, hline]
    | some line =>
      rw [List.filterMap_cons_some hline]
      simp [price, hline]

theorem invoiced_eq (found : List PricedUsage) :
    invoiced found =
      if 0 < recorded found then recorded found else max 0 (mathRound (rated found)) := by
  have hcents : calculateUsageCents (found.filterMap PricedUsage.line) =
      max 0 (mathRound (rated found)) := by
    simp only [calculateUsageCents]
    rw [foldl_cost, sum_lines, zero_add]
  rw [← hcents]
  rfl

theorem mathRound_le {x : ℚ} {n : ℤ} : mathRound x ≤ n ↔ x < n + 1 / 2 := by
  rw [mathRound, ← Int.lt_add_one_iff, Int.floor_lt]
  push_cast
  constructor <;> intro h <;> linarith

theorem le_mathRound {x : ℚ} {n : ℤ} : n ≤ mathRound x ↔ n - 1 / 2 ≤ x := by
  rw [mathRound, Int.le_floor]
  constructor <;> intro h <;> linarith

theorem mathRound_mono {x y : ℚ} (h : x ≤ y) : mathRound x ≤ mathRound y :=
  Int.floor_le_floor (by linarith)

/-! ## Accuracy -/

/-- Every event is linked to a request with a positive recorded cost. -/
def AllCosted (found : List PricedUsage) : Prop :=
  ∀ e ∈ found, ∃ micros, e.costMicros = some micros ∧ 0 < micros

def micros (e : PricedUsage) : ℤ := e.costMicros.getD 0

def totalMicros (found : List PricedUsage) : ℤ := (found.map micros).sum

def exactCents (found : List PricedUsage) : ℚ := totalMicros found / 10000

def Accurate (found : List PricedUsage) : Prop :=
  |(invoiced found : ℚ) - exactCents found| ≤ 1

theorem wholeCents_eq {e : PricedUsage} (h : 0 ≤ micros e) : wholeCents e = micros e / 10000 := by
  unfold wholeCents micros at *
  cases hcost : e.costMicros with
  | none => rfl
  | some c =>
    rw [hcost] at h
    exact Int.tdiv_eq_ediv_of_nonneg h

section
variable {found : List PricedUsage}

theorem AllCosted.pos (h : AllCosted found) : ∀ e ∈ found, 0 < micros e := by
  intro e he
  obtain ⟨c, hc, hpos⟩ := h e he
  simpa [micros, hc] using hpos

theorem totalMicros_nonneg (h : ∀ e ∈ found, 0 < micros e) : 0 ≤ totalMicros found := by
  apply List.sum_nonneg
  intro x hx
  obtain ⟨e, he, rfl⟩ := List.mem_map.mp hx
  exact (h e he).le

theorem recorded_nonneg (h : ∀ e ∈ found, 0 < micros e) : 0 ≤ recorded found := by
  apply List.sum_nonneg
  intro x hx
  obtain ⟨e, he, rfl⟩ := List.mem_map.mp hx
  have hpos := h e he
  rw [wholeCents_eq hpos.le]
  omega

theorem recorded_pos_iff (h : ∀ e ∈ found, 0 < micros e) :
    0 < recorded found ↔ ∃ e ∈ found, 10000 ≤ micros e := by
  induction found with
  | nil => simp [recorded]
  | cons e rest ih =>
    have hlater : ∀ x ∈ rest, 0 < micros x := fun x hx => h x (List.mem_cons_of_mem e hx)
    have hnonneg := recorded_nonneg hlater
    have hpos := h e List.mem_cons_self
    have he := wholeCents_eq hpos.le
    rw [List.exists_mem_cons_iff, ← ih hlater]
    simp only [recorded, List.map_cons, List.sum_cons] at hnonneg ⊢
    omega

end

def computeCostMicros (promptTokens completionTokens : ℤ) (pricePerMTokIn pricePerMTokOut : ℚ) : ℤ :=
  let micros := (promptTokens * pricePerMTokIn + completionTokens * pricePerMTokOut) / 100
  max 0 (mathRound micros)

/-- The recorded cost is the one that the gateway computes for the tokens at the
rates that the invoice finds. -/
def ComputedCost (e : PricedUsage) : Prop :=
  ∃ line, e.line = some line ∧ e.costMicros = some (computeCostMicros line.promptTokens
    line.completionTokens line.rates.pricePerMTokIn line.rates.pricePerMTokOut)

theorem computedCost_close {e : PricedUsage} (h : ComputedCost e) (hpos : 0 < micros e) :
    |price e * 10000 - micros e| ≤ 1 / 2 := by
  obtain ⟨line, hline, hcost⟩ := h
  have hprice : price e = (line.promptTokens * line.rates.pricePerMTokIn +
      line.completionTokens * line.rates.pricePerMTokOut) / 100 / 10000 := by
    simp only [price, hline, Option.map_some, Option.getD_some, inCost, outCost]
    ring
  set exact := (line.promptTokens * line.rates.pricePerMTokIn +
    line.completionTokens * line.rates.pricePerMTokOut) / 100 with hexact
  have hmicros : micros e = mathRound exact := by
    have hmax : micros e = max 0 (mathRound exact) := by
      simp only [micros, hcost, Option.getD_some, computeCostMicros, hexact]
    omega
  have hlow := (@le_mathRound exact (micros e)).mp hmicros.le
  have hhigh := (@mathRound_le exact (micros e)).mp hmicros.ge
  rw [hprice, div_mul_cancel₀ _ (by norm_num : (10000 : ℚ) ≠ 0), abs_le]
  constructor <;> linarith

theorem rated_close {found : List PricedUsage} (h : ∀ e ∈ found, ComputedCost e)
    (hpos : ∀ e ∈ found, 0 < micros e) :
    |rated found * 10000 - totalMicros found| ≤ found.length / 2 := by
  induction found with
  | nil => simp [rated, totalMicros]
  | cons e rest ih =>
    have hrest := ih (fun x hx => h x (List.mem_cons_of_mem e hx))
      fun x hx => hpos x (List.mem_cons_of_mem e hx)
    have he := computedCost_close (h e List.mem_cons_self) (hpos e List.mem_cons_self)
    simp only [rated, totalMicros, List.map_cons, List.sum_cons, List.length_cons, Int.cast_add,
      Nat.cast_succ] at hrest ⊢
    rw [abs_le] at hrest he ⊢
    constructor <;> linarith [hrest.1, hrest.2, he.1, he.2]

/-- Where no request costs a cent the tokens are priced, and of ten thousand
requests the rounding of their costs does not show. -/
theorem small_costs_accurate {found : List PricedUsage} (h : ∀ e ∈ found, ComputedCost e)
    (hpos : ∀ e ∈ found, 0 < micros e) (hsmall : ∀ e ∈ found, micros e < 10000)
    (hcount : found.length ≤ 10000) : Accurate found := by
  have hclose := rated_close h hpos
  have hnone : ¬ 0 < recorded found := by
    rw [recorded_pos_iff hpos]
    push Not
    exact hsmall
  have htotal : (0 : ℚ) ≤ totalMicros found := by exact_mod_cast totalMicros_nonneg hpos
  have hlength : (found.length : ℚ) ≤ 10000 := by exact_mod_cast hcount
  have hlow := (@le_mathRound (rated found) (mathRound (rated found))).mp le_rfl
  have hhigh := (@mathRound_le (rated found) (mathRound (rated found))).mp le_rfl
  rw [abs_le] at hclose
  rw [Accurate, invoiced_eq, if_neg hnone, exactCents, abs_le]
  rcases max_cases 0 (mathRound (rated found)) with ⟨hmax, hle⟩ | ⟨hmax, hle⟩
  · have hround : (mathRound (rated found) : ℚ) ≤ 0 := by exact_mod_cast hle
    rw [hmax]
    push_cast
    constructor <;> linarith [hclose.1, hclose.2]
  · rw [hmax]
    constructor <;> linarith [hclose.1, hclose.2]

/-! ## Monotonicity -/

structure NonNegative (e : PricedUsage) : Prop where
  cost : ∀ micros, e.costMicros = some micros → 0 ≤ micros
  promptTokens : ∀ line, e.line = some line → 0 ≤ line.promptTokens
  completionTokens : ∀ line, e.line = some line → 0 ≤ line.completionTokens
  priceIn : ∀ line, e.line = some line → 0 ≤ line.rates.pricePerMTokIn
  priceOut : ∀ line, e.line = some line → 0 ≤ line.rates.pricePerMTokOut

variable {e : PricedUsage} {xs ys : List PricedUsage}

theorem recorded_insert : recorded (xs ++ e :: ys) = recorded (xs ++ ys) + wholeCents e := by
  simp only [recorded, List.map_append, List.map_cons, List.sum_append, List.sum_cons]
  omega

theorem rated_insert : rated (xs ++ e :: ys) = rated (xs ++ ys) + price e := by
  simp only [rated, List.map_append, List.map_cons, List.sum_append, List.sum_cons]
  ring

theorem NonNegative.wholeCents (h : NonNegative e) : 0 ≤ wholeCents e := by
  have hmicros : 0 ≤ micros e := by
    unfold micros
    cases hcost : e.costMicros with
    | none => exact le_rfl
    | some c => exact h.cost c hcost
  rw [wholeCents_eq hmicros]
  omega

theorem NonNegative.price (h : NonNegative e) : 0 ≤ price e := by
  unfold InvoiceAmount.price
  cases hline : e.line with
  | none => exact le_rfl
  | some line =>
    have hprompt : (0 : ℚ) ≤ line.promptTokens := by exact_mod_cast h.promptTokens line hline
    have hcompletion : (0 : ℚ) ≤ line.completionTokens := by
      exact_mod_cast h.completionTokens line hline
    have hin := h.priceIn line hline
    have hout := h.priceOut line hline
    change 0 ≤ inCost line + outCost line
    unfold inCost outCost
    positivity

/-- The event leaves the computation as it was, by the recorded costs or by the
rates, or the costs that take over come to what the rates came to. -/
def KeepsUp (xs ys : List PricedUsage) (e : PricedUsage) : Prop :=
  0 < recorded (xs ++ ys) ∨ recorded (xs ++ ys) + wholeCents e ≤ 0 ∨
    rated (xs ++ ys) < recorded (xs ++ ys) + wholeCents e + 1 / 2

/-- A further event lowers the amount only where its recorded cost takes the place
of the prices of all others. -/
theorem never_lowers_iff (xs ys : List PricedUsage) (e : PricedUsage) (h : NonNegative e) :
    invoiced (xs ++ ys) ≤ invoiced (xs ++ e :: ys) ↔ KeepsUp xs ys e := by
  have hcents := h.wholeCents
  have hprice := h.price
  have hmono : mathRound (rated (xs ++ ys)) ≤ mathRound (rated (xs ++ ys) + price e) :=
    mathRound_mono (by linarith)
  unfold KeepsUp
  rw [invoiced_eq, invoiced_eq, recorded_insert, rated_insert]
  by_cases hbefore : 0 < recorded (xs ++ ys)
  · rw [if_pos hbefore, if_pos (by omega)]
    simp only [hbefore, true_or, iff_true]
    omega
  · rw [if_neg hbefore]
    by_cases hafter : 0 < recorded (xs ++ ys) + wholeCents e
    · have hbound := @mathRound_le (rated (xs ++ ys)) (recorded (xs ++ ys) + wholeCents e)
      push_cast at hbound
      rw [if_pos hafter, ← hbound]
      simp only [hbefore, false_or]
      omega
    · rw [if_neg hafter]
      simp only [hbefore, false_or]
      omega

/-- A million tokens at 100 cents without a recorded cost, then a request of one cent. -/
def samplePriced : PricedUsage := ⟨none, some ⟨1000000, 0, ⟨100, 0⟩⟩⟩

def sampleCosted : PricedUsage := ⟨some 10000, none⟩

theorem sampleCosted_nonNegative : NonNegative sampleCosted where
  cost := by
    intro micros h
    cases h
    decide
  promptTokens := nofun
  completionTokens := nofun
  priceIn := nofun
  priceOut := nofun

theorem first_cost_kept : invoiced [] ≤ invoiced [sampleCosted] := by
  apply (never_lowers_iff [] [] sampleCosted sampleCosted_nonNegative).mpr
  right
  right
  have hrated : rated ([] ++ []) = 0 := rfl
  have hrecorded : recorded ([] ++ []) = 0 := rfl
  have hcents : wholeCents sampleCosted = 1 := by decide
  rw [hrated, hrecorded, hcents]
  norm_num

theorem recorded_cost_replaces_rates :
    ¬ ∀ xs ys e, NonNegative e → invoiced (xs ++ ys) ≤ invoiced (xs ++ e :: ys) := by
  intro h
  have hlower := h [samplePriced] [] sampleCosted sampleCosted_nonNegative
  have hbefore : invoiced [samplePriced] = 100 := by decide +kernel
  have hafter : invoiced [samplePriced, sampleCosted] = 1 := by decide +kernel
  change invoiced [samplePriced] ≤ invoiced [samplePriced, sampleCosted] at hlower
  omega

end ModelForge.InvoiceAmount
