import ModelForge.OrderStatistics
import ModelForge.SloWindows

set_option autoImplicit false

/-!
# The latency percentile of the rollup

Which element of the latencies the rollup takes as their 95th percentile, and
when that element is the least one that 95 percent of them do not exceed.
-/
namespace ModelForge.LatencyPercentile

open OrderStatistics SloWindows

/-! ## How far a double is from its number -/

theorem roundHalfEven_near (q : ℚ) : |(roundHalfEven q : ℚ) - q| ≤ 1 / 2 := by
  have hfloor := Int.floor_le q
  have hceil := Int.lt_floor_add_one q
  unfold roundHalfEven
  dsimp only
  split_ifs <;> rw [abs_le] <;> constructor <;> push_cast <;> linarith

theorem le_roundHalfEven {k : ℤ} {q : ℚ} (h : k - 1 / 2 < q) : k ≤ roundHalfEven q := by
  have hnear := (abs_le.mp (roundHalfEven_near q)).1
  have hlt : ((k - 1 : ℤ) : ℚ) < roundHalfEven q := by
    push_cast
    linarith
  have := Int.cast_lt.mp hlt
  omega

theorem estimate_bounds {q : ℚ} (hq : 0 < q) :
    (2 : ℚ) ^ ((Nat.log2 q.num.natAbs : ℤ) - Nat.log2 q.den - 1) ≤ q ∧
      q < (2 : ℚ) ^ ((Nat.log2 q.num.natAbs : ℤ) - Nat.log2 q.den + 1) := by
  have hnum : q.num.natAbs ≠ 0 := by
    have := Rat.num_pos.mpr hq
    omega
  have hvalue : (q.num.natAbs : ℚ) / q.den = q := by
    have habs : ((q.num.natAbs : ℤ) : ℚ) = q.num := by
      rw [Int.natAbs_of_nonneg (Rat.num_pos.mpr hq).le]
    calc (q.num.natAbs : ℚ) / q.den = (q.num : ℚ) / q.den := by rw [← habs]; rfl
      _ = q := q.num_div_den
  have hden : (0 : ℚ) < q.den := by exact_mod_cast q.den_pos
  have hnumLow : (2 : ℚ) ^ Nat.log2 q.num.natAbs ≤ q.num.natAbs := by
    exact_mod_cast Nat.log2_self_le hnum
  have hnumHigh : (q.num.natAbs : ℚ) < 2 ^ (Nat.log2 q.num.natAbs + 1) := by
    exact_mod_cast Nat.lt_log2_self
  have hdenLow : (2 : ℚ) ^ Nat.log2 q.den ≤ q.den := by
    exact_mod_cast Nat.log2_self_le q.den_pos.ne'
  have hdenHigh : (q.den : ℚ) < 2 ^ (Nat.log2 q.den + 1) := by
    exact_mod_cast Nat.lt_log2_self
  generalize Nat.log2 q.num.natAbs = a at *
  generalize Nat.log2 q.den = b at *
  constructor
  · calc (2 : ℚ) ^ ((a : ℤ) - b - 1) = 2 ^ a / 2 ^ (b + 1) := by
          rw [show (a : ℤ) - b - 1 = a - (b + 1 : ℕ) by push_cast; ring, zpow_sub₀ two_ne_zero,
            zpow_natCast, zpow_natCast]
      _ ≤ q.num.natAbs / q.den := by gcongr
      _ = q := hvalue
  · calc q = q.num.natAbs / q.den := hvalue.symm
      _ < 2 ^ (a + 1) / 2 ^ b := by gcongr
      _ = (2 : ℚ) ^ ((a : ℤ) - b + 1) := by
          rw [show (a : ℤ) - b + 1 = (a + 1 : ℕ) - b by push_cast; ring, zpow_sub₀ two_ne_zero,
            zpow_natCast, zpow_natCast]

/-- The binade of a number, and its double in that binade's units. -/
theorem exists_binade {q : ℚ} (hq : 0 < q) :
    ∃ e : ℤ, (2 : ℚ) ^ e ≤ q ∧ q < 2 ^ (e + 1) ∧
      toDouble q = roundHalfEven (q / 2 ^ (e - 52)) * 2 ^ (e - 52) := by
  have hbounds := estimate_bounds hq
  by_cases hle : (2 : ℚ) ^ ((Nat.log2 q.num.natAbs : ℤ) - Nat.log2 q.den) ≤ |q|
  · refine ⟨_, ?_, hbounds.2, ?_⟩
    · rwa [abs_of_pos hq] at hle
    · simp only [toDouble, hq.ne', if_false, hle, if_true]
  · refine ⟨_, hbounds.1, ?_, ?_⟩
    · rw [abs_of_pos hq] at hle
      simpa using hle
    · simp only [toDouble, hq.ne', if_false, hle]

theorem toDouble_near {q : ℚ} (hq : 0 < q) : |toDouble q - q| ≤ q / 2 ^ 53 := by
  obtain ⟨e, hle, _, heq⟩ := exists_binade hq
  have hunit : (0 : ℚ) < 2 ^ (e - 52) := by positivity
  have hhalf := roundHalfEven_near (q / 2 ^ (e - 52))
  have hscale : toDouble q - q = (roundHalfEven (q / 2 ^ (e - 52)) - q / 2 ^ (e - 52)) * 2 ^ (e - 52) := by
    rw [heq]
    field_simp
  calc |toDouble q - q| = |(roundHalfEven (q / 2 ^ (e - 52)) : ℚ) - q / 2 ^ (e - 52)| * 2 ^ (e - 52) := by
        rw [hscale, abs_mul, abs_of_pos hunit]
    _ ≤ 1 / 2 * 2 ^ (e - 52) := by gcongr
    _ = 2 ^ e / 2 ^ 53 := by
        rw [zpow_sub₀ two_ne_zero]
        norm_num [div_eq_mul_inv]
        ring
    _ ≤ q / 2 ^ 53 := by gcongr

/-- A whole number just above a number is not above its double. -/
theorem le_toDouble {q : ℚ} (hq : 0 < q) (hsmall : q < 2 ^ 52) {k : ℤ} (h : k - q ≤ q / 2 ^ 54) :
    (k : ℚ) ≤ toDouble q := by
  obtain ⟨e, hle, hlt, heq⟩ := exists_binade hq
  have hunit : (0 : ℚ) < 2 ^ (e - 52) := by positivity
  have he : e < 52 := by
    have : (2 : ℚ) ^ e < 2 ^ (52 : ℤ) := by
      rw [zpow_ofNat]
      exact hle.trans_lt hsmall
    exact (zpow_lt_zpow_iff_right₀ (by norm_num)).mp this
  -- in units the whole number is whole as well
  have hwhole : ((k * 2 ^ (52 - e).toNat : ℤ) : ℚ) = k / 2 ^ (e - 52) := by
    have hpow : (2 : ℚ) ^ (52 - e).toNat = 2 ^ (52 - e) := by
      rw [← zpow_natCast, Int.toNat_of_nonneg (by omega)]
    push_cast
    rw [hpow, div_eq_mul_inv, ← zpow_neg]
    congr 2
    ring
  have hround : k * 2 ^ (52 - e).toNat ≤ roundHalfEven (q / 2 ^ (e - 52)) := by
    apply le_roundHalfEven
    rw [hwhole]
    have hgap : k - q < 1 / 2 * 2 ^ (e - 52) :=
      calc k - q ≤ q / 2 ^ 54 := h
        _ < 2 ^ (e + 1) / 2 ^ 54 := by gcongr
        _ = 1 / 2 * 2 ^ (e - 52) := by
            rw [zpow_add₀ two_ne_zero, zpow_sub₀ two_ne_zero]
            norm_num
            ring
    have hdiv : (k : ℚ) / 2 ^ (e - 52) - q / 2 ^ (e - 52) < 1 / 2 := by
      rw [← sub_div, div_lt_iff₀ hunit]
      exact hgap
    linarith
  calc (k : ℚ) = k / 2 ^ (e - 52) * 2 ^ (e - 52) := by field_simp
    _ = ((k * 2 ^ (52 - e).toNat : ℤ) : ℚ) * 2 ^ (e - 52) := by rw [hwhole]
    _ ≤ roundHalfEven (q / 2 ^ (e - 52)) * 2 ^ (e - 52) := by
        have : ((k * 2 ^ (52 - e).toNat : ℤ) : ℚ) ≤ roundHalfEven (q / 2 ^ (e - 52)) := by
          exact_mod_cast hround
        gcongr
    _ = toDouble q := heq.symm

/-! ## The index -/

theorem ninety_five_hundredths : toDouble (95 / 100) = 8556839292003942 / 2 ^ 53 := by decide +kernel

/-- The product of doubles has the floor of the exact one, also where that is a
whole number and the double of 0.95 is below 0.95. -/
theorem index_floor {n : ℕ} (hpos : 0 < n) (hlt : n < 2 ^ 32) :
    ⌊toDouble (toDouble (95 / 100) * n)⌋₊ = 19 * n / 20 := by
  rw [ninety_five_hundredths]
  have hn : (0 : ℚ) < n := by exact_mod_cast hpos
  have hn' : (n : ℚ) < 2 ^ 32 := by exact_mod_cast hlt
  have hdown : ((19 * n / 20 : ℕ) : ℚ) * 20 ≤ 19 * n := by exact_mod_cast Nat.div_mul_le_self _ _
  have hup : 19 * (n : ℚ) ≤ ((19 * n / 20 : ℕ) : ℚ) * 20 + 19 := by
    exact_mod_cast (by omega : 19 * n ≤ 19 * n / 20 * 20 + 19)
  generalize 19 * n / 20 = k at *
  have hq : (0 : ℚ) < 8556839292003942 / 2 ^ 53 * n := by positivity
  have hlow : ((k : ℤ) : ℚ) ≤ toDouble (8556839292003942 / 2 ^ 53 * n) := by
    apply le_toDouble hq
    · linarith
    · push_cast
      linarith
  have hhigh := (abs_le.mp (toDouble_near hq)).2
  rw [Nat.floor_eq_iff ((Int.cast_nonneg (by omega)).trans hlow)]
  constructor
  · exact_mod_cast hlow
  · linarith

theorem percentile_eq {values : List ℤ} (hne : values ≠ []) (hlt : values.length < 2 ^ 32) :
    ∃ h : 19 * values.length / 20 < (values.insertionSort (· ≤ ·)).length,
      percentile values 95 = (values.insertionSort (· ≤ ·))[19 * values.length / 20] := by
  have hpos := List.length_pos_iff.mpr hne
  have hlen : (values.insertionSort (· ≤ ·)).length = values.length := List.length_insertionSort _ _
  refine ⟨by omega, ?_⟩
  have hindex : min (values.length - 1) (19 * values.length / 20) = 19 * values.length / 20 := by omega
  simp only [percentile, hne, if_false, hlen, index_floor hpos hlt, hindex]
  exact List.getD_eq_getElem _ _ _

/-! ## The percentile -/

/-- The least element that 95 percent of the elements do not exceed. -/
def IsPercentile (values : List ℤ) (v : ℤ) : Prop :=
  IsLeast {w | w ∈ values ∧ 95 * values.length ≤ 100 * countLe w values} v

theorem percentile_mem {values : List ℤ} (hne : values ≠ []) (hlt : values.length < 2 ^ 32) :
    percentile values 95 ∈ values := by
  obtain ⟨h, heq⟩ := percentile_eq hne hlt
  rw [heq]
  exact (List.perm_insertionSort _ _).mem_iff.mp (List.getElem_mem h)

/-- More than 95 percent of the latencies are wanted, not at least as many. -/
theorem percentile_le_iff {values : List ℤ} (hne : values ≠ []) (hlt : values.length < 2 ^ 32) (v : ℤ) :
    percentile values 95 ≤ v ↔ 95 * values.length < 100 * countLe v values := by
  obtain ⟨h, heq⟩ := percentile_eq hne hlt
  have hsorted : (values.insertionSort (· ≤ ·)).Pairwise (· ≤ ·) := List.pairwise_insertionSort _ _
  rw [heq, getElem_le_iff hsorted h, countLe_perm (List.perm_insertionSort _ _)]
  omega

theorem isPercentile_iff {values : List ℤ} (hne : values ≠ []) (hlt : values.length < 2 ^ 32) :
    IsPercentile values (percentile values 95) ↔
      ∀ v ∈ values, 20 * countLe v values ≠ 19 * values.length := by
  have hself := (percentile_le_iff hne hlt (percentile values 95)).mp le_rfl
  constructor
  · intro ⟨_, hleast⟩ v hv hexact
    have hle := hleast ⟨hv, by omega⟩
    have := (percentile_le_iff hne hlt v).mp hle
    omega
  · intro h
    refine ⟨⟨percentile_mem hne hlt, hself.le⟩, ?_⟩
    intro v ⟨hv, hcount⟩
    rw [percentile_le_iff hne hlt]
    have := h v hv
    omega

/-- The latencies of the requests that the percentile is taken of. -/
def latencies (rows : List Request) : List ℤ := (succeeded rows).map Request.latencyMs

theorem computeWindowStatus_breached {availabilityPct p95 : ℚ} {targets : SloTargets}
    (h : computeWindowStatus availabilityPct p95 targets = .ok .breached) :
    availabilityPct < targets.availabilityPct ∨ targets.latencyP95Ms < p95 := by
  by_contra hnot
  simp only [computeWindowStatus, hnot, if_false] at h
  split_ifs at h <;> simp at h

/-- The window is not breached on account of latency while 95 percent meet the target. -/
def LatencyFair (values : List ℤ) : Prop :=
  ∀ (definition : SloDefinition) (rows : List Request), latencies rows = values →
    95 * values.length ≤ 100 * countLe definition.latencyP95Ms values →
    bucketStatus definition rows = .ok .breached →
    availabilityPct rows < definition.availabilityPct

theorem latencyFair {values : List ℤ} (hne : values ≠ []) (hlt : values.length < 2 ^ 32)
    (h : ∀ v ∈ values, 20 * countLe v values ≠ 19 * values.length) : LatencyFair values := by
  intro definition rows hrows hmet hbreached
  have hp95 : p95LatencyMs rows = percentile values 95 := by rw [← hrows]; rfl
  apply (computeWindowStatus_breached hbreached).resolve_right
  rw [hp95, not_lt, Int.cast_le, percentile_le_iff hne hlt]
  have hpos := List.length_pos_iff.mpr hne
  have hsome : 0 < countLe definition.latencyP95Ms values := by omega
  obtain ⟨v, hv, _, hcount⟩ := exists_mem_countLe_eq hsome
  have := h v hv
  omega

/-- The rollup's percentile is the nearest rank, and judges windows fairly, where
no latency has exactly 95 percent of the latencies up to it. -/
theorem p95_iff (values : List ℤ) (hne : values ≠ []) (hlt : values.length < 2 ^ 32) :
    IsPercentile values (percentile values 95) ∧ LatencyFair values ↔
      ∀ v ∈ values, 20 * countLe v values ≠ 19 * values.length := by
  constructor
  · intro ⟨h, _⟩
    exact (isPercentile_iff hne hlt).mp h
  · intro h
    exact ⟨(isPercentile_iff hne hlt).mpr h, latencyFair hne hlt h⟩

/-- The percentile of two latencies is the larger one. -/
theorem p95_of_two :
    IsPercentile [120, 80] (percentile [120, 80] 95) ∧ LatencyFair [120, 80] :=
  (p95_iff [120, 80] (by simp) (by simp)).mpr (by decide)

/-- Nineteen requests at the target, and a slow one. -/
def oneSlow : List Request :=
  List.replicate 19 ⟨"c", .succeeded, 100, 0⟩ ++ [⟨"c", .succeeded, 5000, 0⟩]

def strictLatency : SloDefinition := ⟨"d", "chat", 100, 99, 60, 1000, true, hour_pos⟩

/-- All requests succeed, 95 percent of them within the target, and the window is breached. -/
theorem fair_window_breached :
    95 * (latencies oneSlow).length ≤ 100 * countLe 100 (latencies oneSlow) ∧
      IsPercentile (latencies oneSlow) 100 ∧ percentile (latencies oneSlow) 95 = 5000 ∧
      ¬ availabilityPct oneSlow < strictLatency.availabilityPct ∧
      bucketStatus strictLatency oneSlow = .ok .breached := by
  refine ⟨by decide, ⟨by decide, ?_⟩, by decide +kernel, by decide +kernel, by decide +kernel⟩
  intro v ⟨hv, _⟩
  revert v
  decide

end ModelForge.LatencyPercentile
