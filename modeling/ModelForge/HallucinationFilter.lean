import ModelForge.TranscriptText

set_option autoImplicit false

/-!
# Hallucinated transcript texts

The heuristic that rejects Whisper's loops, once in the gateway's
`isHallucinatedTranscriptText` and once in the script's `is_hallucinated_text`.
Times and quotients are exact.
-/
namespace ModelForge.HallucinationFilter
open TranscriptText
open LlamaPool (isWhiteSpace trim)

/-- The pieces of `n` values that begin at `0`, `1` and so on. -/
def grams {α : Type} (n : ℕ) (l : List α) : List (List α) :=
  (List.range (l.length - n + 1)).map fun i => (l.drop i).take n

/-- The size of the set of a text's characters. -/
def unique (text : List Char) : ℕ := text.dedup.length

/-! ## The gateway -/

def stripReplacementChars (text : List Char) : List Char :=
  trim (text.filter fun c => c ≠ '\uFFFD')

def usesLenientHallucinationFilter (startSec endSec : ℚ) (compactLen : ℕ) : Bool :=
  if startSec ≤ 35 then true
  else startSec < 5 && endSec - startSec < 3 && 80 < compactLen

/-- The round of the loop for pieces of `n` code units. -/
def repeatsGrams (compact : List ℕ) (n : ℕ) : Bool :=
  !(compact.length < n * 6) &&
    max 10 ⌊(compact.length / n : ℚ) * (1 / 2)⌋₊ ≤ top (tally (grams n compact))

def isHallucinatedTranscriptText (text : List Char) (startSec : ℚ) (endSec : Option ℚ) : Bool :=
  let clean := stripReplacementChars (trim (collapseSpaces false text))
  if clean = [] then true
  else
    let compact := withoutSpaces clean
    let length := (units compact).length
    let endSec := endSec.getD startSec
    if usesLenientHallucinationFilter startSec endSec length then 200 < length && unique compact ≤ 4
    else if 80 < length && unique compact ≤ 6 then true
    else 12 ≤ length && [2, 3, 4].any (repeatsGrams (units compact))

/-! ## The script -/

/-- `text.strip()` -/
def strip (text : List Char) : List Char :=
  ((text.dropWhile isspace).reverse.dropWhile isspace).reverse

def strip_replacement_chars (text : List Char) : List Char :=
  strip (text.filter fun c => c ≠ '\uFFFD')

def uses_lenient_hallucination_filter (start_sec end_sec : ℚ) (compact_len : ℕ) : Bool :=
  if start_sec ≤ 35 then true
  else start_sec < 5 && end_sec - start_sec < 3 && 80 < compact_len

/-- The round of the loop for pieces of `n` characters. -/
def repeats_grams (compact : List Char) (n : ℕ) : Bool :=
  !(compact.length < n * 6) && !(grams n compact).isEmpty &&
    max (10 : ℚ) (((compact.length / n : ℕ) : ℚ) * (1 / 2)) ≤ top (tally (grams n compact))

def is_hallucinated_text (text : List Char) (start_sec : ℚ) (end_sec : Option ℚ) : Bool :=
  let clean := strip_replacement_chars text
  if clean = [] then true
  else
    let compact := sub_spaces clean
    let length := compact.length
    let end_sec := end_sec.getD start_sec
    if uses_lenient_hallucination_filter start_sec end_sec length then
      200 < length && unique compact ≤ 4
    else if 80 < length && unique compact ≤ 6 then true
    else 12 ≤ length && [2, 3, 4].any (repeats_grams compact)

/-! ## What both see of a text -/

/-- The text without whitespace and replacement characters. -/
def compactOf (text : List Char) : List Char :=
  (withoutSpaces text).filter fun c => c ≠ '\uFFFD'

section Strip

variable {p : Char → Bool} {text : List Char}

theorem filter_dropWhile (p : Char → Bool) (text : List Char) :
    (text.dropWhile p).filter (fun c => !p c) = text.filter fun c => !p c := by
  induction text with
  | nil => rfl
  | cons c rest ih =>
    by_cases hc : p c = true
    · rw [List.dropWhile_cons_of_pos hc, ih, List.filter_cons_of_neg (by simp [hc])]
    · rw [List.dropWhile_cons_of_neg hc]

/-- Stripping leaves what is no whitespace. -/
theorem filter_strip (p : Char → Bool) (text : List Char) :
    ((text.dropWhile p).reverse.dropWhile p).reverse.filter (fun c => !p c) =
      text.filter fun c => !p c := by
  rw [List.filter_reverse, filter_dropWhile, List.filter_reverse, List.reverse_reverse, filter_dropWhile]

theorem dropWhile_eq_nil (p : Char → Bool) (text : List Char) :
    text.dropWhile p = [] ↔ text.filter (fun c => !p c) = [] := by
  rw [List.dropWhile_eq_nil_iff, List.filter_eq_nil_iff]
  constructor
  · intro h c hc
    simp [h c hc]
  · intro h c hc
    simpa using h c hc

theorem strip_eq_nil (p : Char → Bool) (text : List Char) :
    ((text.dropWhile p).reverse.dropWhile p).reverse = [] ↔ text.filter (fun c => !p c) = [] := by
  rw [List.reverse_eq_nil_iff, dropWhile_eq_nil, List.filter_reverse, List.reverse_eq_nil_iff,
    filter_dropWhile]

end Strip

theorem withoutSpaces_trim (text : List Char) : withoutSpaces (trim text) = withoutSpaces text :=
  filter_strip isWhiteSpace text

theorem withoutSpaces_collapseSpaces (inRun : Bool) (text : List Char) :
    withoutSpaces (collapseSpaces inRun text) = withoutSpaces text := by
  have hblank : isWhiteSpace ' ' = true := by decide
  induction text generalizing inRun with
  | nil => rfl
  | cons c rest ih =>
    unfold withoutSpaces at ih ⊢
    rw [collapseSpaces]
    cases hc : isWhiteSpace c with
    | false => simp [hc, ih]
    | true => cases inRun <;> simp [hc, hblank, ih]

theorem withoutSpaces_filter (text : List Char) (p : Char → Bool) :
    withoutSpaces (text.filter p) = (withoutSpaces text).filter p :=
  List.filter_comm _ _ _

theorem sub_spaces_filter (text : List Char) (p : Char → Bool) :
    sub_spaces (text.filter p) = (sub_spaces text).filter p :=
  List.filter_comm _ _ _

theorem compact_gateway (text : List Char) :
    withoutSpaces (stripReplacementChars (trim (collapseSpaces false text))) = compactOf text := by
  rw [stripReplacementChars, withoutSpaces_trim, withoutSpaces_filter, withoutSpaces_trim,
    withoutSpaces_collapseSpaces, compactOf]

theorem clean_gateway (text : List Char) :
    stripReplacementChars (trim (collapseSpaces false text)) = [] ↔ compactOf text = [] := by
  rw [stripReplacementChars, trim, strip_eq_nil]
  change withoutSpaces _ = [] ↔ _
  rw [withoutSpaces_filter, withoutSpaces_trim, withoutSpaces_collapseSpaces, compactOf]

theorem compact_script (text : PlainText) :
    sub_spaces (strip_replacement_chars text.chars) = compactOf text.chars := by
  have hstrip : sub_spaces (strip_replacement_chars text.chars) =
      sub_spaces (text.chars.filter fun c => c ≠ '\uFFFD') := filter_strip isspace _
  rw [hstrip, sub_spaces_filter, text.sub_spaces_eq, compactOf]

theorem clean_script (text : PlainText) :
    strip_replacement_chars text.chars = [] ↔ compactOf text.chars = [] := by
  rw [strip_replacement_chars, strip, strip_eq_nil]
  change sub_spaces _ = [] ↔ _
  rw [sub_spaces_filter, text.sub_spaces_eq, compactOf]

theorem compactOf_bmp (text : PlainText) : ∀ c ∈ compactOf text.chars, c.toNat < 65536 := by
  intro c hc
  exact text.bmp c (List.mem_of_mem_filter (List.mem_of_mem_filter hc))

/-! ## Repetitions -/

/-- Some piece of `n` characters is in the text `k` times. -/
def Occurs (text : List Char) (n k : ℕ) : Prop := ∃ gram, (grams n text).count gram = k

theorem grams_map {α β : Type} (f : α → β) (n : ℕ) (l : List α) :
    grams n (l.map f) = (grams n l).map (List.map f) := by
  unfold grams
  rw [List.length_map, List.map_map]
  apply List.map_congr_left
  intro i _
  simp [List.map_drop, List.map_take]

theorem top_grams {bound : ℕ} (h : 0 < bound) (n : ℕ) (text : List Char) :
    bound ≤ top (tally (grams n text)) ↔ ∃ k, Occurs text n k ∧ bound ≤ k := by
  rw [le_top_tally h]
  constructor
  · rintro ⟨gram, hle⟩
    exact ⟨_, ⟨gram, rfl⟩, hle⟩
  · rintro ⟨k, ⟨gram, rfl⟩, hle⟩
    exact ⟨gram, hle⟩

/-- The code units of a text repeat as its characters do. -/
theorem top_grams_units {text : List Char} (hbmp : ∀ c ∈ text, c.toNat < 65536) {bound : ℕ}
    (h : 0 < bound) (n : ℕ) :
    bound ≤ top (tally (grams n (units text))) ↔ ∃ k, Occurs text n k ∧ bound ≤ k := by
  have hinjective : Function.Injective (List.map Char.toNat) := toNat_injective.list_map
  rw [units_bmp hbmp, grams_map, le_top_tally h]
  constructor
  · rintro ⟨piece, hle⟩
    have hmem : piece ∈ (grams n text).map (List.map Char.toNat) :=
      List.count_pos_iff.mp (lt_of_lt_of_le h hle)
    obtain ⟨gram, -, rfl⟩ := List.mem_map.mp hmem
    rw [List.count_map_of_injective _ _ hinjective] at hle
    exact ⟨_, ⟨gram, rfl⟩, hle⟩
  · rintro ⟨k, ⟨gram, rfl⟩, hle⟩
    refine ⟨gram.map Char.toNat, ?_⟩
    rw [List.count_map_of_injective _ _ hinjective]
    exact hle

theorem floor_half (length n : ℕ) : ⌊(length / n : ℚ) * (1 / 2)⌋₊ = length / n / 2 := by
  have hsplit : (length / n : ℚ) * (1 / 2) = ((length : ℚ) / ((n * 2 : ℕ) : ℚ)) := by
    push_cast
    ring
  rw [hsplit, Nat.floor_div_eq_div, Nat.div_div_eq_div_mul]

/-- The gateway's bound on the repetitions of a piece. -/
def Loops (length n k : ℕ) : Prop := 6 * n ≤ length ∧ 10 ≤ k ∧ length / n / 2 ≤ k

def ScriptLoops (length n k : ℕ) : Prop := 6 * n ≤ length ∧ 10 ≤ k ∧ length / n ≤ 2 * k

theorem repeatsGrams_iff {text : List Char} (hbmp : ∀ c ∈ text, c.toNat < 65536) (n : ℕ) :
    repeatsGrams (units text) n = true ↔ ∃ k, Occurs text n k ∧ Loops text.length n k := by
  have hpos : 0 < max 10 (text.length / n / 2) := lt_of_lt_of_le (by decide) (le_max_left _ _)
  rw [repeatsGrams, length_units_bmp hbmp, floor_half, Bool.and_eq_true, decide_eq_true_eq,
    top_grams_units hbmp hpos]
  simp only [Bool.not_eq_true', decide_eq_false_iff_not, not_lt, Loops, max_le_iff]
  constructor
  · rintro ⟨hlength, k, hoccurs, hten, hhalf⟩
    exact ⟨k, hoccurs, by omega, hten, hhalf⟩
  · rintro ⟨k, hoccurs, hlength, hten, hhalf⟩
    exact ⟨by omega, k, hoccurs, hten, hhalf⟩

theorem repeats_grams_iff (text : List Char) (n : ℕ) :
    repeats_grams text n = true ↔ ∃ k, Occurs text n k ∧ ScriptLoops text.length n k := by
  have hbound : ∀ count : ℕ, max (10 : ℚ) (((text.length / n : ℕ) : ℚ) * (1 / 2)) ≤ count ↔
      max 10 ((text.length / n + 1) / 2) ≤ count := by
    intro count
    rw [max_le_iff, max_le_iff]
    apply and_congr
    · norm_cast
    · rw [Nat.div_le_iff_le_mul_add_pred (by decide)]
      constructor
      · intro h
        have hle : ((text.length / n : ℕ) : ℚ) ≤ ((2 * count : ℕ) : ℚ) := by
          push_cast
          linarith
        have hnat : text.length / n ≤ 2 * count := by exact_mod_cast hle
        omega
      · intro h
        have hnat : text.length / n ≤ 2 * count := by omega
        have hle : ((text.length / n : ℕ) : ℚ) ≤ ((2 * count : ℕ) : ℚ) := by exact_mod_cast hnat
        push_cast at hle
        linarith
  have hpos : 0 < max 10 ((text.length / n + 1) / 2) := lt_of_lt_of_le (by decide) (le_max_left _ _)
  have hsome : (grams n text).isEmpty = false := by simp [grams]
  rw [repeats_grams, hsome, Bool.and_eq_true, decide_eq_true_eq, hbound, top_grams hpos]
  simp only [Bool.not_false, Bool.and_true, Bool.not_eq_true', decide_eq_false_iff_not, not_lt,
    ScriptLoops, max_le_iff]
  constructor
  · rintro ⟨hlength, k, hoccurs, hten, hhalf⟩
    exact ⟨k, hoccurs, by omega, hten, by omega⟩
  · rintro ⟨k, hoccurs, hlength, hten, hhalf⟩
    exact ⟨by omega, k, hoccurs, hten, by omega⟩

/-! ## Agreement -/

/-- The answer for a compacted text, where `loops` is what the loop finds. -/
def answer (compact : List Char) (startSec : ℚ) (loops : Bool) : Bool :=
  if compact = [] then true
  else if startSec ≤ 35 then 200 < compact.length && unique compact ≤ 4
  else if 80 < compact.length && unique compact ≤ 6 then true
  else loops

def gatewayLoops (compact : List Char) : Bool :=
  12 ≤ compact.length && [2, 3, 4].any (repeatsGrams (units compact))

def scriptLoops (compact : List Char) : Bool :=
  12 ≤ compact.length && [2, 3, 4].any (repeats_grams compact)

theorem lenient_iff (startSec endSec : ℚ) (length : ℕ) :
    usesLenientHallucinationFilter startSec endSec length = decide (startSec ≤ 35) := by
  unfold usesLenientHallucinationFilter
  by_cases hopening : startSec ≤ 35
  · simp [hopening]
  · have hlate : ¬ startSec < 5 := by linarith
    simp [hopening, hlate]

theorem gateway_answer (text : PlainText) (startSec : ℚ) (endSec : Option ℚ) :
    isHallucinatedTranscriptText text.chars startSec endSec =
      answer (compactOf text.chars) startSec (gatewayLoops (compactOf text.chars)) := by
  unfold isHallucinatedTranscriptText answer gatewayLoops
  simp only [clean_gateway, compact_gateway, lenient_iff, decide_eq_true_eq,
    length_units_bmp (compactOf_bmp text)]

theorem script_answer (text : PlainText) (startSec : ℚ) (endSec : Option ℚ) :
    is_hallucinated_text text.chars startSec endSec =
      answer (compactOf text.chars) startSec (scriptLoops (compactOf text.chars)) := by
  have hlenient : ∀ end_sec length, uses_lenient_hallucination_filter startSec end_sec length =
      decide (startSec ≤ 35) := lenient_iff startSec
  unfold is_hallucinated_text answer scriptLoops
  simp only [clean_script, compact_script, hlenient, decide_eq_true_eq]

/-- The guard on the length refuses no text that a test accepts. -/
theorem guarded_iff {length : ℕ} {test : ℕ → Bool} {loops : ℕ → Prop}
    (htest : ∀ n, test n = true ↔ loops n) (hlength : ∀ n, loops n → 6 * n ≤ length) :
    (12 ≤ length && [2, 3, 4].any test) = true ↔ ∃ n ∈ [2, 3, 4], loops n := by
  rw [Bool.and_eq_true, decide_eq_true_eq, List.any_eq_true]
  simp only [htest]
  constructor
  · exact fun h => h.2
  · intro ⟨n, hn, hloops⟩
    have htwo : 2 ≤ n := by
      simp only [List.mem_cons, List.not_mem_nil, or_false] at hn
      omega
    refine ⟨?_, n, hn, hloops⟩
    have := hlength n hloops
    omega

theorem gatewayLoops_iff {text : List Char} (hbmp : ∀ c ∈ text, c.toNat < 65536) :
    gatewayLoops text = true ↔ ∃ n ∈ [2, 3, 4], ∃ k, Occurs text n k ∧ Loops text.length n k := by
  apply guarded_iff (repeatsGrams_iff hbmp)
  intro n ⟨k, _, hloops⟩
  exact hloops.1

theorem scriptLoops_iff (text : List Char) :
    scriptLoops text = true ↔ ∃ n ∈ [2, 3, 4], ∃ k, Occurs text n k ∧ ScriptLoops text.length n k := by
  apply guarded_iff (repeats_grams_iff text)
  intro n ⟨k, _, hloops⟩
  exact hloops.1

/-- Some piece is there `k` times, and the quotient of the lengths is one more
than twice that. -/
def AtEdge (text : List Char) : Prop :=
  ∃ n ∈ [2, 3, 4], ∃ k, Occurs text n k ∧ 10 ≤ k ∧ text.length / n = 2 * k + 1

/-- The gateway's bound is one repetition lower where the quotient is odd. -/
theorem loops_iff {length n k : ℕ} (hn : 0 < n) :
    Loops length n k ↔ ScriptLoops length n k ∨ 10 ≤ k ∧ length / n = 2 * k + 1 := by
  constructor
  · rintro ⟨hlength, hten, hhalf⟩
    by_cases hscript : length / n ≤ 2 * k
    · exact .inl ⟨hlength, hten, hscript⟩
    · exact .inr ⟨hten, by omega⟩
  · intro h
    cases h with
    | inl hscript =>
      obtain ⟨hlength, hten, hhalf⟩ := hscript
      exact ⟨hlength, hten, by omega⟩
    | inr hedge =>
      obtain ⟨hten, hquotient⟩ := hedge
      have hlength : 6 ≤ length / n := by omega
      exact ⟨(Nat.le_div_iff_mul_le hn).mp hlength, hten, by omega⟩

theorem loops_agree_iff {text : List Char} (hbmp : ∀ c ∈ text, c.toNat < 65536) :
    scriptLoops text = gatewayLoops text ↔
      (∃ n ∈ [2, 3, 4], ∃ k, Occurs text n k ∧ ScriptLoops text.length n k) ∨ ¬ AtEdge text := by
  have hgateway : gatewayLoops text = true ↔ scriptLoops text = true ∨ AtEdge text := by
    rw [gatewayLoops_iff hbmp, scriptLoops_iff, AtEdge]
    constructor
    · rintro ⟨n, hn, k, hoccurs, hloops⟩
      have hpos : 0 < n := by
        simp only [List.mem_cons, List.not_mem_nil, or_false] at hn
        omega
      cases (loops_iff hpos).mp hloops with
      | inl hscript => exact .inl ⟨n, hn, k, hoccurs, hscript⟩
      | inr hedge => exact .inr ⟨n, hn, k, hoccurs, hedge⟩
    · intro h
      cases h with
      | inl hscript =>
        obtain ⟨n, hn, k, hoccurs, hloops⟩ := hscript
        exact ⟨n, hn, k, hoccurs, hloops.1, hloops.2.1, by have := hloops.2.2; omega⟩
      | inr hedge =>
        obtain ⟨n, hn, k, hoccurs, hquotient⟩ := hedge
        have hpos : 0 < n := by
          simp only [List.mem_cons, List.not_mem_nil, or_false] at hn
          omega
        exact ⟨n, hn, k, hoccurs, (loops_iff hpos).mpr (.inr hquotient)⟩
  rw [← scriptLoops_iff, Bool.eq_iff_iff, hgateway]
  tauto

theorem answer_congr_iff (compact : List Char) (startSec : ℚ) (a b : Bool) :
    answer compact startSec a = answer compact startSec b ↔
      compact = [] ∨ startSec ≤ 35 ∨ (80 < compact.length ∧ unique compact ≤ 6) ∨ a = b := by
  unfold answer
  by_cases hempty : compact = []
  · simp [hempty]
  · by_cases hopening : startSec ≤ 35
    · simp [hempty, hopening]
    · by_cases hfew : 80 < compact.length ∧ unique compact ≤ 6
      · simp [hempty, hopening, hfew]
      · have hloop : (decide (80 < compact.length) && decide (unique compact ≤ 6)) = false := by
          simpa using hfew
        simp [hempty, hopening, hloop, hfew]

/-- Where the answers cannot differ: the opening of a recording, a long text of
few characters, a piece repeated up to the script's bound, or none at the edge. -/
def OffEdge (compact : List Char) (startSec : ℚ) : Prop :=
  startSec ≤ 35 ∨ (80 < compact.length ∧ unique compact ≤ 6) ∨
    (∃ n ∈ [2, 3, 4], ∃ k, Occurs compact n k ∧ ScriptLoops compact.length n k) ∨ ¬ AtEdge compact

theorem not_atEdge_nil : ¬ AtEdge [] := by
  rintro ⟨n, -, k, -, -, hquotient⟩
  simp at hquotient

/-- The two filters agree exactly off the edge between their bounds. -/
theorem filters_agree_iff (text : PlainText) (startSec : ℚ) (endSec : Option ℚ) :
    is_hallucinated_text text.chars startSec endSec =
        isHallucinatedTranscriptText text.chars startSec endSec ↔
      OffEdge (compactOf text.chars) startSec := by
  rw [script_answer, gateway_answer, answer_congr_iff, loops_agree_iff (compactOf_bmp text), OffEdge]
  constructor
  · intro h
    cases h with
    | inl hempty =>
      rw [hempty]
      exact .inr (.inr (.inr not_atEdge_nil))
    | inr h => exact h
  · exact .inr

/-- Ten times "ab" among 22 other characters. -/
def edgeText : List Char :=
  ['a', 'b', 'c', 'a', 'b', 'd', 'a', 'b', 'e', 'a', 'b', 'f', 'a', 'b', 'g', 'a', 'b', 'h', 'a', 'b', 'i',
    'a', 'b', 'j', 'a', 'b', 'k', 'a', 'b', 'l', 'm', 'n', 'o', 'p', 'q', 'r', 's', 't', 'u', 'v', 'w', 'x']

/-- Ten of 42 characters' 21 pairs: the gateway's bound is 10, the script's 10.5. -/
theorem filters_differ :
    ¬ ∀ (text : PlainText) (startSec : ℚ) (endSec : Option ℚ),
      is_hallucinated_text text.chars startSec endSec =
        isHallucinatedTranscriptText text.chars startSec endSec := by
  intro h
  have hletters : (edgeText.all fun c => c.toNat < 65536 && !(isWhiteSpace c || isspace c)) = true := by
    decide +kernel
  have hletter : ∀ c ∈ edgeText, c.toNat < 65536 ∧ (isWhiteSpace c || isspace c) = false := by
    intro c hc
    have hc := List.all_eq_true.mp hletters c hc
    rwa [Bool.and_eq_true, decide_eq_true_eq, Bool.not_eq_true'] at hc
  have hbmp : ∀ c ∈ edgeText, c.toNat < 65536 := fun c hc => (hletter c hc).1
  have hspaces : ∀ c ∈ edgeText, (isWhiteSpace c || isspace c) = true → isAsciiSpace c = true := by
    intro c hc hspace
    rw [(hletter c hc).2] at hspace
    cases hspace
  have hsame : is_hallucinated_text edgeText 36 (some 40) =
      isHallucinatedTranscriptText edgeText 36 (some 40) := h ⟨edgeText, hbmp, hspaces⟩ 36 (some 40)
  revert hsame
  decide +kernel

end ModelForge.HallucinationFilter
