import ModelForge.CollapsedBlanks
import ModelForge.HallucinationFilter
import ModelForge.SegmentOverlap

set_option autoImplicit false

/-!
# Normalised transcripts

`normalizeTranscript` cleans the texts of a transcript, drops the segments that it
takes for hallucinated and repairs the times of the others; where nothing is left it
restores one segment. Times are exact.
-/
namespace ModelForge.NormalizedTranscript
open CollapsedBlanks (clean Gapped)
open EventStream (JsString js isHigh isLow codePoints)
open HallucinationFilter (usesLenientHallucinationFilter repeatsGrams)
open ReservationCover (isWhiteSpace trim)
open SegmentOverlap (repairSegmentTimestamps compactLen inUnits lastEnd)
open TranscriptText (PlainText)
open TurnMerging (TranscriptSegment Chronological joined)

/-! ## The functions -/

/-- `text.replace(/\s+/g, " ").trim()` -/
def collapsed (text : JsString) : JsString := trim ((SplitWords.blanks isWhiteSpace).replaceAll (js " ") text)

def isReplacementChar (u : UInt16) : Bool := u = 0xFFFD

def stripReplacementChars (text : JsString) : JsString := trim (text.filter fun u => !isReplacementChar u)

/-- `stripReplacementChars(text.replace(/\s+/g, " ").trim())` -/
def cleanText (text : JsString) : JsString := stripReplacementChars (collapsed text)

/-- `text.replace(/\s+/g, "")` -/
def withoutSpaces (text : JsString) : JsString := text.filter fun u => !isWhiteSpace u

/-- `new Set(compact).size` -/
def unique (compact : JsString) : ℕ := (codePoints compact).dedup.length

def isHallucinatedTranscriptText (text : JsString) (startSec : ℚ) (endSec : Option ℚ) : Bool :=
  let clean := cleanText text
  if clean = [] then true
  else
    let compact := withoutSpaces clean
    if usesLenientHallucinationFilter startSec (endSec.getD startSec) compact.length then
      200 < compact.length && unique compact ≤ 4
    else if 80 < compact.length && unique compact ≤ 6 then true
    else 12 ≤ compact.length && [2, 3, 4].any (repeatsGrams (compact.map UInt16.toNat))

/-- A transcript; its other members are passed on. -/
structure TranscriptArtifact where
  text : JsString
  segments : List TranscriptSegment
deriving DecidableEq

/-- The `map` call. -/
def cleaned (segment : TranscriptSegment) : TranscriptSegment :=
  { segment with text := cleanText segment.text }

/-- The test of the `filter` call, on a segment whose text is clean. -/
def stays (segment : TranscriptSegment) : Bool :=
  0 < segment.text.length && !isHallucinatedTranscriptText segment.text segment.startSec (some segment.endSec)

def kept (segments : List TranscriptSegment) : List TranscriptSegment := (segments.map cleaned).filter stays

/-- `longest`, or `segment` where its text is at least as long. -/
def longer (longest segment : TranscriptSegment) : TranscriptSegment :=
  if (stripReplacementChars longest.text).length ≤ (stripReplacementChars segment.text).length then segment
  else longest

/-- `best`, the last of the longest segments. -/
def best : List TranscriptSegment → Option TranscriptSegment
  | [] => none
  | segment :: segments => some (segments.foldl longer segment)

def restored (segments : List TranscriptSegment) : Option TranscriptSegment :=
  ((best segments).map cleaned).filter fun segment => 8 ≤ segment.text.length

def normalizeTranscript (input : TranscriptArtifact) : TranscriptArtifact :=
  let segments := kept input.segments
  match if segments = [] then restored input.segments else none with
  | some segment => ⟨segment.text, [segment]⟩
  | none =>
    let repaired := repairSegmentTimestamps segments (lastEnd segments)
    ⟨collapsed (joined (repaired.map TranscriptSegment.text)), repaired⟩

example : normalizeTranscript ⟨js "  a   b c  ",
    [⟨0, 1, js "  a  ", none⟩, ⟨1, 2, js "   ", none⟩, ⟨2, 3, js "b   c", none⟩]⟩ =
      ⟨js "a b c", [⟨0, 1, js "a", none⟩, ⟨2, 3, js "b c", none⟩]⟩ := by decide +kernel

/-! ## What the filter sees of a text -/

/-- The text without whitespace and replacement characters. -/
def compactOf (text : JsString) : JsString := (withoutSpaces text).filter fun u => !isReplacementChar u

theorem cleanText_eq (text : JsString) : cleanText text = clean isWhiteSpace isReplacementChar 32 text := rfl

theorem withoutSpaces_collapsed (text : JsString) : withoutSpaces (collapsed text) = withoutSpaces text :=
  CollapsedBlanks.filter_collapse isWhiteSpace (b := 32) (by decide) text

theorem compactOf_collapsed (text : JsString) : compactOf (collapsed text) = compactOf text := by
  rw [compactOf, withoutSpaces_collapsed, compactOf]

theorem withoutSpaces_strip (text : JsString) : withoutSpaces (stripReplacementChars text) = compactOf text :=
  (SpacedText.filter_trim isWhiteSpace _).trans (List.filter_comm _ _ _)

theorem strip_eq_nil_iff (text : JsString) : stripReplacementChars text = [] ↔ compactOf text = [] := by
  rw [← withoutSpaces_strip]
  constructor
  · intro h
    rw [h]
    rfl
  · intro h
    have hblank : ∀ u ∈ stripReplacementChars text, isWhiteSpace u = true := by
      simpa [withoutSpaces] using h
    have htrim := SpacedText.trim_trim isWhiteSpace (text.filter fun u => !isReplacementChar u)
    exact htrim.symm.trans (SpacedText.trim_eq_nil_iff.mpr hblank)

theorem cleanText_eq_nil_iff (text : JsString) : cleanText text = [] ↔ compactOf text = [] := by
  rw [cleanText, strip_eq_nil_iff, compactOf_collapsed]

theorem withoutSpaces_cleanText (text : JsString) : withoutSpaces (cleanText text) = compactOf text := by
  rw [cleanText, withoutSpaces_strip, compactOf_collapsed]

theorem compactOf_cleanText (text : JsString) : compactOf (cleanText text) = compactOf text := by
  rw [compactOf, withoutSpaces_cleanText, compactOf, List.filter_filter]
  simp

/-- The filter's answer, by the compacted text. -/
def verdict (compact : JsString) (startSec : ℚ) : Bool :=
  if compact = [] then true
  else if startSec ≤ 35 then 200 < compact.length && unique compact ≤ 4
  else if 80 < compact.length && unique compact ≤ 6 then true
  else 12 ≤ compact.length && [2, 3, 4].any (repeatsGrams (compact.map UInt16.toNat))

theorem isHallucinated_eq (text : JsString) (startSec : ℚ) (endSec : Option ℚ) :
    isHallucinatedTranscriptText text startSec endSec = verdict (compactOf text) startSec := by
  unfold isHallucinatedTranscriptText verdict
  simp only [cleanText_eq_nil_iff, withoutSpaces_cleanText, HallucinationFilter.lenient_iff, decide_eq_true_eq]

theorem length_of_verdict {compact : JsString} {startSec : ℚ} (h : verdict compact startSec = true)
    (hne : compact ≠ []) : 12 ≤ compact.length := by
  unfold verdict at h
  rw [if_neg hne] at h
  split at h
  · simp only [Bool.and_eq_true, decide_eq_true_eq] at h
    omega
  · split at h
    next hfew =>
      simp only [Bool.and_eq_true, decide_eq_true_eq] at hfew
      omega
    next =>
      simp only [Bool.and_eq_true, decide_eq_true_eq] at h
      exact h.1

theorem stays_cleaned (segment : TranscriptSegment) : stays (cleaned segment) =
    (decide (compactOf segment.text ≠ []) && !verdict (compactOf segment.text) segment.startSec) := by
  have hpos : decide (0 < (cleaned segment).text.length) = decide (compactOf segment.text ≠ []) := by
    rw [decide_eq_decide, List.length_pos_iff, not_iff_not]
    exact cleanText_eq_nil_iff segment.text
  have hcompact : compactOf (cleaned segment).text = compactOf segment.text := compactOf_cleanText segment.text
  rw [stays, hpos, isHallucinated_eq, hcompact]
  rfl

/-! ## Plain texts -/

def unitOf (c : Char) : UInt16 := UInt16.ofNat c.toNat

theorem toNat_unitOf {c : Char} (hc : c.toNat < 65536) : (unitOf c).toNat = c.toNat := UInt16.toNat_ofNat_of_lt' hc

theorem isHigh_unitOf {c : Char} (hc : c.toNat < 65536) : isHigh (unitOf c) = false := by
  have hvalid : c.toNat < 0xD800 ∨ 0xDFFF < c.toNat ∧ c.toNat < 0x110000 := c.valid
  rw [isHigh, toNat_unitOf hc, Bool.and_eq_false_iff, decide_eq_false_iff_not, decide_eq_false_iff_not]
  omega

theorem isReplacementChar_unitOf {c : Char} (hc : c.toNat < 65536) :
    isReplacementChar (unitOf c) = decide (c = '\uFFFD') := by
  rw [isReplacementChar, decide_eq_decide]
  constructor
  · intro h
    have htoNat := congrArg UInt16.toNat h
    rw [toNat_unitOf hc] at htoNat
    exact Char.toNat_inj.mp htoNat
  · rintro rfl
    rfl

theorem codePoints_plain {compact : List Char} (hbmp : ∀ c ∈ compact, c.toNat < 65536) :
    codePoints (compact.map unitOf) = compact.map fun c => [unitOf c] := by
  induction compact with
  | nil => rfl
  | cons c compact ih =>
    have ih := ih fun d hd => hbmp d (List.mem_cons_of_mem _ hd)
    cases compact with
    | nil => rfl
    | cons d compact =>
      rw [List.map_cons, List.map_cons] at ih
      rw [List.map_cons, List.map_cons, codePoints, isHigh_unitOf (hbmp c List.mem_cons_self), Bool.false_and,
        if_neg Bool.false_ne_true, ih, List.map_cons, List.map_cons]

theorem unique_plain {compact : List Char} (hbmp : ∀ c ∈ compact, c.toNat < 65536) :
    unique (compact.map unitOf) = HallucinationFilter.unique compact := by
  have hinjective : Set.InjOn (fun c => [unitOf c]) (compact.toFinset : Set Char) := by
    intro c hc d hd heq
    have hcmem : c ∈ compact := by simpa using hc
    have hdmem : d ∈ compact := by simpa using hd
    have htoNat := congrArg UInt16.toNat (List.cons.inj heq).1
    rw [toNat_unitOf (hbmp c hcmem), toNat_unitOf (hbmp d hdmem)] at htoNat
    exact Char.toNat_inj.mp htoNat
  have himage : (compact.map fun c => [unitOf c]).toFinset = compact.toFinset.image fun c => [unitOf c] := by
    ext point
    simp
  rw [unique, codePoints_plain hbmp, HallucinationFilter.unique, ← List.card_toFinset, ← List.card_toFinset,
    himage, Finset.card_image_of_injOn hinjective]

theorem compactOf_plain (text : PlainText) :
    compactOf (inUnits text) = (HallucinationFilter.compactOf text.chars).map unitOf := by
  have hspaces : ∀ c ∈ text.chars, (!isWhiteSpace (unitOf c)) = !LlamaPool.isWhiteSpace c := fun c hc => by
    rw [unitOf, SegmentOverlap.isWhiteSpace_ofNat (text.bmp c hc)]
  have hchars : ∀ c ∈ TranscriptText.withoutSpaces text.chars,
      (!isReplacementChar (unitOf c)) = decide (c ≠ '\uFFFD') := fun c hc => by
    rw [isReplacementChar_unitOf (text.bmp c (List.mem_filter.mp hc).1)]
    simp
  have hwithout : withoutSpaces (inUnits text) = (TranscriptText.withoutSpaces text.chars).map unitOf := by
    change (text.chars.map unitOf).filter _ = _
    rw [List.filter_map]
    exact congrArg (List.map unitOf) (List.filter_congr hspaces)
  rw [compactOf, hwithout, List.filter_map]
  exact congrArg (List.map unitOf) (List.filter_congr hchars)

/-- On plain texts the filter is the one that is compared with the script's. -/
theorem isHallucinatedTranscriptText_plain (text : PlainText) (startSec : ℚ) (endSec : Option ℚ) :
    isHallucinatedTranscriptText (inUnits text) startSec endSec =
      HallucinationFilter.isHallucinatedTranscriptText text.chars startSec endSec := by
  have hbmp := HallucinationFilter.compactOf_bmp text
  have hunits : ((HallucinationFilter.compactOf text.chars).map unitOf).map UInt16.toNat =
      TranscriptText.units (HallucinationFilter.compactOf text.chars) := by
    rw [TranscriptText.units_bmp hbmp, List.map_map]
    exact List.map_congr_left fun c hc => toNat_unitOf (hbmp c hc)
  rw [isHallucinated_eq, HallucinationFilter.gateway_answer, compactOf_plain]
  simp only [verdict, HallucinationFilter.answer, HallucinationFilter.gatewayLoops, List.map_eq_nil_iff,
    List.length_map, unique_plain hbmp, hunits]

/-! ## The restored segment -/

variable {segment : TranscriptSegment} {segments : List TranscriptSegment}

theorem foldl_longer (first : TranscriptSegment) (segments : List TranscriptSegment) :
    segments.foldl longer first ∈ first :: segments ∧ ∀ segment ∈ first :: segments,
      (stripReplacementChars segment.text).length ≤
        (stripReplacementChars (segments.foldl longer first).text).length := by
  induction segments generalizing first with
  | nil => simp
  | cons segment segments ih =>
    obtain ⟨hmem, hmax⟩ := ih (longer first segment)
    have hlonger := hmax _ List.mem_cons_self
    rw [List.foldl_cons]
    constructor
    · cases List.mem_cons.mp hmem with
      | inl heq =>
        rw [heq, longer]
        split <;> simp
      | inr hrest => exact List.mem_cons_of_mem _ (List.mem_cons_of_mem _ hrest)
    · rw [List.forall_mem_cons, List.forall_mem_cons]
      refine ⟨?_, ?_, fun other hother => hmax other (List.mem_cons_of_mem _ hother)⟩
      · refine le_trans ?_ hlonger
        unfold longer
        split <;> omega
      · refine le_trans ?_ hlonger
        unfold longer
        split <;> omega

theorem best_spec (h : best segments = some segment) : segment ∈ segments ∧ ∀ other ∈ segments,
    (stripReplacementChars other.text).length ≤ (stripReplacementChars segment.text).length := by
  cases segments with
  | nil => cases h
  | cons first segments =>
    obtain rfl := Option.some.inj h
    exact foldl_longer first segments

theorem exists_best (h : segments ≠ []) : ∃ segment, best segments = some segment := by
  obtain ⟨first, rest, rfl⟩ := List.exists_cons_of_ne_nil h
  exact ⟨_, rfl⟩

theorem length_of_rejected (h : stays (cleaned segment) = false) (hne : compactOf segment.text ≠ []) :
    12 ≤ (compactOf segment.text).length := by
  rw [stays_cleaned, decide_eq_true hne, Bool.true_and, Bool.not_eq_false'] at h
  exact length_of_verdict h hne

theorem length_compactOf_le (text : JsString) :
    (compactOf text).length ≤ (cleanText text).length := by
  rw [← withoutSpaces_cleanText]
  exact List.length_filter_le _ _

theorem length_compactOf_le_strip (text : JsString) :
    (compactOf text).length ≤ (stripReplacementChars text).length := by
  rw [← withoutSpaces_strip]
  exact List.length_filter_le _ _

/-- Where no segment stays, the longest is restored if it has a text. -/
theorem restored_of_best (hrejected : stays (cleaned segment) = false) (hbest : best segments = some segment)
    (hne : compactOf segment.text ≠ []) : restored segments = some (cleaned segment) := by
  have hlong := length_of_rejected hrejected hne
  have hle := length_compactOf_le segment.text
  have hlength : 8 ≤ (cleaned segment).text.length := by
    change 8 ≤ (cleanText segment.text).length
    omega
  rw [restored, hbest, Option.map_some, Option.filter_some, if_pos (decide_eq_true hlength)]

theorem restored_of_blank (hbest : best segments = some segment) (hblank : compactOf segment.text = []) :
    restored segments = none := by
  have hnil : (cleaned segment).text = [] := (cleanText_eq_nil_iff segment.text).mpr hblank
  rw [restored, hbest, Option.map_some, Option.filter_some, hnil]
  rfl

theorem best_of_speech (hbest : best segments = some segment) (hrejected : ∀ other ∈ segments, stays (cleaned other) = false)
    {other : TranscriptSegment} (hother : other ∈ segments) (hne : compactOf other.text ≠ []) :
    compactOf segment.text ≠ [] := by
  have hlong := length_of_rejected (hrejected other hother) hne
  have hle := length_compactOf_le_strip other.text
  have hmax := (best_spec hbest).2 other hother
  intro hblank
  rw [(strip_eq_nil_iff segment.text).mpr hblank, List.length_nil] at hmax
  omega

/-! ## Speech is kept -/

variable {t : TranscriptArtifact}

theorem texts_repair (segments : List TranscriptSegment) (durationSec : Option ℚ) :
    (repairSegmentTimestamps segments durationSec).map TranscriptSegment.text =
      segments.map TranscriptSegment.text := by
  apply List.ext_getElem?
  intro i
  rw [List.getElem?_map, SegmentOverlap.getElem?_repair, List.getElem?_map, Option.map_map]
  rfl

theorem normalizeTranscript_of_kept (h : kept t.segments ≠ []) : normalizeTranscript t =
    ⟨collapsed (joined ((kept t.segments).map TranscriptSegment.text)),
      repairSegmentTimestamps (kept t.segments) (lastEnd (kept t.segments))⟩ := by
  rw [← texts_repair (kept t.segments) (lastEnd (kept t.segments)), normalizeTranscript, if_neg h]

theorem normalizeTranscript_of_restored (h : kept t.segments = []) (hrestored : restored t.segments = some segment) :
    normalizeTranscript t = ⟨segment.text, [segment]⟩ := by
  rw [normalizeTranscript, if_pos h, hrestored]

theorem normalizeTranscript_of_nothing (h : kept t.segments = []) (hrestored : restored t.segments = none) :
    normalizeTranscript t = ⟨[], []⟩ := by
  rw [normalizeTranscript, if_pos h, hrestored, h]
  rfl

theorem rejected_of_nil (h : kept t.segments = []) : ∀ segment ∈ t.segments,
    stays (cleaned segment) = false := by
  intro segment hsegment
  rw [kept, List.filter_eq_nil_iff] at h
  simpa using h (cleaned segment) (List.mem_map_of_mem hsegment)

theorem collapsed_ne_nil {text : JsString} {u : UInt16} (hu : u ∈ text) (hletter : isWhiteSpace u = false) :
    collapsed text ≠ [] := by
  have hmem : u ∈ withoutSpaces text := List.mem_filter.mpr ⟨hu, by simp [hletter]⟩
  intro hnil
  rw [← withoutSpaces_collapsed, hnil] at hmem
  cases hmem

/-- Where a segment has a text, the result has a text and a segment, whatever the
filter removes. -/
theorem keeps_speech (t : TranscriptArtifact)
    (h : ∃ segment ∈ t.segments, cleanText segment.text ≠ []) :
    (normalizeTranscript t).text ≠ [] ∧ (normalizeTranscript t).segments ≠ [] := by
  obtain ⟨other, hother, hspeech⟩ := h
  have hne : compactOf other.text ≠ [] := fun hblank => hspeech ((cleanText_eq_nil_iff other.text).mpr hblank)
  by_cases hnone : kept t.segments = []
  · have hrejected := rejected_of_nil hnone
    obtain ⟨segment, hbest⟩ := exists_best (List.ne_nil_of_mem hother)
    have hlongest := best_of_speech hbest hrejected hother hne
    have hrestored := restored_of_best (hrejected segment (best_spec hbest).1) hbest hlongest
    rw [normalizeTranscript_of_restored hnone hrestored]
    exact ⟨fun hnil => hlongest ((cleanText_eq_nil_iff segment.text).mp hnil), List.cons_ne_nil _ _⟩
  · rw [normalizeTranscript_of_kept hnone]
    obtain ⟨segment, hsegment⟩ := List.exists_mem_of_ne_nil _ hnone
    obtain ⟨hmem, hstays⟩ := List.mem_filter.mp hsegment
    obtain ⟨source, -, rfl⟩ := List.mem_map.mp hmem
    have hsource : compactOf source.text ≠ [] := by
      rw [stays_cleaned, Bool.and_eq_true, decide_eq_true_eq] at hstays
      exact hstays.1
    obtain ⟨u, hu⟩ := List.exists_mem_of_ne_nil _ hsource
    rw [← withoutSpaces_cleanText] at hu
    obtain ⟨hutext, huletter⟩ := List.mem_filter.mp hu
    constructor
    · refine collapsed_ne_nil (u := u) ?_ (by simpa using huletter)
      exact CollapsedBlanks.mem_join (List.mem_map_of_mem hsegment) hutext
    · intro hnil
      have htexts := texts_repair (kept t.segments) (lastEnd (kept t.segments))
      dsimp only at hnil
      rw [hnil, List.map_nil] at htexts
      exact hnone (List.map_eq_nil_iff.mp htexts.symm)

theorem keeps_speech_repetitive :
    (normalizeTranscript ⟨[], [⟨40, 50, List.replicate 400 120, none⟩]⟩).text ≠ [] ∧
      (normalizeTranscript ⟨[], [⟨40, 50, List.replicate 400 120, none⟩]⟩).segments ≠ [] :=
  keeps_speech ⟨[], [⟨40, 50, List.replicate 400 120, none⟩]⟩ ⟨_, List.mem_singleton_self _, by decide +kernel⟩

/-! ## A second pass -/

/-- The segments whose texts the result has: those that stay, else the longest. -/
def sources (segments : List TranscriptSegment) : List TranscriptSegment :=
  if kept segments = [] then (best segments).toList else segments.filter fun segment => stays (cleaned segment)

/-- The same text, and segments with the same times and texts. -/
structure SameTranscript (t t' : TranscriptArtifact) : Prop where
  text : t.text = t'.text
  segments : t.segments.map (fun segment => (segment.startSec, segment.endSec, segment.text)) =
    t'.segments.map fun segment => (segment.startSec, segment.endSec, segment.text)

theorem kept_eq (segments : List TranscriptSegment) :
    kept segments = (segments.filter fun segment => stays (cleaned segment)).map cleaned :=
  List.filter_map

theorem cleanText_twice_iff (text : JsString) :
    cleanText (cleanText text) = cleanText text ↔ ¬ Gapped isWhiteSpace isReplacementChar text := by
  rw [cleanText_eq, cleanText_eq]
  exact CollapsedBlanks.clean_clean_iff (by decide) (by decide) text

@[simp] theorem text_cleaned (segment : TranscriptSegment) : (cleaned segment).text = cleanText segment.text := rfl

theorem cleaned_twice (h : cleanText (cleanText segment.text) = cleanText segment.text) :
    cleaned (cleaned segment) = cleaned segment := by
  have hrecord : cleaned (cleaned segment) = { segment with text := cleanText (cleanText segment.text) } := rfl
  rw [hrecord, h]
  rfl

theorem not_gapped_of_blank {text : JsString} (hblank : compactOf text = []) :
    ¬ Gapped isWhiteSpace isReplacementChar text := by
  rw [← cleanText_twice_iff, (cleanText_eq_nil_iff text).mpr hblank]
  rfl

theorem stays_again (segment : TranscriptSegment) : stays (cleaned (cleaned segment)) = stays (cleaned segment) := by
  rw [stays_cleaned, stays_cleaned, text_cleaned, compactOf_cleanText]
  rfl

theorem compactLen_cleanText (text : JsString) : compactLen (cleanText (cleanText text)) = compactLen (cleanText text) := by
  have hlength : withoutSpaces (cleanText (cleanText text)) = withoutSpaces (cleanText text) := by
    rw [withoutSpaces_cleanText, compactOf_cleanText, withoutSpaces_cleanText]
  exact congrArg List.length hlength

theorem exists_source (h : segment ∈ kept segments) :
    ∃ source ∈ segments, segment = cleaned source ∧ stays (cleaned source) = true := by
  obtain ⟨hmem, hstays⟩ := List.mem_filter.mp h
  obtain ⟨source, hsource, rfl⟩ := List.mem_map.mp hmem
  exact ⟨source, hsource, rfl, hstays⟩

theorem chronological_kept (h : Chronological TranscriptSegment.startSec TranscriptSegment.endSec segments) :
    Chronological TranscriptSegment.startSec TranscriptSegment.endSec (kept segments) where
  lasts := by
    intro segment hsegment
    obtain ⟨source, hsource, rfl, -⟩ := exists_source hsegment
    exact h.lasts source hsource
  apart := by
    rw [kept_eq, List.pairwise_map]
    exact h.apart.sublist List.filter_sublist

theorem exists_repaired_source {durationSec : Option ℚ}
    (h : segment ∈ repairSegmentTimestamps (kept segments) durationSec) : ∃ source ∈ segments,
      segment.startSec = source.startSec ∧ segment.text = cleanText source.text ∧ stays (cleaned source) = true := by
  obtain ⟨i, hi⟩ := List.mem_iff_getElem?.mp h
  rw [SegmentOverlap.getElem?_repair] at hi
  obtain ⟨clean, hclean, rfl⟩ := Option.map_eq_some_iff.mp hi
  obtain ⟨source, hsource, rfl, hstays⟩ := exists_source (List.mem_of_getElem? hclean)
  exact ⟨source, hsource, rfl, rfl, hstays⟩

theorem kept_repaired (segments : List TranscriptSegment) (durationSec : Option ℚ) :
    kept (repairSegmentTimestamps (kept segments) durationSec) =
      (repairSegmentTimestamps (kept segments) durationSec).map cleaned := by
  rw [kept, List.filter_eq_self]
  intro segment hsegment
  obtain ⟨repaired, hrepaired, rfl⟩ := List.mem_map.mp hsegment
  obtain ⟨source, -, hstart, htext, hstays⟩ := exists_repaired_source hrepaired
  rw [stays_cleaned] at hstays ⊢
  rw [hstart, htext, compactOf_cleanText]
  exact hstays

theorem repair_cleaned {durationSec : Option ℚ}
    (h : ∀ segment ∈ segments, ∃ text, segment.text = cleanText text) :
    repairSegmentTimestamps (segments.map cleaned) durationSec =
      (repairSegmentTimestamps segments durationSec).map cleaned := by
  have hend : lastEnd (segments.map cleaned) = lastEnd segments := by
    rw [lastEnd, List.getLast?_map, Option.map_map]
    rfl
  apply List.ext_getElem?
  intro i
  rw [SegmentOverlap.getElem?_repair, List.getElem?_map, List.getElem?_map, SegmentOverlap.getElem?_repair, hend,
    Option.map_map, Option.map_map]
  cases hi : segments[i]? with
  | none => rfl
  | some segment =>
    obtain ⟨text, htext⟩ := h segment (List.mem_of_getElem? hi)
    have hnext : (segments.map cleaned)[i + 1]?.map TranscriptSegment.startSec =
        segments[i + 1]?.map TranscriptSegment.startSec := by
      rw [List.getElem?_map, Option.map_map]
      rfl
    have hlen : compactLen (cleaned segment).text = compactLen segment.text := by
      rw [text_cleaned, htext, compactLen_cleanText]
    simp only [Option.map_some, Function.comp_apply, SegmentOverlap.repairSegment, hnext, hlen]
    rfl

theorem normalizeTranscript_twice
    (h : Chronological TranscriptSegment.startSec TranscriptSegment.endSec t.segments) (hkept : kept t.segments ≠ []) :
    (normalizeTranscript (normalizeTranscript t)).segments = (normalizeTranscript t).segments.map cleaned ∧
      (normalizeTranscript (normalizeTranscript t)).text =
        collapsed (joined (((normalizeTranscript t).segments.map cleaned).map TranscriptSegment.text)) := by
  have hchronological := chronological_kept h
  rw [normalizeTranscript_of_kept hkept]
  set repaired := repairSegmentTimestamps (kept t.segments) (lastEnd (kept t.segments)) with hrepaired
  have hkept' : kept repaired = repaired.map cleaned := kept_repaired t.segments _
  have hne : kept repaired ≠ [] := by
    have htexts := texts_repair (kept t.segments) (lastEnd (kept t.segments))
    intro hnil
    rw [hkept', List.map_eq_nil_iff] at hnil
    rw [← hrepaired, hnil, List.map_nil] at htexts
    exact hkept (List.map_eq_nil_iff.mp htexts.symm)
  have hend : lastEnd (repaired.map cleaned) = lastEnd (kept t.segments) := by
    rw [lastEnd, List.getLast?_map, Option.map_map]
    exact SegmentOverlap.lastEnd_repair hchronological
  have htexts : ∀ segment ∈ repaired, ∃ text, segment.text = cleanText text := fun segment hsegment => by
    obtain ⟨source, -, -, htext, -⟩ := exists_repaired_source hsegment
    exact ⟨source.text, htext⟩
  have hagain : repairSegmentTimestamps (repaired.map cleaned) (lastEnd (kept t.segments)) = repaired.map cleaned := by
    rw [repair_cleaned htexts, hrepaired, SegmentOverlap.repair_repair hchronological]
  rw [normalizeTranscript_of_kept hne]
  dsimp only
  rw [hkept', hend, hagain]
  exact ⟨rfl, rfl⟩

theorem cleaned_eq_iff (segment : TranscriptSegment) : cleaned segment = segment ↔ cleanText segment.text = segment.text := by
  constructor
  · intro h
    exact congrArg TranscriptSegment.text h
  · intro h
    have hrecord : cleaned segment = { segment with text := cleanText segment.text } := rfl
    rw [hrecord, h]

theorem twice_of_kept (h : Chronological TranscriptSegment.startSec TranscriptSegment.endSec t.segments)
    (hkept : kept t.segments ≠ []) : SameTranscript (normalizeTranscript (normalizeTranscript t)) (normalizeTranscript t) ↔
      ∀ segment ∈ sources t.segments, ¬ Gapped isWhiteSpace isReplacementChar segment.text := by
  obtain ⟨hsegments, htext⟩ := normalizeTranscript_twice h hkept
  have hfirst := normalizeTranscript_of_kept hkept
  have htexts := texts_repair (kept t.segments) (lastEnd (kept t.segments))
  rw [sources, if_neg hkept]
  constructor
  · intro hsame source hsource
    obtain ⟨hmem, hstays⟩ := List.mem_filter.mp hsource
    have hclean : cleanText source.text ∈ (normalizeTranscript t).segments.map TranscriptSegment.text := by
      rw [hfirst, htexts]
      exact List.mem_map_of_mem (List.mem_filter.mpr ⟨List.mem_map_of_mem hmem, hstays⟩)
    obtain ⟨segment, hsegment, heq⟩ := List.mem_map.mp hclean
    have hall := hsame.segments
    rw [hsegments, List.map_map, List.map_inj_left] at hall
    have hsegmentText : cleanText segment.text = segment.text := congrArg (fun p => p.2.2) (hall segment hsegment)
    rw [heq] at hsegmentText
    exact (cleanText_twice_iff source.text).mp hsegmentText
  · intro hgaps
    have hid : (normalizeTranscript t).segments.map cleaned = (normalizeTranscript t).segments := by
      conv_rhs => rw [← List.map_id (normalizeTranscript t).segments]
      refine List.map_congr_left fun segment hsegment => ?_
      rw [hfirst] at hsegment
      obtain ⟨source, hsource, -, hsourceText, hstays⟩ := exists_repaired_source hsegment
      rw [id_eq, cleaned_eq_iff, hsourceText]
      exact (cleanText_twice_iff source.text).mpr (hgaps source (List.mem_filter.mpr ⟨hsource, hstays⟩))
    rw [hid] at hsegments htext
    refine ⟨?_, by rw [hsegments]⟩
    rw [htext, hfirst]
    exact congrArg (fun texts => collapsed (joined texts)) htexts

theorem twice_of_nothing (hnone : kept t.segments = []) (hrestored : restored t.segments = none) :
    normalizeTranscript (normalizeTranscript t) = normalizeTranscript t := by
  rw [normalizeTranscript_of_nothing hnone hrestored]
  rfl

theorem twice_of_restored (hnone : kept t.segments = []) (hbest : best t.segments = some segment)
    (hne : compactOf segment.text ≠ []) :
    normalizeTranscript t = ⟨(cleaned segment).text, [cleaned segment]⟩ ∧
      normalizeTranscript (normalizeTranscript t) =
        ⟨(cleaned (cleaned segment)).text, [cleaned (cleaned segment)]⟩ := by
  have hrejected := rejected_of_nil hnone segment (best_spec hbest).1
  have hfirst := normalizeTranscript_of_restored hnone (restored_of_best hrejected hbest hne)
  have hrejected' : stays (cleaned (cleaned segment)) = false := (stays_again segment).trans hrejected
  have hnone' : kept [cleaned segment] = [] := by
    rw [kept, List.map_singleton, List.filter_singleton, hrejected']
    rfl
  have hne' : compactOf (cleaned segment).text ≠ [] := by
    rw [text_cleaned, compactOf_cleanText]
    exact hne
  have hbest' : best [cleaned segment] = some (cleaned segment) := rfl
  have hrestored' := restored_of_best hrejected' hbest' hne'
  refine ⟨hfirst, ?_⟩
  rw [hfirst]
  apply normalizeTranscript_of_restored
  · exact hnone'
  · exact hrestored'

/-- A second pass changes nothing exactly where no text that the first one keeps has a
word of replacement characters between words with others. -/
theorem same_twice_iff (t : TranscriptArtifact)
    (h : Chronological TranscriptSegment.startSec TranscriptSegment.endSec t.segments) :
    SameTranscript (normalizeTranscript (normalizeTranscript t)) (normalizeTranscript t) ↔
      ∀ segment ∈ sources t.segments, ¬ Gapped isWhiteSpace isReplacementChar segment.text := by
  by_cases hkept : kept t.segments = []
  · rw [sources, if_pos hkept]
    cases hbest : best t.segments with
    | none =>
      have hrestored : restored t.segments = none := by rw [restored, hbest]; rfl
      rw [twice_of_nothing hkept hrestored]
      exact iff_of_true ⟨rfl, rfl⟩ (by simp)
    | some segment =>
      have hone : (∀ other ∈ (some segment).toList, ¬ Gapped isWhiteSpace isReplacementChar other.text) ↔
          ¬ Gapped isWhiteSpace isReplacementChar segment.text := by simp
      rw [hone]
      by_cases hblank : compactOf segment.text = []
      · rw [twice_of_nothing hkept (restored_of_blank hbest hblank)]
        exact iff_of_true ⟨rfl, rfl⟩ (not_gapped_of_blank hblank)
      · obtain ⟨hfirst, hsecond⟩ := twice_of_restored hkept hbest hblank
        rw [hsecond, hfirst, ← cleanText_twice_iff]
        constructor
        · intro hsame
          have htext := hsame.text
          dsimp only at htext
          rwa [text_cleaned, text_cleaned] at htext
        · intro heq
          rw [cleaned_twice heq]
          exact ⟨rfl, rfl⟩
  · exact twice_of_kept h hkept

theorem same_twice_spaced :
    SameTranscript (normalizeTranscript (normalizeTranscript ⟨[], [⟨0, 1, js " a", none⟩, ⟨2, 3, js "b  c", none⟩]⟩))
        (normalizeTranscript ⟨[], [⟨0, 1, js " a", none⟩, ⟨2, 3, js "b  c", none⟩]⟩) ↔
      ∀ segment ∈ sources [⟨0, 1, js " a", none⟩, ⟨2, 3, js "b  c", none⟩],
        ¬ Gapped isWhiteSpace isReplacementChar segment.text :=
  same_twice_iff ⟨[], [⟨0, 1, js " a", none⟩, ⟨2, 3, js "b  c", none⟩]⟩ ⟨by norm_num, by norm_num⟩

/-- The first pass leaves two blanks where the replacement character was, the second
one collapses them. -/
theorem gap_collapsed_later :
    Chronological TranscriptSegment.startSec TranscriptSegment.endSec [⟨0, 1, js "a \uFFFD b", none⟩] ∧
      normalizeTranscript ⟨[], [⟨0, 1, js "a \uFFFD b", none⟩]⟩ = ⟨js "a b", [⟨0, 1, js "a  b", none⟩]⟩ ∧
      normalizeTranscript ⟨js "a b", [⟨0, 1, js "a  b", none⟩]⟩ = ⟨js "a b", [⟨0, 1, js "a b", none⟩]⟩ ∧
      ¬ SameTranscript (normalizeTranscript (normalizeTranscript ⟨[], [⟨0, 1, js "a \uFFFD b", none⟩]⟩))
        (normalizeTranscript ⟨[], [⟨0, 1, js "a \uFFFD b", none⟩]⟩) := by
  have hfirst : normalizeTranscript ⟨[], [⟨0, 1, js "a \uFFFD b", none⟩]⟩ =
      ⟨js "a b", [⟨0, 1, js "a  b", none⟩]⟩ := by decide +kernel
  have hsecond : normalizeTranscript ⟨js "a b", [⟨0, 1, js "a  b", none⟩]⟩ =
      ⟨js "a b", [⟨0, 1, js "a b", none⟩]⟩ := by decide +kernel
  refine ⟨⟨by norm_num, by norm_num⟩, hfirst, hsecond, fun hsame => ?_⟩
  have hsegments := hsame.segments
  rw [hfirst, hsecond] at hsegments
  revert hsegments
  decide +kernel

end ModelForge.NormalizedTranscript
