import ModelForge.TranscriptText

set_option autoImplicit false

/-!
# Repaired segment timestamps

Spans that Whisper collapsed are stretched again: once in the gateway's
`repairSegmentTimestamps` and once in the script's `repair_segment_timestamps`.
Times are exact.
-/
namespace ModelForge.SegmentTimestamps
open TranscriptText

structure TranscriptSegment where
  startSec : ℚ
  endSec : ℚ
  text : PlainText

/-! ## The gateway -/

/-- One round of the loop, for the segment at `i`. -/
def repairSegment (segments : List TranscriptSegment) (duration : ℚ) (i : ℕ) (seg : TranscriptSegment) :
    TranscriptSegment :=
  let start := seg.startSec
  let compactLen := (units (withoutSpaces seg.text.chars)).length
  let nextStart := (segments[i + 1]?.map TranscriptSegment.startSec).getD duration
  let end₁ :=
    if seg.endSec - start < 3 ∧ 60 < compactLen then
      if start < nextStart then nextStart else min duration (start + max 3 ((compactLen : ℚ) / 12))
    else seg.endSec
  let end₂ :=
    match segments[i + 1]? with
    | some next => if 2 < next.startSec - end₁ then next.startSec else end₁
    | none => end₁
  let end₃ := if end₂ ≤ start ∧ start < duration then duration else end₂
  let end₄ := if 0 < duration then min end₃ duration else end₃
  { seg with endSec := max end₄ start }

def repairSegmentTimestamps (segments : List TranscriptSegment) (durationSec : Option ℚ) :
    List TranscriptSegment :=
  let duration := durationSec.getD ((segments.getLast?.map TranscriptSegment.endSec).getD 0)
  segments.mapIdx (repairSegment segments duration)

/-! ## The script -/

/-- A segment of the script; `end` is a word of Lean. -/
structure Segment where
  start : ℚ
  «end» : ℚ
  text : Option PlainText

/-- `x or fallback`, of a number. -/
def orNumber (x : Option ℚ) (fallback : ℚ) : ℚ := if x.getD 0 = 0 then fallback else x.getD 0

/-- One round of the loop, for the segment at `i`. -/
def repair_segment (segments : List Segment) (duration : ℚ) (i : ℕ) (seg : Segment) : Segment :=
  let start := seg.start
  let compact := ((seg.text.map fun text => sub_spaces text.chars).getD []).length
  let next_start := if h : i + 1 < segments.length then segments[i + 1].start else duration
  let end₁ :=
    if seg.end - start < 3 ∧ 60 < compact then
      if start < next_start then next_start else min duration (start + max 3 ((compact : ℚ) / 12))
    else seg.end
  let end₂ := if i + 1 < segments.length ∧ 2 < next_start - end₁ then next_start else end₁
  let end₃ := if end₂ ≤ start ∧ start < duration then duration else end₂
  let end₄ := if 0 < duration then min end₃ duration else end₃
  { seg with «end» := max end₄ start }

def repair_segment_timestamps (segments : List Segment) (duration_sec : Option ℚ) : List Segment :=
  let duration := orNumber duration_sec (orNumber (segments.getLast?.map Segment.end) 0)
  segments.mapIdx (repair_segment segments duration)

/-! ## Agreement -/

def TranscriptSegment.inScript (seg : TranscriptSegment) : Segment :=
  ⟨seg.startSec, seg.endSec, some seg.text⟩

theorem compact_length (text : PlainText) :
    (sub_spaces text.chars).length = (units (withoutSpaces text.chars)).length := by
  rw [length_units_bmp, text.sub_spaces_eq]
  intro c hc
  exact text.bmp c (List.mem_filter.mp hc).1

theorem repair_segment_inScript (segments : List TranscriptSegment) (duration : ℚ) (i : ℕ)
    (seg : TranscriptSegment) :
    repair_segment (segments.map TranscriptSegment.inScript) duration i seg.inScript =
      (repairSegment segments duration i seg).inScript := by
  have hcompact : ((some seg.text).map fun text => sub_spaces text.chars).getD [] =
      sub_spaces seg.text.chars := rfl
  unfold repair_segment repairSegment TranscriptSegment.inScript
  simp only [hcompact, compact_length]
  by_cases hnext : i + 1 < segments.length
  · simp [hnext]
  · simp [hnext]

theorem orNumber_getD (x : Option ℚ) : orNumber x 0 = x.getD 0 := by
  unfold orNumber
  split
  · rename_i hzero
    exact hzero.symm
  · rfl

/-- The two durations are the same, unless the duration given is 0. -/
theorem duration_eq (segments : List TranscriptSegment) {durationSec : Option ℚ}
    (h : durationSec ≠ some 0) :
    orNumber durationSec
        (orNumber ((segments.map TranscriptSegment.inScript).getLast?.map Segment.end) 0) =
      durationSec.getD ((segments.getLast?.map TranscriptSegment.endSec).getD 0) := by
  have hlast : (segments.map TranscriptSegment.inScript).getLast?.map Segment.end =
      segments.getLast?.map TranscriptSegment.endSec := by
    rw [List.getLast?_map, Option.map_map]
    rfl
  rw [hlast, orNumber_getD]
  cases durationSec with
  | none => rfl
  | some duration =>
    have hpos : duration ≠ 0 := fun hzero => h (congrArg some hzero)
    exact if_neg hpos

theorem repairs_agree_of_ne_zero (segments : List TranscriptSegment) {durationSec : Option ℚ}
    (h : durationSec ≠ some 0) :
    repair_segment_timestamps (segments.map TranscriptSegment.inScript) durationSec =
      (repairSegmentTimestamps segments durationSec).map TranscriptSegment.inScript := by
  unfold repair_segment_timestamps repairSegmentTimestamps
  simp only [duration_eq segments h]
  apply List.ext_getElem
  · simp
  · intro i hleft hright
    simp only [List.getElem_mapIdx, List.getElem_map]
    exact repair_segment_inScript segments _ i _

/-- With a duration the two repairs are one: every segment keeps its start and
text, and gets the same end. -/
theorem repairs_agree (segments : List TranscriptSegment) (duration : ℚ) (h : 0 < duration) :
    repair_segment_timestamps (segments.map TranscriptSegment.inScript) (some duration) =
      (repairSegmentTimestamps segments (some duration)).map TranscriptSegment.inScript := by
  apply repairs_agree_of_ne_zero
  intro hzero
  rw [Option.some.inj hzero] at h
  exact lt_irrefl 0 h

def sampleText : PlainText :=
  ⟨['t', 'o', 'k'], by simp, by simp [LlamaPool.isWhiteSpace, isspace, isAsciiSpace]⟩

theorem repairs_agree_out_of_order :
    repair_segment_timestamps
        (([⟨8, 9, sampleText⟩, ⟨3, 2, sampleText⟩] : List TranscriptSegment).map TranscriptSegment.inScript)
        (some 5) =
      (repairSegmentTimestamps [⟨8, 9, sampleText⟩, ⟨3, 2, sampleText⟩] (some 5)).map
        TranscriptSegment.inScript :=
  repairs_agree [⟨8, 9, sampleText⟩, ⟨3, 2, sampleText⟩] 5 (by norm_num)

end ModelForge.SegmentTimestamps
