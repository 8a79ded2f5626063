import ModelForge.SegmentTimestamps
import ModelForge.TurnMerging

set_option autoImplicit false

/-!
# Repaired segments that overlap

`repairSegmentTimestamps` for segments with any text. Segments that do not overlap
can do so once their ends are repaired. Times are exact.
-/
namespace ModelForge.SegmentOverlap
open EventStream (JsString js)
open ReservationCover (isWhiteSpace)
open TranscriptText (PlainText units withoutSpaces)
open TurnMerging (TranscriptSegment Chronological)

/-! ## The function -/

/-- `text.replace(/\s+/g, "").length` -/
def compactLen (text : JsString) : ℕ := (text.filter fun u => !isWhiteSpace u).length

/-- The end that a short span with a long text gets. -/
def stretchedEnd (start stop : ℚ) (compactLen : ℕ) (nextStart duration : ℚ) : ℚ :=
  if stop - start < 3 ∧ 60 < compactLen then
    if start < nextStart then nextStart else min duration (start + max 3 ((compactLen : ℚ) / 12))
  else stop

/-- A gap of more than two seconds is filled. -/
def filledEnd (next : Option ℚ) (stop : ℚ) : ℚ :=
  match next with
  | some nextStart => if 2 < nextStart - stop then nextStart else stop
  | none => stop

/-- An empty span gets the rest of the recording. -/
def boundedEnd (start duration stop : ℚ) : ℚ :=
  let stop' := if stop ≤ start ∧ start < duration then duration else stop
  max (if 0 < duration then min stop' duration else stop') start

/-- The end of a segment; `next` is the start of the following one. -/
def repairedEnd (start stop : ℚ) (compactLen : ℕ) (next : Option ℚ) (duration : ℚ) : ℚ :=
  boundedEnd start duration (filledEnd next (stretchedEnd start stop compactLen (next.getD duration) duration))

/-- One round of the loop, for the segment at `i`. -/
def repairSegment (segments : List TranscriptSegment) (duration : ℚ) (i : ℕ) (seg : TranscriptSegment) :
    TranscriptSegment :=
  { seg with
    endSec := repairedEnd seg.startSec seg.endSec (compactLen seg.text)
      (segments[i + 1]?.map TranscriptSegment.startSec) duration }

def repairSegmentTimestamps (segments : List TranscriptSegment) (durationSec : Option ℚ) :
    List TranscriptSegment :=
  let duration := durationSec.getD ((segments.getLast?.map TranscriptSegment.endSec).getD 0)
  segments.mapIdx (repairSegment segments duration)

example : repairSegmentTimestamps [⟨0, 48 / 100, List.replicate 120 97, none⟩, ⟨30, 512 / 10, js "second half", none⟩]
    (some (512 / 10)) =
      [⟨0, 30, List.replicate 120 97, none⟩, ⟨30, 512 / 10, js "second half", none⟩] := by decide +kernel

/-! ## Plain texts -/

def inUnits (text : PlainText) : JsString := text.chars.map fun c => UInt16.ofNat c.toNat

def segment (seg : SegmentTimestamps.TranscriptSegment) : TranscriptSegment :=
  ⟨seg.startSec, seg.endSec, inUnits seg.text, none⟩

theorem isWhiteSpace_ofNat {c : Char} (hc : c.toNat < 65536) :
    isWhiteSpace (UInt16.ofNat c.toNat) = LlamaPool.isWhiteSpace c := by
  rw [isWhiteSpace, UInt16.toNat_ofNat_of_lt' hc, Char.ofNat_toNat]

theorem compactLen_inUnits (text : PlainText) :
    compactLen (inUnits text) = (units (withoutSpaces text.chars)).length := by
  have hbmp : ∀ c ∈ withoutSpaces text.chars, c.toNat < 65536 := fun c hc =>
    text.bmp c (List.mem_filter.mp hc).1
  rw [TranscriptText.length_units_bmp hbmp, compactLen, inUnits, List.filter_map, List.length_map, withoutSpaces]
  congr 1
  refine List.filter_congr fun c hc => ?_
  rw [Function.comp_apply, isWhiteSpace_ofNat (text.bmp c hc)]

/-- On plain texts the repair is the one that agrees with the script's. -/
theorem repairSegmentTimestamps_plain (segments : List SegmentTimestamps.TranscriptSegment)
    (durationSec : Option ℚ) : repairSegmentTimestamps (segments.map segment) durationSec =
      (SegmentTimestamps.repairSegmentTimestamps segments durationSec).map segment := by
  have hlast : (segments.map segment).getLast?.map TranscriptSegment.endSec =
      segments.getLast?.map SegmentTimestamps.TranscriptSegment.endSec := by
    rw [List.getLast?_map, Option.map_map]
    rfl
  unfold repairSegmentTimestamps SegmentTimestamps.repairSegmentTimestamps
  rw [hlast]
  apply List.ext_getElem?
  intro i
  simp only [List.getElem?_mapIdx, List.getElem?_map, Option.map_map]
  cases segments[i]? with
  | none => rfl
  | some seg =>
    simp only [Option.map_some, Function.comp_apply, repairSegment, SegmentTimestamps.repairSegment, repairedEnd,
      boundedEnd, filledEnd, stretchedEnd, segment, compactLen_inUnits, List.getElem?_map, Option.map_map]
    cases segments[i + 1]? <;> rfl

/-! ## One segment -/

variable {start stop next duration : ℚ} {len : ℕ}

/-- The repair of an empty span runs to the end of the recording, or by the length
of its text, although another segment starts before. -/
def RunsOver (start stop : ℚ) (len : ℕ) (next duration : ℚ) : Prop :=
  stop = start ∧ next < duration ∧ (60 < len ∧ next = start ∨ len ≤ 60 ∧ next - start ≤ 2)

theorem start_le_repairedEnd (start stop : ℚ) (len : ℕ) (next : Option ℚ) (duration : ℚ) :
    start ≤ repairedEnd start stop len next duration := le_max_right _ _

theorem boundedEnd_le (stop : ℚ) (hduration : 0 < duration) (hstart : start ≤ duration) :
    boundedEnd start duration stop ≤ duration := by
  simp only [boundedEnd, if_pos hduration]
  exact max_le (min_le_right _ _) hstart

theorem boundedEnd_of_lt (hduration : 0 < duration) (hlt : start < stop) :
    boundedEnd start duration stop = max (min stop duration) start := by
  have hnot : ¬ (stop ≤ start ∧ start < duration) := fun h => not_lt.mpr h.1 hlt
  simp only [boundedEnd, if_pos hduration, if_neg hnot]

theorem boundedEnd_of_le (hduration : 0 < duration) (hle : stop ≤ start) (hstart : start < duration) :
    boundedEnd start duration stop = duration := by
  simp only [boundedEnd, if_pos hduration, if_pos (And.intro hle hstart), min_self]
  exact max_eq_left hstart.le

theorem boundedEnd_le_of_lt (hduration : 0 < duration) (hlt : start < stop) (hle : stop ≤ next) :
    boundedEnd start duration stop ≤ next := by
  rw [boundedEnd_of_lt hduration hlt]
  exact max_le ((min_le_left _ _).trans hle) (hlt.le.trans hle)

theorem filledEnd_some (hle : stop ≤ next) :
    stop ≤ filledEnd (some next) stop ∧ filledEnd (some next) stop ≤ next := by
  unfold filledEnd
  dsimp only
  split
  · exact ⟨hle, le_rfl⟩
  · exact ⟨le_rfl, hle⟩

/-- A long text at the start of the next segment. -/
theorem repairedEnd_long (hlong : 60 < len) (hduration : 0 < duration) (hroom : start < duration) :
    start < repairedEnd start start len (some start) duration := by
  have hshort : start - start < 3 ∧ 60 < len := ⟨by norm_num, hlong⟩
  have hthree : (3 : ℚ) ≤ max 3 ((len : ℚ) / 12) := le_max_left _ _
  have hover : start < min duration (start + max 3 ((len : ℚ) / 12)) := lt_min hroom (by linarith)
  have hstretched : stretchedEnd start start len start duration = min duration (start + max 3 ((len : ℚ) / 12)) := by
    rw [stretchedEnd, if_pos hshort, if_neg (lt_irrefl start)]
  have hfilled : filledEnd (some start) (min duration (start + max 3 ((len : ℚ) / 12))) =
      min duration (start + max 3 ((len : ℚ) / 12)) := if_neg (by linarith)
  rw [repairedEnd, Option.getD_some, hstretched, hfilled, boundedEnd_of_lt hduration hover]
  exact lt_max_of_lt_left (lt_min hover hroom)

/-- The end stays before the next segment exactly where the span does not run over. -/
theorem repairedEnd_le_next_iff (hstop : start ≤ stop) (hnext : stop ≤ next) (hend : next ≤ duration)
    (hduration : 0 < duration) :
    repairedEnd start stop len (some next) duration ≤ next ↔ ¬ RunsOver start stop len next duration := by
  have hbounded : duration ≤ next → repairedEnd start stop len (some next) duration ≤ next := fun hlast =>
    (boundedEnd_le _ hduration (by linarith)).trans hlast
  by_cases hempty : stop = start ∧ next < duration
  · obtain ⟨rfl, hroom⟩ := hempty
    by_cases hlong : 60 < len
    · by_cases hlt : stop < next
      · have hstretched : stretchedEnd stop stop len next duration = next := by
          rw [stretchedEnd, if_pos ⟨by norm_num, hlong⟩, if_pos hlt]
        have hfilled := filledEnd_some (le_refl next)
        refine iff_of_true ?_ fun h => ?_
        · rw [repairedEnd, Option.getD_some, hstretched]
          exact boundedEnd_le_of_lt hduration (hlt.trans_le hfilled.1) hfilled.2
        · rcases h.2.2 with ⟨_, heq⟩ | ⟨hle, _⟩
          · exact hlt.ne' heq
          · omega
      · have heq : next = stop := by linarith
        subst heq
        refine iff_of_false (not_le.mpr (repairedEnd_long hlong hduration hroom)) (not_not.mpr ?_)
        exact ⟨rfl, hroom, .inl ⟨hlong, rfl⟩⟩
    · have hstretched : stretchedEnd stop stop len next duration = stop := by
        rw [stretchedEnd, if_neg fun h => hlong h.2]
      rw [repairedEnd, Option.getD_some, hstretched]
      by_cases hgap : 2 < next - stop
      · have hfilled : filledEnd (some next) stop = next := if_pos hgap
        rw [hfilled]
        refine iff_of_true (boundedEnd_le_of_lt hduration (by linarith) le_rfl) fun h => ?_
        rcases h.2.2 with ⟨hlen, _⟩ | ⟨_, hle⟩
        · exact hlong hlen
        · linarith
      · have hfilled : filledEnd (some next) stop = stop := if_neg hgap
        rw [hfilled, boundedEnd_of_le hduration le_rfl (by linarith)]
        refine iff_of_false (not_le.mpr hroom) (not_not.mpr ⟨rfl, hroom, .inr ⟨by omega, by linarith⟩⟩)
  · refine iff_of_true ?_ fun h => hempty ⟨h.1, h.2.1⟩
    by_cases hroom : next < duration
    · -- the span is not empty, so that it is stretched to the next start at most
      have hlt : start < stop := lt_of_le_of_ne hstop fun h => hempty ⟨h.symm, hroom⟩
      have hstretched : start < stretchedEnd start stop len next duration ∧
          stretchedEnd start stop len next duration ≤ next := by
        unfold stretchedEnd
        rw [if_pos (hlt.trans_le hnext)]
        split
        · exact ⟨hlt.trans_le hnext, le_rfl⟩
        · exact ⟨hlt, hnext⟩
      have hfilled := filledEnd_some hstretched.2
      exact boundedEnd_le_of_lt hduration (hstretched.1.trans_le hfilled.1) hfilled.2
    · exact hbounded (not_lt.mp hroom)

/-! ## All segments -/

variable {segments : List TranscriptSegment}

/-- What is asked of the repaired segments. -/
structure Repaired (segments repaired : List TranscriptSegment) (duration : ℚ) : Prop where
  starts : repaired.map TranscriptSegment.startSec = segments.map TranscriptSegment.startSec
  bounded : ∀ seg ∈ repaired, seg.startSec ≤ seg.endSec ∧ seg.endSec ≤ duration
  apart : repaired.IsChain fun a b => a.endSec ≤ b.startSec

theorem repair_starts (segments : List TranscriptSegment) (duration : ℚ) :
    (segments.mapIdx (repairSegment segments duration)).map TranscriptSegment.startSec =
      segments.map TranscriptSegment.startSec := by
  apply List.ext_getElem?
  intro i
  rw [List.getElem?_map, List.getElem?_map, List.getElem?_mapIdx, Option.map_map]
  rfl

theorem repair_bounded (hsegments : ∀ seg ∈ segments, seg.startSec ≤ seg.endSec ∧ seg.endSec ≤ duration)
    (hduration : 0 < duration) : ∀ seg ∈ segments.mapIdx (repairSegment segments duration),
      seg.startSec ≤ seg.endSec ∧ seg.endSec ≤ duration := by
  intro seg hseg
  obtain ⟨i, hi, rfl⟩ := List.mem_mapIdx.mp hseg
  have hbounds := hsegments _ (List.getElem_mem hi)
  exact ⟨start_le_repairedEnd _ _ _ _ _, boundedEnd_le _ hduration (hbounds.1.trans hbounds.2)⟩

/-- The repaired segments do not overlap exactly where no segment before another one
runs over. -/
theorem repair_apart_iff
    (hchronological : Chronological TranscriptSegment.startSec TranscriptSegment.endSec segments)
    (hend : ∀ seg ∈ segments, seg.endSec ≤ duration) (hduration : 0 < duration) :
    Repaired segments (repairSegmentTimestamps segments (some duration)) duration ↔
      segments.IsChain fun seg next =>
        ¬ RunsOver seg.startSec seg.endSec (compactLen seg.text) next.startSec duration := by
  have hbounds : ∀ seg ∈ segments, seg.startSec ≤ seg.endSec ∧ seg.endSec ≤ duration :=
    fun seg hseg => ⟨hchronological.lasts seg hseg, hend seg hseg⟩
  have hstep (i : ℕ) (hi : i + 1 < segments.length) :
      (repairSegment segments duration i segments[i]).endSec ≤
          (repairSegment segments duration (i + 1) segments[i + 1]).startSec ↔
        ¬ RunsOver segments[i].startSec segments[i].endSec (compactLen segments[i].text)
          segments[i + 1].startSec duration := by
    have hnext := hbounds _ (List.getElem_mem hi)
    have happart := List.pairwise_iff_getElem.mp hchronological.apart i (i + 1) (by omega) hi (by omega)
    have hget : segments[i + 1]?.map TranscriptSegment.startSec = some segments[i + 1].startSec := by
      rw [List.getElem?_eq_getElem hi]
      rfl
    change repairedEnd segments[i].startSec segments[i].endSec (compactLen segments[i].text)
      (segments[i + 1]?.map TranscriptSegment.startSec) duration ≤ segments[i + 1].startSec ↔ _
    rw [hget]
    exact repairedEnd_le_next_iff (hbounds _ (List.getElem_mem (Nat.lt_of_succ_lt hi))).1 happart
      (hnext.1.trans hnext.2) hduration
  have hchain : (segments.mapIdx (repairSegment segments duration)).IsChain (fun a b => a.endSec ≤ b.startSec) ↔
      segments.IsChain fun seg next =>
        ¬ RunsOver seg.startSec seg.endSec (compactLen seg.text) next.startSec duration := by
    rw [List.isChain_iff_getElem, List.isChain_iff_getElem]
    simp only [List.length_mapIdx, List.getElem_mapIdx]
    exact forall_congr' fun i => forall_congr' fun hi => hstep i hi
  constructor
  · exact fun h => hchain.mp h.apart
  · exact fun h => ⟨repair_starts segments duration, repair_bounded hbounds hduration, hchain.mpr h⟩

theorem repair_apart_of_gap :
    Repaired [⟨1, 1, js "a", none⟩, ⟨4, 5, js "b", none⟩]
        (repairSegmentTimestamps [⟨1, 1, js "a", none⟩, ⟨4, 5, js "b", none⟩] (some 10)) 10 ↔
      [(⟨1, 1, js "a", none⟩ : TranscriptSegment), ⟨4, 5, js "b", none⟩].IsChain fun seg next =>
        ¬ RunsOver seg.startSec seg.endSec (compactLen seg.text) next.startSec 10 :=
  repair_apart_iff ⟨by norm_num, by norm_num⟩ (by norm_num) (by norm_num)

/-- An empty span two seconds before the next one or less gets the rest of the
recording. -/
theorem empty_span_runs_over :
    Chronological TranscriptSegment.startSec TranscriptSegment.endSec
        [⟨1, 1, js "a", none⟩, ⟨2, 3, js "b", none⟩] ∧
      repairSegmentTimestamps [⟨1, 1, js "a", none⟩, ⟨2, 3, js "b", none⟩] (some 10) =
        [⟨1, 10, js "a", none⟩, ⟨2, 3, js "b", none⟩] ∧
      ¬ Repaired [⟨1, 1, js "a", none⟩, ⟨2, 3, js "b", none⟩]
        (repairSegmentTimestamps [⟨1, 1, js "a", none⟩, ⟨2, 3, js "b", none⟩] (some 10)) 10 := by
  have hrun : repairSegmentTimestamps [⟨1, 1, js "a", none⟩, ⟨2, 3, js "b", none⟩] (some 10) =
      [⟨1, 10, js "a", none⟩, ⟨2, 3, js "b", none⟩] := by decide +kernel
  refine ⟨⟨by norm_num, by norm_num⟩, hrun, fun h => ?_⟩
  have hapart := h.apart
  rw [hrun] at hapart
  norm_num at hapart

/-! ## A second repair -/

theorem boundedEnd_of_room (hroom : start < duration) : boundedEnd start duration start = duration := by
  simp only [boundedEnd, if_pos (And.intro le_rfl hroom), min_self, ite_self]
  exact max_eq_left hroom.le

theorem boundedEnd_eq (hstart : start ≤ stop) (hstop : stop ≤ duration) (hkept : start < duration → start < stop) :
    boundedEnd start duration stop = stop := by
  have hnot : ¬ (stop ≤ start ∧ start < duration) := fun h => not_lt.mpr h.1 (hkept h.2)
  simp only [boundedEnd, if_neg hnot, min_eq_left hstop, ite_self]
  exact max_eq_left hstart

theorem repairedEnd_eq {stop' stop'' : ℚ} (hstretched : stretchedEnd start stop len next duration = stop')
    (hfilled : filledEnd (some next) stop' = stop'') (hstart : start ≤ stop'') (hstop : stop'' ≤ duration)
    (hkept : start < duration → start < stop'') : repairedEnd start stop len (some next) duration = stop'' := by
  rw [repairedEnd, Option.getD_some, hstretched, hfilled]
  exact boundedEnd_eq hstart hstop hkept

/-- An end at the next start stays, whatever the text. -/
theorem repairedEnd_next (hlt : start < next) (hend : next ≤ duration) :
    repairedEnd start next len (some next) duration = next := by
  have hstretched : stretchedEnd start next len next duration = next := by
    rw [stretchedEnd, if_pos hlt, ite_self]
  exact repairedEnd_eq hstretched (if_neg (by linarith)) hlt.le hend fun _ => hlt

/-- A repaired end is not moved again. -/
theorem repairedEnd_repairedEnd (hstop : start ≤ stop) (hnext : stop ≤ next) (hend : next ≤ duration) :
    repairedEnd start (repairedEnd start stop len (some next) duration) len (some next) duration =
      repairedEnd start stop len (some next) duration := by
  have hfill : filledEnd (some next) next = next := if_neg (by linarith)
  by_cases hshort : stop - start < 3 ∧ 60 < len
  · by_cases hlt : start < next
    · have hstretched : stretchedEnd start stop len next duration = next := by
        rw [stretchedEnd, if_pos hshort, if_pos hlt]
      rw [repairedEnd_eq hstretched hfill hlt.le hend fun _ => hlt, repairedEnd_next hlt hend]
    · -- an empty span that starts together with the next one gets its estimate, both times
      have hempty : next = start := by linarith
      subst hempty
      have hthree : (3 : ℚ) ≤ max 3 ((len : ℚ) / 12) := le_max_left _ _
      have hstays : ∀ stop', stretchedEnd next stop' len next duration = min duration (next + max 3 ((len : ℚ) / 12)) →
          repairedEnd next stop' len (some next) duration = min duration (next + max 3 ((len : ℚ) / 12)) := by
        intro stop' hstretched
        have hle : next ≤ min duration (next + max 3 ((len : ℚ) / 12)) := le_min hend (by linarith)
        exact repairedEnd_eq hstretched (if_neg (by linarith)) hle (min_le_left _ _) fun hroom =>
          lt_min hroom (by linarith)
      rw [hstays stop (by rw [stretchedEnd, if_pos hshort, if_neg (lt_irrefl next)])]
      exact hstays _ (by rw [stretchedEnd, if_neg (lt_irrefl next), ite_self])
  · have hstretched : stretchedEnd start stop len next duration = stop := if_neg hshort
    by_cases hgap : 2 < next - stop
    · have hlt : start < next := by linarith
      rw [repairedEnd_eq hstretched (if_pos hgap) hlt.le hend fun _ => hlt, repairedEnd_next hlt hend]
    · have hfilled : filledEnd (some next) stop = stop := if_neg hgap
      by_cases hempty : stop = start ∧ start < duration
      · obtain ⟨rfl, hroom⟩ := hempty
        have hfirst : repairedEnd stop stop len (some next) duration = duration := by
          rw [repairedEnd, Option.getD_some, hstretched, hfilled]
          exact boundedEnd_of_room hroom
        -- the text is short, as the span is empty
        have hlen : ¬ 60 < len := fun h => hshort ⟨by norm_num, h⟩
        rw [hfirst]
        exact repairedEnd_eq (if_neg fun h => hlen h.2) (if_neg (by linarith)) hroom.le le_rfl fun _ => hroom
      · have hfirst : repairedEnd start stop len (some next) duration = stop :=
          repairedEnd_eq hstretched hfilled hstop (hnext.trans hend) fun hroom =>
            lt_of_le_of_ne hstop fun heq => hempty ⟨heq.symm, hroom⟩
        rw [hfirst, hfirst]

/-- The last segment keeps its end. -/
theorem repairedEnd_last (hstop : start ≤ stop) : repairedEnd start stop len none stop = stop := by
  have hthree : (3 : ℚ) ≤ max 3 ((len : ℚ) / 12) := le_max_left _ _
  have hstretched : stretchedEnd start stop len stop stop = stop := by
    unfold stretchedEnd
    split
    · split
      · rfl
      · exact min_eq_left (by linarith)
    · rfl
  rw [repairedEnd, Option.getD_none, hstretched]
  exact boundedEnd_eq hstop le_rfl id

/-- The end of the recording, where it is not given: that of the last segment. -/
def lastEnd (segments : List TranscriptSegment) : Option ℚ := segments.getLast?.map TranscriptSegment.endSec

theorem end_le_lastEnd (h : Chronological TranscriptSegment.startSec TranscriptSegment.endSec segments) :
    ∀ seg ∈ segments, seg.endSec ≤ (lastEnd segments).getD 0 := by
  cases List.eq_nil_or_concat segments with
  | inl hnil => simp [hnil]
  | inr hconcat =>
    obtain ⟨init, last, rfl⟩ := hconcat
    rw [List.concat_eq_append] at h ⊢
    intro seg hseg
    have hlast : (lastEnd (init ++ [last])).getD 0 = last.endSec := by simp [lastEnd]
    rw [hlast]
    cases List.mem_append.mp hseg with
    | inl hmem =>
      have happart := (List.pairwise_append.mp h.apart).2.2 seg hmem last (List.mem_singleton_self last)
      exact happart.trans (h.lasts last (by simp))
    | inr hmem => rw [List.mem_singleton.mp hmem]

theorem getElem?_repair (segments : List TranscriptSegment) (durationSec : Option ℚ) (i : ℕ) :
    (repairSegmentTimestamps segments durationSec)[i]? = segments[i]?.map (repairSegment segments
      (durationSec.getD ((lastEnd segments).getD 0)) i) := List.getElem?_mapIdx

theorem lastEnd_repair (h : Chronological TranscriptSegment.startSec TranscriptSegment.endSec segments) :
    lastEnd (repairSegmentTimestamps segments (lastEnd segments)) = lastEnd segments := by
  cases List.eq_nil_or_concat segments with
  | inl hnil => rw [hnil]; rfl
  | inr hconcat =>
    obtain ⟨init, last, rfl⟩ := hconcat
    rw [List.concat_eq_append] at h ⊢
    have hlast : lastEnd (init ++ [last]) = some last.endSec := by simp [lastEnd]
    have hnext : (init ++ [last])[init.length + 1]? = none := by simp
    have hstop := h.lasts last (by simp)
    rw [lastEnd, List.getLast?_eq_getElem?]
    have hlength : (repairSegmentTimestamps (init ++ [last]) (lastEnd (init ++ [last]))).length - 1 = init.length := by
      simp [repairSegmentTimestamps]
    rw [hlength, getElem?_repair, List.getElem?_concat_length, hlast]
    simp only [Option.map_some, repairSegment, hnext, Option.map_none, Option.getD_some]
    rw [repairedEnd_last hstop]

/-- A second repair changes nothing. -/
theorem repair_repair (h : Chronological TranscriptSegment.startSec TranscriptSegment.endSec segments) :
    repairSegmentTimestamps (repairSegmentTimestamps segments (lastEnd segments)) (lastEnd segments) =
      repairSegmentTimestamps segments (lastEnd segments) := by
  have hduration : ∀ d : ℚ, (lastEnd segments).getD ((lastEnd segments).getD d) = (lastEnd segments).getD d := by
    intro d
    cases lastEnd segments <;> rfl
  apply List.ext_getElem?
  intro i
  rw [getElem?_repair, lastEnd_repair h, getElem?_repair, hduration]
  cases hi : segments[i]? with
  | none => rfl
  | some seg =>
    have hseg : seg ∈ segments := List.mem_of_getElem? hi
    have hnext : (repairSegmentTimestamps segments (lastEnd segments))[i + 1]?.map TranscriptSegment.startSec =
        segments[i + 1]?.map TranscriptSegment.startSec := by
      rw [getElem?_repair, Option.map_map]
      rfl
    simp only [Option.map_some, Option.some.injEq, repairSegment, hnext]
    congr 1
    cases hlast : segments[i + 1]? with
    | none =>
      have hi' := (List.getElem?_eq_some_iff.mp hi).1
      have hlength := List.getElem?_eq_none_iff.mp hlast
      have hend : lastEnd segments = some seg.endSec := by
        have hindex : segments.length - 1 = i := by omega
        rw [lastEnd, List.getLast?_eq_getElem?, hindex, hi]
        rfl
      simp only [hend, Option.getD_some, Option.map_none, repairedEnd_last (h.lasts seg hseg)]
    | some next =>
      have happart : seg.endSec ≤ next.startSec := by
        obtain ⟨hi', rfl⟩ := List.getElem?_eq_some_iff.mp hi
        obtain ⟨hlast', rfl⟩ := List.getElem?_eq_some_iff.mp hlast
        exact List.pairwise_iff_getElem.mp h.apart i (i + 1) hi' hlast' (by omega)
      have hbound := end_le_lastEnd h next (List.mem_of_getElem? hlast)
      have hlasts := h.lasts next (List.mem_of_getElem? hlast)
      exact repairedEnd_repairedEnd (h.lasts seg hseg) happart (hlasts.trans hbound)

end ModelForge.SegmentOverlap
