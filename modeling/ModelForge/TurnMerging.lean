import ModelForge.SpeakerTurns
import ModelForge.SplitWords
import ModelForge.TextChunks

set_option autoImplicit false

/-!
# Segments that are merged into turns

`mergeAsrSegmentsIntoTurns` gives each turn of a speaker the words of the segments
that it overlaps, in proportion to the time. Times are exact.
-/
namespace ModelForge.TurnMerging
open EventStream (JsString js)
open ReservationCover (isWhiteSpace trim)
open SpacedText (slice)
open SpeakerTurns (DiarizationTurn StartsBefore)

structure TranscriptSegment where
  startSec : ℚ
  endSec : ℚ
  text : JsString
  speaker : Option String
deriving DecidableEq

/-! ## The functions -/

def segmentTurnOverlap (segStart segEnd turnStart turnEnd : ℚ) : ℚ :=
  max 0 (min segEnd turnEnd - max segStart turnStart)

/-- `text.trim().split(/\s+/).filter(Boolean)` -/
def wordsOf (text : JsString) : List JsString := SplitWords.words isWhiteSpace text

def joined (words : List JsString) : JsString := (js " ").intercalate words

/-- The words that `sliceTextByTimeOverlap` joins. -/
def sliceWords {α : Type} (words : List α) (segStart segEnd sliceStart sliceEnd : ℚ) : List α :=
  if words.length = 0 then []
  else
    let segDur := max (1 / 100) (segEnd - segStart)
    let overlapStart := max segStart sliceStart
    let overlapEnd := min segEnd sliceEnd
    if overlapEnd ≤ overlapStart then []
    else
      let overlap := overlapEnd - overlapStart
      if 85 / 100 ≤ overlap / segDur then words
      else
        let startRatio := (overlapStart - segStart) / segDur
        let endRatio := (overlapEnd - segStart) / segDur
        let i0 : ℤ := max 0 (min (words.length - 1) ⌊startRatio * words.length⌋)
        let i1 : ℤ := max (i0 + 1) (min words.length ⌈endRatio * words.length⌉)
        slice words i0.toNat i1.toNat

-- joined words begin and end with no blank, so `trim` may stand behind each branch
def sliceTextByTimeOverlap (text : JsString) (segStart segEnd sliceStart sliceEnd : ℚ) : JsString :=
  trim (joined (sliceWords (wordsOf text) segStart segEnd sliceStart sliceEnd))

/-- The overlap that counts. -/
def Heard (turn : DiarizationTurn) (segment : TranscriptSegment) : Prop :=
  5 / 100 < segmentTurnOverlap segment.startSec segment.endSec turn.start turn.end

instance (turn : DiarizationTurn) (segment : TranscriptSegment) : Decidable (Heard turn segment) :=
  inferInstanceAs (Decidable (_ < _))

/-- `(a, b) => a.startSec - b.startSec` -/
abbrev SegmentBefore (a b : TranscriptSegment) : Prop := a.startSec ≤ b.startSec

/-- The parts that the inner loop pushes. -/
def turnParts (segments : List TranscriptSegment) (turn : DiarizationTurn) : List JsString :=
  (((segments.filter fun segment => Heard turn segment).insertionSort SegmentBefore).map fun segment =>
    sliceTextByTimeOverlap segment.text segment.startSec segment.endSec turn.start turn.end).filter (· ≠ [])

def turnSegment (turn : DiarizationTurn) (parts : List JsString) : TranscriptSegment where
  startSec := turn.start
  endSec := turn.end
  text := trim ((SplitWords.blanks isWhiteSpace).replaceAll (js " ") (joined parts))
  speaker := some turn.speaker

/-- The outer loop. -/
def turnSegments (segments : List TranscriptSegment) : List DiarizationTurn → List TranscriptSegment
  | [] => []
  | turn :: turns =>
    let parts := turnParts segments turn
    if parts = [] then turnSegments segments turns
    else turnSegment turn parts :: turnSegments segments turns

def mergeAsrSegmentsIntoTurns (segments : List TranscriptSegment) (turns : List DiarizationTurn) :
    List TranscriptSegment :=
  if turns = [] then segments
  else (turnSegments segments (turns.insertionSort StartsBefore)).filter (·.text ≠ [])

example : mergeAsrSegmentsIntoTurns [⟨0, 4, js "hello there how are you today", none⟩]
    [⟨0, 2, "SPEAKER_00"⟩, ⟨2, 4, "SPEAKER_01"⟩] =
      [⟨0, 2, js "hello there how", some "SPEAKER_00"⟩, ⟨2, 4, js "are you today", some "SPEAKER_01"⟩] := by
  decide +kernel

/-! ## The words of a turn -/

/-- A word, by its place in the segments. -/
structure Word where
  segment : ℕ
  index : ℕ
  text : JsString
deriving DecidableEq

def segmentWords (segment : TranscriptSegment) (i : ℕ) : List Word :=
  (wordsOf segment.text).zipIdx.map fun p => ⟨i, p.2, p.1⟩

def allWords (segments : List TranscriptSegment) : List Word :=
  segments.zipIdx.flatMap fun p => segmentWords p.1 p.2

/-- The words that a turn takes, which are chosen as in `sliceTextByTimeOverlap`. -/
def takenBy (segments : List TranscriptSegment) (turn : DiarizationTurn) : List Word :=
  segments.zipIdx.flatMap fun p =>
    if Heard turn p.1 then
      sliceWords (segmentWords p.1 p.2) p.1.startSec p.1.endSec turn.start turn.end
    else []

/-- The words of each segment of the output. -/
def takings (segments : List TranscriptSegment) (turns : List DiarizationTurn) : List (List Word) :=
  if turns = [] then segments.zipIdx.map fun p => segmentWords p.1 p.2
  else (turns.map (takenBy segments)).filter (· ≠ [])

/-! ## The texts of the output -/

variable {segments : List TranscriptSegment} {turns : List DiarizationTurn} {turn : DiarizationTurn}

theorem sliceWords_sublist {α : Type} (words : List α) (segStart segEnd sliceStart sliceEnd : ℚ) :
    (sliceWords words segStart segEnd sliceStart sliceEnd).Sublist words := by
  unfold sliceWords slice
  split
  · exact List.nil_sublist words
  dsimp only
  split
  · exact List.nil_sublist words
  split
  · exact List.Sublist.refl words
  · exact (List.take_sublist _ _).trans (List.drop_sublist _ _)

theorem sliceWords_map {α β : Type} (f : α → β) (words : List α) (segStart segEnd sliceStart sliceEnd : ℚ) :
    sliceWords (words.map f) segStart segEnd sliceStart sliceEnd =
      (sliceWords words segStart segEnd sliceStart sliceEnd).map f := by
  simp only [sliceWords, slice, List.length_map, ← List.map_drop, ← List.map_take]
  split
  · rfl
  split
  · rfl
  split <;> rfl

theorem segmentWords_text (segment : TranscriptSegment) (i : ℕ) :
    (segmentWords segment i).map (·.text) = wordsOf segment.text := by
  rw [segmentWords, List.map_map]
  exact List.zipIdx_map_fst 0 _

def takenFrom (turn : DiarizationTurn) (segment : TranscriptSegment) : List JsString :=
  sliceWords (wordsOf segment.text) segment.startSec segment.endSec turn.start turn.end

theorem takenBy_text (segments : List TranscriptSegment) (turn : DiarizationTurn) :
    (takenBy segments turn).map (·.text) =
      ((segments.filter fun segment => Heard turn segment).map (takenFrom turn)).flatten := by
  have hcount : ∀ n, (segments.zipIdx n).flatMap (fun p => (if Heard turn p.1 then
      sliceWords (segmentWords p.1 p.2) p.1.startSec p.1.endSec turn.start turn.end else []).map (·.text)) =
        ((segments.filter fun segment => Heard turn segment).map (takenFrom turn)).flatten := by
    induction segments with
    | nil => exact fun _ => rfl
    | cons segment segments ih =>
      intro n
      rw [List.zipIdx_cons, List.flatMap_cons, ih]
      by_cases hheard : Heard turn segment
      · rw [if_pos hheard, ← sliceWords_map, segmentWords_text, List.filter_cons_of_pos (by simpa using hheard)]
        rfl
      · rw [if_neg hheard, List.filter_cons_of_neg (by simpa using hheard)]
        rfl
  rw [takenBy, List.map_flatMap]
  exact hcount 0

theorem isWord_wordsOf {text w : JsString} (h : w ∈ wordsOf text) : SplitWords.IsWord isWhiteSpace w :=
  SplitWords.isWord_of_mem_words h

theorem isWord_takenFrom {segment : TranscriptSegment} {w : JsString} (h : w ∈ takenFrom turn segment) :
    SplitWords.IsWord isWhiteSpace w :=
  isWord_wordsOf ((sliceWords_sublist _ _ _ _ _).mem h)

theorem joined_ne_nil {ws : List JsString} (hws : ∀ w ∈ ws, SplitWords.IsWord isWhiteSpace w) :
    joined ws ≠ [] ↔ ws ≠ [] := by
  constructor
  · intro hne hnil
    rw [hnil] at hne
    exact hne rfl
  · exact fun hne => (SplitWords.framed_intercalate hws hne).ne_nil

/-- The parts are the texts of the words that the turn takes, segment for segment. -/
theorem turnParts_eq (hsegments : segments.Pairwise SegmentBefore) (turn : DiarizationTurn) :
    turnParts segments turn = (((segments.filter fun segment => Heard turn segment).map
      (takenFrom turn)).filter (· ≠ [])).map joined := by
  have hsorted : (segments.filter fun segment => Heard turn segment).Pairwise SegmentBefore :=
    hsegments.filter _
  have htrim (segment : TranscriptSegment) :
      trim (joined (takenFrom turn segment)) = joined (takenFrom turn segment) :=
    SplitWords.trim_intercalate fun w hw => isWord_takenFrom hw
  rw [turnParts, hsorted.insertionSort_eq]
  have hmap : ((segments.filter fun segment => Heard turn segment).map fun segment =>
      sliceTextByTimeOverlap segment.text segment.startSec segment.endSec turn.start turn.end) =
        ((segments.filter fun segment => Heard turn segment).map (takenFrom turn)).map joined := by
    rw [List.map_map]
    exact List.map_congr_left fun segment _ => htrim segment
  rw [hmap, List.filter_map]
  congr 1
  apply List.filter_congr
  intro ws hws
  obtain ⟨segment, _, rfl⟩ := List.mem_map.mp hws
  exact decide_eq_decide.mpr (joined_ne_nil fun w hw => isWord_takenFrom hw)

theorem isWord_text_takenBy {w : JsString} (h : w ∈ (takenBy segments turn).map (·.text)) :
    SplitWords.IsWord isWhiteSpace w := by
  rw [takenBy_text] at h
  obtain ⟨ws, hws, hw⟩ := List.mem_flatten.mp h
  obtain ⟨segment, _, rfl⟩ := List.mem_map.mp hws
  exact isWord_takenFrom hw

theorem turnParts_eq_nil (hsegments : segments.Pairwise SegmentBefore) :
    turnParts segments turn = [] ↔ takenBy segments turn = [] := by
  rw [turnParts_eq hsegments, List.map_eq_nil_iff, ← List.map_eq_nil_iff (f := Word.text), takenBy_text]
  constructor
  · intro hnil
    rw [← List.flatten_filter_ne_nil, hnil]
    rfl
  · intro hnil
    rw [List.filter_eq_nil_iff]
    intro ws hws
    simpa using List.flatten_eq_nil_iff.mp hnil ws hws

theorem turnSegment_text (hsegments : segments.Pairwise SegmentBefore) (turn : DiarizationTurn) :
    (turnSegment turn (turnParts segments turn)).text = joined ((takenBy segments turn).map (·.text)) := by
  have hjoined : joined (turnParts segments turn) = joined ((takenBy segments turn).map (·.text)) := by
    have hne : ∀ ws ∈ ((segments.filter fun segment => Heard turn segment).map (takenFrom turn)).filter
        (· ≠ []), ws ≠ [] := fun ws hws => of_decide_eq_true (List.mem_filter.mp hws).2
    have hgroups := SplitWords.intercalate_intercalate (js " ") hne
    rw [List.flatten_filter_ne_nil] at hgroups
    rw [turnParts_eq hsegments, takenBy_text]
    exact hgroups
  change trim ((SplitWords.blanks isWhiteSpace).replaceAll (js " ") (joined (turnParts segments turn))) = _
  rw [hjoined]
  have hwords : ∀ w ∈ (takenBy segments turn).map (·.text), SplitWords.IsWord isWhiteSpace w :=
    fun w hw => isWord_text_takenBy hw
  have hreplace := SplitWords.replaceAll_intercalate (b := 32) (by decide) hwords
  change trim ((SplitWords.blanks isWhiteSpace).replaceAll [32] ([32].intercalate _)) = [32].intercalate _
  rw [hreplace]
  exact SplitWords.trim_intercalate hwords

theorem wordsOf_turnSegment (hsegments : segments.Pairwise SegmentBefore) (turn : DiarizationTurn) :
    wordsOf (turnSegment turn (turnParts segments turn)).text = (takenBy segments turn).map (·.text) := by
  rw [turnSegment_text hsegments]
  exact SplitWords.words_intercalate (b := 32) (by decide) fun w hw => isWord_text_takenBy hw

theorem turnSegments_words (hsegments : segments.Pairwise SegmentBefore) (turns : List DiarizationTurn) :
    ((turnSegments segments turns).filter (·.text ≠ [])).map (fun merged => wordsOf merged.text) =
      ((turns.map (takenBy segments)).filter (· ≠ [])).map (List.map (·.text)) := by
  induction turns with
  | nil => rfl
  | cons turn turns ih =>
    rw [turnSegments, List.map_cons]
    by_cases hnil : turnParts segments turn = []
    · have htaken : ¬ takenBy segments turn ≠ [] := not_not.mpr ((turnParts_eq_nil hsegments).mp hnil)
      rw [if_pos hnil, ih, List.filter_cons_of_neg (by simpa using htaken)]
    · have htaken : takenBy segments turn ≠ [] := fun h => hnil ((turnParts_eq_nil hsegments).mpr h)
      have htext : (turnSegment turn (turnParts segments turn)).text ≠ [] := by
        rw [turnSegment_text hsegments, joined_ne_nil fun w hw => isWord_text_takenBy hw]
        simpa using htaken
      rw [if_neg hnil, List.filter_cons_of_pos (by simpa using htext),
        List.filter_cons_of_pos (by simpa using htaken), List.map_cons, List.map_cons, ih,
        wordsOf_turnSegment hsegments]

/-- The words of the output, turn for turn, are those that the turns take. -/
theorem merged_words (hsegments : segments.Pairwise SegmentBefore) (hturns : turns.Pairwise StartsBefore) :
    (mergeAsrSegmentsIntoTurns segments turns).map (fun merged => wordsOf merged.text) =
      (takings segments turns).map (List.map (·.text)) := by
  unfold mergeAsrSegmentsIntoTurns takings
  by_cases hnil : turns = []
  · rw [if_pos hnil, if_pos hnil, List.map_map]
    have hcount : ∀ n, (segments.zipIdx n).map (List.map (·.text) ∘ fun p => segmentWords p.1 p.2) =
        segments.map fun merged => wordsOf merged.text := by
      intro n
      have hfun : (List.map (·.text) ∘ fun p : TranscriptSegment × ℕ => segmentWords p.1 p.2) =
          (fun merged : TranscriptSegment => wordsOf merged.text) ∘ Prod.fst := by
        funext p
        exact segmentWords_text p.1 p.2
      rw [hfun, ← List.map_map, List.zipIdx_map_fst]
    exact (hcount 0).symm
  · rw [if_neg hnil, if_neg hnil, hturns.insertionSort_eq]
    exact turnSegments_words hsegments turns

/-! ## The time of a word -/

/-- Where the share of the segment's time begins that falls to the `k`-th of `n`
words. -/
def shareStart (segment : TranscriptSegment) (n k : ℕ) : ℚ :=
  segment.startSec + (segment.endSec - segment.startSec) * k / n

/-- The turn meets the share of a word. -/
def Meets (turn : DiarizationTurn) (segment : TranscriptSegment) (n k : ℕ) : Prop :=
  turn.start < shareStart segment n (k + 1) ∧ shareStart segment n k < turn.end

/-- The turn has most of the segment. -/
def Most (turn : DiarizationTurn) (segment : TranscriptSegment) : Prop :=
  85 / 100 * (segment.endSec - segment.startSec) ≤
    segmentTurnOverlap segment.startSec segment.endSec turn.start turn.end

instance (turn : DiarizationTurn) (segment : TranscriptSegment) (n k : ℕ) : Decidable (Meets turn segment n k) :=
  inferInstanceAs (Decidable (_ ∧ _))

instance (turn : DiarizationTurn) (segment : TranscriptSegment) : Decidable (Most turn segment) :=
  inferInstanceAs (Decidable (_ ≤ _))

variable {segment : TranscriptSegment} {n k : ℕ}

theorem Heard.overlap_eq (h : Heard turn segment) :
    segmentTurnOverlap segment.startSec segment.endSec turn.start turn.end =
      min segment.endSec turn.end - max segment.startSec turn.start := by
  rcases max_choice 0 (min segment.endSec turn.end - max segment.startSec turn.start) with hmax | hmax
  · unfold Heard segmentTurnOverlap at h
    rw [hmax] at h
    norm_num at h
  · exact hmax

/-- What hearing a segment says about the times. -/
theorem Heard.bounds (h : Heard turn segment) :
    1 / 100 < segment.endSec - segment.startSec ∧
      max segment.startSec turn.start < min segment.endSec turn.end ∧
      segment.startSec < turn.end ∧ turn.start < segment.endSec := by
  have hoverlap := h
  unfold Heard at hoverlap
  rw [h.overlap_eq] at hoverlap
  have hstart := le_max_left segment.startSec turn.start
  have hstart' := le_max_right segment.startSec turn.start
  have hend := min_le_left segment.endSec turn.end
  have hend' := min_le_right segment.endSec turn.end
  refine ⟨by linarith, by linarith, by linarith, by linarith⟩

theorem Heard.dur_pos (h : Heard turn segment) : 0 < segment.endSec - segment.startSec :=
  one_div_pos.mpr (by norm_num : (0 : ℚ) < 100) |>.trans h.bounds.1

/-- The time in words, from the start of the segment. -/
def position (segment : TranscriptSegment) (n : ℕ) (t : ℚ) : ℚ :=
  (t - segment.startSec) / (segment.endSec - segment.startSec) * n

theorem position_lt_iff (hdur : 0 < segment.endSec - segment.startSec) (hn : 0 < n) {t : ℚ} :
    position segment n t < k ↔ t < shareStart segment n k := by
  have hn' : (0 : ℚ) < n := Nat.cast_pos.mpr hn
  rw [position, shareStart, div_mul_eq_mul_div, div_lt_iff₀ hdur, ← sub_lt_iff_lt_add', lt_div_iff₀ hn',
    mul_comm (k : ℚ)]

theorem lt_position_iff (hdur : 0 < segment.endSec - segment.startSec) (hn : 0 < n) {t : ℚ} :
    k < position segment n t ↔ shareStart segment n k < t := by
  have hn' : (0 : ℚ) < n := Nat.cast_pos.mpr hn
  rw [position, shareStart, div_mul_eq_mul_div, lt_div_iff₀ hdur, ← lt_sub_iff_add_lt', div_lt_iff₀ hn',
    mul_comm (k : ℚ)]

theorem shareStart_strictMono (hdur : 0 < segment.endSec - segment.startSec) (hn : 0 < n) {k l : ℕ} :
    shareStart segment n k < shareStart segment n l ↔ k < l := by
  have hn' : (0 : ℚ) < n := Nat.cast_pos.mpr hn
  rw [shareStart, shareStart, add_lt_add_iff_left, div_lt_div_iff_of_pos_right hn', mul_lt_mul_iff_right₀ hdur,
    Nat.cast_lt]

theorem shareStart_zero : shareStart segment n 0 = segment.startSec := by
  simp [shareStart]

theorem shareStart_last (hn : 0 < n) : shareStart segment n n = segment.endSec := by
  have hn' : (n : ℚ) ≠ 0 := Nat.cast_ne_zero.mpr hn.ne'
  rw [shareStart, mul_div_assoc, div_self hn']
  ring

/-- The overlap of a heard turn, in words. -/
theorem Heard.positions (h : Heard turn segment) (hn : 0 < n) :
    0 ≤ position segment n (max segment.startSec turn.start) ∧
      position segment n (max segment.startSec turn.start) < position segment n (min segment.endSec turn.end) ∧
      position segment n (min segment.endSec turn.end) ≤ n := by
  obtain ⟨_, hlt, _, _⟩ := h.bounds
  have hdur := h.dur_pos
  have hn' : (0 : ℚ) < n := Nat.cast_pos.mpr hn
  refine ⟨?_, ?_, ?_⟩
  · have := le_max_left segment.startSec turn.start
    unfold position
    have hnum : 0 ≤ max segment.startSec turn.start - segment.startSec := by linarith
    positivity
  · unfold position
    gcongr
  · rw [← not_lt, lt_position_iff hdur hn, shareStart_last hn, not_lt]
    exact min_le_left _ _

/-- The turn meets the shares between the two positions, rounded outwards. -/
theorem Heard.meets_iff (h : Heard turn segment) (hn : 0 < n) (hk : k < n) :
    Meets turn segment n k ↔ position segment n (max segment.startSec turn.start) < (k + 1 : ℕ) ∧
      k < position segment n (min segment.endSec turn.end) := by
  have hdur := h.dur_pos
  have hstart : segment.startSec < shareStart segment n (k + 1) := by
    rw [← shareStart_zero (n := n), shareStart_strictMono hdur hn]
    exact Nat.succ_pos k
  have hend : shareStart segment n k < segment.endSec := by
    have hlast : shareStart segment n n = segment.endSec := shareStart_last hn
    rw [← hlast, shareStart_strictMono hdur hn]
    exact hk
  rw [position_lt_iff hdur hn, lt_position_iff hdur hn, max_lt_iff, lt_min_iff, Meets]
  exact and_congr (iff_and_self.mpr fun _ => hstart) (iff_and_self.mpr fun _ => hend)

/-- The bounds of the slice leave out no word between two positions. -/
theorem slice_bounds {a b : ℚ} (ha : 0 ≤ a) (hab : a < b) (hb : b ≤ n) :
    (max 0 (min ((n : ℤ) - 1) ⌊a⌋)).toNat ≤ k ∧
        k < (max (max 0 (min ((n : ℤ) - 1) ⌊a⌋) + 1) (min (n : ℤ) ⌈b⌉)).toNat ↔
      a < (k + 1 : ℕ) ∧ k < b := by
  have hfloor : 0 ≤ ⌊a⌋ := Int.floor_nonneg.mpr ha
  have hceil : ⌈b⌉ ≤ n := Int.ceil_le.mpr (by exact_mod_cast hb)
  have hlt : ⌊a⌋ < ⌈b⌉ := Int.lt_ceil.mpr ((Int.floor_le a).trans_lt hab)
  have hstart : ⌊a⌋ ≤ k ↔ a < (k + 1 : ℕ) := by
    rw [Int.floor_le_iff]
    push_cast
    rfl
  have hend : (k : ℤ) < ⌈b⌉ ↔ k < b := by
    rw [Int.lt_ceil]
    push_cast
    rfl
  rw [← hstart, ← hend]
  omega

/-- The words that a turn takes: all of them if it has most of the segment, else
those whose share it meets. -/
theorem mem_sliceWords {α : Type} {words : List α} {w : α} (h : Heard turn segment) :
    w ∈ sliceWords words segment.startSec segment.endSec turn.start turn.end ↔
      ∃ k, words[k]? = some w ∧ (Most turn segment ∨ Meets turn segment words.length k) := by
  obtain ⟨hdur, hlt, _, _⟩ := h.bounds
  have hdur' := h.dur_pos
  have hmost : 85 / 100 ≤ (min segment.endSec turn.end - max segment.startSec turn.start) /
      (segment.endSec - segment.startSec) ↔ Most turn segment := by
    rw [Most, h.overlap_eq, le_div_iff₀ hdur']
  by_cases hnil : words.length = 0
  · rw [List.length_eq_zero_iff.mp hnil]
    simp [sliceWords]
  · have hn : 0 < words.length := Nat.pos_of_ne_zero hnil
    simp only [sliceWords, if_neg hnil, max_eq_right hdur.le, if_neg (not_le.mpr hlt), hmost]
    by_cases hall : Most turn segment
    · rw [if_pos hall, List.mem_iff_getElem?]
      simp [hall]
    · obtain ⟨ha, hab, hb⟩ := h.positions hn
      rw [if_neg hall, SpacedText.mem_slice_iff]
      refine exists_congr fun k => ?_
      have hbounds := slice_bounds (k := k) ha hab hb
      rw [← and_assoc, and_comm, or_iff_right hall]
      refine and_congr_right fun hget => ?_
      have hk : k < words.length := (List.getElem?_eq_some_iff.mp hget).1
      rw [h.meets_iff hn hk, ← hbounds]
      rfl

theorem Heard.exists_meets (h : Heard turn segment) (hn : 0 < n) : ∃ k < n, Meets turn segment n k := by
  obtain ⟨ha, hab, hb⟩ := h.positions hn
  have hfloor := Int.floor_nonneg.mpr ha
  obtain ⟨k, hk⟩ := Int.eq_ofNat_of_zero_le hfloor
  have hle := Int.floor_le (position segment n (max segment.startSec turn.start))
  have hlt := Int.lt_floor_add_one (position segment n (max segment.startSec turn.start))
  rw [hk] at hle hlt
  push_cast at hle hlt
  have hkn : k < n := by
    rw [← Nat.cast_lt (α := ℚ)]
    linarith
  refine ⟨k, hkn, (h.meets_iff hn hkn).mpr ⟨?_, hle.trans_lt hab⟩⟩
  push_cast
  exact hlt

/-! ## The order of the words -/

/-- Spans of time, one behind the other. -/
structure Chronological {α : Type} (start stop : α → ℚ) (spans : List α) : Prop where
  lasts : ∀ span ∈ spans, start span ≤ stop span
  apart : spans.Pairwise fun a b => stop a ≤ start b

theorem Chronological.starts {α : Type} {start stop : α → ℚ} {spans : List α}
    (h : Chronological start stop spans) : spans.Pairwise fun a b => start a ≤ start b :=
  h.apart.imp_of_mem fun ha _ hle => (h.lasts _ ha).trans hle

def Before (w w' : Word) : Prop := w.segment < w'.segment ∨ w.segment = w'.segment ∧ w.index < w'.index

theorem Before.not_before {w w' : Word} (h : Before w w') : ¬ Before w' w := by
  unfold Before at h ⊢
  omega

instance : Std.Irrefl Before where
  irrefl _ h := h.not_before h

instance : Std.Antisymm Before where
  antisymm _ _ h h' := absurd h' h.not_before

theorem pairwise_zipIdx_snd {α : Type} (l : List α) : l.zipIdx.Pairwise fun p q => p.2 < q.2 := by
  rw [← List.pairwise_map, List.zipIdx_map_snd]
  exact List.pairwise_lt_range'

theorem mem_segmentWords {i : ℕ} {w : Word} :
    w ∈ segmentWords segment i ↔ w.segment = i ∧ (wordsOf segment.text)[w.index]? = some w.text := by
  rw [segmentWords, List.mem_map]
  constructor
  · intro ⟨p, hp, hw⟩
    rw [← hw]
    exact ⟨rfl, List.mem_zipIdx_iff_getElem?.mp hp⟩
  · intro ⟨hi, hget⟩
    refine ⟨(w.text, w.index), List.mem_zipIdx_iff_getElem?.mpr hget, ?_⟩
    rw [← hi]

theorem segmentWords_getElem? (i k : ℕ) : (segmentWords segment i)[k]? =
    (wordsOf segment.text)[k]?.map fun text => ⟨i, k, text⟩ := by
  rw [segmentWords, List.getElem?_map, List.getElem?_zipIdx, Option.map_map, Nat.zero_add]
  rfl

theorem length_segmentWords (segment : TranscriptSegment) (i : ℕ) :
    (segmentWords segment i).length = (wordsOf segment.text).length := by
  rw [segmentWords, List.length_map, List.length_zipIdx]

/-- The words in order, each of them once. -/
theorem allWords_before (segments : List TranscriptSegment) : (allWords segments).Pairwise Before := by
  rw [allWords, List.pairwise_flatMap]
  constructor
  · intro p _
    rw [segmentWords, List.pairwise_map]
    exact (pairwise_zipIdx_snd _).imp fun hlt => .inr ⟨rfl, hlt⟩
  · refine (pairwise_zipIdx_snd segments).imp fun hlt w hw w' hw' => .inl ?_
    rw [(mem_segmentWords.mp hw).1, (mem_segmentWords.mp hw').1]
    exact hlt

theorem mem_allWords {w : Word} : w ∈ allWords segments ↔
    ∃ segment, segments[w.segment]? = some segment ∧ (wordsOf segment.text)[w.index]? = some w.text := by
  rw [allWords, List.mem_flatMap]
  constructor
  · intro ⟨p, hp, hw⟩
    obtain ⟨hi, hget⟩ := mem_segmentWords.mp hw
    rw [hi]
    exact ⟨p.1, List.mem_zipIdx_iff_getElem?.mp hp, hget⟩
  · intro ⟨segment, hsegment, hget⟩
    exact ⟨(segment, w.segment), List.mem_zipIdx_iff_getElem?.mpr hsegment, mem_segmentWords.mpr ⟨rfl, hget⟩⟩

/-- The turn takes the `k`-th word of the segment. -/
def Claims (turn : DiarizationTurn) (segment : TranscriptSegment) (k : ℕ) : Prop :=
  Heard turn segment ∧ (Most turn segment ∨ Meets turn segment (wordsOf segment.text).length k)

instance (turn : DiarizationTurn) (segment : TranscriptSegment) (k : ℕ) : Decidable (Claims turn segment k) :=
  inferInstanceAs (Decidable (_ ∧ _))

theorem mem_takenBy {w : Word} : w ∈ takenBy segments turn ↔ ∃ segment, segments[w.segment]? = some segment ∧
    (wordsOf segment.text)[w.index]? = some w.text ∧ Claims turn segment w.index := by
  have hslice {segment : TranscriptSegment} (i : ℕ) (hheard : Heard turn segment) :
      w ∈ sliceWords (segmentWords segment i) segment.startSec segment.endSec turn.start turn.end ↔
        w.segment = i ∧ (wordsOf segment.text)[w.index]? = some w.text ∧ Claims turn segment w.index := by
    rw [mem_sliceWords hheard, length_segmentWords]
    constructor
    · intro ⟨k, hget, hclaims⟩
      rw [segmentWords_getElem?] at hget
      obtain ⟨text, htext, rfl⟩ := Option.map_eq_some_iff.mp hget
      exact ⟨rfl, htext, hheard, hclaims⟩
    · intro ⟨hi, hget, _, hclaims⟩
      refine ⟨w.index, ?_, hclaims⟩
      rw [segmentWords_getElem?, hget, ← hi]
      rfl
  rw [takenBy, List.mem_flatMap]
  constructor
  · intro ⟨p, hp, hw⟩
    by_cases hheard : Heard turn p.1
    · rw [if_pos hheard, hslice p.2 hheard] at hw
      refine ⟨p.1, ?_, hw.2⟩
      rw [hw.1]
      exact List.mem_zipIdx_iff_getElem?.mp hp
    · rw [if_neg hheard] at hw
      cases hw
  · intro ⟨segment, hsegment, hget, hclaims⟩
    refine ⟨(segment, w.segment), List.mem_zipIdx_iff_getElem?.mpr hsegment, ?_⟩
    rw [if_pos hclaims.1, hslice w.segment hclaims.1]
    exact ⟨rfl, hget, hclaims⟩

theorem takenBy_sublist (segments : List TranscriptSegment) (turn : DiarizationTurn) :
    (takenBy segments turn).Sublist (allWords segments) := by
  unfold takenBy allWords
  induction segments.zipIdx with
  | nil => exact List.Sublist.refl []
  | cons p rest ih =>
    rw [List.flatMap_cons, List.flatMap_cons]
    refine List.Sublist.append ?_ ih
    by_cases hheard : Heard turn p.1
    · rw [if_pos hheard]
      exact sliceWords_sublist _ _ _ _ _
    · rw [if_neg hheard]
      exact List.nil_sublist _

theorem takenBy_before (segments : List TranscriptSegment) (turn : DiarizationTurn) :
    (takenBy segments turn).Pairwise Before :=
  (allWords_before segments).sublist (takenBy_sublist segments turn)

/-- A later turn takes no word before those that an earlier one takes. -/
theorem before_or_claims (hsegments : segments.Pairwise fun a b => a.endSec ≤ b.startSec)
    {turn' : DiarizationTurn} (hturns : turn.end ≤ turn'.start) {w w' : Word} (hw : w ∈ takenBy segments turn)
    (hw' : w' ∈ takenBy segments turn') :
    Before w w' ∨ ∃ segment ∈ segments, ∃ k < (wordsOf segment.text).length,
      Claims turn segment k ∧ Claims turn' segment k := by
  obtain ⟨segment, hsegment, hget, hheard, hclaims⟩ := mem_takenBy.mp hw
  obtain ⟨segment', hsegment', hget', hheard', hclaims'⟩ := mem_takenBy.mp hw'
  have hk := (List.getElem?_eq_some_iff.mp hget).1
  have hk' := (List.getElem?_eq_some_iff.mp hget').1
  obtain ⟨_, _, hstart, _⟩ := hheard.bounds
  obtain ⟨_, _, _, hend⟩ := hheard'.bounds
  rcases Nat.lt_trichotomy w.segment w'.segment with hlt | heq | hgt
  · exact .inl (.inl hlt)
  · rw [heq, hsegment'] at hsegment
    have hsame : segment' = segment := Option.some.inj hsegment
    subst hsame
    have hmem : segment' ∈ segments := List.mem_of_getElem? hsegment'
    rcases hclaims with hmost | hmeets
    · exact .inr ⟨segment', hmem, w'.index, hk', ⟨hheard, .inl hmost⟩, ⟨hheard', hclaims'⟩⟩
    rcases hclaims' with hmost' | hmeets'
    · exact .inr ⟨segment', hmem, w.index, hk, ⟨hheard, .inr hmeets⟩, ⟨hheard', .inl hmost'⟩⟩
    have hshares : w.index < w'.index + 1 := by
      rw [← shareStart_strictMono hheard.dur_pos (Nat.zero_lt_of_lt hk)]
      exact hmeets.2.trans (hturns.trans_lt hmeets'.1)
    rcases Nat.lt_succ_iff_lt_or_eq.mp hshares with hlt | hsame
    · exact .inl (.inr ⟨heq, hlt⟩)
    · rw [← hsame] at hmeets'
      exact .inr ⟨segment', hmem, w.index, hk, ⟨hheard, .inr hmeets⟩, ⟨hheard', .inr hmeets'⟩⟩
  · -- the turns would meet the segments the other way round
    obtain ⟨hi, rfl⟩ := List.getElem?_eq_some_iff.mp hsegment
    obtain ⟨hi', rfl⟩ := List.getElem?_eq_some_iff.mp hsegment'
    have hapart := List.pairwise_iff_getElem.mp hsegments w'.segment w.segment hi' hi hgt
    exact absurd (hend.trans_le (hapart.trans (hstart.le.trans hturns))) (lt_irrefl _)

/-! ## Each word in one turn -/

theorem not_both_of_countP {α : Type} {p : α → Bool} {l : List α} (h : l.countP p = 1) {a b : α}
    (hsub : [a, b].Sublist l) (ha : p a = true) : ¬ p b = true := by
  intro hb
  have hle := hsub.countP_le (p := p)
  simp [ha, hb, h] at hle

theorem count_flatMap_of_nodup {α β : Type} [DecidableEq β] {f : α → List β} {l : List α}
    (hf : ∀ a ∈ l, (f a).Nodup) (x : β) : (l.flatMap f).count x = l.countP fun a => x ∈ f a := by
  induction l with
  | nil => rfl
  | cons a l ih =>
    rw [List.flatMap_cons, List.count_append, ih fun b hb => hf b (List.mem_cons_of_mem _ hb), List.countP_cons,
      (hf a List.mem_cons_self).count, Nat.add_comm]
    simp

theorem allWords_nodup (segments : List TranscriptSegment) : (allWords segments).Nodup := by
  refine (allWords_before segments).imp fun h heq => ?_
  rw [heq] at h
  exact h.not_before h

/-- The turns take every word once and in order exactly where for each word there
is one turn that claims it. -/
theorem takes_all_iff (hsegments : segments.Pairwise fun a b => a.endSec ≤ b.startSec)
    (hturns : turns.Pairwise fun a b => a.end ≤ b.start) :
    turns.flatMap (takenBy segments) = allWords segments ↔
      ∀ segment ∈ segments, ∀ k < (wordsOf segment.text).length,
        (turns.countP fun turn => Claims turn segment k) = 1 := by
  constructor
  · intro hall segment hsegment k hk
    obtain ⟨i, hi⟩ := List.getElem?_of_mem hsegment
    let w : Word := ⟨i, k, (wordsOf segment.text)[k]⟩
    have hget : (wordsOf segment.text)[k]? = some w.text := List.getElem?_eq_getElem hk
    have hclaims : ∀ turn, w ∈ takenBy segments turn ↔ Claims turn segment k := by
      intro turn
      rw [mem_takenBy]
      constructor
      · intro ⟨segment', hsegment', _, hclaims⟩
        rw [hi] at hsegment'
        cases hsegment'
        exact hclaims
      · exact fun hclaims => ⟨segment, hi, hget, hclaims⟩
    have hcount := count_flatMap_of_nodup (l := turns)
      (fun turn _ => (allWords_nodup segments).sublist (takenBy_sublist segments turn)) w
    rw [hall, List.count_eq_one_of_mem (allWords_nodup segments) (mem_allWords.mpr ⟨segment, hi, hget⟩)] at hcount
    rw [hcount]
    exact List.countP_congr fun turn _ => by simp [hclaims turn]
  · intro hone
    have hbefore : (turns.flatMap (takenBy segments)).Pairwise Before := by
      rw [List.pairwise_flatMap]
      refine ⟨fun turn _ => takenBy_before segments turn, ?_⟩
      rw [List.pairwise_iff_forall_sublist] at hturns ⊢
      intro turn turn' hsub w hw w' hw'
      rcases before_or_claims hsegments (hturns hsub) hw hw' with h | ⟨segment, hsegment, k, hk, hclaims, hclaims'⟩
      · exact h
      · exact absurd (decide_eq_true hclaims')
          (not_both_of_countP (hone segment hsegment k hk) hsub (decide_eq_true hclaims))
    refine hbefore.eq_of_mem_iff (allWords_before segments) fun w => ?_
    rw [List.mem_flatMap, mem_allWords]
    constructor
    · intro ⟨turn, _, hw⟩
      obtain ⟨segment, hsegment, hget, _⟩ := mem_takenBy.mp hw
      exact ⟨segment, hsegment, hget⟩
    · intro ⟨segment, hsegment, hget⟩
      have hk := (List.getElem?_eq_some_iff.mp hget).1
      have hpos : 0 < turns.countP fun turn => Claims turn segment w.index := by
        rw [hone segment (List.mem_of_getElem? hsegment) w.index hk]
        exact Nat.one_pos
      obtain ⟨turn, hturn, hclaims⟩ := List.countP_pos_iff.mp hpos
      exact ⟨turn, hturn, mem_takenBy.mpr ⟨segment, hsegment, hget, of_decide_eq_true hclaims⟩⟩

/-- One turn has most of the segment and no other hears it; or none has most of it,
and each word's share is met by one of the turns that hear it. -/
def Parted (turns : List DiarizationTurn) (segment : TranscriptSegment) : Prop :=
  wordsOf segment.text = [] ∨
    ((turns.countP fun turn => Heard turn segment) = 1 ∧ ∃ turn ∈ turns, Heard turn segment ∧ Most turn segment) ∨
    ((∀ turn ∈ turns, Heard turn segment → ¬ Most turn segment) ∧
      ∀ k < (wordsOf segment.text).length,
        (turns.countP fun turn => Heard turn segment ∧ Meets turn segment (wordsOf segment.text).length k) = 1)

theorem countP_congr_prop {α : Type} {p q : α → Prop} [DecidablePred p] [DecidablePred q] {l : List α}
    (h : ∀ a ∈ l, p a ↔ q a) : (l.countP fun a => p a) = l.countP fun a => q a := by
  refine List.countP_congr fun a ha => ?_
  rw [decide_eq_true_iff, decide_eq_true_iff]
  exact h a ha

theorem eq_of_countP {α : Type} {p : α → Bool} {l : List α} (h : l.countP p = 1) {a b : α} (ha : a ∈ l)
    (hpa : p a = true) (hb : b ∈ l) (hpb : p b = true) : a = b := by
  rw [List.countP_eq_length_filter] at h
  obtain ⟨c, hc⟩ := List.length_eq_one_iff.mp h
  have hfilter {x : α} (hx : x ∈ l) (hpx : p x = true) : x = c := by
    have hmem := List.mem_filter.mpr ⟨hx, hpx⟩
    rw [hc] at hmem
    exact List.mem_singleton.mp hmem
  rw [hfilter ha hpa, hfilter hb hpb]

theorem parted_iff (turns : List DiarizationTurn) (segment : TranscriptSegment) : Parted turns segment ↔
    ∀ k < (wordsOf segment.text).length, (turns.countP fun turn => Claims turn segment k) = 1 := by
  constructor
  · intro hparted k hk
    rcases hparted with hnil | ⟨hone, owner, howner, hheard, hmost⟩ | ⟨hnone, hshares⟩
    · rw [hnil] at hk
      cases hk
    · rw [← hone]
      refine countP_congr_prop fun turn hturn => ?_
      refine ⟨fun h => h.1, fun h => ⟨h, .inl ?_⟩⟩
      rw [eq_of_countP hone hturn (decide_eq_true h) howner (decide_eq_true hheard)]
      exact hmost
    · rw [← hshares k hk]
      refine countP_congr_prop fun turn hturn => ?_
      exact and_congr_right fun hheard => or_iff_right (hnone turn hturn hheard)
  · intro hclaims
    by_cases hnil : wordsOf segment.text = []
    · exact .inl hnil
    have hn := List.length_pos_iff.mpr hnil
    by_cases hmost : ∃ turn ∈ turns, Heard turn segment ∧ Most turn segment
    · refine .inr (.inl ⟨?_, hmost⟩)
      obtain ⟨owner, howner, hheard, hmost⟩ := hmost
      rw [← hclaims 0 hn]
      refine countP_congr_prop fun turn hturn => ?_
      refine ⟨fun h => ⟨h, .inl ?_⟩, fun h => h.1⟩
      -- a turn that hears the segment claims a word, which the owner claims as well
      obtain ⟨k, hk, hmeets⟩ := h.exists_meets hn
      have hturnClaims : Claims turn segment k := ⟨h, .inr hmeets⟩
      have hownerClaims : Claims owner segment k := ⟨hheard, .inl hmost⟩
      rw [eq_of_countP (hclaims k hk) hturn (decide_eq_true hturnClaims) howner (decide_eq_true hownerClaims)]
      exact hmost
    · have hnone : ∀ turn ∈ turns, Heard turn segment → ¬ Most turn segment :=
        fun turn hturn hheard h => hmost ⟨turn, hturn, hheard, h⟩
      refine .inr (.inr ⟨hnone, fun k hk => ?_⟩)
      rw [← hclaims k hk]
      refine countP_congr_prop fun turn hturn => ?_
      exact and_congr_right fun hheard => (or_iff_right (hnone turn hturn hheard)).symm

/-- The output's words, turn for turn, are the words that the turns take. They are
all words, each once and in order, exactly where every segment is parted. -/
theorem words_kept_iff (hsegments : Chronological TranscriptSegment.startSec TranscriptSegment.endSec segments)
    (hturns : Chronological DiarizationTurn.start DiarizationTurn.end turns) :
    (mergeAsrSegmentsIntoTurns segments turns).map (fun merged => wordsOf merged.text) =
        (takings segments turns).map (List.map (·.text)) ∧
      ((takings segments turns).flatten = allWords segments ↔
        turns = [] ∨ ∀ segment ∈ segments, Parted turns segment) := by
  refine ⟨merged_words hsegments.starts hturns.starts, ?_⟩
  unfold takings
  by_cases hnil : turns = []
  · rw [if_pos hnil]
    exact iff_of_true List.flatMap_def.symm (.inl hnil)
  · rw [if_neg hnil, List.flatten_filter_ne_nil, ← List.flatMap_def, or_iff_right hnil,
      takes_all_iff hsegments.apart hturns.apart]
    simp only [parted_iff]

theorem words_kept_in_halves :
    (mergeAsrSegmentsIntoTurns [⟨0, 4, js "hello there", none⟩] [⟨0, 2, "A"⟩, ⟨2, 4, "B"⟩]).map
        (fun merged => wordsOf merged.text) =
      (takings [⟨0, 4, js "hello there", none⟩] [⟨0, 2, "A"⟩, ⟨2, 4, "B"⟩]).map (List.map (·.text)) ∧
    ((takings [⟨0, 4, js "hello there", none⟩] [⟨0, 2, "A"⟩, ⟨2, 4, "B"⟩]).flatten =
        allWords [⟨0, 4, js "hello there", none⟩] ↔
      [(⟨0, 2, "A"⟩ : DiarizationTurn), ⟨2, 4, "B"⟩] = [] ∨
        ∀ segment ∈ [(⟨0, 4, js "hello there", none⟩ : TranscriptSegment)],
          Parted [⟨0, 2, "A"⟩, ⟨2, 4, "B"⟩] segment) :=
  words_kept_iff ⟨by norm_num, by norm_num⟩ ⟨by norm_num, by norm_num⟩

/-- The turns follow each other without a gap from `lo` to `hi`. -/
def Tile (lo hi : ℚ) : List DiarizationTurn → Prop
  | [] => lo = hi
  | turn :: turns => turn.start = lo ∧ turn.start ≤ turn.end ∧ Tile turn.end hi turns

/-- The middle word of three is given to both halves. -/
theorem middle_word_twice :
    Tile 0 4 [⟨0, 2, "A"⟩, ⟨2, 4, "B"⟩] ∧
      mergeAsrSegmentsIntoTurns [⟨0, 4, js "a b c", none⟩] [⟨0, 2, "A"⟩, ⟨2, 4, "B"⟩] =
        [⟨0, 2, js "a b", some "A"⟩, ⟨2, 4, js "b c", some "B"⟩] ∧
      (takings [⟨0, 4, js "a b c", none⟩] [⟨0, 2, "A"⟩, ⟨2, 4, "B"⟩]).flatten ≠
        allWords [⟨0, 4, js "a b c", none⟩] := by
  refine ⟨⟨rfl, by norm_num, rfl, by norm_num, rfl⟩, ?_, ?_⟩
  · decide +kernel
  · decide +kernel

end ModelForge.TurnMerging
