import Mathlib.Data.List.MinMax
import Mathlib.Data.List.SplitBy
import ModelForge.NormalizedTranscript
import ModelForge.PerTurnTranscription

set_option autoImplicit false

/-!
# Transcripts with speakers

`assignSpeakersToSegments` gives segments the speakers of turns,
`collapseDuplicateAdjacentText` drops repeated bubbles, and `transcribeWithDiarization`
puts a transcript together from turns and what is heard in them. Times are exact.
-/
namespace ModelForge.DiarizedTranscript
open EventStream (JsString js)
open NormalizedTranscript (collapsed)
open SpeakerTurns (DiarizationTurn StartsBefore coalesceTurns)
open TurnMerging (TranscriptSegment segmentTurnOverlap mergeAsrSegmentsIntoTurns)

/-! ## Speakers by overlap -/

def overlapWith (segment : TranscriptSegment) (turn : DiarizationTurn) : ℚ :=
  segmentTurnOverlap segment.startSec segment.endSec turn.start turn.end

/-- `dist` -/
def distance (mid : ℚ) (turn : DiarizationTurn) : ℚ :=
  if mid < turn.start then turn.start - mid else if turn.end < mid then mid - turn.end else 0

/-- A round of the first loop, on `bestSpeaker` and `bestOverlap`. -/
def widest (segment : TranscriptSegment) (best : Option String × ℚ) (turn : DiarizationTurn) : Option String × ℚ :=
  if best.2 < overlapWith segment turn then (some turn.speaker, overlapWith segment turn) else best

/-- A round of the last loop, on `bestSpeaker` and `bestDist`; `none` is `Infinity`. -/
def nearest (mid : ℚ) (best : Option String × Option ℚ) (turn : DiarizationTurn) : Option String × Option ℚ :=
  if best.2.all (distance mid turn < ·) then (some turn.speaker, some (distance mid turn)) else best

/-- `!speaker` -/
def isMissing (speaker : Option String) : Bool := speaker.getD "" = ""

/-- The second loop, up to its `break`. -/
def around (sorted : List DiarizationTurn) (mid : ℚ) : Option DiarizationTurn :=
  sorted.find? fun turn => turn.start ≤ mid ∧ mid ≤ turn.end

/-- The speaker that a segment gets from the sorted turns. -/
def speakerFor (sorted : List DiarizationTurn) (segment : TranscriptSegment) : Option String :=
  let best := sorted.foldl (widest segment) (none, 0)
  if isMissing best.1 || best.2 ≤ 0 then
    let mid := (segment.startSec + segment.endSec) / 2
    let speaker := ((around sorted mid).map DiarizationTurn.speaker).or best.1
    if isMissing speaker then (sorted.foldl (nearest mid) (speaker, none)).1 else speaker
  else best.1

def assignSpeakersToSegments (segments : List TranscriptSegment) (turns : List DiarizationTurn) :
    List TranscriptSegment :=
  if turns = [] then segments
  else segments.map fun segment => { segment with speaker := speakerFor (turns.insertionSort StartsBefore) segment }

/-! ### The turn that is chosen -/

variable {segment : TranscriptSegment} {segments : List TranscriptSegment} {turn : DiarizationTurn}
  {turns sorted : List DiarizationTurn}

/-- The turn with the greatest overlap, or the nearest one where none overlaps. Among
equals it is one that starts first. -/
inductive Chosen (turns : List DiarizationTurn) (segment : TranscriptSegment) (turn : DiarizationTurn) : Prop where
  | overlaps (mem : turn ∈ turns) (pos : 0 < overlapWith segment turn)
      (max : ∀ other ∈ turns, overlapWith segment other ≤ overlapWith segment turn)
      (first : ∀ other ∈ turns, overlapWith segment other = overlapWith segment turn → turn.start ≤ other.start)
  | nearest (mem : turn ∈ turns) (apart : ∀ other ∈ turns, overlapWith segment other = 0)
      (min : ∀ other ∈ turns, distance ((segment.startSec + segment.endSec) / 2) turn ≤
        distance ((segment.startSec + segment.endSec) / 2) other)
      (first : ∀ other ∈ turns, distance ((segment.startSec + segment.endSec) / 2) other =
        distance ((segment.startSec + segment.endSec) / 2) turn → turn.start ≤ other.start)

theorem overlapWith_nonneg (segment : TranscriptSegment) (turn : DiarizationTurn) : 0 ≤ overlapWith segment turn :=
  le_max_left _ _

/-- The first loop, from a turn on that overlaps. -/
theorem foldl_widest_from (segment : TranscriptSegment) (sorted : List DiarizationTurn) (best : Option DiarizationTurn)
    (hpos : ∀ turn ∈ best, 0 < overlapWith segment turn) :
    sorted.foldl (widest segment)
        ((best.map fun turn => (some turn.speaker, overlapWith segment turn)).getD (none, 0)) =
      (((sorted.filter fun turn => 0 < overlapWith segment turn).foldl
        (List.argAux fun b c => overlapWith segment c < overlapWith segment b) best).map fun turn =>
          (some turn.speaker, overlapWith segment turn)).getD (none, 0) := by
  induction sorted generalizing best with
  | nil => rfl
  | cons turn sorted ih =>
    rw [List.foldl_cons, List.filter_cons]
    by_cases hturn : 0 < overlapWith segment turn
    · rw [if_pos (by simpa using hturn), List.foldl_cons]
      cases best with
      | none =>
        rw [← ih _ (by simpa [List.argAux] using hturn)]
        simp [List.argAux, widest, hturn]
      | some other =>
        have hother := hpos other rfl
        rw [← ih _ (by unfold List.argAux; dsimp only; split <;> simp [hturn, hother])]
        by_cases hlt : overlapWith segment other < overlapWith segment turn <;> simp [List.argAux, widest, hlt]
    · rw [if_neg (by simpa using hturn), ← ih best hpos]
      have hzero : overlapWith segment turn = 0 := le_antisymm (not_lt.mp hturn) (overlapWith_nonneg _ _)
      congr 1
      cases best with
      | none => simp [widest, hzero]
      | some other => simp [widest, hzero, (hpos other rfl).le]

theorem foldl_widest (segment : TranscriptSegment) (sorted : List DiarizationTurn) :
    sorted.foldl (widest segment) (none, 0) =
      (((sorted.filter fun turn => 0 < overlapWith segment turn).argmax (overlapWith segment)).map fun turn =>
        (some turn.speaker, overlapWith segment turn)).getD (none, 0) :=
  foldl_widest_from segment sorted none (by simp)

/-- The last loop looks for the first of the nearest turns. -/
theorem foldl_nearest (mid : ℚ) (sorted : List DiarizationTurn) (speaker : Option String) :
    sorted.foldl (nearest mid) (speaker, none) =
      ((sorted.argmin (distance mid)).map fun turn => (some turn.speaker, some (distance mid turn))).getD
        (speaker, none) := by
  have hstep (best : Option DiarizationTurn) (turn : DiarizationTurn) :
      nearest mid ((best.map fun turn => (some turn.speaker, some (distance mid turn))).getD (speaker, none)) turn =
        ((List.argAux (fun b c => distance mid b < distance mid c) best turn).map fun turn =>
          (some turn.speaker, some (distance mid turn))).getD (speaker, none) := by
    cases best with
    | none => rfl
    | some other =>
      by_cases hlt : distance mid turn < distance mid other <;> simp [nearest, List.argAux, hlt]
  exact @List.foldl_hom _ _ _ _ _ _ sorted none hstep

theorem distance_nonneg (mid : ℚ) (turn : DiarizationTurn) : 0 ≤ distance mid turn := by
  unfold distance
  split_ifs with hbefore hbehind
  · linarith
  · linarith
  · exact le_refl 0

theorem distance_eq_zero_iff (mid : ℚ) (turn : DiarizationTurn) :
    distance mid turn = 0 ↔ turn.start ≤ mid ∧ mid ≤ turn.end := by
  unfold distance
  split_ifs with hbefore hbehind
  · constructor
    · intro hzero
      linarith
    · intro hinside
      exact absurd hinside.1 (not_le.mpr hbefore)
  · constructor
    · intro hzero
      linarith
    · intro hinside
      exact absurd hinside.2 (not_le.mpr hbehind)
  · simp only [true_iff]
    exact ⟨not_lt.mp hbefore, not_lt.mp hbehind⟩

/-- Of sorted turns, one with a smaller index starts first. -/
theorem start_le_of_idxOf (hsorted : sorted.Pairwise StartsBefore) {other : DiarizationTurn} (hmem : turn ∈ sorted)
    (hother : other ∈ sorted) (hle : sorted.idxOf turn ≤ sorted.idxOf other) : turn.start ≤ other.start := by
  have hindex : (⟨sorted.idxOf turn, List.idxOf_lt_length_of_mem hmem⟩ : Fin sorted.length) ≤
      ⟨sorted.idxOf other, List.idxOf_lt_length_of_mem hother⟩ := hle
  simpa using hsorted.rel_get_of_le hindex

theorem chosen_of_widest (hsorted : sorted.Pairwise StartsBefore)
    (h : (sorted.filter fun turn => 0 < overlapWith segment turn).argmax (overlapWith segment) = some turn) :
    Chosen sorted segment turn := by
  obtain ⟨hmem, hmax, hfirst⟩ := List.argmax_eq_some_iff.mp h
  obtain ⟨hturn, hpos⟩ := List.mem_filter.mp hmem
  have hpos : 0 < overlapWith segment turn := of_decide_eq_true hpos
  refine .overlaps hturn hpos ?_ ?_
  · intro other hother
    by_cases hwide : 0 < overlapWith segment other
    · exact hmax other (List.mem_filter.mpr ⟨hother, decide_eq_true hwide⟩)
    · exact (not_lt.mp hwide).trans hpos.le
  · intro other hother heq
    have hwide : other ∈ sorted.filter fun turn => 0 < overlapWith segment turn :=
      List.mem_filter.mpr ⟨hother, decide_eq_true (heq ▸ hpos)⟩
    exact start_le_of_idxOf (hsorted.sublist List.filter_sublist) hmem hwide (hfirst other hwide heq.ge)

theorem apart_of_widest (h : (sorted.filter fun turn => 0 < overlapWith segment turn).argmax (overlapWith segment) = none) :
    ∀ other ∈ sorted, overlapWith segment other = 0 := by
  rw [List.argmax_eq_none, List.filter_eq_nil_iff] at h
  intro other hother
  exact le_antisymm (not_lt.mp fun hpos => h other hother (decide_eq_true hpos)) (overlapWith_nonneg _ _)

theorem chosen_of_nearest (hsorted : sorted.Pairwise StartsBefore)
    (hapart : ∀ other ∈ sorted, overlapWith segment other = 0)
    (h : sorted.argmin (distance ((segment.startSec + segment.endSec) / 2)) = some turn) :
    Chosen sorted segment turn := by
  obtain ⟨hmem, hmin, hfirst⟩ := List.argmin_eq_some_iff.mp h
  refine .nearest hmem hapart hmin ?_
  intro other hother heq
  exact start_le_of_idxOf hsorted hmem hother (hfirst other hother heq.le)

theorem chosen_of_around (hsorted : sorted.Pairwise StartsBefore)
    (hapart : ∀ other ∈ sorted, overlapWith segment other = 0)
    (h : around sorted ((segment.startSec + segment.endSec) / 2) = some turn) : Chosen sorted segment turn := by
  obtain ⟨hinside, before, behind, rfl, hbefore⟩ := List.find?_eq_some_iff_append.mp h
  have hzero := (distance_eq_zero_iff _ turn).mpr (of_decide_eq_true hinside)
  refine .nearest (by simp) hapart ?_ ?_
  · intro other _
    exact hzero.trans_le (distance_nonneg _ other)
  · intro other hother heq
    have hother' := (distance_eq_zero_iff _ other).mp (heq.trans hzero)
    cases List.mem_append.mp hother with
    | inl hmem => simpa [hother'] using hbefore other hmem
    | inr hmem =>
      cases List.mem_cons.mp hmem with
      | inl hself => rw [hself]
      | inr hlater =>
        exact List.rel_of_pairwise_cons (List.pairwise_append.mp hsorted).2.1 hlater

theorem isMissing_some {speaker : String} (h : speaker ≠ "") : isMissing (some speaker) = false := by
  simpa [isMissing] using h

theorem exists_chosen (hsorted : sorted.Pairwise StartsBefore) (hne : sorted ≠ [])
    (hnamed : ∀ turn ∈ sorted, turn.speaker ≠ "") (segment : TranscriptSegment) :
    ∃ turn, Chosen sorted segment turn ∧ speakerFor sorted segment = some turn.speaker := by
  unfold speakerFor
  rw [foldl_widest]
  cases hwidest : (sorted.filter fun turn => 0 < overlapWith segment turn).argmax (overlapWith segment) with
  | some turn =>
    have hchosen := chosen_of_widest hsorted hwidest
    obtain ⟨hmem, hpos⟩ := List.mem_filter.mp (List.argmax_mem hwidest)
    have hpos : 0 < overlapWith segment turn := of_decide_eq_true hpos
    refine ⟨turn, hchosen, ?_⟩
    simp [isMissing_some (hnamed turn hmem), hpos]
  | none =>
    have hapart := apart_of_widest hwidest
    cases haround : around sorted ((segment.startSec + segment.endSec) / 2) with
    | some turn =>
      refine ⟨turn, chosen_of_around hsorted hapart haround, ?_⟩
      simp [isMissing, haround, hnamed turn (List.mem_of_find?_eq_some haround)]
    | none =>
      have hsome : sorted.argmin (distance ((segment.startSec + segment.endSec) / 2)) ≠ none :=
        mt List.argmin_eq_none.mp hne
      obtain ⟨turn, hturn⟩ := Option.ne_none_iff_exists'.mp hsome
      refine ⟨turn, chosen_of_nearest hsorted hapart hturn, ?_⟩
      simp [isMissing, haround, foldl_nearest, hturn]

theorem Chosen.of_perm (h : Chosen sorted segment turn) (hperm : sorted.Perm turns) : Chosen turns segment turn := by
  have hall {P : DiarizationTurn → Prop} (hsorted : ∀ other ∈ sorted, P other) : ∀ other ∈ turns, P other :=
    fun other hother => hsorted other (hperm.mem_iff.mpr hother)
  cases h with
  | overlaps mem pos max first => exact .overlaps (hperm.mem_iff.mp mem) pos (hall max) (hall first)
  | nearest mem apart min first => exact .nearest (hperm.mem_iff.mp mem) (hall apart) (hall min) (hall first)

theorem Chosen.mem (h : Chosen turns segment turn) : turn ∈ turns := by
  cases h with
  | overlaps mem => exact mem
  | nearest mem => exact mem

/-- Each segment gets the speaker of the turn that is chosen for it, and keeps its
times and its text. -/
theorem assigned_turn_chosen (segments : List TranscriptSegment) (turns : List DiarizationTurn) (hne : turns ≠ [])
    (hnamed : ∀ turn ∈ turns, turn.speaker ≠ "") :
    List.Forall₂ (fun segment labelled => ∃ turn, Chosen turns segment turn ∧
      labelled = { segment with speaker := some turn.speaker }) segments (assignSpeakersToSegments segments turns) := by
  have hperm := turns.perm_insertionSort StartsBefore
  have hsorted := turns.pairwise_insertionSort StartsBefore
  have hne' : turns.insertionSort StartsBefore ≠ [] := mt (fun hnil => (hnil ▸ hperm).nil_eq.symm) hne
  rw [assignSpeakersToSegments, if_neg hne, List.forall₂_map_right_iff, List.forall₂_same]
  intro segment _
  obtain ⟨turn, hchosen, hspeaker⟩ :=
    exists_chosen hsorted hne' (fun turn hturn => hnamed turn (hperm.mem_iff.mp hturn)) segment
  exact ⟨turn, hchosen.of_perm hperm, by rw [hspeaker]⟩

theorem assigned_turn_nearest : List.Forall₂ (fun segment labelled => ∃ turn,
    Chosen [⟨5, 6, "SPEAKER_01"⟩, ⟨1, 2, "SPEAKER_00"⟩] segment turn ∧
      labelled = { segment with speaker := some turn.speaker })
    [⟨2, 3, js "yes", none⟩]
    (assignSpeakersToSegments [⟨2, 3, js "yes", none⟩] [⟨5, 6, "SPEAKER_01"⟩, ⟨1, 2, "SPEAKER_00"⟩]) :=
  assigned_turn_chosen _ _ (by decide) (by decide)

/-! ## Repeated bubbles -/

/-- `text.replace(/\s+/g, " ").trim()`, of at least 40 units, is that of the bubble before. -/
def Repeats (prev segment : TranscriptSegment) : Bool :=
  40 ≤ (collapsed segment.text).length && collapsed segment.text = collapsed prev.text

/-- The loop, from its running last bubble on. -/
def collapseFrom : TranscriptSegment → List TranscriptSegment → List TranscriptSegment
  | prev, [] => [prev]
  | prev, segment :: segments =>
    if Repeats prev segment then collapseFrom { prev with endSec := max prev.endSec segment.endSec } segments
    else prev :: collapseFrom segment segments

def collapseDuplicateAdjacentText : List TranscriptSegment → List TranscriptSegment
  | [] => []
  | segment :: segments => collapseFrom segment segments

/-- The bubble of a run of segments. -/
def bubble : List TranscriptSegment → Option TranscriptSegment
  | [] => none
  | first :: rest => some { first with endSec := (rest.map TranscriptSegment.endSec).foldl max first.endSec }

theorem bubble_concat {run : List TranscriptSegment} {b : TranscriptSegment} (h : bubble run = some b) :
    bubble (run ++ [segment]) = some { b with endSec := max b.endSec segment.endSec } := by
  cases run with
  | nil => cases h
  | cons first rest =>
    obtain rfl := Option.some.inj h
    simp [bubble]

/-- The loop of the source against that of `List.splitBy`, whose run so far is `b`. -/
theorem splitBy_loop_bubbles {b last : TranscriptSegment} {run : List TranscriptSegment}
    (h : bubble (last :: run).reverse = some b) (hlast : collapsed b.text = collapsed last.text)
    (segments : List TranscriptSegment) (runs : List (List TranscriptSegment)) :
    (List.splitBy.loop Repeats segments last run runs).filterMap bubble =
      runs.reverse.filterMap bubble ++ collapseFrom b segments := by
  induction segments generalizing b last run runs with
  | nil =>
    rw [List.splitBy.loop, List.reverse_cons, List.filterMap_append, List.filterMap_cons, h]
    rfl
  | cons segment segments ih =>
    have hsame : Repeats b segment = Repeats last segment := by rw [Repeats, Repeats, hlast]
    rw [List.splitBy.loop, collapseFrom, hsame]
    cases hrepeats : Repeats last segment with
    | true =>
      have htext : collapsed segment.text = collapsed last.text := by
        rw [Repeats, Bool.and_eq_true, decide_eq_true_eq, decide_eq_true_eq] at hrepeats
        exact hrepeats.2
      rw [if_pos rfl]
      apply ih
      · rw [List.reverse_cons]
        exact bubble_concat h
      · exact hlast.trans htext.symm
    | false =>
      rw [if_neg Bool.false_ne_true, ih rfl rfl, List.reverse_cons, List.filterMap_append, List.filterMap_cons, h]
      simp

/-- The result has one bubble for each longest run of repeats. -/
theorem collapse_eq_bubbles (segments : List TranscriptSegment) :
    collapseDuplicateAdjacentText segments = (segments.splitBy Repeats).filterMap bubble := by
  cases segments with
  | nil => rfl
  | cons segment segments => exact (splitBy_loop_bubbles rfl rfl segments []).symm

theorem collapseFrom_of_isChain {prev : TranscriptSegment} (h : (prev :: segments).IsChain fun a b => Repeats a b = false) :
    collapseFrom prev segments = prev :: segments := by
  induction segments generalizing prev with
  | nil => rfl
  | cons segment segments ih =>
    obtain ⟨hfirst, hrest⟩ := List.isChain_cons_cons.mp h
    rw [collapseFrom, hfirst, if_neg Bool.false_ne_true, ih hrest]

theorem collapseFrom_isChain (prev : TranscriptSegment) (segments : List TranscriptSegment) :
    ∃ stop rest, collapseFrom prev segments = { prev with endSec := stop } :: rest ∧
      (collapseFrom prev segments).IsChain fun a b => Repeats a b = false := by
  induction segments generalizing prev with
  | nil => exact ⟨prev.endSec, [], rfl, List.isChain_singleton _⟩
  | cons segment segments ih =>
    rw [collapseFrom]
    cases hrepeats : Repeats prev segment with
    | true => exact ih _
    | false =>
      obtain ⟨stop, rest, heq, hchain⟩ := ih segment
      rw [if_neg Bool.false_ne_true]
      refine ⟨prev.endSec, _, rfl, ?_⟩
      rw [heq] at hchain ⊢
      exact List.isChain_cons_cons.mpr ⟨hrepeats, hchain⟩

/-- The bubbles are the longest runs of repeated texts, each with the start and the text of its first
segment and the greatest end; no bubble repeats the one before it, and a second pass changes nothing. -/
theorem collapse_runs (segments : List TranscriptSegment) :
    collapseDuplicateAdjacentText segments = (segments.splitBy Repeats).filterMap bubble ∧
      (collapseDuplicateAdjacentText segments).IsChain (fun a b => Repeats a b = false) ∧
      collapseDuplicateAdjacentText (collapseDuplicateAdjacentText segments) = collapseDuplicateAdjacentText segments := by
  refine ⟨collapse_eq_bubbles segments, ?_⟩
  cases segments with
  | nil => exact ⟨List.isChain_nil, rfl⟩
  | cons segment segments =>
    obtain ⟨stop, rest, heq, hchain⟩ := collapseFrom_isChain segment segments
    rw [collapseDuplicateAdjacentText, heq] at *
    exact ⟨hchain, collapseFrom_of_isChain hchain⟩

/-! ## The whole transcript -/

inductive Backend where
  | «local»
  | cloud
deriving DecidableEq

inductive Mode where
  | perTurn
  | merge
deriving DecidableEq

structure DiarizationConfig where
  enabled : Bool
  backend : Backend
  mode : Option Mode
  model : JsString
  turnPadMs : Option ℚ
  asrConcurrency : Option ℚ

structure Transcript where
  language : JsString
  text : JsString
  confidence : Option ℚ
  segments : List TranscriptSegment
  provider : JsString
  model : JsString
deriving DecidableEq

def normalized (t : Transcript) : Transcript :=
  let artifact := NormalizedTranscript.normalizeTranscript ⟨t.text, t.segments⟩
  { t with text := artifact.text, segments := artifact.segments }

/-- The texts that are counted. -/
def duplicateKeys (segments : List TranscriptSegment) : List JsString :=
  (segments.map fun segment => collapsed segment.text).filter fun key => 20 ≤ key.length

def hasDuplicatedTurnText (segments : List TranscriptSegment) (minDupes : ℕ) : Bool :=
  !(segments.length < minDupes) &&
    (duplicateKeys segments).any fun key => minDupes ≤ (duplicateKeys segments).count key

-- of the letters whose lower case is in "community", all but the ASCII ones are absent from it
def lowerCase (text : JsString) : JsString := text.map fun u => if 65 ≤ u ∧ u ≤ 90 then u + 32 else u

def diarizeProviderTag (config : DiarizationConfig) : JsString :=
  match config.backend with
  | .cloud => if js "community" <:+: lowerCase config.model then js "pyannoteAI-community-1"
    else js "pyannoteAI-precision-2"
  | .local => js "pyannote-local"

/-- The call of `transcribePerTurn`. -/
def perTurnInput (config : DiarizationConfig) (language : Option JsString) (rawTurns : List DiarizationTurn) :
    PerTurnTranscription.Input where
  turns := coalesceTurns rawTurns (35 / 100)
  language := language
  turnPadMs := config.turnPadMs
  concurrency := config.asrConcurrency

-- the two inner branches do the same; some duplication is better than none of the turns
def perTurnSegments (config : DiarizationConfig) (segments : List TranscriptSegment) : List TranscriptSegment :=
  if config.mode.getD .perTurn = .perTurn then
    if segments ≠ [] ∧ !hasDuplicatedTurnText segments 3 then collapseDuplicateAdjacentText segments
    else if segments ≠ [] then collapseDuplicateAdjacentText segments
    else []
  else []

/-- The fallback on the transcription of the whole file. -/
def alignedSegments (segments : List TranscriptSegment) (turns : List DiarizationTurn) : List TranscriptSegment :=
  let merged := mergeAsrSegmentsIntoTurns segments turns
  collapseDuplicateAdjacentText (if merged = [] then assignSpeakersToSegments segments turns else merged)

def joinedText (segments : List TranscriptSegment) : JsString :=
  TurnMerging.joined (segments.map TranscriptSegment.text)

/-- The part of the function that has turns. -/
def fromTurns (config : DiarizationConfig) (name : JsString) (turns : List DiarizationTurn) (plain : Option Transcript)
    (perTurn : PerTurnTranscription.Pool) : Option Transcript :=
  let provider := name ++ js "+" ++ diarizeProviderTag config
  let labeled := perTurnSegments config perTurn.segments
  if labeled = [] then
    plain.map fun t =>
      let labeled := alignedSegments t.segments turns
      normalized ⟨t.language, joinedText labeled, t.confidence, labeled, provider, t.model⟩
  else some (normalized ⟨perTurn.language, joinedText labeled, none, labeled, provider, perTurn.model⟩)

/-- What becomes of the turns (`none` where the diarization throws), of the
transcription of the whole file (`none` where it throws) and of the workers of
`transcribePerTurn`, which are done. -/
def transcribeWithDiarization (config : DiarizationConfig) (name : JsString)
    (rawTurns : Option (List DiarizationTurn)) (plain : Option Transcript) (perTurn : PerTurnTranscription.Pool) :
    Option Transcript :=
  if !config.enabled then plain
  else
    match rawTurns with
    | none => plain.map fun t => { t with provider := t.provider ++ js "+diarize-failed" }
    | some rawTurns =>
      let turns := coalesceTurns rawTurns (35 / 100)
      if turns = [] then plain.map fun t => { t with provider := t.provider ++ js "+diarize-empty" }
      else fromTurns config name turns plain perTurn

/-! ### The speakers of the result -/

variable {rawTurns : List DiarizationTurn} {t : Transcript}

/-- Each segment has the speaker of a turn. -/
def Labeled (turns : List DiarizationTurn) (segments : List TranscriptSegment) : Prop :=
  ∀ segment ∈ segments, ∃ turn ∈ turns, segment.speaker = some turn.speaker

theorem exists_raw_turn {gapSec : ℚ} (h : turn ∈ coalesceTurns rawTurns gapSec) :
    ∃ raw ∈ rawTurns, raw.speaker = turn.speaker := by
  have hperm := rawTurns.perm_insertionSort StartsBefore
  have hsorted := rawTurns.pairwise_insertionSort StartsBefore
  rw [coalesceTurns] at h
  cases hlist : rawTurns.insertionSort StartsBefore with
  | nil => simp [hlist] at h
  | cons first sorted =>
    rw [hlist] at h hsorted hperm
    obtain ⟨raw, hraw, hsame, -⟩ := (SpeakerTurns.coalesceFrom_merges hsorted).starts turn h
    exact ⟨raw, hperm.mem_iff.mp hraw, hsame⟩

theorem coalesceTurns_ne_nil {gapSec : ℚ} (h : rawTurns ≠ []) : coalesceTurns rawTurns gapSec ≠ [] := by
  have hperm := rawTurns.perm_insertionSort StartsBefore
  rw [coalesceTurns]
  cases hlist : rawTurns.insertionSort StartsBefore with
  | nil => exact absurd (hlist ▸ hperm).nil_eq.symm h
  | cons first sorted =>
    obtain ⟨stop, rest, heq⟩ := SpeakerTurns.coalesceFrom_first gapSec first sorted
    dsimp only
    rw [heq]
    exact List.cons_ne_nil _ _

theorem Labeled.raw {gapSec : ℚ} (h : Labeled (coalesceTurns rawTurns gapSec) segments) : Labeled rawTurns segments := by
  intro segment hsegment
  obtain ⟨turn, hturn, hspeaker⟩ := h segment hsegment
  obtain ⟨raw, hraw, hsame⟩ := exists_raw_turn hturn
  exact ⟨raw, hraw, hspeaker.trans (congrArg some hsame.symm)⟩

theorem labeled_collapseFrom {prev : TranscriptSegment} (h : Labeled turns (prev :: segments)) :
    Labeled turns (collapseFrom prev segments) := by
  induction segments generalizing prev with
  | nil => exact h
  | cons segment segments ih =>
    obtain ⟨hprev, hsegment, hrest⟩ := List.forall_mem_cons.mp h |>.imp_right List.forall_mem_cons.mp
    rw [collapseFrom]
    split
    · exact ih (List.forall_mem_cons.mpr ⟨hprev, hrest⟩)
    · exact List.forall_mem_cons.mpr ⟨hprev, ih (List.forall_mem_cons.mpr ⟨hsegment, hrest⟩)⟩

theorem Labeled.collapse (h : Labeled turns segments) : Labeled turns (collapseDuplicateAdjacentText segments) := by
  cases segments with
  | nil => exact h
  | cons segment segments => exact labeled_collapseFrom h

theorem labeled_turnSegments (segments : List TranscriptSegment) (turns : List DiarizationTurn) :
    Labeled turns (TurnMerging.turnSegments segments turns) := by
  induction turns with
  | nil => simp [Labeled, TurnMerging.turnSegments]
  | cons turn turns ih =>
    have hrest : Labeled (turn :: turns) (TurnMerging.turnSegments segments turns) := by
      intro segment hsegment
      obtain ⟨other, hother, hspeaker⟩ := ih segment hsegment
      exact ⟨other, List.mem_cons_of_mem _ hother, hspeaker⟩
    rw [TurnMerging.turnSegments]
    split
    · exact hrest
    · exact List.forall_mem_cons.mpr ⟨⟨turn, List.mem_cons_self, rfl⟩, hrest⟩

theorem labeled_merged (segments : List TranscriptSegment) (hne : turns ≠ []) :
    Labeled turns (mergeAsrSegmentsIntoTurns segments turns) := by
  rw [mergeAsrSegmentsIntoTurns, if_neg hne]
  intro segment hsegment
  obtain ⟨turn, hturn, hspeaker⟩ := labeled_turnSegments segments _ segment (List.mem_of_mem_filter hsegment)
  exact ⟨turn, (turns.perm_insertionSort StartsBefore).mem_iff.mp hturn, hspeaker⟩

theorem labeled_assigned (segments : List TranscriptSegment) (hne : turns ≠ [])
    (hnamed : ∀ turn ∈ turns, turn.speaker ≠ "") : Labeled turns (assignSpeakersToSegments segments turns) := by
  have hperm := turns.perm_insertionSort StartsBefore
  have hne' : turns.insertionSort StartsBefore ≠ [] := mt (fun hnil => (hnil ▸ hperm).nil_eq.symm) hne
  rw [assignSpeakersToSegments, if_neg hne]
  intro segment hsegment
  obtain ⟨source, -, rfl⟩ := List.mem_map.mp hsegment
  obtain ⟨turn, hchosen, hspeaker⟩ := exists_chosen (turns.pairwise_insertionSort StartsBefore) hne'
    (fun turn hturn => hnamed turn (hperm.mem_iff.mp hturn)) source
  exact ⟨turn, hperm.mem_iff.mp hchosen.mem, hspeaker⟩

theorem labeled_oneByOne (tools : PerTurnTranscription.Tools) (input : PerTurnTranscription.Input) :
    Labeled input.turns (PerTurnTranscription.oneByOne tools input) := by
  intro segment hsegment
  rw [PerTurnTranscription.oneByOne, (List.perm_insertionSort _ _).mem_iff, List.mem_filterMap] at hsegment
  obtain ⟨item, hitem, hheard⟩ := hsegment
  refine ⟨item.1, List.fst_mem_of_mem_zipIdx (List.mem_of_mem_filter hitem), ?_⟩
  unfold PerTurnTranscription.heardIn at hheard
  split at hheard
  · obtain ⟨heard, -, hsome⟩ := Option.bind_eq_some_iff.mp hheard
    split at hsome
    · cases hsome
    · exact Option.some.inj hsome ▸ rfl
  · cases hheard

/-- The segments that the result keeps come from the segments it is given. -/
theorem mem_normalized (h : segment ∈ (normalized t).segments) :
    segment.text ≠ [] ∧ ∃ source ∈ t.segments, segment.speaker = source.speaker := by
  have hsegments : (normalized t).segments = (NormalizedTranscript.normalizeTranscript ⟨t.text, t.segments⟩).segments :=
    rfl
  rw [hsegments] at h
  by_cases hkept : NormalizedTranscript.kept t.segments = []
  · cases hrestored : NormalizedTranscript.restored t.segments with
    | none =>
      rw [NormalizedTranscript.normalizeTranscript_of_nothing hkept hrestored] at h
      cases h
    | some other =>
      rw [NormalizedTranscript.normalizeTranscript_of_restored hkept hrestored] at h
      obtain rfl := List.mem_singleton.mp h
      obtain ⟨hbest, hlength⟩ := Option.filter_eq_some_iff.mp hrestored
      obtain ⟨source, hsource, rfl⟩ := Option.map_eq_some_iff.mp hbest
      refine ⟨fun hnil => ?_, source, (NormalizedTranscript.best_spec hsource).1, rfl⟩
      rw [hnil] at hlength
      cases hlength
  · rw [NormalizedTranscript.normalizeTranscript_of_kept hkept] at h
    obtain ⟨i, hi⟩ := List.mem_iff_getElem?.mp h
    rw [SegmentOverlap.getElem?_repair] at hi
    obtain ⟨clean, hclean, rfl⟩ := Option.map_eq_some_iff.mp hi
    obtain ⟨source, hsource, rfl, hstays⟩ := NormalizedTranscript.exists_source (List.mem_of_getElem? hclean)
    refine ⟨fun hnil => ?_, source, hsource, rfl⟩
    rw [NormalizedTranscript.stays, Bool.and_eq_true, decide_eq_true_eq] at hstays
    exact hstays.1.ne' (congrArg List.length hnil)

section
variable {config : DiarizationConfig} {name : JsString} {plain : Option Transcript} {p q : PerTurnTranscription.Pool}

theorem labeled_perTurnSegments (config : DiarizationConfig) (h : Labeled turns segments) :
    Labeled turns (perTurnSegments config segments) := by
  unfold perTurnSegments
  split_ifs
  · exact h.collapse
  · exact h.collapse
  · simp [Labeled]
  · simp [Labeled]

theorem labeled_aligned (segments : List TranscriptSegment) (hne : turns ≠ [])
    (hnamed : ∀ turn ∈ turns, turn.speaker ≠ "") : Labeled turns (alignedSegments segments turns) := by
  rw [alignedSegments]
  apply Labeled.collapse
  split
  · exact labeled_assigned segments hne hnamed
  · exact labeled_merged segments hne

theorem labeled_normalized (h : Labeled turns t.segments) : Labeled turns (normalized t).segments := by
  intro segment hsegment
  obtain ⟨-, source, hsource, hspeaker⟩ := mem_normalized hsegment
  rw [hspeaker]
  exact h source hsource

/-- The result is the normal form of labeled segments. -/
theorem fromTurns_cases (hne : turns ≠ []) (hnamed : ∀ turn ∈ turns, turn.speaker ≠ "")
    (hlabeled : Labeled turns p.segments) (h : fromTurns config name turns plain p = some t) :
    ∃ source, t = normalized source ∧ Labeled turns source.segments := by
  rw [fromTurns] at h
  split at h
  · obtain ⟨whole, -, rfl⟩ := Option.map_eq_some_iff.mp h
    exact ⟨_, rfl, labeled_aligned whole.segments hne hnamed⟩
  · obtain rfl := Option.some.inj h
    exact ⟨_, rfl, labeled_perTurnSegments config hlabeled⟩

/-- Only the model and the language can depend on the order of the calls. -/
theorem fromTurns_same (hsame : p.segments = q.segments) :
    (fromTurns config name turns plain p).map (fun t => (t.text, t.segments)) =
      (fromTurns config name turns plain q).map fun t => (t.text, t.segments) := by
  rw [fromTurns, fromTurns, hsame]
  split <;> rfl

theorem transcribe_of_turns (henabled : config.enabled = true) (hne : rawTurns ≠ []) :
    transcribeWithDiarization config name (some rawTurns) plain p =
      fromTurns config name (coalesceTurns rawTurns (35 / 100)) plain p := by
  rw [transcribeWithDiarization, henabled]
  exact if_neg (coalesceTurns_ne_nil hne)

end

section
open PerTurnTranscription
open RunInvariant (run run_invariant)

theorem segments_of_run {tools : Tools} {input : Input} {events : List ℕ} {p : Pool}
    (h : run (step tools input) (start input) events = some p) (hdone : ∀ worker ∈ p.workers, worker = .done) :
    p.segments = oneByOne tools input :=
  (run_invariant (Inv tools input) (fun _ _ _ hinv hstep => inv_step hinv hstep) (inv_start tools input) h).segments_eq
    hdone

/-- Where the diarization finds turns, every segment of the result has a text and the
speaker of a turn, on whichever way it was found; and the text and the segments do not
depend on the order in which the calls of the workers settle. -/
theorem speakers_in_any_order (config : DiarizationConfig) (name : JsString) (language : Option JsString)
    (rawTurns : List DiarizationTurn) (plain : Option Transcript) (tools : Tools) {events events' : List ℕ} {p p' : Pool}
    (henabled : config.enabled = true) (hne : rawTurns ≠ []) (hnamed : ∀ turn ∈ rawTurns, turn.speaker ≠ "")
    (h : run (step tools (perTurnInput config language rawTurns)) (start (perTurnInput config language rawTurns))
      events = some p) (hdone : ∀ worker ∈ p.workers, worker = .done)
    (h' : run (step tools (perTurnInput config language rawTurns)) (start (perTurnInput config language rawTurns))
      events' = some p') (hdone' : ∀ worker ∈ p'.workers, worker = .done) :
    (∀ t ∈ transcribeWithDiarization config name (some rawTurns) plain p, ∀ segment ∈ t.segments, segment.text ≠ [] ∧
        ∃ turn ∈ rawTurns, segment.speaker = some turn.speaker) ∧
      (transcribeWithDiarization config name (some rawTurns) plain p).map (fun t => (t.text, t.segments)) =
        (transcribeWithDiarization config name (some rawTurns) plain p').map fun t => (t.text, t.segments) := by
  have hsegments := segments_of_run h hdone
  rw [transcribe_of_turns henabled hne, transcribe_of_turns henabled hne]
  constructor
  · intro t ht segment hsegment
    have hnamed' : ∀ turn ∈ coalesceTurns rawTurns (35 / 100), turn.speaker ≠ "" := by
      intro turn hturn
      obtain ⟨raw, hraw, hsame⟩ := exists_raw_turn hturn
      exact hsame ▸ hnamed raw hraw
    have hlabeled : Labeled (coalesceTurns rawTurns (35 / 100)) p.segments :=
      hsegments ▸ labeled_oneByOne tools (perTurnInput config language rawTurns)
    obtain ⟨source, rfl, hsource⟩ := fromTurns_cases (coalesceTurns_ne_nil hne) hnamed' hlabeled ht
    exact ⟨(mem_normalized hsegment).1, (labeled_normalized hsource).raw segment hsegment⟩
  · exact fromTurns_same (hsegments.trans (segments_of_run h' hdone').symm)

def sampleTurns : List DiarizationTurn := [⟨2, 3, "SPEAKER_01"⟩, ⟨0, 1, "SPEAKER_00"⟩]

def sampleConfig : DiarizationConfig := ⟨true, .cloud, none, js "precision-2", none, none⟩

def sampleInput : Input := perTurnInput sampleConfig none sampleTurns

def sampleTools : Tools := ⟨fun _ _ _ => true, fun clip => some ⟨js (toString clip), js "whisper", []⟩⟩

/-- Two turns in the hands of two workers, of whom the second may be first. -/
theorem speakers_in_two_orders : ∃ p p' : Pool,
    (∀ t ∈ transcribeWithDiarization sampleConfig (js "whisper") (some sampleTurns) none p, ∀ segment ∈ t.segments,
        segment.text ≠ [] ∧ ∃ turn ∈ sampleTurns, segment.speaker = some turn.speaker) ∧
      (transcribeWithDiarization sampleConfig (js "whisper") (some sampleTurns) none p).map
          (fun t => (t.text, t.segments)) =
        (transcribeWithDiarization sampleConfig (js "whisper") (some sampleTurns) none p').map
          fun t => (t.text, t.segments) := by
  have hrun : ∀ events ∈ [[0, 0, 1, 1], [1, 1, 0, 0]], ∃ p, run (step sampleTools sampleInput) (start sampleInput) events =
      some p ∧ ∀ worker ∈ p.workers, worker = .done := by
    have hdone : ∀ events ∈ [[0, 0, 1, 1], [1, 1, 0, 0]],
        (run (step sampleTools sampleInput) (start sampleInput) events).map Pool.workers = some [.done, .done] := by
      decide +kernel
    intro events hevents
    obtain ⟨p, hp, hworkers⟩ := Option.map_eq_some_iff.mp (hdone events hevents)
    refine ⟨p, hp, ?_⟩
    rw [hworkers]
    simp
  obtain ⟨p, hp, hdone⟩ := hrun [0, 0, 1, 1] (by decide)
  obtain ⟨p', hp', hdone'⟩ := hrun [1, 1, 0, 0] (by decide)
  exact ⟨p, p', speakers_in_any_order sampleConfig (js "whisper") none sampleTurns none sampleTools rfl (by decide)
    (by decide) hp hdone hp' hdone'⟩

end

end ModelForge.DiarizedTranscript
