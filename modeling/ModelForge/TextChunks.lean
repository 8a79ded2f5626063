import ModelForge.ReservationCover
import ModelForge.SpacedText
import ModelForge.WindowCuts

set_option autoImplicit false

/-!
# Chunks of a text

`chunkText` lays windows over the trimmed text and cuts them at blanks. Indices
count code units.
-/
namespace ModelForge.TextChunks
open EventStream (JsString js)
open PatternScan (Regex Pattern)
open ReservationCover (isWhiteSpace trim)
open SpacedText (slice)
open WindowCuts

/-! ## The function -/

structure RangeError where
  message : String
deriving DecidableEq

def isSafeInteger (n : ℤ) : Bool := -(2 ^ 53 - 1) ≤ n && n ≤ 2 ^ 53 - 1

/-- `/\s+\S*$/` -/
def lastBlanks : Pattern UInt16 where
  before _ _ := true
  body := .seq (.many isWhiteSpace 1) (.many (fun u => !isWhiteSpace u) 0)
  after _ next := next.isNone
  consumes := by decide

/-- `end`, which a round of the loop chooses. -/
def chunkEnd (source : JsString) (maxChars start : ℕ) : ℕ :=
  let stop := min (start + maxChars) source.length
  if stop < source.length then
    match lastBlanks.search (slice source start (stop + 1)) with
    | some boundary => if 0 < boundary then start + boundary else stop
    | none => stop
  else stop

def nextStart (overlap start stop : ℕ) : ℕ :=
  if stop - overlap ≤ start then stop else stop - overlap

/-- The rounds of the loop from `start` on. -/
def rounds (source : JsString) (maxChars overlap : ℕ) : ℕ → ℕ → Option (List Window)
  | 0, _ => none
  | fuel + 1, start =>
    if start < source.length then
      let stop := chunkEnd source maxChars start
      if source.length ≤ stop then some [⟨start, stop⟩]
      else (rounds source maxChars overlap fuel (nextStart overlap start stop)).map (⟨start, stop⟩ :: ·)
    else some []

def clampOverlap (maxChars overlapChars : ℤ) : ℤ := max 0 (min overlapChars (maxChars - 1))

def chunkRounds (fuel : ℕ) (text : JsString) (maxChars overlapChars : ℤ) :
    Option (Except RangeError (List Window)) :=
  if ¬ isSafeInteger maxChars ∨ maxChars ≤ 0 then
    some (.error ⟨"maxChars must be a positive integer"⟩)
  else
    let overlap := clampOverlap maxChars overlapChars
    let source := trim text
    if source = [] then some (.ok [])
    else (rounds source maxChars.toNat overlap.toNat fuel 0).map .ok

/-- The text of a round, which is a chunk unless it is empty. -/
def chunkOf (source : JsString) (w : Window) : JsString := trim (slice source w.start w.stop)

def chunkText (fuel : ℕ) (text : JsString) (maxChars overlapChars : ℤ) :
    Option (Except RangeError (List JsString)) :=
  (chunkRounds fuel text maxChars overlapChars).map fun result =>
    result.map fun windows => (windows.map (chunkOf (trim text))).filter (· ≠ [])

example : chunkText 40 (js "alpha bravo charlie delta echo foxtrot") 18 6 =
    some (.ok [js "alpha bravo", js "bravo charlie", js "harlie delta echo", js "a echo foxtrot"]) := by
  decide +kernel

/-! ## The frame of a text -/

theorem trim_eq (text : JsString) : trim text = SpacedText.trim isWhiteSpace text := rfl

/-- The character at the position is a blank. -/
def BlankAt (text : JsString) (p : ℕ) : Prop := text[p]?.any isWhiteSpace = true

instance (text : JsString) (p : ℕ) : Decidable (BlankAt text p) :=
  inferInstanceAs (Decidable (_ = true))

def frame (source : JsString) {maxChars overlap : ℕ} (h : overlap < maxChars) : Frame :=
  ⟨source.length, maxChars, overlap, BlankAt source, h⟩

theorem blankAt_iff {text : JsString} {p : ℕ} :
    BlankAt text p ↔ ∃ c, text[p]? = some c ∧ isWhiteSpace c = true := by
  unfold BlankAt
  cases text[p]? <;> simp

/-- A match of `/\s+\S*$/` is a run of blanks with no other behind it. -/
theorem lastBlanks_iff {t : JsString} {i : ℕ} : lastBlanks.MatchesAt t i ↔
    ∃ u v, t.drop i = u ++ v ∧ u ≠ [] ∧ (∀ c ∈ u, isWhiteSpace c = true) ∧
      ∀ c ∈ v, isWhiteSpace c = false := by
  constructor
  · intro ⟨w, rest, ht, hw⟩
    obtain ⟨u, v, hu, hv, rfl⟩ := hw.lang
    have hrest : rest = [] := by
      have := hw.after
      simpa [lastBlanks] using this
    rw [hrest, List.append_nil] at ht
    refine ⟨u, v, ht, List.ne_nil_of_length_pos hu.1, hu.2, fun c hc => ?_⟩
    simpa using hv.2 c hc
  · rintro ⟨u, v, ht, hne, hu, hv⟩
    refine ⟨u ++ v, [], by rw [ht, List.append_nil], ⟨u, v, ⟨List.length_pos_iff.mpr hne, hu⟩, ?_, rfl⟩,
      rfl, rfl⟩
    exact ⟨Nat.zero_le _, fun c hc => by simp [hv c hc]⟩

variable {t : JsString} {i p : ℕ}

theorem blankAt_of_match (h : lastBlanks.MatchesAt t i) : BlankAt t i := by
  obtain ⟨u, v, ht, hne, hu, _⟩ := lastBlanks_iff.mp h
  obtain ⟨c, rest, rfl⟩ := List.exists_cons_of_ne_nil hne
  refine blankAt_iff.mpr ⟨c, ?_, hu c List.mem_cons_self⟩
  rw [← Nat.add_zero i, ← List.getElem?_drop, ht]
  rfl

/-- Behind a match no run of blanks begins. -/
theorem blankAt_pred_of_match (h : lastBlanks.MatchesAt t i) (hp : i < p) (hblank : BlankAt t p) :
    BlankAt t (p - 1) := by
  obtain ⟨u, v, ht, _, hu, hv⟩ := lastBlanks_iff.mp h
  have hget (q : ℕ) (hq : i ≤ q) : t[q]? = (u ++ v)[q - i]? := by
    rw [← ht, List.getElem?_drop, Nat.add_sub_cancel' hq]
  obtain ⟨c, hc, hspace⟩ := blankAt_iff.mp hblank
  rw [hget p hp.le] at hc
  have hinside : p - i < u.length := by
    by_contra hge
    rw [List.getElem?_append_right (by omega)] at hc
    rw [hv c (List.mem_of_getElem? hc)] at hspace
    cases hspace
  have hlt : p - 1 - i < u.length := by omega
  refine blankAt_iff.mpr ⟨u[p - 1 - i], ?_, hu _ (List.getElem_mem hlt)⟩
  rw [hget (p - 1) (by omega), List.getElem?_append_left hlt, List.getElem?_eq_getElem hlt]

theorem match_pred (h : lastBlanks.MatchesAt t (i + 1)) (hblank : BlankAt t i) :
    lastBlanks.MatchesAt t i := by
  obtain ⟨u, v, ht, hne, hu, hv⟩ := lastBlanks_iff.mp h
  obtain ⟨c, hc, hspace⟩ := blankAt_iff.mp hblank
  refine lastBlanks_iff.mpr ⟨c :: u, v, ?_, List.cons_ne_nil _ _, ?_, hv⟩
  · obtain ⟨hi, rfl⟩ := List.getElem?_eq_some_iff.mp hc
    rw [List.drop_eq_getElem_cons hi, ht]
    rfl
  · simpa [hspace] using hu

/-- A text with a blank has a match, the last run of blanks. -/
theorem not_blankAt_of_no_match (h : ∀ i, ¬ lastBlanks.MatchesAt t i) (p : ℕ) : ¬ BlankAt t p := by
  intro hblank
  have hexists : ∃ q, BlankAt t q ∧ ∀ q', q < q' → ¬ BlankAt t q' := by
    have hbound : ∀ q, BlankAt t q → q ≤ t.length := by
      intro q hq
      obtain ⟨c, hc, _⟩ := blankAt_iff.mp hq
      exact (List.getElem?_eq_some_iff.mp hc).1.le
    refine ⟨Nat.findGreatest (BlankAt t) t.length, ?_, fun q' hq' hb => ?_⟩
    · exact Nat.findGreatest_spec (hbound p hblank) hblank
    · have := Nat.le_findGreatest (hbound q' hb) hb
      omega
  obtain ⟨q, hq, hlast⟩ := hexists
  obtain ⟨c, hc, hspace⟩ := blankAt_iff.mp hq
  obtain ⟨hlt, rfl⟩ := List.getElem?_eq_some_iff.mp hc
  refine h q (lastBlanks_iff.mpr ⟨[t[q]], t.drop (q + 1), ?_, List.cons_ne_nil _ _, by simpa using hspace, ?_⟩)
  · rw [List.drop_eq_getElem_cons hlt]
    rfl
  · intro d hd
    obtain ⟨j, hj⟩ := List.getElem?_of_mem hd
    rw [List.getElem?_drop] at hj
    cases hdspace : isWhiteSpace d with
    | false => rfl
    | true => exact absurd (blankAt_iff.mpr ⟨d, hj, hdspace⟩) (hlast _ (by omega))

theorem blankAt_slice {source : JsString} {start stop j : ℕ} :
    BlankAt (slice source start stop) j ↔ start + j < stop ∧ BlankAt source (start + j) := by
  rw [BlankAt, SpacedText.getElem?_slice]
  by_cases h : start + j < stop
  · rw [if_pos h, and_iff_right h]
    rfl
  · rw [if_neg h]
    simp [h]

variable {source : JsString} {maxChars overlap start : ℕ}

/-- The end that a round chooses is where the window of the frame is cut. -/
theorem chunkEnd_cut (h : overlap < maxChars) :
    (frame source h).Cut start (chunkEnd source maxChars start) := by
  by_cases hinner : start + maxChars < source.length
  · have hstop : min (start + maxChars) source.length = start + maxChars := min_eq_left hinner.le
    let window := slice source start (start + maxChars + 1)
    have hwindow (q : ℕ) (hq : start ≤ q) (hle : q ≤ start + maxChars) :
        BlankAt window (q - start) ↔ BlankAt source q := by
      rw [blankAt_slice, Nat.add_sub_cancel' hq]
      exact and_iff_right (by omega)
    have hno_run {i : ℕ} (hmatch : lastBlanks.MatchesAt window i) (q : ℕ) (hlt : start + i < q)
        (hle : q ≤ start + maxChars) : ¬ (frame source h).RunStart q := by
      intro ⟨_, _, hblank, hletter⟩
      have hpred := blankAt_pred_of_match (p := q - start) hmatch (by omega)
        ((hwindow q (by omega) hle).mpr hblank)
      rw [show q - start - 1 = q - 1 - start by omega, hwindow (q - 1) (by omega) (by omega)] at hpred
      exact hletter hpred
    have hend : chunkEnd source maxChars start =
        match lastBlanks.search window with
        | some boundary => if 0 < boundary then start + boundary else start + maxChars
        | none => start + maxChars := by
      simp only [chunkEnd, hstop, if_pos hinner]
      rfl
    rw [hend]
    cases hsearch : lastBlanks.search window with
    | none =>
      refine .hard hinner fun q hlt hle hrun => ?_
      have hnone := not_blankAt_of_no_match (PatternScan.Pattern.search_eq_none hsearch) (q - start)
      exact hnone ((hwindow q hlt.le hle).mpr hrun.2.2.1)
    | some boundary =>
      obtain ⟨hmatch, hfirst⟩ := PatternScan.Pattern.search_eq_some hsearch
      cases boundary with
      | zero =>
        refine .hard hinner fun q hlt hle => ?_
        exact hno_run hmatch q (by omega) hle
      | succ i =>
        have hblank := blankAt_slice.mp (blankAt_of_match hmatch)
        change (frame source h).Cut start (if 0 < i + 1 then start + (i + 1) else start + maxChars)
        rw [if_pos (Nat.succ_pos i)]
        refine .soft hinner ⟨by omega, by change _ < source.length; omega, hblank.2, ?_⟩ (by omega) ?_ ?_
        · intro hpred
          refine hfirst i (Nat.lt_succ_self i) (match_pred hmatch ?_)
          exact blankAt_slice.mpr ⟨by omega, hpred⟩
        · change _ ≤ start + maxChars
          omega
        · exact fun q hlt hle => hno_run hmatch q hlt hle
  · have hend : chunkEnd source maxChars start = source.length := by
      simp only [chunkEnd, min_eq_right (Nat.not_lt.mp hinner), Nat.lt_irrefl, if_false]
    rw [hend]
    exact .last (Nat.not_lt.mp hinner)

theorem nextStart_eq (h : overlap < maxChars) (start stop : ℕ) :
    nextStart overlap start stop = (frame source h).next start stop := rfl

/-- With enough fuel the loop ends, and its rounds are the windows of the frame. -/
theorem rounds_windows (h : overlap < maxChars) {fuel : ℕ} (hstart : start < source.length)
    (hfuel : source.length < fuel + start) :
    ∃ ws, rounds source maxChars overlap fuel start = some ws ∧ (frame source h).Windows start ws := by
  induction fuel generalizing start with
  | zero => omega
  | succ fuel ih =>
    have hcut : (frame source h).Cut start (chunkEnd source maxChars start) := chunkEnd_cut h
    by_cases hlast : source.length ≤ chunkEnd source maxChars start
    · have heq : chunkEnd source maxChars start = source.length := le_antisymm hcut.stop_le.2 hlast
      rw [heq] at hcut
      refine ⟨[⟨start, source.length⟩], ?_, .last hcut⟩
      rw [rounds, if_pos hstart]
      dsimp only
      rw [if_pos hlast, heq]
    · have hstop := Nat.not_le.mp hlast
      have hnext := Frame.next_lt_length hcut hstart hstop
      have hless : (frame source h).next start (chunkEnd source maxChars start) < source.length := hnext.2.2
      obtain ⟨ws, hws, hwindows⟩ := ih hless (by omega)
      refine ⟨⟨start, chunkEnd source maxChars start⟩ :: ws, ?_, .more hcut hstop hwindows⟩
      rw [rounds, if_pos hstart]
      dsimp only
      rw [if_neg hlast, nextStart_eq h, hws]
      rfl

/-! ## The chunks of a text -/

def width (maxChars : ℤ) : ℕ := maxChars.toNat

/-- How far a window reaches back. -/
def reach (maxChars overlapChars : ℤ) : ℕ := (clampOverlap maxChars overlapChars).toNat

theorem reach_lt_width {maxChars : ℤ} (h : 1 ≤ maxChars) (overlapChars : ℤ) :
    reach maxChars overlapChars < width maxChars := by
  unfold reach width clampOverlap
  omega

variable {text : JsString} {fuel : ℕ}

/-- The loop ends with the windows of the trimmed text; there are none if it is
empty. -/
theorem chunkRounds_windows {maxChars : ℤ} (hmax : 1 ≤ maxChars) (hsafe : isSafeInteger maxChars = true)
    (overlapChars : ℤ) (hfuel : text.length < fuel) :
    ∃ ws, chunkRounds fuel text maxChars overlapChars = some (.ok ws) ∧
      (trim text = [] ∧ ws = [] ∨
        trim text ≠ [] ∧ (frame (trim text) (reach_lt_width hmax overlapChars)).Windows 0 ws) := by
  have hguard : ¬ (¬ isSafeInteger maxChars ∨ maxChars ≤ 0) := by
    intro h
    cases h with
    | inl h => exact h hsafe
    | inr h => omega
  by_cases hempty : trim text = []
  · exact ⟨[], by simp only [chunkRounds, if_neg hguard, if_pos hempty], .inl ⟨hempty, rfl⟩⟩
  · have hlength : (trim text).length ≤ text.length := SpacedText.length_trim_le _ _
    have hpos := List.length_pos_iff.mpr hempty
    have hroom : (trim text).length < fuel + 0 := by omega
    obtain ⟨ws, hws, hwindows⟩ := rounds_windows (reach_lt_width hmax overlapChars) hpos hroom
    refine ⟨ws, ?_, .inr ⟨hempty, hwindows⟩⟩
    simp only [chunkRounds, if_neg hguard, if_neg hempty]
    exact congrArg (Option.map Except.ok) hws

/-- A window with a character that is no blank gives a chunk. -/
theorem chunkOf_ne_nil {source : JsString} {w : Window} {p : ℕ} (hstart : w.start ≤ p) (hstop : p < w.stop)
    (hlength : p < source.length) (hletter : ¬ BlankAt source p) : chunkOf source w ≠ [] := by
  intro hnil
  have hget := List.getElem?_eq_getElem hlength
  have hspace := SpacedText.trim_eq_nil_iff.mp hnil _ (SpacedText.mem_slice_iff.mpr ⟨p, hstart, hstop, hget⟩)
  exact hletter (blankAt_iff.mpr ⟨_, hget, hspace⟩)

theorem length_chunkOf_le (source : JsString) (w : Window) : (chunkOf source w).length ≤ w.stop - w.start := by
  have htrim := SpacedText.length_trim_le isWhiteSpace (slice source w.start w.stop)
  exact htrim.trans (SpacedText.length_slice_le _ _ _)

/-- What is asked of the chunks of a trimmed text: the intervals that they come
from, one for each, leave out none of its characters but blanks. -/
structure Covers (source : JsString) (maxChars : ℕ) (chunks : List JsString) (intervals : List Window) :
    Prop where
  taken : chunks = intervals.map (chunkOf source)
  interval : ∀ w ∈ intervals, w.start < w.stop ∧ w.stop ≤ source.length
  chunk : ∀ chunk ∈ chunks, chunk ≠ [] ∧ chunk.length ≤ maxChars
  starts : intervals.Pairwise fun w w' => w.start < w'.start
  covered : ∀ p < source.length, ¬ BlankAt source p → ∃ w ∈ intervals, w.start ≤ p ∧ p < w.stop

/-- The windows that give a chunk. -/
def giving (source : JsString) (ws : List Window) : List Window :=
  ws.filter fun w => chunkOf source w ≠ []

theorem covers_of_windows {source : JsString} {maxChars overlap : ℕ} {ws : List Window}
    (h : overlap < maxChars) (hne : source ≠ []) (hws : (frame source h).Windows 0 ws) :
    Covers source maxChars ((ws.map (chunkOf source)).filter (· ≠ [])) (giving source ws) := by
  have hpos : 0 < (frame source h).length := List.length_pos_iff.mpr hne
  constructor
  · rw [List.filter_map]
    rfl
  · intro w hw
    have hbounds := hws.bounds hpos w (List.mem_of_mem_filter hw)
    exact ⟨hbounds.2.1, hbounds.2.2.2⟩
  · intro chunk hchunk
    obtain ⟨hmem, hchunk⟩ := List.mem_filter.mp hchunk
    obtain ⟨w, hw, rfl⟩ := List.mem_map.mp hmem
    have hbounds : w.stop ≤ w.start + maxChars := (hws.bounds hpos w hw).2.2.1
    have hlength := length_chunkOf_le source w
    exact ⟨of_decide_eq_true hchunk, by omega⟩
  · exact (hws.starts hpos).filter _
  · intro p hp hletter
    obtain ⟨w, hw, hstart, hstop⟩ := hws.covers hpos (Nat.zero_le p) hp
    refine ⟨w, List.mem_filter.mpr ⟨hw, ?_⟩, hstart, hstop⟩
    exact decide_eq_true (chunkOf_ne_nil hstart hstop hp hletter)

/-- The windows of a text leave out none of its characters but blanks. -/
theorem chunkRounds_covers {maxChars : ℤ} (hmax : 1 ≤ maxChars) (hsafe : isSafeInteger maxChars = true)
    (overlapChars : ℤ) (hfuel : text.length < fuel) :
    ∃ ws, chunkRounds fuel text maxChars overlapChars = some (.ok ws) ∧
      Covers (trim text) maxChars.toNat ((ws.map (chunkOf (trim text))).filter (· ≠ []))
        (giving (trim text) ws) := by
  obtain ⟨ws, hws, hcases⟩ := chunkRounds_windows hmax hsafe overlapChars hfuel
  refine ⟨ws, hws, ?_⟩
  rcases hcases with ⟨hempty, rfl⟩ | ⟨hne, hwindows⟩
  · rw [hempty]
    exact ⟨rfl, by simp [giving], by simp, List.Pairwise.nil, by simp⟩
  · exact covers_of_windows _ hne hwindows

theorem chunkRounds_throws {maxChars : ℤ} (hthrows : isSafeInteger maxChars = false) (fuel : ℕ)
    (text : JsString) (overlapChars : ℤ) : chunkRounds fuel text maxChars overlapChars =
      some (.error ⟨"maxChars must be a positive integer"⟩) := by
  simp [chunkRounds, hthrows]

/-- `chunkText` ends for every text. What it takes for a positive integer, it
covers the text with; it throws for the others. -/
theorem chunkText_covers (text : JsString) (maxChars overlapChars : ℤ) (hmax : 1 ≤ maxChars) {fuel : ℕ}
    (hfuel : text.length < fuel) :
    (isSafeInteger maxChars = true → ∃ chunks intervals,
      chunkText fuel text maxChars overlapChars = some (.ok chunks) ∧
        Covers (trim text) maxChars.toNat chunks intervals) ∧
      (isSafeInteger maxChars = false → chunkText fuel text maxChars overlapChars =
        some (.error ⟨"maxChars must be a positive integer"⟩)) := by
  constructor
  · intro hsafe
    obtain ⟨ws, hws, hcovers⟩ := chunkRounds_covers hmax hsafe overlapChars hfuel
    refine ⟨(ws.map (chunkOf (trim text))).filter (· ≠ []), giving (trim text) ws, ?_, hcovers⟩
    rw [chunkText, hws]
    rfl
  · intro hthrows
    rw [chunkText, chunkRounds_throws hthrows]
    rfl

theorem chunkText_covers_words :
    (isSafeInteger 3 = true → ∃ chunks intervals, chunkText 9 (js "ab  cd e") 3 7 = some (.ok chunks) ∧
        Covers (trim (js "ab  cd e")) (3 : ℤ).toNat chunks intervals) ∧
      (isSafeInteger 3 = false → chunkText 9 (js "ab  cd e") 3 7 =
        some (.error ⟨"maxChars must be a positive integer"⟩)) :=
  chunkText_covers (js "ab  cd e") 3 7 (by decide) (by decide)

end ModelForge.TextChunks
