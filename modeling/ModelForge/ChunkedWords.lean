import ModelForge.TextChunks

set_option autoImplicit false

/-!
# Words and progress of the chunks

Which words `chunkText` leaves whole in some chunk, and which of its rounds get
further than the round before.
-/
namespace ModelForge.ChunkedWords
open EventStream (JsString js)
open ReservationCover (isWhiteSpace trim)
open TextChunks
open WindowCuts

variable {source : JsString} {a b : ℕ}

/-! ## Words -/

/-- A run of characters that are no blanks, between blanks or the ends of the text. -/
structure WordAt (source : JsString) (a b : ℕ) : Prop where
  nonempty : a < b
  le_length : b ≤ source.length
  letters : ∀ p, a ≤ p → p < b → ¬ BlankAt source p
  before : a = 0 ∨ BlankAt source (a - 1)
  behind : b = source.length ∨ BlankAt source b

/-- How many blanks stand directly before the position. -/
def gapBefore (source : JsString) (a : ℕ) : ℕ := ((source.take a).rtakeWhile isWhiteSpace).length

theorem gap_blanks (ha : a ≤ source.length) :
    gapBefore source a ≤ a ∧ (∀ p, a - gapBefore source a ≤ p → p < a → BlankAt source p) ∧
      (a - gapBefore source a = 0 ∨ ¬ BlankAt source (a - gapBefore source a - 1)) := by
  let kept := (source.take a).rdropWhile isWhiteSpace
  let gap := (source.take a).rtakeWhile isWhiteSpace
  have hsplit : kept ++ gap = source.take a := List.rdropWhile_append_rtakeWhile ..
  have hlength : kept.length + gapBefore source a = a := by
    have := congrArg List.length hsplit
    rw [List.length_append, List.length_take, Nat.min_eq_left ha] at this
    exact this
  have hget (p : ℕ) (hp : p < a) : source[p]? = (kept ++ gap)[p]? := by
    rw [hsplit, List.getElem?_take, if_pos hp]
  have hstart : a - gapBefore source a = kept.length := by omega
  rw [hstart]
  refine ⟨by omega, fun p hle hlt => ?_, ?_⟩
  · have hinside : p - kept.length < gap.length := by
      change p - kept.length < gapBefore source a
      omega
    refine blankAt_iff.mpr ⟨gap[p - kept.length], ?_, List.mem_rtakeWhile_imp (List.getElem_mem hinside)⟩
    rw [hget p hlt, List.getElem?_append_right hle, List.getElem?_eq_getElem hinside]
  · by_cases hnil : kept = []
    · exact .inl (by rw [hnil]; rfl)
    · refine .inr fun hblank => ?_
      have hpos := List.length_pos_iff.mpr hnil
      obtain ⟨c, hc, hspace⟩ := blankAt_iff.mp hblank
      rw [hget _ (by omega), List.getElem?_append_left (by omega), ← List.getLast?_eq_getElem?,
        List.getLast?_eq_some_getLast hnil] at hc
      have hlast := List.rdropWhile_last_not isWhiteSpace (source.take a) hnil
      exact hlast (Option.some.inj hc ▸ hspace)

/-- A word of the text is a word of its frame. -/
theorem WordAt.inFrame (h : WordAt source a b) {maxChars overlap : ℕ} (hlt : overlap < maxChars) :
    (frame source hlt).Word (a - gapBefore source a) a b := by
  have hne := h.nonempty
  have hb := h.le_length
  have hlength : a ≤ source.length := by omega
  obtain ⟨hle, hblanks, hbefore⟩ := gap_blanks hlength
  refine ⟨Nat.sub_le _ _, hne, hb, hblanks, h.letters, h.behind, ?_⟩
  by_cases hzero : a - gapBefore source a = 0
  · exact .inl hzero
  · have hletter := hbefore.resolve_left hzero
    have hgap : 0 < gapBefore source a := by
      by_contra hnone
      rw [Nat.eq_zero_of_not_pos hnone, Nat.sub_zero] at hletter hzero
      exact hletter (h.before.resolve_left hzero)
    refine .inr ⟨by omega, ?_, hblanks _ le_rfl (by omega), hletter⟩
    change _ < source.length
    omega

/-- What is asked of the windows: a word that fits into a chunk is whole in one. -/
def KeepsWords (source : JsString) (maxChars : ℕ) (ws : List Window) : Prop :=
  ∀ a b, WordAt source a b → b - a ≤ maxChars →
    ∃ w ∈ ws, chunkOf source w ≠ [] ∧ w.start ≤ a ∧ b ≤ w.stop

theorem contains_iff_chunk (h : WordAt source a b) (ws : List Window) :
    Frame.Contains ws a b ↔ ∃ w ∈ ws, chunkOf source w ≠ [] ∧ w.start ≤ a ∧ b ≤ w.stop := by
  have hne := h.nonempty
  have hb := h.le_length
  constructor
  · intro ⟨w, hw, hstart, hstop⟩
    refine ⟨w, hw, ?_, hstart, hstop⟩
    exact chunkOf_ne_nil hstart (by omega) (by omega) (h.letters a le_rfl hne)
  · intro ⟨w, hw, _, hcontains⟩
    exact ⟨w, hw, hcontains⟩

variable {text : JsString} {fuel : ℕ} {maxChars : ℤ}

/-- A round that begins in the blanks before a word counts them towards its width.
A word is kept exactly where what the steps of such rounds leave of the blanks
fits into a chunk with it. -/
theorem keeps_words_iff (hmax : 1 ≤ maxChars) (hsafe : isSafeInteger maxChars = true) (overlapChars : ℤ)
    (hfuel : text.length < fuel) :
    ∃ ws, chunkRounds fuel text maxChars overlapChars = some (.ok ws) ∧
      (KeepsWords (trim text) (width maxChars) ws ↔
        ∀ a b, WordAt (trim text) a b → b - a ≤ width maxChars →
          gapBefore (trim text) a % (width maxChars - reach maxChars overlapChars) + (b - a) ≤
            width maxChars) := by
  obtain ⟨ws, hws, hcases⟩ := chunkRounds_windows hmax hsafe overlapChars hfuel
  refine ⟨ws, hws, ?_⟩
  rcases hcases with ⟨hempty, rfl⟩ | ⟨hne, hwindows⟩
  · have hnone : ∀ a b, ¬ WordAt (trim text) a b := by
      intro a b h
      have := h.nonempty
      have := h.le_length
      rw [hempty, List.length_nil] at this
      omega
    exact iff_of_true (fun a b h => absurd h (hnone a b)) fun a b h => absurd h (hnone a b)
  · have hpos := List.length_pos_iff.mpr hne
    refine forall_congr' fun a => forall_congr' fun b => ?_
    refine forall_congr' fun hword => forall_congr' fun _ => ?_
    have hframe := hword.inFrame (reach_lt_width hmax overlapChars)
    have hle := (gap_blanks (hword.nonempty.le.trans hword.le_length)).1
    have hiff := hwindows.contains_iff hpos hframe (Nat.zero_le _)
    rw [Nat.sub_sub_self hle] at hiff
    rw [← contains_iff_chunk hword]
    exact hiff

/-- Blanks of which the steps leave nothing. -/
theorem keeps_words_wide_gap :
    ∃ ws, chunkRounds 9 (js "ab   cde") 3 0 = some (.ok ws) ∧
      (KeepsWords (trim (js "ab   cde")) (width 3) ws ↔
        ∀ a b, WordAt (trim (js "ab   cde")) a b → b - a ≤ width 3 →
          gapBefore (trim (js "ab   cde")) a % (width 3 - reach 3 0) + (b - a) ≤ width 3) :=
  keeps_words_iff (by decide) (by decide) 0 (by decide)

/-- The second word is as long as a chunk may be, and the round begins with the
blank before it. -/
theorem full_word_broken :
    ∃ ws, chunkRounds 12 (js "aaaaa bbbbb") 5 0 = some (.ok ws) ∧
      ¬ KeepsWords (trim (js "aaaaa bbbbb")) 5 ws := by
  refine ⟨[⟨0, 5⟩, ⟨5, 10⟩, ⟨10, 11⟩], by decide +kernel, fun h => ?_⟩
  have hword : WordAt (trim (js "aaaaa bbbbb")) 6 11 := by
    refine ⟨by decide, by decide, ?_, by decide, by decide⟩
    intro p hle hlt
    have hcases : p = 6 ∨ p = 7 ∨ p = 8 ∨ p = 9 ∨ p = 10 := by omega
    rcases hcases with rfl | rfl | rfl | rfl | rfl <;> decide
  obtain ⟨w, hw, _, hstart, hstop⟩ := h 6 11 hword (by decide)
  simp only [List.mem_cons, List.not_mem_nil, or_false] at hw
  rcases hw with rfl | rfl | rfl
  · exact absurd hstop (by decide)
  · exact absurd hstop (by decide)
  · exact absurd hstart (by decide)

/-! ## Progress -/

/-- A run of blanks begins at the position. -/
def RunStart (source : JsString) (p : ℕ) : Prop :=
  0 < p ∧ p < source.length ∧ BlankAt source p ∧ ¬ BlankAt source (p - 1)

/-- The state before a round that ends at the run of blanks at `e`: the overlap
does not reach back behind the start of the round, or it leaves room for the end
of the text or for the next run of blanks. -/
def Advances (source : JsString) (maxChars overlap start : ℕ) : Prop :=
  ∀ e, start + maxChars < source.length → RunStart source e → start < e → e ≤ start + maxChars →
    (∀ p, e < p → p ≤ start + maxChars → ¬ RunStart source p) →
    overlap = 0 ∨ e ≤ start + overlap ∨ source.length ≤ e - overlap + maxChars ∨
      ∃ p, RunStart source p ∧ e < p ∧ p ≤ e - overlap + maxChars

/-- What is asked of the rounds: each ends behind the one before, and each chunk
has a character that is no blank and not in the interval of the chunk before. -/
structure StrictProgress (source : JsString) (ws : List Window) : Prop where
  stops : ws.IsChain fun w w' => w.stop < w'.stop
  chunks : (giving source ws).IsChain fun w w' =>
    ∃ p, w'.start ≤ p ∧ p < w'.stop ∧ ¬ BlankAt source p ∧ ¬ (w.start ≤ p ∧ p < w.stop)

theorem exists_letter {w : Window} (h : chunkOf source w ≠ []) :
    ∃ p, w.start ≤ p ∧ p < w.stop ∧ ¬ BlankAt source p := by
  have hsome : ∃ c ∈ SpacedText.slice source w.start w.stop, isWhiteSpace c = false := by
    by_contra hall
    push Not at hall
    exact h (SpacedText.trim_eq_nil_iff.mpr fun c hc => by simpa using hall c hc)
  obtain ⟨c, hc, hletter⟩ := hsome
  obtain ⟨i, hi⟩ := List.getElem?_of_mem hc
  rw [SpacedText.getElem?_slice] at hi
  split at hi
  next hlt =>
    refine ⟨w.start + i, Nat.le_add_right _ _, hlt, ?_⟩
    rw [blankAt_iff]
    intro ⟨d, hd, hspace⟩
    rw [hi] at hd
    rw [← Option.some.inj hd, hletter] at hspace
    cases hspace
  next => cases hi

theorem last_not_blank (hne : trim text ≠ []) : ¬ BlankAt (trim text) ((trim text).length - 1) := by
  obtain ⟨rest, c, heq, hc⟩ := (SpacedText.framed_trim hne).last
  rw [← trim_eq] at heq
  rw [blankAt_iff, heq, List.length_append, List.length_singleton, Nat.add_sub_cancel,
    List.getElem?_concat_length]
  intro ⟨d, hd, hspace⟩
  rw [← Option.some.inj hd, hc] at hspace
  cases hspace

/-- The last character of the interval of a chunk is new where its end is. -/
theorem chunks_of_stops {maxChars overlap : ℕ} (h : overlap < maxChars) (hne : trim text ≠ []) {ws : List Window}
    (hws : (frame (trim text) h).Windows 0 ws) (hstops : ws.IsChain fun w w' => w.stop < w'.stop) :
    StrictProgress (trim text) ws := by
  refine ⟨hstops, ?_⟩
  have hpairs : ws.Pairwise fun w w' => w.stop < w'.stop :=
    List.isChain_iff_pairwise (R := fun w w' : Window => w.stop < w'.stop) |>.mp hstops
  have hgiving : (giving (trim text) ws).Pairwise fun w w' => w.stop < w'.stop := hpairs.filter _
  refine List.Pairwise.isChain (hgiving.imp_of_mem fun {w w'} hw hw' hlt => ?_)
  obtain ⟨hmem, hchunk⟩ := List.mem_filter.mp hw'
  obtain ⟨q, hstart, hstop, hletter⟩ := exists_letter (of_decide_eq_true hchunk)
  have hlast := (hws.cut w' hmem).letter_last (last_not_blank hne) hstart hstop hletter
  exact ⟨w'.stop - 1, by omega, by omega, hlast, by omega⟩

/-- The rounds make progress exactly where each begins in a state that advances. -/
theorem strict_progress_iff (hmax : 1 ≤ maxChars) (hsafe : isSafeInteger maxChars = true) (overlapChars : ℤ)
    (hfuel : text.length < fuel) :
    ∃ ws, chunkRounds fuel text maxChars overlapChars = some (.ok ws) ∧
      (StrictProgress (trim text) ws ↔
        ∀ w ∈ ws, Advances (trim text) (width maxChars) (reach maxChars overlapChars) w.start) := by
  obtain ⟨ws, hws, hcases⟩ := chunkRounds_windows hmax hsafe overlapChars hfuel
  refine ⟨ws, hws, ?_⟩
  rcases hcases with ⟨_, rfl⟩ | ⟨hne, hwindows⟩
  · exact iff_of_true ⟨List.isChain_nil, List.isChain_nil⟩ fun w hw => by cases hw
  · have hiff := hwindows.stops_iff (List.length_pos_iff.mpr hne)
    constructor
    · intro hprogress
      exact hiff.mp hprogress.stops
    · intro hadvances
      exact chunks_of_stops _ hne hwindows (hiff.mpr hadvances)

theorem strict_progress_short_words :
    ∃ ws, chunkRounds 9 (js "a bc de") 5 2 = some (.ok ws) ∧
      (StrictProgress (trim (js "a bc de")) ws ↔
        ∀ w ∈ ws, Advances (trim (js "a bc de")) (width 5) (reach 5 2) w.start) :=
  strict_progress_iff (by decide) (by decide) 2 (by decide)

/-- The overlap reaches back over "bb", and the long word does not fit behind it. -/
theorem second_chunk_within_first :
    ∃ ws, chunkRounds 17 (js "aaa bb cccccccc") 8 4 = some (.ok ws) ∧
      chunkText 17 (js "aaa bb cccccccc") 8 4 =
        some (.ok [js "aaa bb", js "a bb", js "ccccccc", js "ccccc"]) ∧
      ¬ StrictProgress (trim (js "aaa bb cccccccc")) ws := by
  refine ⟨[⟨0, 6⟩, ⟨2, 6⟩, ⟨6, 14⟩, ⟨10, 15⟩], by decide +kernel, by decide +kernel, fun h => ?_⟩
  have hstops := h.stops
  rw [List.isChain_cons_cons] at hstops
  exact absurd hstops.1 (by decide)

/-- Without an overlap every state advances. -/
theorem advances_of_no_overlap (source : JsString) (maxChars : ℤ) {overlapChars : ℤ}
    (h : overlapChars ≤ 0) (start : ℕ) :
    Advances source (width maxChars) (reach maxChars overlapChars) start := by
  intro e _ _ _ _ _
  left
  unfold reach clampOverlap
  omega

end ModelForge.ChunkedWords
