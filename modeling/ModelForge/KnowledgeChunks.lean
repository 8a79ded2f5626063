import ModelForge.TextChunks

set_option autoImplicit false

/-!
# Chunks of a knowledge document

`prepareKnowledgeChunks` cuts a document for retrieval: a list of questions and
answers at its third-level headings, any other text by `chunkText`.
-/
namespace ModelForge.KnowledgeChunks
open EventStream (JsString js)
open PatternScan (Pattern)
open ReservationCover (isWhiteSpace trim)
open SpacedText (slice)
open TextChunks
open WindowCuts (Window)

/-! ## The functions -/

abbrev Outcome (α : Type) := Option (Except RangeError (List α))

def isLineTerminator (u : UInt16) : Bool := u = 0x0A || u = 0x0D || u = 0x2028 || u = 0x2029

def numberSign (u : UInt16) : Bool := u = 0x23

def space (u : UInt16) : Bool := u = 0x20

/-- `/^### /m` -/
def sectionHeading : Pattern UInt16 where
  before prev _ := prev.all isLineTerminator
  body := .seq (.one numberSign) (.seq (.one numberSign) (.seq (.one numberSign) (.one space)))
  after _ _ := true
  consumes := by decide

def looksLikeFaqMarkdown (text : JsString) : Bool := 3 ≤ (sectionHeading.matchAll text).length

/-- Where `/(?=^### )/m` matches behind the start of the text. -/
def sectionStarts (text : JsString) : List ℕ :=
  (List.range text.length).filter fun i =>
    0 < i && (sectionHeading.matchAt (text.take i).getLast? (text.drop i)).isSome

/-- `text.split(/(?=^### )/m)`, as intervals of the text. -/
def sections (text : JsString) : List Window := WindowCuts.pieces text.length 0 (sectionStarts text)

/-- `block.startsWith("# ") || (block.startsWith("## ") && !block.startsWith("### "))` -/
def isTitle (block : JsString) : Bool :=
  (js "# ").isPrefixOf block || ((js "## ").isPrefixOf block && !(js "### ").isPrefixOf block)

/-- What a loop over the items pushes, which ends early if one of them throws. -/
def collect {α β : Type} (push : α → Outcome β) : List α → Outcome β
  | [] => some (.ok [])
  | item :: items =>
    match push item with
    | some (.ok pushed) => (collect push items).map fun rest => rest.map (pushed ++ ·)
    | some (.error e) => some (.error e)
    | none => none

def blockChunks (fuel : ℕ) (maxChars : ℤ) (block : JsString) : Outcome JsString :=
  if isTitle block then some (.ok [])
  else if block.length ≤ maxChars then some (.ok [block])
  else chunkText fuel block maxChars 80

def chunkFaqMarkdown (fuel : ℕ) (text : JsString) (maxChars : ℤ) : Outcome JsString :=
  collect (blockChunks fuel maxChars) (((sections text).map (chunkOf text)).filter (· ≠ []))

def SIMPLE_EMBEDDING_DIMENSIONS : ℕ := 64

def hashToken (token : JsString) : UInt32 :=
  token.foldl (fun hash u => (hash ^^^ u.toUInt32) * 0x01000193) 0x811c9dc5

section
variable (tokenize : JsString → List JsString)

def simpleEmbed (text : JsString) : List ℕ :=
  (tokenize text).foldl (fun vector token =>
    vector.modify ((hashToken token).toNat % SIMPLE_EMBEDDING_DIMENSIONS) (· + 1))
    (List.replicate SIMPLE_EMBEDDING_DIMENSIONS 0)

structure KnowledgeChunk where
  ordinal : ℕ
  content : JsString
  tokenCount : ℕ
  embedding : List ℕ
deriving DecidableEq

def knowledgeParts (fuel : ℕ) (content : JsString) (maxChars : ℤ) : Outcome JsString :=
  if looksLikeFaqMarkdown content then chunkFaqMarkdown fuel content (max maxChars 4000)
  else chunkText fuel content maxChars (min 120 (maxChars / 6))

def prepareKnowledgeChunks (fuel : ℕ) (content : JsString) (maxChars : ℤ) : Outcome KnowledgeChunk :=
  (knowledgeParts fuel content maxChars).map fun parts => parts.map fun parts =>
    parts.mapIdx fun ordinal chunk =>
      ⟨ordinal, chunk, (chunk.length + 3) / 4, simpleEmbed tokenize chunk⟩

end

/-! ## Where the chunks come from -/

/-- Where the trimmed text of a piece begins. -/
def lead (text : JsString) (w : Window) : ℕ :=
  w.start + ((slice text w.start w.stop).takeWhile isWhiteSpace).length

def shift (offset : ℕ) (w : Window) : Window := ⟨offset + w.start, offset + w.stop⟩

/-- The intervals of the text that `chunkText` takes from a piece of it. -/
def windowSources (fuel : ℕ) (text : JsString) (maxChars overlapChars : ℤ) (w : Window) : Outcome Window :=
  (chunkRounds fuel (chunkOf text w) maxChars overlapChars).map fun result => result.map fun windows =>
    (giving (chunkOf text w) windows).map (shift (lead text w))

def blockSources (fuel : ℕ) (text : JsString) (maxChars : ℤ) (w : Window) : Outcome Window :=
  if isTitle (chunkOf text w) then some (.ok [])
  else if (chunkOf text w).length ≤ maxChars then some (.ok [w])
  else windowSources fuel text maxChars 80 w

/-- The intervals that the chunks of a document are cut from. -/
def knowledgeSources (fuel : ℕ) (content : JsString) (maxChars : ℤ) : Outcome Window :=
  if looksLikeFaqMarkdown content then
    collect (blockSources fuel content (max maxChars 4000))
      ((sections content).filter fun w => chunkOf content w ≠ [])
  else windowSources fuel content maxChars (min 120 (maxChars / 6)) ⟨0, content.length⟩

/-! ## The statement -/

def lineStart (text : JsString) : ℕ → ℕ
  | 0 => 0
  | p + 1 => if text[p]?.any isLineTerminator then p + 1 else lineStart text p

/-- The line of the position starts with `#`. -/
def OnHeading (text : JsString) (p : ℕ) : Prop := text[lineStart text p]?.any numberSign = true

instance (text : JsString) (p : ℕ) : Decidable (OnHeading text p) := inferInstanceAs (Decidable (_ = true))

/-- The intervals leave out no character but blanks and headings. -/
def KeepsContent (text : JsString) (sources : List Window) : Prop :=
  ∀ p < text.length, ¬ BlankAt text p → ¬ OnHeading text p → ∃ v ∈ sources, v.start ≤ p ∧ p < v.stop

/-- What stands before the first section. -/
def preamble (text : JsString) : Window := ⟨0, (sectionStarts text).headD text.length⟩

/-- The text before the first section is kept, or has nothing but headings. -/
def KeepsPreamble (text : JsString) : Prop :=
  looksLikeFaqMarkdown text = false ∨ isTitle (chunkOf text (preamble text)) = false ∨
    ∀ p < (preamble text).stop, ¬ BlankAt text p → OnHeading text p

/-! ## Intervals and chunks -/

variable {text : JsString} {fuel : ℕ} {maxChars : ℤ} {w : Window}

/-- A computation of intervals ends, and that of the chunks gives their texts. -/
def Yields (safe : Prop) (text : JsString) (Sound : List Window → Prop) (sources : Outcome Window)
    (chunks : Outcome JsString) : Prop :=
  ∃ result, sources = some result ∧ chunks = some (result.map (List.map (chunkOf text))) ∧
    (safe → ∃ vs, result = .ok vs) ∧ ∀ vs, result = .ok vs → Sound vs

/-- A list is made of one list for each item. -/
structure Gathers {α : Type} (Sound : α → List Window → Prop) (items : List α) (vs : List Window) : Prop where
  all : ∀ item ∈ items, ∃ ws, Sound item ws ∧ ws ⊆ vs
  source : ∀ v ∈ vs, ∃ item ∈ items, ∃ ws, Sound item ws ∧ v ∈ ws

theorem Gathers.cons {α : Type} {Sound : α → List Window → Prop} {item : α} {items : List α}
    {ws vs : List Window} (h : Gathers Sound items vs) (hws : Sound item ws) :
    Gathers Sound (item :: items) (ws ++ vs) := by
  constructor
  · intro x hx
    cases hx with
    | head => exact ⟨ws, hws, List.subset_append_left _ _⟩
    | tail _ hx =>
      obtain ⟨xs, hxs, hsub⟩ := h.all x hx
      exact ⟨xs, hxs, List.subset_append_of_subset_right ws hsub⟩
  · intro v hv
    rcases List.mem_append.mp hv with hv | hv
    · exact ⟨item, List.mem_cons_self, ws, hws, hv⟩
    · obtain ⟨x, hx, xs, hxs, hmem⟩ := h.source v hv
      exact ⟨x, List.mem_cons_of_mem _ hx, xs, hxs, hmem⟩

/-- What holds of the turns of a loop holds of the loop. -/
theorem collect_yields {α : Type} {safe : Prop} {f : α → Outcome Window} {g : α → Outcome JsString}
    {Sound : α → List Window → Prop} {items : List α}
    (h : ∀ item ∈ items, Yields safe text (Sound item) (f item) (g item)) :
    Yields safe text (Gathers Sound items) (collect f items) (collect g items) := by
  induction items with
  | nil =>
    refine ⟨.ok [], rfl, rfl, fun _ => ⟨[], rfl⟩, fun vs hvs => ?_⟩
    cases hvs
    exact ⟨by simp, by simp⟩
  | cons item items ih =>
    obtain ⟨result, hf, hg, hok, hsound⟩ := h item List.mem_cons_self
    obtain ⟨rest, hfs, hgs, hoks, hsounds⟩ := ih fun x hx => h x (List.mem_cons_of_mem _ hx)
    cases result with
    | error e =>
      refine ⟨.error e, by rw [collect, hf], by rw [collect, hg]; rfl, hok, ?_⟩
      intro vs hvs
      cases hvs
    | ok ws =>
      refine ⟨rest.map (ws ++ ·), by rw [collect, hf, hfs]; rfl, ?_, ?_, ?_⟩
      · rw [collect, hg, hgs]
        cases rest with
        | error e => rfl
        | ok vs => exact congrArg (fun l => some (Except.ok l)) List.map_append.symm
      · intro hsafe
        obtain ⟨vs, rfl⟩ := hoks hsafe
        exact ⟨ws ++ vs, rfl⟩
      · intro vs hvs
        cases rest with
        | error e => cases hvs
        | ok us =>
          cases hvs
          exact (hsounds us rfl).cons (hsound ws rfl)

theorem collect_map {α β γ : Type} (push : β → Outcome γ) (f : α → β) (items : List α) :
    collect push (items.map f) = collect (fun item => push (f item)) items := by
  induction items with
  | nil => rfl
  | cons item items ih => simp only [List.map_cons, collect, ih]

theorem lead_add_length (text : JsString) (hw : w.start ≤ w.stop) :
    lead text w + (chunkOf text w).length ≤ w.stop := by
  have hslice := SpacedText.length_slice_le text w.start w.stop
  have hsplit := congrArg List.length (SpacedText.trim_split isWhiteSpace (slice text w.start w.stop))
  rw [List.length_append, List.length_append] at hsplit
  unfold lead chunkOf
  rw [trim_eq]
  omega

theorem chunkOf_eq_slice (text : JsString) (hw : w.start ≤ w.stop) :
    chunkOf text w = slice text (lead text w) (lead text w + (chunkOf text w).length) := by
  have hle := lead_add_length text hw
  have htrim := SpacedText.trim_eq_slice isWhiteSpace (slice text w.start w.stop)
  unfold lead chunkOf at hle ⊢
  rw [trim_eq] at hle ⊢
  rw [SpacedText.slice_slice text (by omega), ← Nat.add_assoc] at htrim
  exact htrim

/-- A chunk of the trimmed piece is the chunk of its place in the text. -/
theorem chunkOf_shift (hw : w.start ≤ w.stop) {v : Window} (hv : v.stop ≤ (chunkOf text w).length) :
    chunkOf (chunkOf text w) v = chunkOf text (shift (lead text w) v) := by
  have hslice : slice (chunkOf text w) v.start v.stop =
      slice text (lead text w + v.start) (lead text w + v.stop) := by
    rw [chunkOf_eq_slice text hw]
    exact SpacedText.slice_slice text (by omega)
  exact congrArg trim hslice

theorem letter_inside {p : ℕ} (hstart : w.start ≤ p) (hstop : p < w.stop) (hlength : p < text.length)
    (hletter : ¬ BlankAt text p) : lead text w ≤ p ∧ p < lead text w + (chunkOf text w).length := by
  have hget : (slice text w.start w.stop)[p - w.start]? = some text[p] := by
    rw [SpacedText.getElem?_slice, Nat.add_sub_cancel' hstart, if_pos hstop, List.getElem?_eq_getElem hlength]
  have hspace : isWhiteSpace text[p] = false := by
    rw [← Bool.not_eq_true]
    exact fun hspace => hletter (blankAt_iff.mpr ⟨_, List.getElem?_eq_getElem hlength, hspace⟩)
  have hbounds := SpacedText.trim_bounds hget hspace
  unfold lead chunkOf
  rw [trim_eq]
  omega

/-- The intervals lie behind the start of a piece and leave out none of its
characters but blanks. -/
structure Serves (text : JsString) (w : Window) (vs : List Window) : Prop where
  behind : ∀ v ∈ vs, w.start ≤ v.start
  covered : ∀ p, w.start ≤ p → p < w.stop → ¬ BlankAt text p → ∃ v ∈ vs, v.start ≤ p ∧ p < v.stop

theorem chunkOf_chunkOf (text : JsString) (w : Window) : trim (chunkOf text w) = chunkOf text w :=
  SpacedText.trim_trim isWhiteSpace _

theorem blankAt_shift (hw : w.start ≤ w.stop) {p : ℕ} (hp : p < (chunkOf text w).length) :
    BlankAt (chunkOf text w) p ↔ BlankAt text (lead text w + p) := by
  rw [chunkOf_eq_slice text hw, blankAt_slice]
  exact and_iff_right (by omega)

theorem windowSources_yields (hmax : 1 ≤ maxChars) (overlapChars : ℤ) (hw : w.start ≤ w.stop)
    (hstop : w.stop ≤ text.length) (hfuel : text.length < fuel) :
    Yields (isSafeInteger maxChars = true) text (Serves text w)
      (windowSources fuel text maxChars overlapChars w)
      (chunkText fuel (chunkOf text w) maxChars overlapChars) := by
  cases hsafe : isSafeInteger maxChars with
  | false =>
    rw [windowSources, chunkText, chunkRounds_throws hsafe]
    refine ⟨_, rfl, rfl, ?_, ?_⟩
    · intro h
      cases h
    · intro vs hvs
      cases hvs
  | true =>
    have hle := lead_add_length text hw
    have hlength : (chunkOf text w).length < fuel := by omega
    obtain ⟨ws, hws, hcovers⟩ := chunkRounds_covers hmax hsafe overlapChars hlength
    rw [windowSources, chunkText, hws]
    rw [chunkOf_chunkOf] at hcovers ⊢
    refine ⟨_, rfl, ?_, fun _ => ⟨_, rfl⟩, ?_⟩
    · have htaken : (ws.map (chunkOf (chunkOf text w))).filter (· ≠ []) =
          ((giving (chunkOf text w) ws).map (shift (lead text w))).map (chunkOf text) := by
        rw [hcovers.taken, List.map_map]
        apply List.map_congr_left
        intro v hv
        exact chunkOf_shift hw (hcovers.interval v hv).2
      exact congrArg (fun l => some (Except.ok l)) htaken
    · intro vs hvs
      cases hvs
      constructor
      · intro v hv
        obtain ⟨u, _, rfl⟩ := List.mem_map.mp hv
        have : w.start ≤ lead text w := Nat.le_add_right _ _
        change w.start ≤ lead text w + u.start
        omega
      · intro p hstart hp hletter
        obtain ⟨hlead, hend⟩ := letter_inside hstart hp (by omega) hletter
        have hpos : p - lead text w < (chunkOf text w).length := by omega
        have hblank : ¬ BlankAt (chunkOf text w) (p - lead text w) := by
          rwa [blankAt_shift hw hpos, Nat.add_sub_cancel' hlead]
        obtain ⟨v, hv, hvstart, hvstop⟩ := hcovers.covered _ hpos hblank
        refine ⟨shift (lead text w) v, List.mem_map_of_mem hv, ?_, ?_⟩
        · change lead text w + v.start ≤ p
          omega
        · change p < lead text w + v.stop
          omega

/-- A title gives no chunk; the chunks of any other block leave out nothing of it. -/
def ServesBlock (text : JsString) (w : Window) (vs : List Window) : Prop :=
  isTitle (chunkOf text w) = true ∧ vs = [] ∨ isTitle (chunkOf text w) = false ∧ Serves text w vs

theorem blockSources_yields (hmax : 1 ≤ maxChars) (hw : w.start ≤ w.stop) (hstop : w.stop ≤ text.length)
    (hfuel : text.length < fuel) :
    Yields (isSafeInteger maxChars = true) text (ServesBlock text w) (blockSources fuel text maxChars w)
      (blockChunks fuel maxChars (chunkOf text w)) := by
  unfold ServesBlock
  cases htitle : isTitle (chunkOf text w) with
  | true =>
    rw [blockSources, blockChunks, if_pos htitle, if_pos htitle]
    refine ⟨.ok [], rfl, rfl, fun _ => ⟨_, rfl⟩, fun vs hvs => ?_⟩
    cases hvs
    exact .inl ⟨rfl, rfl⟩
  | false =>
    have hne : ¬ isTitle (chunkOf text w) = true := by simp [htitle]
    rw [blockSources, blockChunks, if_neg hne, if_neg hne]
    by_cases hshort : (chunkOf text w).length ≤ maxChars
    · rw [if_pos hshort, if_pos hshort]
      refine ⟨.ok [w], rfl, rfl, fun _ => ⟨_, rfl⟩, fun vs hvs => ?_⟩
      cases hvs
      refine .inr ⟨rfl, ?_, ?_⟩
      · intro v hv
        rw [List.mem_singleton.mp hv]
      · exact fun p hstart hp _ => ⟨w, List.mem_singleton_self w, hstart, hp⟩
    · rw [if_neg hshort, if_neg hshort]
      obtain ⟨result, hsources, hchunks, hok, hserves⟩ := windowSources_yields hmax 80 hw hstop hfuel
      exact ⟨result, hsources, hchunks, hok, fun vs hvs => .inr ⟨rfl, hserves vs hvs⟩⟩

/-! ## Sections -/

theorem mem_sectionStarts {i : ℕ} : i ∈ sectionStarts text ↔ 0 < i ∧ sectionHeading.MatchesAt text i := by
  rw [sectionStarts, List.mem_filter, Bool.and_eq_true, decide_eq_true_iff,
    PatternScan.Pattern.matchAt_isSome_iff, List.mem_range]
  constructor
  · exact fun h => h.2
  · exact fun h => ⟨h.2.lt_length, h⟩

theorem sectionStarts_cuts (text : JsString) : WindowCuts.Cuts text.length 0 (sectionStarts text) := by
  constructor
  · rw [List.pairwise_cons]
    exact ⟨fun i hi => (mem_sectionStarts.mp hi).1, List.pairwise_lt_range.filter _⟩
  · intro i hi
    cases hi with
    | head => exact Nat.zero_le _
    | tail _ hi => exact (mem_sectionStarts.mp hi).2.lt_length.le

theorem heading_of_match {i : ℕ} (h : sectionHeading.MatchesAt text i) :
    ∃ rest, text.drop i = [0x23, 0x23, 0x23, 0x20] ++ rest := by
  obtain ⟨_, rest, ht, hw⟩ := h
  obtain ⟨_, _, ⟨a, ha, rfl⟩, ⟨_, _, ⟨b, hb, rfl⟩, ⟨_, _, ⟨c, hc, rfl⟩, ⟨d, hd, rfl⟩, rfl⟩, rfl⟩, rfl⟩ := hw.lang
  simp only [numberSign, space, decide_eq_true_eq] at ha hb hc hd
  subst ha hb hc hd
  exact ⟨rest, ht⟩

/-- A heading does not begin inside the signs of another one. -/
theorem add_three_le {i j : ℕ} (hi : sectionHeading.MatchesAt text i) (hj : sectionHeading.MatchesAt text j)
    (hlt : i < j) : i + 3 ≤ j := by
  by_contra hinside
  obtain ⟨rest, hrest⟩ := heading_of_match hi
  have hsign : text[j - 1]? = some 0x23 := by
    have hget : text[j - 1]? = (text.drop i)[j - 1 - i]? := by
      rw [List.getElem?_drop, Nat.add_sub_cancel' (by omega)]
    have hcases : j - 1 - i = 0 ∨ j - 1 - i = 1 := by omega
    rw [hget, hrest]
    rcases hcases with h | h <;> rw [h] <;> rfl
  obtain ⟨_, _, _, hw⟩ := hj
  have hbefore := hw.before
  have hlast : (text.take j).getLast? = some 0x23 := by
    obtain ⟨k, rfl⟩ : ∃ k, j = k + 1 := ⟨j - 1, by omega⟩
    rw [Nat.add_sub_cancel] at hsign
    rw [List.take_add_one, hsign]
    simp
  rw [hlast] at hbefore
  exact absurd (show isLineTerminator 0x23 = true from hbefore) (by decide)

/-- A section starts with its heading, so it is no title. -/
theorem isTitle_section (hmem : w ∈ sections text) (hstart : w.start ∈ sectionStarts text) :
    isTitle (chunkOf text w) = false := by
  have hbounds := WindowCuts.pieces_bounds (sectionStarts_cuts text) w hmem
  have hmatch := (mem_sectionStarts.mp hstart).2
  obtain ⟨rest, hrest⟩ := heading_of_match hmatch
  have hlong : w.start + 3 ≤ w.stop := by
    rcases hbounds.2.2.2.2 with ⟨hlt, hstop⟩ | hstop
    · exact add_three_le hmatch (mem_sectionStarts.mp hstop).2 hlt
    · have hlength := congrArg List.length hrest
      rw [List.length_drop, List.length_append, List.length_cons] at hlength
      simp only [List.length_cons, List.length_nil] at hlength
      omega
  obtain ⟨n, hn⟩ : ∃ n, w.stop - w.start = n + 3 := ⟨w.stop - w.start - 3, by omega⟩
  have hslice : slice text w.start w.stop = [] ++ [0x23, 0x23, 0x23] ++ (0x20 :: rest).take n := by
    rw [slice, hrest, hn]
    rfl
  have hframed : SpacedText.Framed isWhiteSpace [0x23, 0x23, 0x23] :=
    ⟨⟨0x23, [0x23, 0x23], rfl, by decide⟩, ⟨[0x23, 0x23], 0x23, rfl, by decide⟩⟩
  rw [chunkOf, trim_eq, hslice, SpacedText.trim_context hframed]
  rfl

/-- A list of questions and answers keeps its content exactly where its preamble
is kept, or is nothing but headings. -/
theorem keepsContent_iff {vs : List Window}
    (h : Gathers (ServesBlock text) ((sections text).filter fun w => chunkOf text w ≠ []) vs) :
    KeepsContent text vs ↔ isTitle (chunkOf text (preamble text)) = false ∨
      ∀ p < (preamble text).stop, ¬ BlankAt text p → OnHeading text p := by
  obtain ⟨rest, hsections, hrest⟩ := WindowCuts.pieces_first (sectionStarts_cuts text)
  have hcons : sections text = preamble text :: rest := hsections
  have hfirst : preamble text ∈ sections text := by
    rw [hcons]
    exact List.mem_cons_self
  constructor
  · intro hkeeps
    rw [← Bool.not_eq_true, ← imp_iff_not_or]
    intro htitle p hp hletter
    by_contra hbody
    have hlength : p < text.length := by
      have := (WindowCuts.pieces_bounds (sectionStarts_cuts text) _ hfirst).2.2.1
      omega
    obtain ⟨v, hv, hstart, _⟩ := hkeeps p hlength hletter hbody
    obtain ⟨w, hw, ws, hws, hmem⟩ := h.source v hv
    rcases hws with ⟨_, rfl⟩ | ⟨hkept, hserves⟩
    · cases hmem
    · have hsection := List.mem_of_mem_filter hw
      rw [hcons] at hsection
      cases hsection with
      | head => exact absurd htitle (by simp [hkept])
      | tail _ hsection =>
        have hbehind := (hrest w hsection).1
        have := hserves.behind v hmem
        change (preamble text).stop ≤ w.start at hbehind
        omega
  · intro hpreamble p hlength hletter hbody
    obtain ⟨w, hw, hstart, hstop⟩ :=
      WindowCuts.pieces_covers (sectionStarts text) (Nat.zero_le p) hlength
    have hne : chunkOf text w ≠ [] := chunkOf_ne_nil hstart hstop hlength hletter
    obtain ⟨ws, hws, hsub⟩ := h.all w (List.mem_filter.mpr ⟨hw, decide_eq_true hne⟩)
    rcases hws with ⟨htitle, _⟩ | ⟨_, hserves⟩
    · have hsection : w ∈ sections text := hw
      rw [hcons] at hsection
      cases hsection with
      | head =>
        rcases hpreamble with hkept | hheadings
        · rw [hkept] at htitle
          cases htitle
        · exact absurd (hheadings p hstop hletter) hbody
      | tail _ hsection =>
        rw [isTitle_section hw (hrest w hsection).2] at htitle
        cases htitle
    · obtain ⟨v, hv, hcovers⟩ := hserves.covered p hstart hstop hletter
      exact ⟨v, hsub hv, hcovers⟩

/-! ## Whole documents -/

theorem isSafeInteger_max (h : isSafeInteger maxChars = true) : isSafeInteger (max maxChars 4000) = true := by
  simp only [isSafeInteger, Bool.and_eq_true, decide_eq_true_iff] at h ⊢
  omega

theorem chunkOf_whole (text : JsString) : chunkOf text ⟨0, text.length⟩ = trim text := by
  rw [chunkOf, SpacedText.slice_zero_length]

theorem chunkText_trim (fuel : ℕ) (text : JsString) (maxChars overlapChars : ℤ) :
    chunkText fuel (trim text) maxChars overlapChars = chunkText fuel text maxChars overlapChars := by
  have htrim : trim (trim text) = trim text := SpacedText.trim_trim isWhiteSpace text
  simp only [chunkText, chunkRounds]
  rw [htrim]

/-- The intervals of a document, and which content they keep. -/
theorem knowledgeSources_yields (hmax : 1 ≤ maxChars) (hfuel : text.length < fuel) :
    Yields (isSafeInteger maxChars = true) text (fun vs => KeepsContent text vs ↔ KeepsPreamble text)
      (knowledgeSources fuel text maxChars) (knowledgeParts fuel text maxChars) := by
  cases hfaq : looksLikeFaqMarkdown text with
  | true =>
    have hblocks : ∀ w ∈ (sections text).filter (fun w => chunkOf text w ≠ []),
        Yields (isSafeInteger (max maxChars 4000) = true) text (ServesBlock text w)
          (blockSources fuel text (max maxChars 4000) w)
          (blockChunks fuel (max maxChars 4000) (chunkOf text w)) := by
      intro w hw
      have hbounds := WindowCuts.pieces_bounds (sectionStarts_cuts text) w (List.mem_of_mem_filter hw)
      exact blockSources_yields (by omega) hbounds.2.1 hbounds.2.2.1 hfuel
    obtain ⟨result, hsources, hchunks, hok, hsound⟩ := collect_yields hblocks
    refine ⟨result, ?_, ?_, fun hsafe => hok (isSafeInteger_max hsafe), ?_⟩
    · rw [knowledgeSources, if_pos hfaq]
      exact hsources
    · rw [knowledgeParts, if_pos hfaq, chunkFaqMarkdown, List.filter_map, ← hchunks]
      exact collect_map _ _ _
    · intro vs hvs
      rw [KeepsPreamble, or_iff_right (by simp [hfaq])]
      exact keepsContent_iff (hsound vs hvs)
  | false =>
    have hne : ¬ looksLikeFaqMarkdown text = true := by simp [hfaq]
    obtain ⟨result, hsources, hchunks, hok, hserves⟩ := windowSources_yields (w := ⟨0, text.length⟩) hmax
      (min 120 (maxChars / 6)) (Nat.zero_le _) le_rfl hfuel
    refine ⟨result, ?_, ?_, hok, ?_⟩
    · rw [knowledgeSources, if_neg hne]
      exact hsources
    · rw [knowledgeParts, if_neg hne, ← hchunks, chunkOf_whole, chunkText_trim]
    · intro vs hvs
      refine iff_of_true (fun p hp hletter _ => ?_) (.inl hfaq)
      exact (hserves vs hvs).covered p (Nat.zero_le p) hp hletter

/-- The chunks of a document are the trimmed texts of the intervals they are cut
from. These leave out nothing but blanks and headings exactly where the preamble of
a list of questions and answers is kept. -/
theorem loses_nothing_iff (tokenize : JsString → List JsString) (content : JsString) (maxChars : ℤ)
    (hmax : 6 ≤ maxChars) {fuel : ℕ} (hfuel : content.length < fuel) :
    ∃ result, prepareKnowledgeChunks tokenize fuel content maxChars = some result ∧
      (isSafeInteger maxChars = true → ∃ chunks, result = .ok chunks) ∧
      ∀ chunks, result = .ok chunks → ∃ sources,
        knowledgeSources fuel content maxChars = some (.ok sources) ∧
          chunks.map (·.content) = sources.map (chunkOf content) ∧
          (KeepsContent content sources ↔ KeepsPreamble content) := by
  have hpos : 1 ≤ maxChars := by omega
  obtain ⟨result, hsources, hparts, hok, hkeeps⟩ := knowledgeSources_yields hpos hfuel
  rw [prepareKnowledgeChunks, hparts, hsources]
  cases result with
  | error e =>
    refine ⟨_, rfl, ?_, ?_⟩
    · intro hsafe
      obtain ⟨vs, hvs⟩ := hok hsafe
      cases hvs
    · intro chunks hchunks
      cases hchunks
  | ok sources =>
    refine ⟨_, rfl, fun _ => ⟨_, rfl⟩, fun chunks hchunks => ?_⟩
    cases hchunks
    refine ⟨sources, rfl, ?_, hkeeps sources rfl⟩
    apply List.ext_getElem?
    intro i
    rw [List.getElem?_map, List.getElem?_mapIdx, Option.map_map]
    exact congrFun Option.map_id _

/-- The words of a text in small letters. -/
def smallWord : Pattern UInt16 where
  before _ _ := true
  body := .many (fun u => 97 ≤ u.toNat && u.toNat ≤ 122) 1
  after _ _ := true
  consumes := by decide

theorem loses_nothing_plain :
    ∃ result, prepareKnowledgeChunks smallWord.matchAll 19 (js "  a bcd efghi jkl ") 6 = some result ∧
      (isSafeInteger 6 = true → ∃ chunks, result = .ok chunks) ∧
      ∀ chunks, result = .ok chunks → ∃ sources,
        knowledgeSources 19 (js "  a bcd efghi jkl ") 6 = some (.ok sources) ∧
          chunks.map (·.content) = sources.map (chunkOf (js "  a bcd efghi jkl ")) ∧
          (KeepsContent (js "  a bcd efghi jkl ") sources ↔ KeepsPreamble (js "  a bcd efghi jkl ")) :=
  loses_nothing_iff smallWord.matchAll (js "  a bcd efghi jkl ") 6 (by decide) (by decide)

/-- The line below the title goes with it. -/
def titled : JsString := js "# faq\nask us\n### a\n### b\n### c"

theorem text_below_title_lost : ¬ ∃ chunks sources,
    prepareKnowledgeChunks smallWord.matchAll 31 titled 800 = some (.ok chunks) ∧
      chunks.map (·.content) = sources.map (chunkOf titled) ∧ KeepsContent titled sources := by
  intro ⟨chunks, sources, hchunks, htaken, hkeeps⟩
  have hrun : (prepareKnowledgeChunks smallWord.matchAll 31 titled 800).map
      (fun result => result.map (List.map (·.content))) =
        some (.ok [js "### a", js "### b", js "### c"]) := by decide +kernel
  rw [hchunks] at hrun
  have hcontents : chunks.map (·.content) = [js "### a", js "### b", js "### c"] := by
    simpa [Except.map] using hrun
  -- the `u` of `us`
  obtain ⟨v, hv, hstart, hstop⟩ := hkeeps 10 (by decide) (by decide) (by decide)
  have hmem : 117 ∈ chunkOf titled v :=
    SpacedText.mem_trim (by decide) (SpacedText.mem_slice_iff.mpr ⟨10, hstart, hstop, by decide⟩)
  have hlost : ∀ chunk ∈ [js "### a", js "### b", js "### c"], 117 ∉ chunk := by decide
  refine hlost (chunkOf titled v) ?_ hmem
  rw [← hcontents, htaken]
  exact List.mem_map_of_mem hv

end ModelForge.KnowledgeChunks
