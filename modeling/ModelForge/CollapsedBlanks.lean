import ModelForge.SplitWords

set_option autoImplicit false

/-!
# Texts with collapsed blanks

A text whose runs of blanks are collapsed is its words with a blank between them.
When some characters are dropped after that, words of nothing else leave gaps.
-/
namespace ModelForge.CollapsedBlanks
open PatternScan (Pattern)
open SpacedText (Framed trim)
open SplitWords

variable {α : Type} {space : α → Bool} {b : α} {text : List α} {qs : List (List α)}

/-- What is left of a text once its runs of blanks are replaced and it is trimmed. -/
def collapse (space : α → Bool) (b : α) (text : List α) : List α :=
  trim space ((blanks space).replaceAll [b] text)

/-! ## Pieces -/

def Solid (space : α → Bool) (qs : List (List α)) : Prop := ∀ q ∈ qs, ∀ c ∈ q, space c = false

theorem Solid.sublist {qs' : List (List α)} (h : Solid space qs) (hsub : qs'.Sublist qs) : Solid space qs' :=
  fun q hq => h q (hsub.subset hq)

theorem solid_filtered (hqs : Solid space qs) (keep : α → Bool) : Solid space (qs.map (List.filter keep)) := by
  intro q hq c hc
  obtain ⟨r, hr, rfl⟩ := List.mem_map.mp hq
  exact hqs r hr c (List.mem_of_mem_filter hc)

theorem filter_splitOnP_blanks {run : List α} (hrun : ∀ c ∈ run, space c = true) :
    (run.splitOnP space).filter (· ≠ []) = [] := by
  induction run with
  | nil => simp
  | cons c run ih =>
    rw [List.splitOnP_cons_eq_if_modifyHead, if_pos (hrun c List.mem_cons_self), List.filter_cons_of_neg (by simp)]
    exact ih fun d hd => hrun d (List.mem_cons_of_mem _ hd)

theorem filter_splitOnP_left {run : List α} (hrun : ∀ c ∈ run, space c = true) (t : List α) :
    ((run ++ t).splitOnP space).filter (· ≠ []) = (t.splitOnP space).filter (· ≠ []) := by
  induction run with
  | nil => rfl
  | cons c run ih =>
    rw [List.cons_append, List.splitOnP_cons_eq_if_modifyHead, if_pos (hrun c List.mem_cons_self),
      List.filter_cons_of_neg (by simp)]
    exact ih fun d hd => hrun d (List.mem_cons_of_mem _ hd)

theorem filter_splitOnP_right {run : List α} (hrun : ∀ c ∈ run, space c = true) (t : List α) :
    ((t ++ run).splitOnP space).filter (· ≠ []) = (t.splitOnP space).filter (· ≠ []) := by
  cases run with
  | nil => rw [List.append_nil]
  | cons c run =>
    rw [List.splitOnP_append_cons t run (hrun c List.mem_cons_self), List.filter_append,
      filter_splitOnP_blanks fun d hd => hrun d (List.mem_cons_of_mem _ hd), List.append_nil]

/-- Each blank of its own ends a piece; the words are the same. -/
theorem filter_split (space : α → Bool) (text : List α) :
    ((blanks space).split text).filter (· ≠ []) = (text.splitOnP space).filter (· ≠ []) := by
  induction hn : text.length using Nat.strong_induction_on generalizing text with
  | _ n ih =>
    subst hn
    cases exists_run space text with
    | inl hletters => rw [split_letters hletters, List.splitOnP_eq_singleton hletters]
    | inr hrun =>
      obtain ⟨w, b, run, rest, rfl, hw, hb, hrun, hrest⟩ := hrun
      have hshort : rest.length < (w ++ (b :: run ++ rest)).length := by simp; omega
      rw [split_run hw hb hrun hrest, List.cons_append,
        List.splitOnP_append_cons_of_forall_mem hw b hb, List.filter_cons, List.filter_cons,
        filter_splitOnP_left hrun, ih rest.length hshort rest rfl]

/-- Only the first piece and the last can be empty. -/
theorem split_inner (space : α → Bool) (text : List α) :
    ∀ q ∈ ((blanks space).split text).tail.dropLast, q ≠ [] := by
  induction hn : text.length using Nat.strong_induction_on generalizing text with
  | _ n ih =>
    subst hn
    cases exists_run space text with
    | inl hletters =>
      rw [split_letters hletters]
      simp
    | inr hrun =>
      obtain ⟨w, b, run, rest, rfl, hw, hb, hrun, hrest⟩ := hrun
      have hshort : rest.length < (w ++ (b :: run ++ rest)).length := by simp; omega
      have hinner := ih rest.length hshort rest rfl
      rw [split_run hw hb hrun hrest, List.tail_cons]
      cases rest with
      | nil =>
        rw [split_letters (by simp)]
        simp
      | cons c rest =>
        -- the next piece begins with the letter behind the run
        obtain ⟨q, more, hsplit⟩ := split_letter (hrest c rfl) rest
        rw [hsplit] at hinner ⊢
        cases more with
        | nil => simp
        | cons r more =>
          rw [List.dropLast_cons_cons]
          exact List.forall_mem_cons.mpr ⟨List.cons_ne_nil _ _, hinner⟩

/-! ## Joined pieces -/

def isGap (q : List α) : Bool := q = []

theorem filter_not_isGap (qs : List (List α)) : (qs.filter fun q => !isGap q) = qs.filter (· ≠ []) := by
  apply List.filter_congr
  intro q _
  cases q <;> rfl

theorem filter_intercalate (keep : α → Bool) (hb : keep b = true) (qs : List (List α)) :
    ([b].intercalate qs).filter keep = [b].intercalate (qs.map (List.filter keep)) := by
  induction qs with
  | nil => rfl
  | cons q qs ih =>
    cases qs with
    | nil => simp
    | cons r qs =>
      rw [List.map_cons] at ih ⊢
      rw [List.map_cons, List.intercalate_cons_cons, List.intercalate_cons_cons, List.filter_append,
        List.filter_append, ih, List.filter_cons_of_pos hb, List.filter_nil]

theorem mem_join {q : List α} {c : α} (hq : q ∈ qs) (hc : c ∈ q) : c ∈ [b].intercalate qs := by
  obtain ⟨before, after, rfl⟩ := List.append_of_mem hq
  have hhead : c ∈ [b].intercalate (q :: after) := by
    cases after with
    | nil => rwa [List.intercalate_singleton]
    | cons r after =>
      rw [List.intercalate_cons_cons, List.append_assoc]
      exact List.mem_append_left _ hc
  cases before with
  | nil => exact hhead
  | cons p before =>
    rw [intercalate_append [b] (List.cons_ne_nil _ _) (List.cons_ne_nil _ _)]
    exact List.mem_append_right _ hhead

theorem filter_letters (hb : space b = true) (hqs : Solid space qs) :
    (([b].intercalate qs).filter fun c => !space c) = qs.flatten := by
  induction qs with
  | nil => rfl
  | cons q qs ih =>
    have hq : (q.filter fun c => !space c) = q := by
      rw [List.filter_eq_self]
      exact fun c hc => by simp [hqs q List.mem_cons_self c hc]
    cases qs with
    | nil => simpa using hq
    | cons r qs =>
      have ih := ih (hqs.sublist (List.sublist_cons_self _ _))
      rw [List.intercalate_cons_cons, List.filter_append, List.filter_append, hq, ih,
        List.filter_cons_of_neg (by simp [hb]), List.filter_nil, List.append_nil]
      rfl

theorem blanks_of_gaps (hb : space b = true) (hqs : ∀ q ∈ qs, isGap q = true) :
    ∀ c ∈ [b].intercalate qs, space c = true := by
  induction qs with
  | nil => simp
  | cons q qs ih =>
    have hq : q = [] := of_decide_eq_true (hqs q List.mem_cons_self)
    have ih := ih fun r hr => hqs r (List.mem_cons_of_mem _ hr)
    cases qs with
    | nil => simp [hq]
    | cons r qs =>
      rw [List.intercalate_cons_cons, hq]
      simpa [hb] using ih

theorem framed_join (hqs : Solid space qs) (h : Framed isGap qs) : Framed space ([b].intercalate qs) := by
  obtain ⟨q, rest, hhead, hq⟩ := h.head
  obtain ⟨init, r, hlast, hr⟩ := h.last
  have hqmem : q ∈ qs := hhead ▸ List.mem_cons_self
  have hrmem : r ∈ qs := hlast ▸ List.mem_append_right _ (List.mem_singleton_self r)
  have hqframed : Framed space q := framed_word ⟨of_decide_eq_false hq, hqs q hqmem⟩
  have hrframed : Framed space r := framed_word ⟨of_decide_eq_false hr, hqs r hrmem⟩
  constructor
  · obtain ⟨c, q', hc, hclear⟩ := hqframed.head
    cases rest with
    | nil => exact ⟨c, q', by rw [hhead, List.intercalate_singleton, hc], hclear⟩
    | cons p rest =>
      refine ⟨c, q' ++ [b] ++ [b].intercalate (p :: rest), ?_, hclear⟩
      rw [hhead, List.intercalate_cons_cons, hc]
      rfl
  · obtain ⟨r', c, hc, hclear⟩ := hrframed.last
    cases init with
    | nil => exact ⟨r', c, by rw [hlast, List.nil_append, List.intercalate_singleton, hc], hclear⟩
    | cons p init =>
      refine ⟨[b].intercalate (p :: init) ++ [b] ++ r', c, ?_, hclear⟩
      rw [hlast, intercalate_append [b] (List.cons_ne_nil _ _) (List.cons_ne_nil _ _),
        List.intercalate_singleton, hc]
      simp

/-- Trimming takes the pieces at the ends that are no words. -/
theorem trim_join (hb : space b = true) (hqs : Solid space qs) :
    trim space ([b].intercalate qs) = [b].intercalate (trim isGap qs) := by
  by_cases hnil : trim isGap qs = []
  · rw [hnil, List.intercalate_nil, SpacedText.trim_eq_nil_iff]
    exact blanks_of_gaps hb (SpacedText.trim_eq_nil_iff.mp hnil)
  · obtain ⟨front, back, hsplit, hfront, hback⟩ := SpacedText.exists_trim isGap qs
    have hframed := SpacedText.framed_trim hnil
    have hsub : (trim isGap qs).Sublist qs := by
      conv_rhs => rw [hsplit]
      exact ((List.sublist_append_right _ _).trans (List.sublist_append_left _ _))
    generalize trim isGap qs = core at hsplit hnil hframed hsub ⊢
    have hleft : ∃ blanks, [b].intercalate (front ++ core) = blanks ++ [b].intercalate core ∧
        ∀ c ∈ blanks, space c = true := by
      cases front with
      | nil => exact ⟨[], rfl, List.forall_mem_nil _⟩
      | cons q front =>
        refine ⟨[b].intercalate (q :: front) ++ [b], intercalate_append [b] (List.cons_ne_nil _ _) hnil, ?_⟩
        intro c hc
        cases List.mem_append.mp hc with
        | inl hmem => exact blanks_of_gaps hb hfront c hmem
        | inr hmem => rwa [List.mem_singleton.mp hmem]
    have hright : ∃ blanks, [b].intercalate (front ++ core ++ back) = [b].intercalate (front ++ core) ++ blanks ∧
        ∀ c ∈ blanks, space c = true := by
      cases back with
      | nil => exact ⟨[], by simp, List.forall_mem_nil _⟩
      | cons q back =>
        refine ⟨[b] ++ [b].intercalate (q :: back), ?_, ?_⟩
        · rw [intercalate_append [b] (by simp [hnil]) (List.cons_ne_nil _ _), List.append_assoc]
        · intro c hc
          cases List.mem_append.mp hc with
          | inl hmem => rwa [List.mem_singleton.mp hmem]
          | inr hmem => exact blanks_of_gaps hb hback c hmem
    obtain ⟨before, hbefore, hblank⟩ := hleft
    obtain ⟨after, hafter, hblank'⟩ := hright
    rw [hsplit, hafter, hbefore]
    exact (framed_join (hqs.sublist hsub) hframed).trim_eq hblank hblank'

theorem splitOnP_join (hb : space b = true) (hqs : Solid space qs) (hne : qs ≠ []) :
    ([b].intercalate qs).splitOnP space = qs := by
  induction qs with
  | nil => exact absurd rfl hne
  | cons q qs ih =>
    have hq := hqs q List.mem_cons_self
    cases qs with
    | nil => rw [List.intercalate_singleton, List.splitOnP_eq_singleton hq]
    | cons r qs =>
      have ih := ih (hqs.sublist (List.sublist_cons_self _ _)) (List.cons_ne_nil _ _)
      rw [List.intercalate_cons_cons, List.append_assoc, List.singleton_append,
        List.splitOnP_append_cons_of_forall_mem hq b hb, ih]

/-! ## Words -/

variable [DecidableEq α]

theorem words_eq (space : α → Bool) (text : List α) : words space text = (text.splitOnP space).filter (· ≠ []) := by
  obtain ⟨front, back, htext, hfront, hback⟩ := SpacedText.exists_trim space text
  rw [words, filter_split]
  conv_rhs => rw [htext]
  rw [filter_splitOnP_right hback, filter_splitOnP_left hfront]

theorem words_join (hb : space b = true) (hqs : Solid space qs) :
    words space ([b].intercalate qs) = qs.filter (· ≠ []) := by
  rw [words_eq]
  by_cases hne : qs = []
  · simp [hne]
  · rw [splitOnP_join hb hqs hne]

theorem flatten_words (space : α → Bool) (text : List α) :
    (words space text).flatten = text.filter fun c => !space c := by
  rw [words_eq, List.flatten_filter_ne_nil]
  induction text with
  | nil => rfl
  | cons c text ih =>
    rw [List.splitOnP_cons_eq_if_modifyHead]
    obtain ⟨q, qs, hqs⟩ := List.exists_cons_of_ne_nil (List.splitOnP_ne_nil space text)
    rw [hqs] at ih ⊢
    cases hc : space c with
    | true => simpa [hc] using ih
    | false => simpa [hc] using ih

theorem solid_words (space : α → Bool) (text : List α) : Solid space (words space text) :=
  fun _ hq => (isWord_of_mem_words hq).2

/-- A text with its blanks collapsed is its words with a blank between them. -/
theorem collapse_eq (hb : space b = true) (text : List α) :
    collapse space b text = [b].intercalate (words space text) := by
  have hsolid : Solid space ((blanks space).split text) := fun q hq => letters_of_mem_split hq
  have hinner : ∀ q ∈ ((blanks space).split text).tail.dropLast, isGap q = false := fun q hq =>
    decide_eq_false (split_inner space text q hq)
  rw [collapse, PatternScan.Pattern.replaceAll_eq, trim_join hb hsolid, SpacedText.trim_eq_filter hinner,
    filter_not_isGap, filter_split, words_eq]

theorem filter_collapse (space : α → Bool) (hb : space b = true) (text : List α) :
    ((collapse space b text).filter fun c => !space c) = text.filter fun c => !space c := by
  rw [collapse_eq hb, filter_letters hb (solid_words space text), flatten_words]

/-! ## Dropped characters -/

variable {dropped : α → Bool}

/-- The text collapsed, some characters dropped from it, and trimmed again. -/
def clean (space dropped : α → Bool) (b : α) (text : List α) : List α :=
  trim space ((collapse space b text).filter fun c => !dropped c)

/-- A word of dropped characters stands between words with others. -/
def Gapped (space dropped : α → Bool) (text : List α) : Prop :=
  ∃ before w after, words space text = before ++ w :: after ∧ (∀ c ∈ w, dropped c = true) ∧
    (∃ v ∈ before, ∃ c ∈ v, dropped c = false) ∧ ∃ v ∈ after, ∃ c ∈ v, dropped c = false

/-- The words without the characters that are dropped. -/
def remains (space dropped : α → Bool) (text : List α) : List (List α) :=
  trim isGap ((words space text).map (List.filter fun c => !dropped c))

theorem solid_remains (space dropped : α → Bool) (text : List α) : Solid space (remains space dropped text) := by
  obtain ⟨front, back, hsplit, -⟩ :=
    SpacedText.exists_trim isGap ((words space text).map (List.filter fun c => !dropped c))
  have hsub : (remains space dropped text).Sublist ((words space text).map (List.filter fun c => !dropped c)) := by
    conv_rhs => rw [hsplit]
    exact (List.sublist_append_right _ _).trans (List.sublist_append_left _ _)
  exact (solid_filtered (solid_words space text) _).sublist hsub

theorem clean_eq (hb : space b = true) (hkeep : dropped b = false) (text : List α) :
    clean space dropped b text = [b].intercalate (remains space dropped text) := by
  have hbkeep : (fun c => !dropped c) b = true := by simp [hkeep]
  rw [clean, collapse_eq hb, filter_intercalate (fun c => !dropped c) hbkeep,
    trim_join hb (solid_filtered (solid_words space text) _), remains]

theorem words_clean (hb : space b = true) (hkeep : dropped b = false) (text : List α) :
    words space (clean space dropped b text) = (remains space dropped text).filter (· ≠ []) := by
  rw [clean_eq hb hkeep, words_join hb (solid_remains space dropped text)]

theorem kept_of_mem_remains {q : List α} (hq : q ∈ remains space dropped text) :
    (q.filter fun c => !dropped c) = q := by
  obtain ⟨front, back, hsplit, -⟩ :=
    SpacedText.exists_trim isGap ((words space text).map (List.filter fun c => !dropped c))
  have hmem : q ∈ (words space text).map (List.filter fun c => !dropped c) := by
    rw [hsplit]
    exact List.mem_append_left _ (List.mem_append_right _ hq)
  obtain ⟨w, -, rfl⟩ := List.mem_map.mp hmem
  rw [List.filter_filter]
  simp

theorem remains_clean (hb : space b = true) (hkeep : dropped b = false) (text : List α) :
    remains space dropped (clean space dropped b text) = (remains space dropped text).filter (· ≠ []) := by
  have hmap : ((remains space dropped text).filter (· ≠ [])).map (List.filter fun c => !dropped c) =
      (remains space dropped text).filter (· ≠ []) := by
    conv_rhs => rw [← List.map_id ((remains space dropped text).filter (· ≠ []))]
    exact List.map_congr_left fun q hq => kept_of_mem_remains (List.mem_of_mem_filter hq)
  have hgap : ∀ q ∈ (remains space dropped text).filter (· ≠ []), isGap q = false := by
    intro q hq
    simpa [isGap] using (List.mem_filter.mp hq).2
  rw [remains, words_clean hb hkeep, hmap]
  by_cases hnil : (remains space dropped text).filter (· ≠ []) = []
  · rw [hnil]
    rfl
  · exact SpacedText.trim_framed (SpacedText.framed_of_forall hnil hgap)

theorem gapped_iff (space dropped : α → Bool) (text : List α) :
    Gapped space dropped text ↔ [] ∈ remains space dropped text := by
  have hdropped : ∀ w : List α, (∀ c ∈ w, dropped c = true) ↔ (w.filter fun c => !dropped c) = [] := by
    intro w
    rw [List.filter_eq_nil_iff]
    simp
  have hkept : ∀ ws : List (List α), (∃ v ∈ ws, ∃ c ∈ v, dropped c = false) ↔
      ∃ q ∈ ws.map (List.filter fun c => !dropped c), isGap q = false := by
    intro ws
    simp [isGap]
  rw [remains, SpacedText.mem_trim_iff (q := []) rfl, Gapped]
  constructor
  · rintro ⟨before, w, after, hwords, hw, hbefore, hafter⟩
    refine ⟨_, _, ?_, (hkept before).mp hbefore, (hkept after).mp hafter⟩
    rw [hwords, List.map_append, List.map_cons, (hdropped w).mp hw]
  · rintro ⟨before, after, hmap, hbefore, hafter⟩
    obtain ⟨before, rest, hwords, rfl, hrest⟩ := List.map_eq_append_iff.mp hmap
    obtain ⟨w, after, rfl, hw, rfl⟩ := List.map_eq_cons_iff.mp hrest
    exact ⟨before, w, after, hwords, (hdropped w).mpr hw, (hkept before).mpr hbefore, (hkept after).mpr hafter⟩

/-- Cleaning a text a second time changes it exactly where a gap is left. -/
theorem clean_clean_iff (hb : space b = true) (hkeep : dropped b = false) (text : List α) :
    clean space dropped b (clean space dropped b text) = clean space dropped b text ↔
      ¬ Gapped space dropped text := by
  rw [clean_eq hb hkeep (clean space dropped b text), remains_clean hb hkeep, clean_eq hb hkeep text, gapped_iff]
  constructor
  · intro heq hgap
    have hne : remains space dropped text ≠ [] := List.ne_nil_of_mem hgap
    have hsplit := congrArg (List.splitOnP space) heq
    rw [splitOnP_join hb (solid_remains space dropped text) hne] at hsplit
    have hword : (remains space dropped text).filter (· ≠ []) ≠ [] := by
      obtain ⟨q, rest, hhead, hq⟩ := (SpacedText.framed_trim hne).head
      refine List.ne_nil_of_mem (List.mem_filter.mpr ⟨?_, ?_⟩) (a := q)
      · exact (show remains space dropped text = q :: rest from hhead) ▸ List.mem_cons_self
      · simpa [isGap] using hq
    rw [splitOnP_join hb ((solid_remains space dropped text).sublist List.filter_sublist) hword] at hsplit
    rw [← hsplit] at hgap
    simp at hgap
  · intro hgap
    have hfilter : (remains space dropped text).filter (· ≠ []) = remains space dropped text := by
      rw [List.filter_eq_self]
      intro q hq
      refine decide_eq_true fun hnil => hgap ?_
      rwa [← hnil]
    rw [hfilter]

end ModelForge.CollapsedBlanks
