import ModelForge.PatternScan
import ModelForge.SpacedText

set_option autoImplicit false

/-!
# The words of a text

A text over any alphabet is split at its runs of blanks. Words that are joined with
a blank between them are split again into the same words.
-/
namespace ModelForge.SplitWords
open PatternScan (Pattern)
open PatternScan.Token (pieces pieces_chars_append)
open SpacedText (Framed trim)

variable {α : Type}

/-- `/\s+/` -/
def blanks (space : α → Bool) : Pattern α where
  before _ _ := true
  body := .many space 1
  after _ _ := true
  consumes := Nat.one_pos

/-- What `text.trim().split(/\s+/).filter(Boolean)` gives. -/
def words [DecidableEq α] (space : α → Bool) (text : List α) : List (List α) :=
  ((blanks space).split (trim space text)).filter (· ≠ [])

def IsWord (space : α → Bool) (w : List α) : Prop := w ≠ [] ∧ ∀ c ∈ w, space c = false

variable {space : α → Bool} {b c : α} {w rest : List α}

theorem matchAt_letter (hc : space c = false) (prev : Option α) (t : List α) :
    (blanks space).matchAt prev (c :: t) = none := by
  apply PatternScan.Pattern.matchAt_none.mpr
  intro v x hv hm
  obtain ⟨d, v', rfl⟩ := List.exists_cons_of_ne_nil ((blanks space).ne_nil hm.lang)
  rw [List.cons_append, List.cons.injEq] at hv
  have hd : space d = true := hm.lang.2 d List.mem_cons_self
  rw [← hv.1, hc] at hd
  cases hd

/-- A search takes a run of blanks as a whole. -/
theorem ends_run {run rest : List α} (hrun : ∀ c ∈ run, space c = true)
    (hrest : ∀ c ∈ rest.head?, space c = false) :
    (PatternScan.endsMany space 0 (run ++ rest)).head? = some rest := by
  induction run with
  | nil =>
    cases rest with
    | nil => rfl
    | cons c rest =>
      have hc : ¬ space c = true := by simp [hrest c rfl]
      rw [List.nil_append, PatternScan.endsMany, if_neg hc]
      rfl
  | cons c run ih =>
    have ih := ih fun d hd => hrun d (List.mem_cons_of_mem _ hd)
    rw [List.cons_append, PatternScan.endsMany, if_pos (hrun c List.mem_cons_self), List.head?_append, ih]
    rfl

theorem matchAt_run {run rest : List α} (hb : space b = true) (hrun : ∀ c ∈ run, space c = true)
    (hrest : ∀ c ∈ rest.head?, space c = false) (prev : Option α) :
    (blanks space).matchAt prev (b :: run ++ rest) = some (b :: run) := by
  have hends : ((blanks space).body.ends (b :: run ++ rest)).head? = some rest := by
    change (PatternScan.endsMany space 1 (b :: run ++ rest)).head? = some rest
    rw [List.cons_append, PatternScan.endsMany, if_pos hb]
    exact ends_run hrun hrest
  obtain ⟨more, hmore⟩ := List.head?_eq_some_iff.mp hends
  have htake : (b :: run ++ rest).take ((b :: run ++ rest).length - rest.length) = b :: run := by
    rw [List.length_append, Nat.add_sub_cancel, List.take_left]
  rw [Pattern.matchAt, Pattern.words, hmore, List.map_cons, htake]
  rfl

theorem tokens_blanks (prev : Option α) (t : List α) :
    (blanks space).tokens prev 0 t = (blanks space).tokens none 0 t := by
  have hbefore : ∀ o, (blanks space).before prev o = (blanks space).before none o := fun _ => rfl
  exact (blanks space).tokens_behind hbefore t

theorem tokens_letters (hw : ∀ c ∈ w, space c = false) (t : List α) :
    (blanks space).tokens none 0 (w ++ t) = w.map .char ++ (blanks space).tokens none 0 t := by
  induction w with
  | nil => rfl
  | cons c w ih =>
    rw [List.cons_append, (blanks space).tokens_char (matchAt_letter (hw c List.mem_cons_self) none (w ++ t)),
      tokens_blanks, ih fun d hd => hw d (List.mem_cons_of_mem _ hd)]
    rfl

theorem split_letters (hw : ∀ c ∈ w, space c = false) : (blanks space).split w = [w] := by
  have htokens := tokens_letters hw []
  rw [List.append_nil, PatternScan.Pattern.tokens_nil] at htokens
  rw [Pattern.split, htokens, pieces_chars_append]
  simp [pieces]

theorem split_run {w run rest : List α} (hw : ∀ c ∈ w, space c = false) (hb : space b = true)
    (hrun : ∀ c ∈ run, space c = true) (hrest : ∀ c ∈ rest.head?, space c = false) :
    (blanks space).split (w ++ (b :: run ++ rest)) = w :: (blanks space).split rest := by
  have hword := (blanks space).tokens_word (w := b :: run) (matchAt_run hb hrun hrest none) (List.cons_ne_nil _ _)
  rw [Pattern.split, tokens_letters hw, hword, pieces_chars_append]
  simp [pieces, Pattern.split, tokens_blanks (List.getLast? (b :: run))]

theorem split_letter (hc : space c = false) (t : List α) :
    ∃ q more, (blanks space).split (c :: t) = (c :: q) :: more := by
  have hne := PatternScan.Token.pieces_ne_nil ((blanks space).tokens (some c) 0 t)
  obtain ⟨q, more, hpieces⟩ := List.exists_cons_of_ne_nil hne
  refine ⟨q, more, ?_⟩
  rw [Pattern.split, (blanks space).tokens_char (matchAt_letter hc none t), pieces, hpieces]
  rfl

/-- A text without blanks, or a word, a run of blanks and what follows it. -/
theorem exists_run (space : α → Bool) (text : List α) : (∀ c ∈ text, space c = false) ∨
    ∃ w b run rest, text = w ++ (b :: run ++ rest) ∧ (∀ c ∈ w, space c = false) ∧ space b = true ∧
      (∀ c ∈ run, space c = true) ∧ ∀ c ∈ rest.head?, space c = false := by
  have hletter : ∀ c ∈ text.takeWhile (fun c => !space c), space c = false := fun c hc => by
    simpa using List.mem_takeWhile_imp hc
  have htext := List.takeWhile_append_dropWhile (p := fun c => !space c) (l := text)
  cases hlast : text.dropWhile fun c => !space c with
  | nil =>
    rw [hlast, List.append_nil] at htext
    rw [htext] at hletter
    exact .inl hletter
  | cons b more =>
    have hb : space b = true := by
      have := List.head?_dropWhile_not (fun c => !space c) text
      simpa [hlast] using this
    refine .inr ⟨_, b, more.takeWhile space, more.dropWhile space, ?_, hletter, hb, ?_, ?_⟩
    · rw [List.cons_append, List.takeWhile_append_dropWhile, ← hlast, htext]
    · exact fun c hc => List.mem_takeWhile_imp hc
    · intro c hc
      have := List.head?_dropWhile_not space more
      rw [Option.mem_def.mp hc] at this
      simpa using this

variable {ws : List (List α)}

theorem head?_intercalate (hws : ∀ w ∈ ws, IsWord space w) :
    ∀ c ∈ ([b].intercalate ws).head?, space c = false := by
  cases ws with
  | nil => simp
  | cons w ws =>
    obtain ⟨d, w', rfl⟩ := List.exists_cons_of_ne_nil (hws w List.mem_cons_self).1
    have hd : space d = false := (hws (d :: w') List.mem_cons_self).2 d List.mem_cons_self
    cases ws with
    | nil => simpa using hd
    | cons v ws => simpa [List.intercalate_cons_cons] using hd

/-- Words that are joined are split again. -/
theorem split_intercalate (hb : space b = true) (hws : ∀ w ∈ ws, IsWord space w) (hne : ws ≠ []) :
    (blanks space).split ([b].intercalate ws) = ws := by
  induction ws with
  | nil => exact absurd rfl hne
  | cons w ws ih =>
    have hw := (hws w List.mem_cons_self).2
    have htail : ∀ v ∈ ws, IsWord space v := fun v hv => hws v (List.mem_cons_of_mem _ hv)
    cases ws with
    | nil => rw [List.intercalate_singleton, split_letters hw]
    | cons v ws =>
      have hsplit := split_run hw hb (List.forall_mem_nil _) (head?_intercalate (b := b) htail)
      rw [List.intercalate_cons_cons, List.append_assoc]
      exact hsplit.trans (congrArg (w :: ·) (ih htail (List.cons_ne_nil _ _)))

theorem framed_word (hw : IsWord space w) : Framed space w := SpacedText.framed_of_forall hw.1 hw.2

theorem Framed.between {u v : List α} (hu : Framed space u) (middle : List α) (hv : Framed space v) :
    Framed space (u ++ middle ++ v) := by
  obtain ⟨c, rest, hhead, hc⟩ := hu.head
  obtain ⟨init, d, hlast, hd⟩ := hv.last
  refine ⟨⟨c, rest ++ middle ++ v, by rw [hhead]; rfl, hc⟩, ⟨u ++ middle ++ init, d, ?_, hd⟩⟩
  rw [hlast, ← List.append_assoc]

theorem framed_intercalate (hws : ∀ w ∈ ws, IsWord space w) (hne : ws ≠ []) :
    Framed space ([b].intercalate ws) := by
  induction ws with
  | nil => exact absurd rfl hne
  | cons w ws ih =>
    have hw := framed_word (hws w List.mem_cons_self)
    cases ws with
    | nil => rwa [List.intercalate_singleton]
    | cons v ws =>
      rw [List.intercalate_cons_cons]
      exact Framed.between hw [b] (ih (fun u hu => hws u (List.mem_cons_of_mem _ hu)) (List.cons_ne_nil _ _))

theorem trim_intercalate (hws : ∀ w ∈ ws, IsWord space w) : trim space ([b].intercalate ws) = [b].intercalate ws := by
  cases ws with
  | nil => rfl
  | cons w ws => exact SpacedText.trim_framed (framed_intercalate hws (List.cons_ne_nil _ _))

theorem words_intercalate [DecidableEq α] (hb : space b = true) (hws : ∀ w ∈ ws, IsWord space w) :
    words space ([b].intercalate ws) = ws := by
  rw [words, trim_intercalate hws]
  cases ws with
  | nil =>
    have hnil : (blanks space).split [] = [[]] := split_letters (by simp)
    simp [hnil]
  | cons w ws =>
    rw [split_intercalate hb hws (List.cons_ne_nil _ _), List.filter_eq_self]
    exact fun v hv => decide_eq_true (hws v hv).1

/-- Joined words have no longer run of blanks to collapse. -/
theorem replaceAll_intercalate (hb : space b = true) (hws : ∀ w ∈ ws, IsWord space w) :
    (blanks space).replaceAll [b] ([b].intercalate ws) = [b].intercalate ws := by
  cases ws with
  | nil => rfl
  | cons w ws =>
    rw [PatternScan.Pattern.replaceAll_eq, split_intercalate hb hws (List.cons_ne_nil _ _)]

/-- The pieces have no blanks. -/
theorem letters_of_mem_split {text : List α} (h : w ∈ (blanks space).split text) : ∀ c ∈ w, space c = false := by
  intro c hc
  have hclean : (blanks space).Clean w :=
    PatternScan.Pattern.split_self_clean (fun _ _ _ _ _ _ => rfl) (fun _ _ _ _ _ _ => rfl) _ w h
  obtain ⟨l, r, hsplit⟩ := List.append_of_mem hc
  rw [← Bool.not_eq_true]
  intro hspace
  refine hclean l [c] r (by rw [hsplit, List.append_assoc]; rfl) ⟨⟨le_rfl, ?_⟩, rfl, rfl⟩
  simpa using hspace

theorem isWord_of_mem_words [DecidableEq α] {text : List α} (h : w ∈ words space text) : IsWord space w := by
  obtain ⟨hmem, hne⟩ := List.mem_filter.mp h
  exact ⟨of_decide_eq_true hne, letters_of_mem_split hmem⟩

theorem intercalate_append (sep : List α) {us vs : List (List α)} (hus : us ≠ []) (hvs : vs ≠ []) :
    sep.intercalate (us ++ vs) = sep.intercalate us ++ sep ++ sep.intercalate vs := by
  induction us with
  | nil => exact absurd rfl hus
  | cons u us ih =>
    cases us with
    | nil => rw [List.singleton_append, List.intercalate_cons_of_ne_nil hvs, List.intercalate_singleton]
    | cons u' us =>
      have ih := ih (List.cons_ne_nil _ _)
      rw [List.cons_append] at ih ⊢
      rw [List.cons_append, List.intercalate_cons_cons, ih, List.intercalate_cons_cons]
      simp only [List.append_assoc]

/-- Texts of words that are joined are the text of all the words. -/
theorem intercalate_intercalate (sep : List α) {groups : List (List (List α))} (hne : ∀ ws ∈ groups, ws ≠ []) :
    sep.intercalate (groups.map sep.intercalate) = sep.intercalate groups.flatten := by
  induction groups with
  | nil => rfl
  | cons ws groups ih =>
    have ih := ih fun v hv => hne v (List.mem_cons_of_mem _ hv)
    cases groups with
    | nil => simp
    | cons vs groups =>
      have hflatten : (vs :: groups).flatten ≠ [] := by
        have := hne vs (by simp)
        simp [this]
      rw [List.flatten_cons, intercalate_append sep (hne ws List.mem_cons_self) hflatten, ← ih]
      simp [List.intercalate_cons_cons]

end ModelForge.SplitWords
