import Mathlib.Data.List.Infix

set_option autoImplicit false

/-!
# Marks in a text

Where a mark stands in a text that is put together of parts, and the cut at its
first place. A letter that is not in the mark keeps the parts apart.
-/
namespace ModelForge.TextMarks

variable {α : Type} {mark x y : List α} {d : α}

theorem prefix_append_cons (hd : d ∉ mark) : mark <+: x ++ d :: y ↔ mark <+: x := by
  constructor
  · intro h
    have hparts : x ++ [d] <+: x ++ d :: y := ⟨y, by simp⟩
    rcases List.prefix_or_prefix_of_prefix h hparts with hmark | hmark
    · rcases List.prefix_concat_iff.mp hmark with heq | hx
      · exact absurd (heq ▸ List.mem_append_right x List.mem_cons_self) hd
      · exact hx
    · exact absurd (hmark.subset (List.mem_append_right x List.mem_cons_self)) hd
  · exact fun h => h.trans (List.prefix_append x _)

theorem infix_append_cons (hd : d ∉ mark) : mark <:+: x ++ d :: y ↔ mark <:+: x ∨ mark <:+: y := by
  induction x with
  | nil =>
    rw [List.nil_append, List.infix_cons_iff, List.infix_nil, ← List.nil_append (d :: y),
      prefix_append_cons hd, List.prefix_nil]
  | cons c x ih =>
    rw [List.cons_append, List.infix_cons_iff, ih, ← List.cons_append, prefix_append_cons hd,
      List.infix_cons_iff, or_assoc]

theorem infix_append_of_disjoint (hne : mark ≠ []) (hx : ∀ c ∈ x, c ∉ mark) :
    mark <:+: x ++ y ↔ mark <:+: y := by
  induction x with
  | nil => rfl
  | cons c x ih =>
    obtain ⟨hc, hx⟩ := List.forall_mem_cons.mp hx
    rw [List.cons_append, ← List.nil_append (c :: (x ++ y)), infix_append_cons hc, ih hx, List.infix_nil,
      or_iff_right hne]

theorem infix_intercalate (hne : mark ≠ []) (hd : d ∉ mark) (texts : List (List α)) :
    mark <:+: [d].intercalate texts ↔ ∃ text ∈ texts, mark <:+: text := by
  induction texts with
  | nil => simpa using hne
  | cons text texts ih =>
    by_cases hnil : texts = []
    · simp [hnil]
    · rw [List.intercalate_cons_of_ne_nil hnil, List.append_assoc, List.singleton_append,
        infix_append_cons hd, ih, List.exists_mem_cons_iff]

theorem infix_framed {e : α} (hne : mark ≠ []) (hd : d ∉ mark) (he : e ∉ mark) :
    mark <:+: d :: (x ++ [e]) ↔ mark <:+: x := by
  rw [← List.nil_append (d :: (x ++ [e])), infix_append_cons hd, List.infix_nil, or_iff_right hne,
    infix_append_cons he, List.infix_nil, or_iff_left hne]

theorem not_infix_of_notMem {c : α} {n : ℕ} (hn : 0 < n) (hc : c ∉ x) : ¬ List.replicate n c <:+: x := by
  intro h
  exact hc (h.subset (List.mem_replicate.mpr ⟨hn.ne', rfl⟩))

/-! ## A letter that is written as itself -/

section Spells

variable {β : Type} {write : List β → List α} {a : α} {b : β}

/-- A text is written piece by piece: `b` is written as `a`, and the other pieces
without an `a`. -/
structure Spells (write : List β → List α) (b : β) (a : α) : Prop where
  nil : write [] = []
  letter : ∀ s, write (b :: s) = a :: write s
  piece : ∀ u s, u ≠ b → ∃ front rest text, u :: s = front ++ rest ∧ write (u :: s) = text ++ write rest ∧
    front ≠ [] ∧ text ≠ [] ∧ b ∉ front ∧ a ∉ text

theorem Spells.prefix_iff (h : Spells write b a) (n : ℕ) (s : List β) :
    List.replicate n a <+: write s ↔ List.replicate n b <+: s := by
  induction n generalizing s with
  | zero => simp
  | succ n ih =>
    rw [List.replicate_succ, List.replicate_succ]
    cases s with
    | nil => simp [h.nil]
    | cons u s =>
      by_cases hu : u = b
      · rw [hu, h.letter, List.cons_prefix_cons, List.cons_prefix_cons, ih]
        simp
      · obtain ⟨front, rest, text, hs, hwrite, -, htext, -, ha⟩ := h.piece u s hu
        obtain ⟨c, text, rfl⟩ := List.exists_cons_of_ne_nil htext
        have hc : a ≠ c := fun hac => ha (hac ▸ List.mem_cons_self)
        rw [hwrite, List.cons_append, List.cons_prefix_cons, List.cons_prefix_cons]
        exact ⟨fun hprefix => absurd hprefix.1 hc, fun hprefix => absurd hprefix.1.symm hu⟩

/-- A run of the letter stands in the written text where it stood in the text. -/
theorem Spells.infix_iff (h : Spells write b a) {n : ℕ} (hn : 0 < n) (s : List β) :
    List.replicate n a <:+: write s ↔ List.replicate n b <:+: s := by
  induction hlength : s.length using Nat.strong_induction_on generalizing s with
  | _ length ih =>
    cases s with
    | nil =>
      rw [h.nil, List.infix_nil, List.infix_nil, List.replicate_eq_nil_iff, List.replicate_eq_nil_iff]
    | cons u s =>
      by_cases hu : u = b
      · have hprefix := h.prefix_iff n (u :: s)
        have hrest := ih s.length (by simp [← hlength]) s rfl
        rw [hu, h.letter] at hprefix
        rw [hu, h.letter, List.infix_cons_iff, List.infix_cons_iff, hprefix, hrest]
      · obtain ⟨front, rest, text, hs, hwrite, hfront, -, hb, ha⟩ := h.piece u s hu
        have hshort : rest.length < length := by
          rw [← hlength, hs, List.length_append]
          exact Nat.lt_add_of_pos_left (List.length_pos_of_ne_nil hfront)
        have hpass : ∀ {γ : Type} {c : γ} {x : List γ}, c ∉ x → ∀ d ∈ x, d ∉ List.replicate n c := by
          rintro γ c x hc d hd hmem
          exact hc (List.eq_of_mem_replicate hmem ▸ hd)
        rw [hwrite, hs, infix_append_of_disjoint (by simpa using hn.ne') (hpass ha),
          infix_append_of_disjoint (by simpa using hn.ne') (hpass hb)]
        exact ih rest.length hshort rest rfl

end Spells

/-! ## The first mark -/

variable [DecidableEq α]

/-- The text before the first mark, and what follows the mark. -/
def cut (mark : List α) : List α → Option (List α × List α)
  | [] => none
  | c :: rest =>
    if mark <+: c :: rest then some ([], (c :: rest).drop mark.length)
    else (cut mark rest).map fun parts => (c :: parts.1, parts.2)

theorem cut_eq_none_iff (hne : mark ≠ []) {text : List α} : cut mark text = none ↔ ¬ mark <:+: text := by
  induction text with
  | nil => simpa [cut] using hne
  | cons c rest ih =>
    rw [cut, List.infix_cons_iff, not_or]
    split
    · rename_i hmark
      simp [hmark]
    · rename_i hmark
      rw [Option.map_eq_none_iff, ih, and_iff_right hmark]

theorem eq_of_cut {text before behind : List α} (h : cut mark text = some (before, behind)) :
    text = before ++ mark ++ behind := by
  induction text generalizing before with
  | nil => cases h
  | cons c rest ih =>
    rw [cut] at h
    split at h
    · rename_i hmark
      cases h
      rw [List.nil_append]
      exact (List.prefix_iff_eq_append.mp hmark).symm
    · obtain ⟨⟨before', behind'⟩, hcut, hparts⟩ := Option.map_eq_some_iff.mp h
      cases hparts
      rw [ih hcut]
      simp

theorem length_le_of_cut {text before behind front rest : List α} (h : cut mark text = some (before, behind))
    (htext : text = front ++ mark ++ rest) : before.length ≤ front.length := by
  induction text generalizing before front with
  | nil => cases h
  | cons c text ih =>
    rw [cut] at h
    split at h
    · cases h
      exact Nat.zero_le _
    · rename_i hmark
      obtain ⟨⟨before', behind'⟩, hcut, hparts⟩ := Option.map_eq_some_iff.mp h
      cases hparts
      cases front with
      | nil => exact absurd ⟨rest, htext.symm⟩ hmark
      | cons d front => exact Nat.succ_le_succ (ih hcut (List.cons.inj htext).2)

theorem cut_append {text before behind : List α} (h : cut mark text = some (before, behind)) (more : List α) :
    cut mark (text ++ more) = some (before, behind ++ more) := by
  induction text generalizing before with
  | nil => cases h
  | cons c rest ih =>
    rw [cut] at h
    rw [List.cons_append, cut]
    split at h
    · rename_i hmark
      cases h
      rw [← List.cons_append, if_pos (hmark.trans (List.prefix_append _ more)),
        List.drop_append_of_le_length hmark.length_le]
    · rename_i hmark
      obtain ⟨⟨before', behind'⟩, hcut, hparts⟩ := Option.map_eq_some_iff.mp h
      cases hparts
      have hnot : ¬ mark <+: c :: (rest ++ more) := by
        rw [eq_of_cut hcut] at hmark ⊢
        intro hlong
        refine hmark (List.prefix_of_prefix_length_le hlong ⟨more, by simp⟩ ?_)
        simp only [List.length_cons, List.length_append]
        omega
      rw [if_neg hnot, ih hcut]
      rfl

theorem cut_append_cons (hne : mark ≠ []) (hd : d ∉ mark) (hx : ¬ mark <:+: x) (y : List α) :
    cut mark (x ++ d :: y) = (cut mark y).map fun parts => (x ++ d :: parts.1, parts.2) := by
  induction x with
  | nil =>
    have hnot : ¬ mark <+: d :: y := by
      rwa [← List.nil_append (d :: y), prefix_append_cons hd, List.prefix_nil]
    rw [List.nil_append, cut, if_neg hnot]
    rfl
  | cons c x ih =>
    rw [List.infix_cons_iff, not_or] at hx
    have hnot : ¬ mark <+: c :: (x ++ d :: y) := by
      rw [← List.cons_append, prefix_append_cons hd]
      exact hx.1
    rw [List.cons_append, cut, if_neg hnot, ih hx.2, Option.map_map]
    rfl

theorem cut_mark_append (hne : mark ≠ []) (y : List α) : cut mark (mark ++ y) = some ([], y) := by
  obtain ⟨c, rest, rfl⟩ := List.exists_cons_of_ne_nil hne
  have hmark : c :: rest <+: c :: (rest ++ y) := List.prefix_append (c :: rest) y
  rw [List.cons_append, cut, if_pos hmark, ← List.cons_append, List.drop_left]

end ModelForge.TextMarks
