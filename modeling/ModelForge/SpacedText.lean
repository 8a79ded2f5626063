import Mathlib.Data.List.DropRight
import Mathlib.Data.List.TakeWhile
import Mathlib.Data.List.Infix

set_option autoImplicit false

/-!
# Texts with blanks

Texts over any alphabet, some of whose characters are blanks: slices, and what is
left when the blanks at both ends are taken off.
-/
namespace ModelForge.SpacedText

variable {α : Type}

/-! ## Slices -/

def slice (text : List α) (start stop : ℕ) : List α := (text.drop start).take (stop - start)

theorem length_slice_le (text : List α) (start stop : ℕ) : (slice text start stop).length ≤ stop - start := by
  rw [slice, List.length_take]
  exact Nat.min_le_left _ _

theorem getElem?_slice (text : List α) (start stop i : ℕ) :
    (slice text start stop)[i]? = if start + i < stop then text[start + i]? else none := by
  rw [slice, List.getElem?_take, List.getElem?_drop]
  by_cases h : start + i < stop
  · rw [if_pos h, if_pos (by omega)]
  · rw [if_neg h, if_neg (by omega)]

theorem mem_slice_iff {text : List α} {start stop : ℕ} {c : α} :
    c ∈ slice text start stop ↔ ∃ k, start ≤ k ∧ k < stop ∧ text[k]? = some c := by
  rw [List.mem_iff_getElem?]
  constructor
  · intro ⟨i, hi⟩
    rw [getElem?_slice] at hi
    by_cases hstop : start + i < stop
    · rw [if_pos hstop] at hi
      exact ⟨start + i, Nat.le_add_right _ _, hstop, hi⟩
    · rw [if_neg hstop] at hi
      cases hi
  · intro ⟨k, hstart, hstop, hk⟩
    refine ⟨k - start, ?_⟩
    rw [getElem?_slice, Nat.add_sub_cancel' hstart, if_pos hstop, hk]

theorem slice_slice (text : List α) {start stop i j : ℕ} (hj : start + j ≤ stop) :
    slice (slice text start stop) i j = slice text (start + i) (start + j) := by
  rw [slice, slice, slice, List.drop_take, List.drop_drop, List.take_take]
  congr 1
  omega

theorem slice_zero_length (text : List α) : slice text 0 text.length = text := by
  rw [slice, List.drop_zero, Nat.sub_zero, List.take_length]

/-! ## Trimming -/

def trim (space : α → Bool) (text : List α) : List α := (text.dropWhile space).rdropWhile space

/-- A text that begins and ends with a character that is no blank. -/
structure Framed (space : α → Bool) (text : List α) : Prop where
  head : ∃ c rest, text = c :: rest ∧ space c = false
  last : ∃ rest c, text = rest ++ [c] ∧ space c = false

variable {space : α → Bool} {text front back : List α}

theorem Framed.ne_nil (h : Framed space text) : text ≠ [] := by
  obtain ⟨c, rest, rfl, _⟩ := h.head
  exact List.cons_ne_nil _ _

theorem dropWhile_append_cons {c : α} (hc : space c = false) (front rest : List α) :
    (front ++ c :: rest).dropWhile space = front.dropWhile space ++ c :: rest := by
  induction front with
  | nil => simp [hc]
  | cons d front ih =>
    cases hd : space d with
    | true => simpa [hd] using ih
    | false => simp [hd]

theorem rdropWhile_append_concat {c : α} (hc : space c = false) (rest back : List α) :
    (rest ++ [c] ++ back).rdropWhile space = rest ++ [c] ++ back.rdropWhile space := by
  have hreverse : (rest ++ [c] ++ back).reverse = back.reverse ++ c :: rest.reverse := by simp
  rw [List.rdropWhile, hreverse, dropWhile_append_cons hc, List.rdropWhile]
  simp

/-- Trimming takes only from what stands around a framed text. -/
theorem trim_context (h : Framed space text) (front back : List α) :
    trim space (front ++ text ++ back) =
      front.dropWhile space ++ text ++ back.rdropWhile space := by
  obtain ⟨c, rest, hhead, hc⟩ := h.head
  obtain ⟨init, d, hlast, hd⟩ := h.last
  have hdrop : (front ++ text ++ back).dropWhile space = front.dropWhile space ++ text ++ back := by
    rw [List.append_assoc, hhead, List.cons_append, dropWhile_append_cons hc, List.append_assoc,
      List.cons_append]
  rw [trim, hdrop, hlast, ← List.append_assoc, rdropWhile_append_concat hd]

theorem Framed.trim_eq (h : Framed space text) (hfront : ∀ c ∈ front, space c = true)
    (hback : ∀ c ∈ back, space c = true) : trim space (front ++ text ++ back) = text := by
  rw [trim_context h, List.dropWhile_eq_nil_iff.mpr hfront, List.rdropWhile_eq_nil_iff.mpr hback,
    List.nil_append, List.append_nil]

theorem trim_framed (h : Framed space text) : trim space text = text := by
  have htrim := h.trim_eq (List.forall_mem_nil _) (List.forall_mem_nil _)
  rwa [List.nil_append, List.append_nil] at htrim

theorem trim_eq_nil_iff : trim space text = [] ↔ ∀ c ∈ text, space c = true := by
  rw [trim, List.rdropWhile_eq_nil_iff]
  constructor
  · intro h c hc
    rw [← List.takeWhile_append_dropWhile (p := space) (l := text), List.mem_append] at hc
    rcases hc with hc | hc
    · exact List.mem_takeWhile_imp hc
    · exact h c hc
  · intro h c hc
    exact h c ((List.dropWhile_sublist _).mem hc)

theorem framed_trim (h : trim space text ≠ []) : Framed space (trim space text) := by
  have hdrop : text.dropWhile space ≠ [] := fun hnil => h (by rw [trim, hnil, List.rdropWhile_nil])
  have hhead := List.head_dropWhile_not space (l := text) hdrop
  obtain ⟨c, rest, hrest⟩ := List.exists_cons_of_ne_nil hdrop
  simp only [hrest, List.head_cons] at hhead
  constructor
  · obtain ⟨c', rest', hrest'⟩ := List.exists_cons_of_ne_nil h
    refine ⟨c', rest', hrest', ?_⟩
    have hprefix := List.rdropWhile_prefix space (l := text.dropWhile space)
    rw [trim] at hrest'
    rw [hrest', hrest] at hprefix
    rw [(List.cons_prefix_cons.mp hprefix).1]
    exact hhead
  · have hlast := List.rdropWhile_last_not space (text.dropWhile space) h
    refine ⟨(trim space text).dropLast, (trim space text).getLast h, ?_, ?_⟩
    · exact (List.dropLast_append_getLast h).symm
    · exact Bool.eq_false_iff.mpr hlast

theorem trim_split (space : α → Bool) (text : List α) : text =
    text.takeWhile space ++ trim space text ++ (text.dropWhile space).rtakeWhile space := by
  rw [trim, List.append_assoc, List.rdropWhile_append_rtakeWhile, List.takeWhile_append_dropWhile]

theorem exists_trim (space : α → Bool) (text : List α) : ∃ front back,
    text = front ++ trim space text ++ back ∧ (∀ c ∈ front, space c = true) ∧
      ∀ c ∈ back, space c = true := by
  refine ⟨text.takeWhile space, (text.dropWhile space).rtakeWhile space, trim_split space text, ?_, ?_⟩
  · intro c hc
    exact List.mem_takeWhile_imp hc
  · intro c hc
    exact List.mem_rtakeWhile_imp hc

theorem mem_trim {c : α} (hc : space c = false) (hmem : c ∈ text) : c ∈ trim space text := by
  obtain ⟨front, back, htext, hfront, hback⟩ := exists_trim space text
  have hblank (part : List α) (hpart : ∀ d ∈ part, space d = true) : c ∉ part := by
    intro hin
    rw [hpart c hin] at hc
    cases hc
  rw [htext] at hmem
  simpa [hblank front hfront, hblank back hback] using hmem

theorem filter_trim (space : α → Bool) (text : List α) :
    ((trim space text).filter fun c => !space c) = text.filter fun c => !space c := by
  obtain ⟨front, back, htext, hfront, hback⟩ := exists_trim space text
  have hblank (part : List α) (hpart : ∀ c ∈ part, space c = true) : (part.filter fun c => !space c) = [] := by
    rw [List.filter_eq_nil_iff]
    exact fun c hc => by simp [hpart c hc]
  conv_rhs => rw [htext]
  rw [List.filter_append, List.filter_append, hblank front hfront, hblank back hback, List.nil_append,
    List.append_nil]

/-- The text without its blanks is a slice. -/
theorem trim_eq_slice (space : α → Bool) (text : List α) : trim space text =
    slice text (text.takeWhile space).length ((text.takeWhile space).length + (trim space text).length) := by
  have htext := trim_split space text
  generalize text.takeWhile space = front at htext ⊢
  generalize (text.dropWhile space).rtakeWhile space = back at htext
  generalize trim space text = kept at htext ⊢
  rw [htext, slice, List.append_assoc, List.drop_left, Nat.add_sub_cancel_left, List.take_left]

/-- A character that is no blank stands between the blanks at both ends. -/
theorem trim_bounds {i : ℕ} {c : α} (hi : text[i]? = some c) (hc : space c = false) :
    (text.takeWhile space).length ≤ i ∧ i < (text.takeWhile space).length + (trim space text).length := by
  have hblank (part : List α) (hpart : ∀ d ∈ part, space d = true) (j : ℕ) : part[j]? ≠ some c := by
    intro hj
    rw [hpart c (List.mem_of_getElem? hj)] at hc
    cases hc
  have hfront := hblank (text.takeWhile space) fun d hd => List.mem_takeWhile_imp hd
  have hback := hblank ((text.dropWhile space).rtakeWhile space) fun d hd => List.mem_rtakeWhile_imp hd
  rw [trim_split space text] at hi
  constructor
  · by_contra hlt
    rw [List.append_assoc, List.getElem?_append_left (by omega)] at hi
    exact hfront i hi
  · by_contra hge
    rw [List.getElem?_append_right (by rw [List.length_append]; omega)] at hi
    exact hback _ hi

theorem trim_trim (space : α → Bool) (text : List α) : trim space (trim space text) = trim space text := by
  by_cases h : trim space text = []
  · rw [h]
    rfl
  · exact trim_framed (framed_trim h)

theorem framed_of_forall (hne : text ≠ []) (hletters : ∀ c ∈ text, space c = false) : Framed space text := by
  constructor
  · obtain ⟨c, rest, rfl⟩ := List.exists_cons_of_ne_nil hne
    exact ⟨c, rest, rfl, hletters c List.mem_cons_self⟩
  · exact ⟨text.dropLast, text.getLast hne, (List.dropLast_append_getLast hne).symm, hletters _ (List.getLast_mem hne)⟩

/-- Where blanks stand at the two ends only, trimming takes them all. -/
theorem trim_eq_filter (hinner : ∀ c ∈ text.tail.dropLast, space c = false) :
    trim space text = text.filter fun c => !space c := by
  by_cases hnil : (text.filter fun c => !space c) = []
  · rw [hnil, trim_eq_nil_iff]
    simpa using hnil
  · have hframed : Framed space (text.filter fun c => !space c) :=
      framed_of_forall hnil fun c hc => by simpa using (List.mem_filter.mp hc).2
    have hends : ∃ front back, text = front ++ (text.filter fun c => !space c) ++ back ∧
        (∀ c ∈ front, space c = true) ∧ ∀ c ∈ back, space c = true := by
      cases text with
      | nil => exact ⟨[], [], by simp⟩
      | cons a rest =>
        rw [List.tail_cons] at hinner
        have hone : ∀ c : α, [c] = [c].filter space ++ [c].filter (fun c => !space c) ∧
            [c] = [c].filter (fun c => !space c) ++ [c].filter space := by
          intro c
          cases hc : space c <;> simp [hc]
        cases List.eq_nil_or_concat rest with
        | inl hrest =>
          refine ⟨[a].filter space, [], ?_, ?_, by simp⟩
          · rw [hrest, List.append_nil]
            exact (hone a).1
          · exact fun c hc => (List.mem_filter.mp hc).2
        | inr hrest =>
          obtain ⟨middle, z, rfl⟩ := hrest
          rw [List.concat_eq_append] at hinner ⊢
          rw [List.dropLast_concat] at hinner
          have hmiddle : (middle.filter fun c => !space c) = middle := by
            rw [List.filter_eq_self]
            exact fun c hc => by simp [hinner c hc]
          refine ⟨[a].filter space, [z].filter space, ?_, ?_, ?_⟩
          · have hsplit : a :: (middle ++ [z]) = [a] ++ middle ++ [z] := by simp
            rw [hsplit, List.filter_append, List.filter_append, hmiddle]
            have happend : [a].filter space ++ ([a].filter (fun c => !space c) ++ middle ++
                [z].filter fun c => !space c) ++ [z].filter space =
                ([a].filter space ++ [a].filter fun c => !space c) ++ middle ++
                  ([z].filter (fun c => !space c) ++ [z].filter space) := by simp only [List.append_assoc]
            rw [happend, ← (hone a).1, ← (hone z).2]
          · exact fun c hc => (List.mem_filter.mp hc).2
          · exact fun c hc => (List.mem_filter.mp hc).2
    obtain ⟨front, back, htext, hfront, hback⟩ := hends
    have htrim := hframed.trim_eq hfront hback
    rwa [← htext] at htrim

/-- A blank that trimming leaves stands between two characters that are none. -/
theorem mem_trim_iff {q : α} (hq : space q = true) : q ∈ trim space text ↔
    ∃ before after, text = before ++ q :: after ∧ (∃ c ∈ before, space c = false) ∧
      ∃ c ∈ after, space c = false := by
  constructor
  · intro hmem
    obtain ⟨front, back, htext, -, -⟩ := exists_trim space text
    have hframed := framed_trim (List.ne_nil_of_mem hmem)
    obtain ⟨l, r, hsplit⟩ := List.append_of_mem hmem
    refine ⟨front ++ l, r ++ back, ?_, ?_, ?_⟩
    · rw [htext, hsplit]
      simp only [List.append_assoc, List.cons_append]
    · obtain ⟨c, rest, hhead, hc⟩ := hframed.head
      have hget : (l ++ q :: r).head? = some c := by rw [← hsplit, hhead, List.head?_cons]
      refine ⟨c, List.mem_append_right _ ?_, hc⟩
      cases l with
      | nil =>
        rw [← Option.some.inj hget, hq] at hc
        cases hc
      | cons d l => exact List.mem_of_head? hget
    · obtain ⟨rest, c, hlast, hc⟩ := hframed.last
      have hget : (l ++ q :: r).getLast? = some c := by rw [← hsplit, hlast, List.getLast?_concat]
      rw [List.getLast?_append_of_ne_nil _ (List.cons_ne_nil _ _)] at hget
      refine ⟨c, List.mem_append_left _ ?_, hc⟩
      cases r with
      | nil =>
        have heq : q = c := Option.some.inj hget
        rw [← heq, hq] at hc
        cases hc
      | cons d r =>
        rw [List.getLast?_cons_cons] at hget
        exact List.mem_of_getLast? hget
  · rintro ⟨before, after, htext, ⟨c, hc, hclear⟩, d, hd, hdclear⟩
    obtain ⟨before₁, before₂, rfl⟩ := List.append_of_mem hc
    obtain ⟨after₁, after₂, rfl⟩ := List.append_of_mem hd
    have hframed : Framed space (c :: before₂ ++ q :: after₁ ++ [d]) := by
      refine ⟨⟨c, _, rfl, hclear⟩, ⟨c :: before₂ ++ q :: after₁, d, rfl, hdclear⟩⟩
    have hsplit : text = before₁ ++ (c :: before₂ ++ q :: after₁ ++ [d]) ++ after₂ := by
      rw [htext]
      simp
    rw [hsplit, trim_context hframed]
    simp

theorem length_trim_le (space : α → Bool) (text : List α) : (trim space text).length ≤ text.length := by
  obtain ⟨front, back, htext, _⟩ := exists_trim space text
  have := congrArg List.length htext
  rw [List.length_append, List.length_append] at this
  omega

/-! ## Texts in a text -/

/-- The parts stand in the text one behind the other. -/
def InOrder : List (List α) → List α → Prop
  | [], _ => True
  | part :: parts, text => ∃ front rest, text = front ++ part ++ rest ∧ InOrder parts rest

variable {parts parts' : List (List α)} {text' : List α}

theorem InOrder.prepend (h : InOrder parts text) (front : List α) : InOrder parts (front ++ text) := by
  cases parts with
  | nil => trivial
  | cons part parts =>
    obtain ⟨before, rest, rfl, hrest⟩ := h
    exact ⟨front ++ before, rest, by simp only [List.append_assoc], hrest⟩

theorem InOrder.append (h : InOrder parts text) (h' : InOrder parts' text') :
    InOrder (parts ++ parts') (text ++ text') := by
  induction parts generalizing text with
  | nil => exact h'.prepend text
  | cons part parts ih =>
    obtain ⟨front, rest, rfl, hrest⟩ := h
    exact ⟨front, rest ++ text', by simp only [List.append_assoc], ih hrest⟩

theorem inOrder_trim (space : α → Bool) (text : List α) : InOrder [trim space text] text := by
  obtain ⟨front, back, htext, _⟩ := exists_trim space text
  exact ⟨front, back, htext, trivial⟩

theorem InOrder.rdropWhile (hparts : ∀ part ∈ parts, Framed space part) (h : InOrder parts text) :
    InOrder parts (text.rdropWhile space) := by
  induction parts generalizing text with
  | nil => trivial
  | cons part parts ih =>
    obtain ⟨front, rest, rfl, hrest⟩ := h
    obtain ⟨init, c, hlast, hc⟩ := (hparts part List.mem_cons_self).last
    refine ⟨front, rest.rdropWhile space, ?_, ih (fun p hp => hparts p (List.mem_cons_of_mem _ hp)) hrest⟩
    rw [hlast, ← List.append_assoc front, rdropWhile_append_concat hc]

/-- Trimming leaves parts that begin and end with other characters. -/
theorem InOrder.trim (hparts : ∀ part ∈ parts, Framed space part) (h : InOrder parts text) :
    InOrder parts (trim space text) := by
  cases parts with
  | nil => trivial
  | cons part parts =>
    obtain ⟨front, rest, rfl, hrest⟩ := h
    refine ⟨front.dropWhile space, rest.rdropWhile space, ?_, ?_⟩
    · exact trim_context (hparts part List.mem_cons_self) front rest
    · exact hrest.rdropWhile fun p hp => hparts p (List.mem_cons_of_mem _ hp)

end ModelForge.SpacedText
