import Mathlib

set_option autoImplicit false

/-!
# Reading a stream that arrives in pieces

A decoder that keeps what it cannot read yet, and a reader of lines that keeps
the line it has not seen the end of. Neither depends on where the stream is cut.
-/
namespace ModelForge.StreamDecoding

/-! ## Codes -/

/-- A code that `first` reads from the front: it reads a code that is there, and
no other. -/
structure Code (α β : Type) where
  encode : α → List β
  first : List β → Option α
  nonempty : ∀ a, encode a ≠ []
  reads : ∀ a rest, first (encode a ++ rest) = some a
  read : ∀ bytes a, first bytes = some a → encode a <+: bytes

namespace Code

variable {α β : Type} (code : Code α β)

def encodeAll (text : List α) : List β := text.flatMap code.encode

/-- Reads what can be read, in at most so many rounds, and returns it with the rest. -/
def drain : ℕ → List β → List α × List β
  | 0, bytes => ([], bytes)
  | fuel + 1, bytes =>
    match code.first bytes with
    | none => ([], bytes)
    | some a =>
      let (text, rest) := drain fuel (bytes.drop (code.encode a).length)
      (a :: text, rest)

def decodeEach : List β → List (List β) → List (List α)
  | _, [] => []
  | pending, chunk :: rest =>
    let (text, pending) := code.drain (pending ++ chunk).length (pending ++ chunk)
    text :: decodeEach pending rest

@[simp] theorem encodeAll_nil : code.encodeAll [] = [] := rfl

@[simp] theorem encodeAll_cons (a : α) (text : List α) :
    code.encodeAll (a :: text) = code.encode a ++ code.encodeAll text := rfl

theorem drop_encode {a : α} {bytes : List β} (h : code.first bytes = some a) :
    code.encode a ++ bytes.drop (code.encode a).length = bytes := by
  obtain ⟨rest, hrest⟩ := code.read bytes a h
  rw [← hrest, List.drop_left]

theorem drain_spec {fuel : ℕ} {bytes : List β} (h : bytes.length ≤ fuel) :
    code.encodeAll (code.drain fuel bytes).1 ++ (code.drain fuel bytes).2 = bytes ∧
      code.first (code.drain fuel bytes).2 = none := by
  induction fuel generalizing bytes with
  | zero =>
    obtain rfl := List.eq_nil_of_length_eq_zero (Nat.le_zero.mp h)
    refine ⟨rfl, ?_⟩
    change code.first [] = none
    cases hfirst : code.first [] with
    | none => rfl
    | some a => exact absurd (List.prefix_nil.mp (code.read [] a hfirst)) (code.nonempty a)
  | succ fuel ih =>
    rw [drain]
    cases hfirst : code.first bytes with
    | none => exact ⟨rfl, hfirst⟩
    | some a =>
      have hlength : 0 < (code.encode a).length := List.length_pos_of_ne_nil (code.nonempty a)
      have hshort : (bytes.drop (code.encode a).length).length ≤ fuel := by
        rw [List.length_drop]
        omega
      obtain ⟨hbytes, hnone⟩ := ih hshort
      dsimp only
      refine ⟨?_, hnone⟩
      rw [encodeAll_cons, List.append_assoc, hbytes]
      exact code.drop_encode hfirst

/-- What follows the code of a text's beginning is the code of its rest. -/
theorem encodeAll_split {read text : List α} {more : List β}
    (h : code.encodeAll read ++ more = code.encodeAll text) :
    ∃ unread, text = read ++ unread ∧ more = code.encodeAll unread := by
  induction read generalizing text with
  | nil => exact ⟨text, rfl, h⟩
  | cons a read ih =>
    rw [encodeAll_cons, List.append_assoc] at h
    have hfirst : code.first (code.encodeAll text) = some a := by
      rw [← h]
      exact code.reads a _
    cases text with
    | nil =>
      have hnil := code.read _ a hfirst
      exact absurd (List.prefix_nil.mp hnil) (code.nonempty a)
    | cons b text =>
      rw [encodeAll_cons, code.reads] at hfirst
      obtain rfl := Option.some.inj hfirst
      rw [encodeAll_cons] at h
      obtain ⟨unread, htext, hmore⟩ := ih (List.append_cancel_left h)
      exact ⟨unread, congrArg (b :: ·) htext, hmore⟩

theorem decodeEach_spec {pending : List β} {chunks : List (List β)} {text : List α}
    (hpending : code.first pending = none) (h : pending ++ chunks.flatten = code.encodeAll text) :
    (code.decodeEach pending chunks).flatten = text := by
  induction chunks generalizing pending text with
  | nil =>
    rw [List.flatten_nil, List.append_nil] at h
    cases text with
    | nil => rfl
    | cons a text =>
      rw [h, encodeAll_cons, code.reads] at hpending
      cases hpending
  | cons chunk rest ih =>
    obtain ⟨hbytes, hnone⟩ := code.drain_spec (le_refl (pending ++ chunk).length)
    rw [List.flatten_cons, ← List.append_assoc, ← hbytes, List.append_assoc] at h
    obtain ⟨unread, htext, hmore⟩ := code.encodeAll_split h
    rw [decodeEach, List.flatten_cons, ih hnone hmore, htext]

/-- However the code of a text is cut, its text is read. -/
theorem decodeEach_flatten {chunks : List (List β)} {text : List α}
    (h : chunks.flatten = code.encodeAll text) : (code.decodeEach [] chunks).flatten = text := by
  apply code.decodeEach_spec _ h
  exact (code.drain_spec (le_refl ([] : List β).length)).2

end Code

/-! ## UTF-8 -/

def utf8 : Code Char UInt8 where
  encode := String.utf8EncodeChar
  first := fun bytes => bytes.toByteArray.utf8DecodeChar? 0
  nonempty := fun _ => String.utf8EncodeChar_ne_nil
  reads := by
    intro c rest
    rw [List.toByteArray_append]
    exact ByteArray.utf8DecodeChar?_utf8EncodeChar_append
  read := by
    intro bytes c h
    obtain ⟨rest, hrest⟩ := ByteArray.exists_of_utf8DecodeChar?_eq_some h
    have hlist := congrArg (fun b => b.data.toList) hrest
    exact ⟨rest.data.toList, by simpa using hlist.symm⟩

/-! ## Lines -/

section Lines

variable {σ β : Type} [DecidableEq β]

/-- The line that has not ended, and what was made of the ones that have. -/
structure Reader (σ β : Type) where
  buffer : List β
  state : σ

def Reader.feed (sep : β) (step : σ → List β → σ) (r : Reader σ β) (piece : List β) : Reader σ β :=
  let lines := (r.buffer ++ piece).splitOn sep
  ⟨lines.getLastD [], lines.dropLast.foldl step r.state⟩

theorem dropLast_cons {α : Type} (x : α) {xs : List α} (h : xs ≠ []) :
    (x :: xs).dropLast = x :: xs.dropLast := by
  cases xs with
  | nil => exact absurd rfl h
  | cons y ys => rfl

theorem getLastD_cons {α : Type} (x d : α) {xs : List α} (h : xs ≠ []) :
    (x :: xs).getLastD d = xs.getLastD d := by
  cases xs with
  | nil => exact absurd rfl h
  | cons y ys => rfl

theorem getLastD_append {α : Type} (d : α) (xs : List α) {ys : List α} (h : ys ≠ []) :
    (xs ++ ys).getLastD d = ys.getLastD d := by
  rw [List.getLastD_eq_getLast?, List.getLastD_eq_getLast?, List.getLast?_append_of_ne_nil xs h]

/-- Only the last line goes on in what follows. -/
theorem splitOn_append (sep : β) (xs ys : List β) :
    (xs ++ ys).splitOn sep =
      (xs.splitOn sep).dropLast ++ ((xs.splitOn sep).getLastD [] ++ ys).splitOn sep := by
  induction xs with
  | nil => rfl
  | cons x xs ih =>
    have hne : xs.splitOn sep ≠ [] := List.splitOn_ne_nil sep xs
    rw [List.cons_append, List.splitOn_cons_eq_if_modifyHead, List.splitOn_cons_eq_if_modifyHead]
    by_cases hx : x = sep
    · have hb : (x == sep) = true := beq_iff_eq.mpr hx
      rw [if_pos hb, if_pos hb, dropLast_cons _ hne, getLastD_cons _ _ hne, ih, List.cons_append]
    · have hb : ¬ (x == sep) = true := fun h => hx (beq_iff_eq.mp h)
      rw [if_neg hb, if_neg hb]
      obtain ⟨line, lines, hlines⟩ := List.exists_cons_of_ne_nil hne
      rw [hlines] at ih ⊢
      cases lines with
      | nil =>
        have hline : (xs ++ ys).splitOn sep = (line ++ ys).splitOn sep := by simpa using ih
        simp [List.splitOn_cons_eq_if_modifyHead, hb, hline]
      | cons next lines => simp [ih]

theorem not_mem_of_mem_splitOn {sep : β} {text part : List β} (h : part ∈ text.splitOn sep) :
    sep ∉ part := by
  induction text generalizing part with
  | nil =>
    rw [List.splitOn_nil, List.mem_singleton] at h
    simp [h]
  | cons c text ih =>
    rw [List.splitOn_cons_eq_if_modifyHead] at h
    by_cases hc : c = sep
    · simp only [hc, beq_self_eq_true, if_true, List.mem_cons] at h
      cases h with
      | inl h => simp [h]
      | inr h => exact ih h
    · have hhead := List.exists_cons_of_ne_nil (List.splitOn_ne_nil sep text)
      obtain ⟨first, rest, hsplit⟩ := hhead
      simp only [beq_iff_eq, hc, if_false, hsplit, List.modifyHead_cons, List.mem_cons] at h
      cases h with
      | inl h =>
        rw [h, List.mem_cons, not_or]
        exact ⟨fun heq => hc heq.symm, ih (by simp [hsplit])⟩
      | inr h => exact ih (by simp [hsplit, h])

variable (sep : β) (step : σ → List β → σ)

theorem Reader.feed_feed (r : Reader σ β) (xs ys : List β) :
    (r.feed sep step xs).feed sep step ys = r.feed sep step (xs ++ ys) := by
  have hne : ((((r.buffer ++ xs).splitOn sep).getLastD []) ++ ys).splitOn sep ≠ [] :=
    List.splitOn_ne_nil _ _
  unfold feed
  rw [← List.append_assoc, splitOn_append sep (r.buffer ++ xs) ys]
  simp only [List.dropLast_append_of_ne_nil hne, List.foldl_append, getLastD_append [] _ hne]

theorem Reader.foldl_feed (r : Reader σ β) (xs : List β) (pieces : List (List β)) :
    pieces.foldl (Reader.feed sep step) (r.feed sep step xs) =
      r.feed sep step (xs ++ pieces.flatten) := by
  induction pieces generalizing xs with
  | nil => simp
  | cons piece rest ih =>
    rw [List.foldl_cons, r.feed_feed, ih, List.flatten_cons, List.append_assoc]

/-- However the text is cut, its lines are read. -/
theorem Reader.foldl_feed_start (s : σ) (pieces : List (List β)) :
    pieces.foldl (Reader.feed sep step) ⟨[], s⟩ = Reader.feed sep step ⟨[], s⟩ pieces.flatten := by
  have hstart : Reader.feed sep step ⟨[], s⟩ [] = ⟨[], s⟩ := rfl
  have hall := Reader.foldl_feed sep step ⟨[], s⟩ [] pieces
  rw [hstart, List.nil_append] at hall
  exact hall

theorem Reader.feed_line {line : List β} (h : sep ∉ line) (s : σ) (rest : List β) :
    Reader.feed sep step ⟨[], s⟩ (line ++ sep :: rest) =
      Reader.feed sep step ⟨[], step s line⟩ rest := by
  have hne : rest.splitOn sep ≠ [] := List.splitOn_ne_nil sep rest
  unfold feed
  rw [List.nil_append, List.nil_append, List.splitOn_append_cons_self_of_not_mem h]
  simp only [dropLast_cons _ hne, getLastD_cons _ _ hne, List.foldl_cons]

end Lines

end ModelForge.StreamDecoding
