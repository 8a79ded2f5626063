import Mathlib

set_option autoImplicit false

/-!
# Patterns that a text is searched for

A pattern is a regular expression between two tests on the characters beside it.
A global search takes the first match from left to right, and goes on behind it.
-/
namespace ModelForge.PatternScan

variable {α : Type}

/-! ## Expressions -/

inductive Regex (α : Type) where
  | one (p : α → Bool)
  | seq (r s : Regex α)
  | opt (r : Regex α)
  /-- at least `least` times, and up to `more` times more -/
  | times (r : Regex α) (least more : ℕ)
  | many (p : α → Bool) (least : ℕ)

def endsUpTo (f : List α → List (List α)) : ℕ → List α → List (List α)
  | 0, t => [t]
  | m + 1, t => (f t).flatMap (endsUpTo f m) ++ [t]

def endsTimes (f : List α → List (List α)) (more : ℕ) : ℕ → List α → List (List α)
  | 0, t => endsUpTo f more t
  | n + 1, t => (f t).flatMap (endsTimes f more n)

def endsMany (p : α → Bool) : ℕ → List α → List (List α)
  | 0, [] => [[]]
  | 0, c :: t => if p c then endsMany p 0 t ++ [c :: t] else [c :: t]
  | _ + 1, [] => []
  | n + 1, c :: t => if p c then endsMany p n t else []

namespace Regex

/-- What can follow a match at the start of a text, in the order of a greedy search. -/
def ends : Regex α → List α → List (List α)
  | .one _, [] => []
  | .one p, c :: t => if p c then [t] else []
  | .seq r s, t => (r.ends t).flatMap s.ends
  | .opt r, t => r.ends t ++ [t]
  | .times r least more, t => endsTimes r.ends more least t
  | .many p least, t => endsMany p least t

def lang : Regex α → List α → Prop
  | .one p, w => ∃ c, p c = true ∧ w = [c]
  | .seq r s, w => ∃ u v, r.lang u ∧ s.lang v ∧ w = u ++ v
  | .opt r, w => r.lang w ∨ w = []
  | .times r least more, w => ∃ ws : List (List α), least ≤ ws.length ∧
      ws.length ≤ least + more ∧ (∀ u ∈ ws, r.lang u) ∧ w = ws.flatten
  | .many p least, w => least ≤ w.length ∧ ∀ c ∈ w, p c = true

def minLength : Regex α → ℕ
  | .one _ => 1
  | .seq r s => r.minLength + s.minLength
  | .opt _ => 0
  | .times r least _ => least * r.minLength
  | .many _ least => least

/-- `x` stands in no match. -/
def avoids (x : α) : Regex α → Bool
  | .one p => !p x
  | .seq r s => r.avoids x && s.avoids x
  | .opt r => r.avoids x
  | .times r _ _ => r.avoids x
  | .many p _ => !p x

end Regex

theorem mem_endsUpTo {f : List α → List (List α)} {L : List α → Prop}
    (hf : ∀ t rest, rest ∈ f t ↔ ∃ u, L u ∧ t = u ++ rest) (m : ℕ) (t rest : List α) :
    rest ∈ endsUpTo f m t ↔
      ∃ ws : List (List α), ws.length ≤ m ∧ (∀ u ∈ ws, L u) ∧ t = ws.flatten ++ rest := by
  induction m generalizing t with
  | zero =>
    simp only [endsUpTo, List.mem_singleton]
    constructor
    · intro h
      exact ⟨[], le_rfl, by simp, by simp [h]⟩
    · intro ⟨ws, hlen, _, h⟩
      rw [List.eq_nil_of_length_eq_zero (Nat.le_zero.mp hlen)] at h
      exact h.symm
  | succ m ih =>
    simp only [endsUpTo, List.mem_append, List.mem_flatMap, List.mem_singleton, hf, ih]
    constructor
    · intro h
      cases h with
      | inl h =>
        obtain ⟨_, ⟨u, hu, rfl⟩, ws, hlen, hws, rfl⟩ := h
        exact ⟨u :: ws, by simpa using hlen, by simpa using ⟨hu, hws⟩, by simp⟩
      | inr h => exact ⟨[], by simp, by simp, by simp [h]⟩
    · intro ⟨ws, hlen, hws, h⟩
      cases ws with
      | nil => exact .inr h.symm
      | cons u ws =>
        refine .inl ⟨ws.flatten ++ rest, ⟨u, hws u (by simp), by simpa using h⟩, ws, ?_, ?_, rfl⟩
        · simpa using hlen
        · intro v hv
          exact hws v (by simp [hv])

theorem mem_endsTimes {f : List α → List (List α)} {L : List α → Prop}
    (hf : ∀ t rest, rest ∈ f t ↔ ∃ u, L u ∧ t = u ++ rest) (more n : ℕ) (t rest : List α) :
    rest ∈ endsTimes f more n t ↔ ∃ ws : List (List α), n ≤ ws.length ∧
      ws.length ≤ n + more ∧ (∀ u ∈ ws, L u) ∧ t = ws.flatten ++ rest := by
  induction n generalizing t with
  | zero =>
    rw [endsTimes, mem_endsUpTo hf]
    simp
  | succ n ih =>
    simp only [endsTimes, List.mem_flatMap, hf, ih]
    constructor
    · intro ⟨_, ⟨u, hu, ht⟩, ws, hleast, hmost, hws, h⟩
      subst h
      exact ⟨u :: ws, by simpa using hleast, by simp only [List.length_cons]; omega,
        by simpa using ⟨hu, hws⟩, by simp [ht]⟩
    · intro ⟨ws, hleast, hmost, hws, h⟩
      cases ws with
      | nil => simp at hleast
      | cons u ws =>
        simp only [List.length_cons] at hleast hmost
        refine ⟨ws.flatten ++ rest, ⟨u, hws u (by simp), by simpa using h⟩, ws, by omega, by omega,
          ?_, rfl⟩
        intro v hv
        exact hws v (by simp [hv])

theorem exists_cons_split {Q : List α → Prop} {c : α} {t rest : List α} :
    (∃ w, Q w ∧ c :: t = w ++ rest) ↔ Q [] ∧ rest = c :: t ∨ ∃ w, Q (c :: w) ∧ t = w ++ rest := by
  constructor
  · intro ⟨w, hw, h⟩
    cases w with
    | nil => exact .inl ⟨hw, h.symm⟩
    | cons d w =>
      simp only [List.cons_append, List.cons.injEq] at h
      obtain ⟨rfl, h⟩ := h
      exact .inr ⟨w, hw, h⟩
  · intro h
    cases h with
    | inl h => exact ⟨[], h.1, h.2.symm⟩
    | inr h =>
      obtain ⟨w, hw, h⟩ := h
      exact ⟨c :: w, hw, by rw [h, List.cons_append]⟩

theorem mem_endsMany (p : α → Bool) (n : ℕ) (t rest : List α) :
    rest ∈ endsMany p n t ↔ ∃ w, (n ≤ w.length ∧ ∀ c ∈ w, p c = true) ∧ t = w ++ rest := by
  induction t generalizing n with
  | nil =>
    simp only [List.nil_eq_append_iff]
    cases n with
    | zero => simp [endsMany]
    | succ n =>
      simp only [endsMany, List.not_mem_nil, false_iff]
      intro ⟨w, hw, h, _⟩
      simp [h] at hw
  | cons c t ih =>
    rw [exists_cons_split]
    cases hp : p c with
    | true => cases n <;> simp [endsMany, hp, ih, or_comm]
    | false => cases n <;> simp [endsMany, hp]

namespace Regex

/-- The ends are what the words of the language leave over. -/
theorem mem_ends (r : Regex α) (t rest : List α) :
    rest ∈ r.ends t ↔ ∃ w, r.lang w ∧ t = w ++ rest := by
  induction r generalizing t rest with
  | one p =>
    cases t with
    | nil => simp [ends, lang]
    | cons c t =>
      rw [exists_cons_split]
      cases hp : p c with
      | true => simp [ends, lang, hp, eq_comm (a := t)]
      | false => simp [ends, lang, hp]
  | seq r s ihr ihs =>
    simp only [ends, lang, List.mem_flatMap, ihr, ihs]
    constructor
    · intro ⟨m, ⟨u, hu, ht⟩, v, hv, hm⟩
      exact ⟨u ++ v, ⟨u, v, hu, hv, rfl⟩, by rw [ht, hm, List.append_assoc]⟩
    · intro ⟨w, ⟨u, v, hu, hv, hw⟩, ht⟩
      exact ⟨v ++ rest, ⟨u, hu, by rw [ht, hw, List.append_assoc]⟩, v, hv, rfl⟩
  | opt r ih =>
    simp only [ends, lang, List.mem_append, List.mem_singleton, ih, or_and_right, exists_or,
      exists_eq_left, List.nil_append]
    rw [eq_comm (a := rest)]
  | times r least more ih =>
    simp only [ends, lang]
    rw [mem_endsTimes (L := r.lang) ih]
    constructor
    · intro ⟨ws, hleast, hmost, hws, ht⟩
      exact ⟨ws.flatten, ⟨ws, hleast, hmost, hws, rfl⟩, ht⟩
    · intro ⟨w, ⟨ws, hleast, hmost, hws, hw⟩, ht⟩
      exact ⟨ws, hleast, hmost, hws, hw ▸ ht⟩
  | many p least => exact mem_endsMany p least t rest

theorem mul_le_length_flatten {m : ℕ} {ws : List (List α)} (h : ∀ u ∈ ws, m ≤ u.length) :
    ws.length * m ≤ ws.flatten.length := by
  induction ws with
  | nil => simp
  | cons u ws ih =>
    have hu := h u (by simp)
    have hws := ih fun v hv => h v (by simp [hv])
    simp only [List.length_cons, List.flatten_cons, List.length_append, Nat.succ_mul]
    omega

theorem minLength_le {r : Regex α} {w : List α} (hw : r.lang w) : r.minLength ≤ w.length := by
  induction r generalizing w with
  | one p =>
    obtain ⟨c, _, rfl⟩ := hw
    exact le_rfl
  | seq r s ihr ihs =>
    obtain ⟨u, v, hu, hv, rfl⟩ := hw
    rw [List.length_append]
    exact Nat.add_le_add (ihr hu) (ihs hv)
  | opt r => exact Nat.zero_le _
  | times r least more ih =>
    obtain ⟨ws, hleast, _, hws, rfl⟩ := hw
    apply (Nat.mul_le_mul_right _ hleast).trans
    exact mul_le_length_flatten fun u hu => ih (hws u hu)
  | many p least => exact hw.1

end Regex

theorem endsUpTo_append {f : List α → List (List α)} {T : List α}
    (hf : ∀ s, f (s ++ T) = (f s).map (· ++ T)) (m : ℕ) (s : List α) :
    endsUpTo f m (s ++ T) = (endsUpTo f m s).map (· ++ T) := by
  induction m generalizing s with
  | zero => rfl
  | succ m ih => simp [endsUpTo, hf, List.flatMap_map, List.map_flatMap, ih]

theorem endsTimes_append {f : List α → List (List α)} {T : List α}
    (hf : ∀ s, f (s ++ T) = (f s).map (· ++ T)) (more n : ℕ) (s : List α) :
    endsTimes f more n (s ++ T) = (endsTimes f more n s).map (· ++ T) := by
  induction n generalizing s with
  | zero => exact endsUpTo_append hf more s
  | succ n ih => simp [endsTimes, hf, List.flatMap_map, List.map_flatMap, ih]

theorem endsMany_append {p : α → Bool} {x : α} (hx : p x = false) (T : List α) (n : ℕ)
    (s : List α) : endsMany p n (s ++ x :: T) = (endsMany p n s).map (· ++ x :: T) := by
  induction s generalizing n with
  | nil => cases n <;> simp [endsMany, hx]
  | cons c s ih => cases n <;> cases hp : p c <;> simp [endsMany, hp, ih]

namespace Regex

/-- A match ends before a character that stands in none. -/
theorem ends_append {r : Regex α} {x : α} (hr : r.avoids x = true) (T s : List α) :
    r.ends (s ++ x :: T) = (r.ends s).map (· ++ x :: T) := by
  induction r generalizing s with
  | one p =>
    have hx : p x = false := by simpa [avoids] using hr
    cases s with
    | nil => simp [ends, hx]
    | cons c s => cases hp : p c <;> simp [ends, hp]
  | seq r s' ihr ihs =>
    simp only [avoids, Bool.and_eq_true] at hr
    simp [ends, ihr hr.1, ihs hr.2, List.flatMap_map, List.map_flatMap]
  | opt r ih => simp [ends, ih hr]
  | times r least more ih => exact endsTimes_append (ih hr) more least s
  | many p least =>
    have hx : p x = false := by simpa [avoids] using hr
    exact endsMany_append hx T least s

end Regex

/-! ## Patterns -/

/-- An expression, between tests on the characters on both sides of its ends. -/
structure Pattern (α : Type) where
  before : Option α → Option α → Bool
  body : Regex α
  after : Option α → Option α → Bool
  consumes : 0 < body.minLength

namespace Pattern

structure Matches (p : Pattern α) (prev : Option α) (w rest : List α) : Prop where
  lang : p.body.lang w
  before : p.before prev w.head? = true
  after : p.after w.getLast? rest.head? = true

theorem ne_nil (p : Pattern α) {w : List α} (hw : p.body.lang w) : w ≠ [] :=
  List.ne_nil_of_length_pos (p.consumes.trans_le (Regex.minLength_le hw))

theorem head?_append (p : Pattern α) {w : List α} (hw : p.body.lang w) (rest : List α) :
    (w ++ rest).head? = w.head? := by
  cases w with
  | nil => exact absurd rfl (p.ne_nil hw)
  | cons c w => rfl

theorem getLast?_append (p : Pattern α) {w : List α} (hw : p.body.lang w) (l : List α) :
    (l ++ w).getLast? = w.getLast? := List.getLast?_append_of_ne_nil l (p.ne_nil hw)

/-- The words of the expression at the start of `t`, each with what it leaves over. -/
def words (p : Pattern α) (t : List α) : List (List α × List α) :=
  (p.body.ends t).map fun rest => (t.take (t.length - rest.length), rest)

/-- The matched text at the start of `t`, the character `prev` standing before it. -/
def matchAt (p : Pattern α) (prev : Option α) (t : List α) : Option (List α) :=
  if p.before prev t.head? then
    ((p.words t).find? fun m => p.after m.1.getLast? m.2.head?).map (·.1)
  else none

theorem mem_words {p : Pattern α} {t w rest : List α} :
    (w, rest) ∈ p.words t ↔ p.body.lang w ∧ t = w ++ rest := by
  have htake (w rest : List α) : (w ++ rest).take ((w ++ rest).length - rest.length) = w := by
    rw [List.length_append, Nat.add_sub_cancel]
    exact List.take_left
  simp only [words, List.mem_map, Prod.mk.injEq]
  constructor
  · intro ⟨rest', hmem, hw, hrest⟩
    obtain ⟨u, hu, rfl⟩ := (p.body.mem_ends _ _).mp hmem
    rw [htake] at hw
    exact ⟨hw ▸ hu, by rw [hw, hrest]⟩
  · intro ⟨hw, ht⟩
    exact ⟨rest, (p.body.mem_ends _ _).mpr ⟨w, hw, ht⟩, by rw [ht, htake], rfl⟩

theorem matchAt_some {p : Pattern α} {prev : Option α} {t w : List α}
    (h : p.matchAt prev t = some w) : ∃ rest, t = w ++ rest ∧ p.Matches prev w rest := by
  unfold matchAt at h
  split at h
  next hbefore =>
    obtain ⟨⟨u, rest⟩, hfind, rfl⟩ := Option.map_eq_some_iff.mp h
    obtain ⟨hu, rfl⟩ := mem_words.mp (List.mem_of_find?_eq_some hfind)
    have hafter := List.find?_some hfind
    exact ⟨rest, rfl, hu, p.head?_append hu rest ▸ hbefore, hafter⟩
  next => simp at h

theorem matchAt_none {p : Pattern α} {prev : Option α} {t : List α} :
    p.matchAt prev t = none ↔ ∀ w rest, t = w ++ rest → ¬ p.Matches prev w rest := by
  constructor
  · intro h w rest ht hm
    have hbefore : p.before prev t.head? = true := by
      rw [ht, p.head?_append hm.lang]
      exact hm.before
    simp only [matchAt, hbefore, if_true, Option.map_eq_none_iff, List.find?_eq_none] at h
    exact h (w, rest) (mem_words.mpr ⟨hm.lang, ht⟩) hm.after
  · intro h
    cases hm : p.matchAt prev t with
    | none => rfl
    | some w =>
      obtain ⟨rest, ht, hw⟩ := matchAt_some hm
      exact absurd hw (h w rest ht)

/-! ## A global search -/

end Pattern

inductive Token (α : Type) where
  | char (c : α)
  | word (w : List α)
deriving DecidableEq

namespace Token

def found : List (Token α) → List (List α)
  | [] => []
  | .char _ :: ts => found ts
  | .word w :: ts => w :: found ts

def replace (marker : List α) : List (Token α) → List α
  | [] => []
  | .char c :: ts => c :: replace marker ts
  | .word _ :: ts => marker ++ replace marker ts

/-- What stands before the first match, and then behind each match. -/
def pieces : List (Token α) → List (List α)
  | [] => [[]]
  | .char c :: ts => (pieces ts).modifyHead (c :: ·)
  | .word _ :: ts => [] :: pieces ts

def text : List (Token α) → List α
  | [] => []
  | .char c :: ts => c :: text ts
  | .word w :: ts => w ++ text ts

@[simp] theorem found_append (ts us : List (Token α)) : found (ts ++ us) = found ts ++ found us := by
  induction ts with
  | nil => rfl
  | cons t ts ih => cases t <;> simp [found, ih]

@[simp] theorem found_chars (s : List α) : found (s.map .char) = [] := by
  induction s with
  | nil => rfl
  | cons c s ih => exact ih

@[simp] theorem replace_append (marker : List α) (ts us : List (Token α)) :
    replace marker (ts ++ us) = replace marker ts ++ replace marker us := by
  induction ts with
  | nil => rfl
  | cons t ts ih => cases t <;> simp [replace, ih]

@[simp] theorem replace_chars (marker s : List α) : replace marker (s.map .char) = s := by
  induction s with
  | nil => rfl
  | cons c s ih => simp [replace, ih]

theorem pieces_chars_append (u : List α) (ts : List (Token α)) :
    pieces (u.map .char ++ ts) = (pieces ts).modifyHead (u ++ ·) := by
  induction u with
  | nil => cases h : pieces ts <;> simp [h]
  | cons c u ih => simp [pieces, ih, List.modifyHead_modifyHead, Function.comp_def]

theorem pieces_ne_nil (ts : List (Token α)) : pieces ts ≠ [] := by
  induction ts with
  | nil => simp [pieces]
  | cons t ts ih => cases t <;> simp [pieces, ih]

theorem replace_eq_intercalate (marker : List α) (ts : List (Token α)) :
    replace marker ts = marker.intercalate (pieces ts) := by
  induction ts with
  | nil => simp [replace, pieces]
  | cons t ts ih =>
    obtain ⟨r, rs, hr⟩ := List.exists_cons_of_ne_nil (pieces_ne_nil ts)
    cases t with
    | char c =>
      rw [replace, ih, pieces, hr]
      cases rs <;> simp [List.intercalate]
    | word w =>
      rw [replace, ih, pieces, hr]
      simp [List.intercalate]

/-- A word that is replaced makes the text longer by `k` characters at most. -/
theorem length_replace_le {marker : List α} {k : ℕ} (ts : List (Token α))
    (h : ∀ w ∈ found ts, marker.length ≤ w.length + k) :
    (replace marker ts).length ≤ (text ts).length + k * (found ts).length := by
  induction ts with
  | nil => simp [replace]
  | cons t ts ih =>
    cases t with
    | char c =>
      have := ih h
      simp only [replace, text, found, List.length_cons]
      omega
    | word w =>
      have hw := h w (by simp [found])
      have hts := ih fun v hv => h v (by simp [found, hv])
      simp only [replace, text, found, List.length_cons, List.length_append, Nat.mul_succ]
      omega

end Token

namespace Pattern
open Token (found replace pieces pieces_chars_append)

/-- The text in order, `skip` characters of it already inside a match. -/
def tokens (p : Pattern α) : Option α → ℕ → List α → List (Token α)
  | _, _, [] => []
  | _, skip + 1, c :: t => p.tokens (some c) skip t
  | prev, 0, c :: t =>
    match p.matchAt prev (c :: t) with
    | some w => .word w :: p.tokens (some c) (w.length - 1) t
    | none => .char c :: p.tokens (some c) 0 t

def matchAll (p : Pattern α) (t : List α) : List (List α) := found (p.tokens none 0 t)

def replaceAll (p : Pattern α) (marker t : List α) : List α := replace marker (p.tokens none 0 t)

def split (p : Pattern α) (t : List α) : List (List α) := pieces (p.tokens none 0 t)

/-- A match begins at the `i`-th character. -/
def MatchesAt (p : Pattern α) (t : List α) (i : ℕ) : Prop :=
  ∃ w rest, t.drop i = w ++ rest ∧ p.Matches (t.take i).getLast? w rest

/-- Where the first match begins. -/
def search (p : Pattern α) (t : List α) : Option ℕ :=
  (List.range t.length).find? fun i => (p.matchAt (t.take i).getLast? (t.drop i)).isSome

theorem matchAt_isSome_iff (p : Pattern α) (t : List α) (i : ℕ) :
    (p.matchAt (t.take i).getLast? (t.drop i)).isSome = true ↔ p.MatchesAt t i := by
  rw [← Bool.not_eq_false, Option.isSome_eq_false_iff, Option.isNone_iff_eq_none, matchAt_none]
  unfold MatchesAt
  push Not
  rfl

theorem MatchesAt.lt_length {p : Pattern α} {t : List α} {i : ℕ} (h : p.MatchesAt t i) : i < t.length := by
  obtain ⟨w, rest, ht, hw⟩ := h
  by_contra hge
  rw [List.drop_eq_nil_iff.mpr (by omega), eq_comm, List.append_eq_nil_iff] at ht
  exact p.ne_nil hw.lang ht.1

theorem search_eq_some {p : Pattern α} {t : List α} {i : ℕ} (h : p.search t = some i) :
    p.MatchesAt t i ∧ ∀ j < i, ¬ p.MatchesAt t j := by
  obtain ⟨hmatch, _, hfirst⟩ := List.find?_range_eq_some.mp h
  refine ⟨(p.matchAt_isSome_iff t i).mp hmatch, fun j hj hm => ?_⟩
  have hnone := hfirst j hj
  rw [(p.matchAt_isSome_iff t j).mpr hm] at hnone
  cases hnone

theorem search_eq_none {p : Pattern α} {t : List α} (h : p.search t = none) (i : ℕ) :
    ¬ p.MatchesAt t i := by
  intro hm
  have hnone := List.find?_range_eq_none.mp h i hm.lt_length
  rw [(p.matchAt_isSome_iff t i).mpr hm] at hnone
  cases hnone

@[simp] theorem tokens_nil (p : Pattern α) (prev : Option α) (skip : ℕ) :
    p.tokens prev skip [] = [] := by cases skip <;> rfl

theorem getLast?_cons_or (c : α) (w : List α) : (c :: w).getLast? = w.getLast?.or (some c) := by
  cases h : w.getLast? <;> simp [List.getLast?_cons, h]

theorem tokens_skip (p : Pattern α) (w rest : List α) (prev : Option α) :
    p.tokens prev w.length (w ++ rest) = p.tokens (w.getLast?.or prev) 0 rest := by
  induction w generalizing prev with
  | nil => rfl
  | cons c w ih =>
    rw [List.length_cons, List.cons_append, tokens, ih, getLast?_cons_or, Option.or_assoc]
    rfl

theorem tokens_word (p : Pattern α) {prev : Option α} {w rest : List α}
    (h : p.matchAt prev (w ++ rest) = some w) (hw : w ≠ []) :
    p.tokens prev 0 (w ++ rest) = .word w :: p.tokens w.getLast? 0 rest := by
  cases w with
  | nil => exact absurd rfl hw
  | cons c w =>
    rw [List.cons_append] at h ⊢
    rw [tokens, h]
    simp only [List.length_cons, Nat.add_sub_cancel, tokens_skip, getLast?_cons_or]

theorem tokens_char (p : Pattern α) {prev : Option α} {c : α} {t : List α}
    (h : p.matchAt prev (c :: t) = none) :
    p.tokens prev 0 (c :: t) = .char c :: p.tokens (some c) 0 t := by
  rw [tokens, h]

theorem text_tokens (p : Pattern α) (prev : Option α) (skip : ℕ) (t : List α) :
    Token.text (p.tokens prev skip t) = t.drop skip := by
  induction t generalizing prev skip with
  | nil => simp [Token.text]
  | cons c t ih =>
    cases skip with
    | succ skip => exact ih (some c) skip
    | zero =>
      cases hm : p.matchAt prev (c :: t) with
      | none =>
        rw [p.tokens_char hm, Token.text, ih]
        rfl
      | some w =>
        obtain ⟨rest, ht, hw⟩ := matchAt_some hm
        simp only [tokens, hm, Token.text, ih]
        cases w with
        | nil => exact absurd rfl (p.ne_nil hw.lang)
        | cons d w =>
          obtain ⟨rfl, rfl⟩ := List.cons_eq_cons.mp ht
          simp

theorem lang_of_found (p : Pattern α) {prev : Option α} {skip : ℕ} {t w : List α}
    (h : w ∈ found (p.tokens prev skip t)) : p.body.lang w := by
  induction t generalizing prev skip with
  | nil => simp [found] at h
  | cons c t ih =>
    cases skip with
    | succ skip => exact ih h
    | zero =>
      cases hm : p.matchAt prev (c :: t) with
      | none =>
        rw [p.tokens_char hm] at h
        exact ih h
      | some v =>
        obtain ⟨rest, _, hv⟩ := matchAt_some hm
        simp only [tokens, hm, found] at h
        cases List.mem_cons.mp h with
        | inl h => exact h ▸ hv.lang
        | inr h => exact ih h

theorem length_replaceAll_le (p : Pattern α) {marker : List α} {k : ℕ}
    (h : marker.length ≤ p.body.minLength + k) (t : List α) :
    (p.replaceAll marker t).length ≤ t.length + k * (p.matchAll t).length := by
  calc (p.replaceAll marker t).length
    _ ≤ (Token.text (p.tokens none 0 t)).length + k * (p.matchAll t).length := by
      apply Token.length_replace_le
      intro w hw
      have := Regex.minLength_le (p.lang_of_found hw)
      omega
    _ = t.length + k * (p.matchAll t).length := by rw [p.text_tokens, List.drop_zero]

/-! ### Where the pieces stand -/

/-- No match stands within `u`, where `u` stands between `A` and `B`. -/
def Bare (q : Pattern α) (A u B : List α) : Prop :=
  ∀ l w x, u = l ++ w ++ x → ¬ q.Matches (A ++ l).getLast? w (x ++ B)

def Clean (q : Pattern α) (t : List α) : Prop := q.Bare [] t []

/-- Nothing follows `u`, or a match does. -/
def Closed (p : Pattern α) (A u B : List α) : Prop :=
  B = [] ∨ ∃ v B', B = v ++ B' ∧ p.Matches (A ++ u).getLast? v B'

def Behind (p : Pattern α) (A u B : List α) : Prop :=
  ∃ A' v, A = A' ++ v ∧ p.Matches A'.getLast? v (u ++ B)

theorem bare_nil (q : Pattern α) (A B : List α) : q.Bare A [] B := by
  intro l w x h hm
  simp only [List.nil_eq_append_iff, List.append_eq_nil_iff] at h
  exact q.ne_nil hm.lang h.1.2

theorem Bare.cons {q : Pattern α} {A u B : List α} {c : α}
    (h : q.matchAt A.getLast? (c :: (u ++ B)) = none) (hu : q.Bare (A ++ [c]) u B) :
    q.Bare A (c :: u) B := by
  intro l w x hsplit
  cases l with
  | nil =>
    rw [List.append_nil]
    apply matchAt_none.mp h
    rw [← List.append_assoc, ← List.nil_append (w ++ x), ← List.append_assoc, ← hsplit]
    rfl
  | cons d l =>
    simp only [List.cons_append, List.cons.injEq] at hsplit
    obtain ⟨rfl, hsplit⟩ := hsplit
    have := hu l w x hsplit
    rwa [List.append_assoc] at this

/-- The search goes through a text without a match, or up to the first one. -/
theorem tokens_cut (p : Pattern α) (A t : List α) :
    (p.Bare A t [] ∧ p.tokens A.getLast? 0 t = t.map .char) ∨
    ∃ u w rest, t = u ++ w ++ rest ∧ p.Bare A u (w ++ rest) ∧
      p.Matches (A ++ u).getLast? w rest ∧
      p.tokens A.getLast? 0 t = u.map .char ++ .word w :: p.tokens w.getLast? 0 rest := by
  induction t generalizing A with
  | nil => exact .inl ⟨p.bare_nil A [], by simp⟩
  | cons c t ih =>
    cases hm : p.matchAt A.getLast? (c :: t) with
    | some w =>
      obtain ⟨rest, ht, hw⟩ := matchAt_some hm
      refine .inr ⟨[], w, rest, ht, p.bare_nil _ _, by simpa using hw, ?_⟩
      rw [ht] at hm ⊢
      exact p.tokens_word hm (p.ne_nil hw.lang)
    | none =>
      have hlast : (A ++ [c]).getLast? = some c := by simp
      have hih := ih (A ++ [c])
      rw [hlast] at hih
      rw [p.tokens_char hm]
      cases hih with
      | inl h => exact .inl ⟨.cons (by simpa using hm) h.1, by rw [h.2, List.map_cons]⟩
      | inr h =>
        obtain ⟨u, w, rest, ht, hbare, hw, htokens⟩ := h
        refine .inr ⟨c :: u, w, rest, by rw [ht]; rfl, .cons ?_ hbare, ?_, by rw [htokens]; rfl⟩
        · rwa [← List.append_assoc, ← ht]
        · rwa [List.append_assoc] at hw

/-- Each piece stands bare, up to a match or the end; each but the first stands behind a match. -/
theorem pieces_context (p : Pattern α) (A t : List α) :
    ∃ u us, pieces (p.tokens A.getLast? 0 t) = u :: us ∧
      (∃ B, t = u ++ B ∧ p.Bare A u B ∧ p.Closed A u B) ∧
      ∀ v ∈ us, ∃ A' B, A ++ t = A' ++ v ++ B ∧ p.Bare A' v B ∧ p.Closed A' v B ∧
        p.Behind A' v B := by
  induction hn : t.length using Nat.strong_induction_on generalizing A t with
  | _ n ih =>
    subst hn
    cases p.tokens_cut A t with
    | inl h =>
      refine ⟨t, [], ?_, ⟨[], by simp, h.1, .inl rfl⟩, by simp⟩
      rw [h.2, ← List.append_nil (t.map _), pieces_chars_append]
      simp [pieces]
    | inr h =>
      obtain ⟨u, w, rest, ht, hbare, hw, htokens⟩ := h
      have hlast : (A ++ u ++ w).getLast? = w.getLast? := p.getLast?_append hw.lang _
      have hshort : rest.length < t.length := by
        have := List.length_pos_of_ne_nil (p.ne_nil hw.lang)
        rw [ht]
        simp only [List.length_append]
        omega
      obtain ⟨v, vs, hpieces, ⟨B, hrest, hv, hclosed⟩, hvs⟩ := ih _ hshort (A ++ u ++ w) rest rfl
      rw [hlast] at hpieces
      refine ⟨u, v :: vs, ?_, ⟨w ++ rest, by rw [ht, List.append_assoc], hbare, ?_⟩, ?_⟩
      · rw [htokens, pieces_chars_append]
        simp [pieces, hpieces]
      · exact .inr ⟨w, rest, rfl, hw⟩
      · intro v' hmem
        cases List.mem_cons.mp hmem with
        | inl heq =>
          subst heq
          refine ⟨A ++ u ++ w, B, ?_, hv, hclosed, A ++ u, w, rfl, hrest ▸ hw⟩
          rw [ht, hrest]
          simp
        | inr hmem =>
          obtain ⟨A', B', h, hcontext⟩ := hvs v' hmem
          refine ⟨A', B', ?_, hcontext⟩
          rw [← h, ht]
          simp

/-! ### Pieces without a match -/

/-- A match that the next word of `p` would follow keeps its right edge before it. -/
def EndsApart (p q : Pattern α) : Prop :=
  ∀ v w, p.body.lang v → q.body.lang w → p.before w.getLast? v.head? = true →
    q.after w.getLast? none = true → q.after w.getLast? v.head? = true

def StartsApart (p q : Pattern α) : Prop :=
  ∀ v w, p.body.lang v → q.body.lang w → p.after v.getLast? w.head? = true →
    q.before none w.head? = true → q.before v.getLast? w.head? = true

theorem Clean.bare {q : Pattern α} {t A u B : List α} (h : q.Clean t) (ht : t = A ++ u ++ B) :
    q.Bare A u B := by
  intro l w x hu hm
  apply h (A ++ l) w (x ++ B)
  · rw [ht, hu]
    simp only [List.append_assoc]
  · simpa using hm

/-- Cut out of its context, a bare piece has a match at its very start, if any. -/
theorem Bare.at_start {p q : Pattern α} {A u B l w x : List α} (hbare : q.Bare A u B)
    (hclosed : p.Closed A u B) (hends : p.EndsApart q) (hu : u = l ++ w ++ x)
    (hm : q.Matches l.getLast? w x) : l = [] ∧ ¬ q.before A.getLast? w.head? = true := by
  have hafter : q.after w.getLast? (x ++ B).head? = true := by
    cases x with
    | cons d x => exact hm.after
    | nil =>
      cases hclosed with
      | inl hB =>
        rw [hB]
        exact hm.after
      | inr hB =>
        obtain ⟨v, B', rfl, hv⟩ := hB
        rw [List.nil_append, p.head?_append hv.lang]
        apply hends v w hv.lang hm.lang _ hm.after
        have := hv.before
        rwa [hu, List.append_nil, ← List.append_assoc, q.getLast?_append hm.lang] at this
  have hlast : q.before (A ++ l).getLast? w.head? ≠ true := by
    intro hbefore
    exact hbare l w x hu ⟨hm.lang, hbefore, hafter⟩
  cases l with
  | nil => exact ⟨rfl, by simpa using hlast⟩
  | cons d l =>
    rw [List.getLast?_append_of_ne_nil A (by simp)] at hlast
    exact absurd hm.before hlast

theorem Bare.clean_first {p q : Pattern α} {u B : List α} (hbare : q.Bare [] u B)
    (hclosed : p.Closed [] u B) (hends : p.EndsApart q) : q.Clean u := by
  intro l w x hu hm
  rw [List.nil_append, List.append_nil] at hm
  obtain ⟨rfl, hbefore⟩ := hbare.at_start hclosed hends hu hm
  exact hbefore hm.before

theorem Bare.clean_behind {p q : Pattern α} {A u B : List α} (hbare : q.Bare A u B)
    (hclosed : p.Closed A u B) (hbehind : p.Behind A u B) (hends : p.EndsApart q)
    (hstarts : p.StartsApart q) : q.Clean u := by
  intro l w x hu hm
  rw [List.nil_append, List.append_nil] at hm
  obtain ⟨rfl, hbefore⟩ := hbare.at_start hclosed hends hu hm
  obtain ⟨A', v, rfl, hv⟩ := hbehind
  apply hbefore
  rw [p.getLast?_append hv.lang]
  apply hstarts v w hv.lang hm.lang _ hm.before
  have := hv.after
  rwa [hu, List.nil_append, List.append_assoc, q.head?_append hm.lang] at this

theorem split_clean {p q : Pattern α} (hends : p.EndsApart q) (hstarts : p.StartsApart q)
    {t : List α} (ht : q.Clean t) : ∀ u ∈ p.split t, q.Clean u := by
  obtain ⟨u, us, hsplit, ⟨B, hu, _, hclosed⟩, hus⟩ := p.pieces_context [] t
  intro v hv
  rw [split, ← List.getLast?_nil, hsplit] at hv
  cases List.mem_cons.mp hv with
  | inl heq =>
    subst heq
    exact (ht.bare (by simpa using hu)).clean_first hclosed hends
  | inr hv =>
    obtain ⟨A, B, h, _, hclosed, hbehind⟩ := hus v hv
    exact (ht.bare h).clean_behind hclosed hbehind hends hstarts

/-- Between the matches there is none, where no piece but the first starts with one. -/
theorem split_self {p : Pattern α} (hends : p.EndsApart p) (t : List α) :
    (∀ u ∈ p.split t, p.Clean u) ↔ ∀ u ∈ (p.split t).tail, p.matchAt none u = none := by
  obtain ⟨u, us, hsplit, ⟨B, _, hbare, hclosed⟩, hus⟩ := p.pieces_context [] t
  rw [split, ← List.getLast?_nil, hsplit, List.tail_cons]
  constructor
  · intro h v hv
    apply matchAt_none.mpr
    intro w x hvw hm
    exact h v (by simp [hv]) [] w x hvw (by simpa using hm)
  · intro h v hv
    cases List.mem_cons.mp hv with
    | inl heq =>
      subst heq
      exact hbare.clean_first hclosed hends
    | inr hv =>
      obtain ⟨A, B, _, hbare, hclosed, _⟩ := hus v hv
      intro l w x hvw hm
      rw [List.nil_append, List.append_nil] at hm
      obtain ⟨rfl, _⟩ := hbare.at_start hclosed hends hvw hm
      exact matchAt_none.mp (h v hv) w x hvw hm

theorem split_self_clean {p : Pattern α} (hends : p.EndsApart p) (hstarts : p.StartsApart p)
    (t : List α) : ∀ u ∈ p.split t, p.Clean u := by
  obtain ⟨u, us, hsplit, ⟨B, _, hbare, hclosed⟩, hus⟩ := p.pieces_context [] t
  intro v hv
  rw [split, ← List.getLast?_nil, hsplit] at hv
  cases List.mem_cons.mp hv with
  | inl heq =>
    subst heq
    exact hbare.clean_first hclosed hends
  | inr hv =>
    obtain ⟨A, B, _, hbare, hclosed, hbehind⟩ := hus v hv
    exact hbare.clean_behind hclosed hbehind hends hstarts

theorem matchAll_eq_nil {p : Pattern α} {t : List α} : p.matchAll t = [] ↔ p.Clean t := by
  unfold matchAll
  cases p.tokens_cut [] t with
  | inl h =>
    rw [← List.getLast?_nil, h.2, Token.found_chars]
    exact iff_of_true rfl h.1
  | inr h =>
    obtain ⟨u, w, rest, ht, _, hw, htokens⟩ := h
    rw [← List.getLast?_nil, htokens]
    simp only [Token.found_append, Token.found_chars, Token.found, List.nil_append, reduceCtorEq,
      false_iff]
    intro hclean
    exact hclean u w rest ht (by simpa using hw)

theorem replaceAll_of_clean {p : Pattern α} {t : List α} (h : p.Clean t) (marker : List α) :
    p.replaceAll marker t = t := by
  unfold replaceAll
  cases p.tokens_cut [] t with
  | inl h =>
    rw [← List.getLast?_nil, h.2]
    exact Token.replace_chars marker t
  | inr hcut =>
    obtain ⟨u, w, rest, ht, _, hw, _⟩ := hcut
    exact absurd (by simpa using hw) (h u w rest ht)

/-! ### Markers -/

/-- `x` stands in no match, and beside one it counts as the end of the text does. -/
structure Ignores (q : Pattern α) (x : α) : Prop where
  avoids : q.body.avoids x = true
  before : ∀ o, q.before (some x) o = q.before none o
  after : ∀ o, q.after o (some x) = q.after o none

theorem words_nil (q : Pattern α) : q.words [] = [] := by
  apply List.eq_nil_iff_forall_not_mem.mpr
  intro ⟨w, rest⟩ hmem
  obtain ⟨hw, h⟩ := mem_words.mp hmem
  exact q.ne_nil hw (List.nil_eq_append_iff.mp h).1

theorem Ignores.words {q : Pattern α} {x : α} (hx : q.Ignores x) (s T : List α) :
    q.words (s ++ x :: T) = (q.words s).map fun m => (m.1, m.2 ++ x :: T) := by
  simp only [Pattern.words, Regex.ends_append hx.avoids, List.map_map]
  apply List.map_congr_left
  intro rest _
  have hlen : (s ++ x :: T).length - (rest ++ x :: T).length = s.length - rest.length := by
    simp only [List.length_append]
    omega
  simp only [Function.comp_apply, hlen]
  rw [List.take_append_of_le_length (Nat.sub_le _ _)]

theorem Ignores.matchAt {q : Pattern α} {x : α} (hx : q.Ignores x) (prev : Option α)
    (s T : List α) : q.matchAt prev (s ++ x :: T) = q.matchAt prev s := by
  have hafter (m : List α × List α) :
      q.after m.1.getLast? (m.2 ++ x :: T).head? = q.after m.1.getLast? m.2.head? := by
    cases m.2 with
    | nil => exact hx.after _
    | cons c rest => rfl
  unfold Pattern.matchAt
  cases s with
  | nil =>
    have hx0 := hx.words [] T
    rw [List.nil_append, q.words_nil, List.map_nil] at hx0
    simp [hx0, q.words_nil]
  | cons c s =>
    rw [hx.words, List.find?_map, Option.map_map]
    simp only [Function.comp_def, hafter, List.cons_append, List.head?_cons]
    rfl

theorem tokens_behind (q : Pattern α) {prev prev' : Option α}
    (h : ∀ o, q.before prev o = q.before prev' o) (t : List α) :
    q.tokens prev 0 t = q.tokens prev' 0 t := by
  cases t with
  | nil => rfl
  | cons c t => simp only [tokens, Pattern.matchAt, h]

theorem Ignores.tokens {q : Pattern α} {x : α} (hx : q.Ignores x) (T s : List α)
    (prev : Option α) (skip : ℕ) (hskip : skip ≤ s.length) :
    q.tokens prev skip (s ++ x :: T) = q.tokens prev skip s ++ .char x :: q.tokens none 0 T := by
  induction s generalizing prev skip with
  | nil =>
    obtain rfl : skip = 0 := Nat.le_zero.mp hskip
    have hnone : q.matchAt prev (x :: T) = none := by
      rw [← List.nil_append (x :: T), hx.matchAt]
      simp [Pattern.matchAt, q.words_nil]
    rw [List.nil_append, q.tokens_char hnone, q.tokens_behind hx.before]
    rfl
  | cons c s ih =>
    rw [List.length_cons] at hskip
    cases skip with
    | succ skip => exact ih (some c) skip (by omega)
    | zero =>
      have hm := hx.matchAt prev (c :: s) T
      rw [List.cons_append] at hm ⊢
      simp only [Pattern.tokens, hm]
      cases hw : q.matchAt prev (c :: s) with
      | none => simp [ih (some c) 0 (by omega)]
      | some w =>
        obtain ⟨rest, hcs, _⟩ := matchAt_some hw
        have hlen := congrArg List.length hcs
        simp only [List.length_cons, List.length_append] at hlen
        simp [ih (some c) (w.length - 1) (by omega)]

/-- A search passes over the marker `M`. -/
def PassesOver (q : Pattern α) (M : List α) : Prop :=
  ∀ prev s T, q.tokens prev 0 (s ++ M ++ T) =
    q.tokens prev 0 s ++ M.map .char ++ q.tokens none 0 T

theorem passesOver_of_ignores {q : Pattern α} {x y : α} (hx : q.Ignores x) (hy : q.Ignores y)
    {name : List α} (hname : q.tokens none 0 name = name.map .char) :
    q.PassesOver (x :: name ++ [y]) := by
  intro prev s T
  calc q.tokens prev 0 (s ++ (x :: name ++ [y]) ++ T)
    _ = q.tokens prev 0 (s ++ x :: (name ++ y :: T)) := by simp
    _ = q.tokens prev 0 s ++ .char x :: (q.tokens none 0 name ++ .char y :: q.tokens none 0 T) := by
      rw [hx.tokens _ s prev 0 (Nat.zero_le _), hy.tokens T name none 0 (Nat.zero_le _)]
    _ = _ := by simp [hname]

theorem PassesOver.tokens_intercalate {q : Pattern α} {M : List α} (hM : q.PassesOver M)
    (rs : List (List α)) : q.tokens none 0 (M.intercalate rs) =
      (M.map Token.char).intercalate (rs.map (q.tokens none 0)) := by
  induction rs with
  | nil => simp [List.intercalate]
  | cons r rs ih =>
    cases rs with
    | nil => simp [List.intercalate]
    | cons r' rs =>
      have hcons {β : Type} (m a b : List β) (l : List (List β)) :
          m.intercalate (a :: b :: l) = a ++ m ++ m.intercalate (b :: l) := by
        simp [List.intercalate]
      rw [hcons, hM, ih]
      simp only [List.map_cons, hcons]

theorem PassesOver.matchAll_intercalate {q : Pattern α} {M : List α} (hM : q.PassesOver M)
    (rs : List (List α)) : q.matchAll (M.intercalate rs) = rs.flatMap q.matchAll := by
  unfold matchAll
  rw [hM.tokens_intercalate]
  induction rs with
  | nil => simp [List.intercalate, found]
  | cons r rs ih => cases rs <;> simp_all [List.intercalate]

theorem PassesOver.replaceAll_intercalate {q : Pattern α} {M : List α} (hM : q.PassesOver M)
    (marker : List α) (rs : List (List α)) :
    q.replaceAll marker (M.intercalate rs) = M.intercalate (rs.map (q.replaceAll marker)) := by
  unfold replaceAll
  rw [hM.tokens_intercalate]
  induction rs with
  | nil => simp [List.intercalate, replace]
  | cons r rs ih => cases rs <;> simp_all [List.intercalate]

theorem PassesOver.clean_intercalate {q : Pattern α} {M : List α} (hM : q.PassesOver M)
    (rs : List (List α)) : q.Clean (M.intercalate rs) ↔ ∀ r ∈ rs, q.Clean r := by
  simp only [← matchAll_eq_nil, hM.matchAll_intercalate, List.flatMap_eq_nil_iff]

theorem replaceAll_eq (p : Pattern α) (marker t : List α) :
    p.replaceAll marker t = marker.intercalate (p.split t) :=
  Token.replace_eq_intercalate marker _

end Pattern

end ModelForge.PatternScan
