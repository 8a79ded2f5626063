import ModelForge.PatternScan

set_option autoImplicit false

/-!
# Rules for the matches of a text

A rule is an expression, a test on what stands behind a match, and what a match gives. A
global search tries the rules in order at each place, takes the first match, and goes on
behind it.
-/
namespace ModelForge.RegexRules
open PatternScan (Regex)

variable {α β : Type}

structure Rule (α β : Type) where
  body : Regex α
  ahead : List α → Bool
  result : List α → β
  consumes : 0 < body.minLength

/-- What a greedy search takes from the start of a text. -/
def Rule.matchAt (r : Rule α β) (t : List α) : Option (List α) :=
  ((r.body.ends t).find? r.ahead).map fun rest => t.take (t.length - rest.length)

def firstMatch (rules : List (Rule α β)) (t : List α) : Option (List α × β) :=
  rules.findSome? fun r => (r.matchAt t).map fun w => (w, r.result w)

inductive Piece (α β : Type) where
  | char (c : α)
  | found (w : List α) (b : β)

def Piece.source : Piece α β → List α
  | .char c => [c]
  | .found w _ => w

/-- The text in order, `skip` characters of it already inside a match. -/
def pieces (rules : List (Rule α β)) : ℕ → List α → List (Piece α β)
  | _, [] => []
  | skip + 1, _ :: t => pieces rules skip t
  | 0, c :: t =>
    match firstMatch rules (c :: t) with
    | some (w, b) => .found w b :: pieces rules (w.length - 1) t
    | none => .char c :: pieces rules 0 t

def Piece.replaced : Piece α (List α) → List α
  | .char c => [c]
  | .found _ b => b

def Rule.replaceAll (r : Rule α (List α)) (t : List α) : List α := (pieces [r] 0 t).flatMap Piece.replaced

/-! ## What is found -/

theorem Rule.matchAt_some {r : Rule α β} {t w : List α} (h : r.matchAt t = some w) :
    ∃ rest, t = w ++ rest ∧ r.body.lang w ∧ r.ahead rest = true ∧ w ≠ [] := by
  obtain ⟨rest, hfind, hw⟩ := Option.map_eq_some_iff.mp h
  obtain ⟨u, hu, rfl⟩ := (r.body.mem_ends _ _).mp (List.mem_of_find?_eq_some hfind)
  rw [List.length_append, Nat.add_sub_cancel, List.take_left] at hw
  subst hw
  exact ⟨rest, rfl, hu, List.find?_some hfind,
    List.ne_nil_of_length_pos (r.consumes.trans_le (Regex.minLength_le hu))⟩

theorem firstMatch_some {rules : List (Rule α β)} {t w : List α} {b : β} (h : firstMatch rules t = some (w, b)) :
    ∃ r ∈ rules, r.matchAt t = some w ∧ b = r.result w := by
  obtain ⟨r, hr, hmatch⟩ := List.exists_of_findSome?_eq_some h
  obtain ⟨u, hu, heq⟩ := Option.map_eq_some_iff.mp hmatch
  obtain ⟨rfl, rfl⟩ := Prod.mk.inj heq
  exact ⟨r, hr, hu, rfl⟩

/-- Every match is a word of the rule that gives its result. -/
theorem found_mem {rules : List (Rule α β)} {skip : ℕ} {t w : List α} {b : β}
    (h : .found w b ∈ pieces rules skip t) : ∃ r ∈ rules, r.body.lang w ∧ b = r.result w := by
  induction t generalizing skip with
  | nil => cases skip <;> cases h
  | cons c t ih =>
    cases skip with
    | succ skip => exact ih h
    | zero =>
      rw [pieces] at h
      split at h
      next u d hfirst =>
        rcases List.mem_cons.mp h with heq | h
        · obtain ⟨rfl, rfl⟩ := Piece.found.inj heq
          obtain ⟨r, hr, hmatch, rfl⟩ := firstMatch_some hfirst
          obtain ⟨rest, -, hlang, -⟩ := Rule.matchAt_some hmatch
          exact ⟨r, hr, hlang, rfl⟩
        · exact ih h
      · rcases List.mem_cons.mp h with heq | h
        · cases heq
        · exact ih h

/-- The pieces put together are the text. -/
theorem source_pieces (rules : List (Rule α β)) (skip : ℕ) (t : List α) :
    (pieces rules skip t).flatMap Piece.source = t.drop skip := by
  induction t generalizing skip with
  | nil => cases skip <;> rfl
  | cons c t ih =>
    cases skip with
    | succ skip => exact ih skip
    | zero =>
      rw [pieces]
      split
      next w b hfirst =>
        obtain ⟨r, -, hmatch, -⟩ := firstMatch_some hfirst
        obtain ⟨rest, ht, -, -, hw⟩ := Rule.matchAt_some hmatch
        rw [List.flatMap_cons, ih, Piece.source]
        cases w with
        | nil => exact absurd rfl hw
        | cons d w =>
          obtain ⟨rfl, rfl⟩ := List.cons_eq_cons.mp ht
          simp
      · rw [List.flatMap_cons, ih]
        rfl

/-! ## What a replacement keeps -/

/-- Where each replacement keeps certain characters of its match, so does the whole. -/
theorem Rule.filter_replaceAll {r : Rule α (List α)} {keep : α → Bool}
    (h : ∀ w, r.body.lang w → (r.result w).filter keep = w.filter keep) (t : List α) :
    (r.replaceAll t).filter keep = t.filter keep := by
  have hpieces : (r.replaceAll t).filter keep = ((pieces [r] 0 t).flatMap Piece.source).filter keep := by
    rw [Rule.replaceAll, List.filter_flatMap, List.filter_flatMap]
    refine List.flatMap_congr fun piece hpiece => ?_
    cases piece with
    | char c => rfl
    | found w b =>
      obtain ⟨r', hr', hlang, rfl⟩ := found_mem hpiece
      obtain rfl := List.mem_singleton.mp hr'
      exact h w hlang
  rw [hpieces, source_pieces, List.drop_zero]

end ModelForge.RegexRules
