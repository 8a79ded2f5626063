import Mathlib.Data.List.Chain
import Mathlib.Data.Nat.Basic
import Mathlib.Tactic.Push

set_option autoImplicit false

/-!
# Windows over a text

Windows of a bounded width are laid over the positions of a text, each cut at the
last run of blanks that begins in it. The next window reaches back over the end of
the one before.
-/
namespace ModelForge.WindowCuts

structure Frame where
  length : ℕ
  width : ℕ
  overlap : ℕ
  blank : ℕ → Prop
  overlap_lt : overlap < width

structure Window where
  start : ℕ
  stop : ℕ
deriving DecidableEq

/-! ## Pieces -/

/-- The text from a position to the end, cut at the positions of a list. -/
def pieces (length : ℕ) : ℕ → List ℕ → List Window
  | start, [] => [⟨start, length⟩]
  | start, cut :: cuts => ⟨start, cut⟩ :: pieces length cut cuts

/-- Positions that increase from `start` on and lie in the text. -/
structure Cuts (length start : ℕ) (cuts : List ℕ) : Prop where
  increasing : (start :: cuts).Pairwise (· < ·)
  inside : ∀ cut ∈ start :: cuts, cut ≤ length

theorem Cuts.tail {length start cut : ℕ} {cuts : List ℕ} (h : Cuts length start (cut :: cuts)) :
    Cuts length cut cuts :=
  ⟨h.increasing.of_cons, fun c hc => h.inside c (List.mem_cons_of_mem _ hc)⟩

theorem pieces_bounds {length start : ℕ} {cuts : List ℕ} (h : Cuts length start cuts) :
    ∀ w ∈ pieces length start cuts, start ≤ w.start ∧ w.start ≤ w.stop ∧ w.stop ≤ length ∧
      w.start ∈ start :: cuts ∧ (w.start < w.stop ∧ w.stop ∈ cuts ∨ w.stop = length) := by
  induction cuts generalizing start with
  | nil =>
    intro w hw
    rw [List.mem_singleton.mp hw]
    exact ⟨le_rfl, h.inside start List.mem_cons_self, le_rfl, List.mem_cons_self, .inr rfl⟩
  | cons cut cuts ih =>
    have hcut : start < cut := List.rel_of_pairwise_cons h.increasing List.mem_cons_self
    have hinside := h.inside cut (List.mem_cons_of_mem _ List.mem_cons_self)
    intro w hw
    cases hw with
    | head => exact ⟨le_rfl, hcut.le, hinside, List.mem_cons_self, .inl ⟨hcut, List.mem_cons_self⟩⟩
    | tail _ hw =>
      obtain ⟨hstart, hle, hstop, hmem, hend⟩ := ih h.tail w hw
      refine ⟨by omega, hle, hstop, List.mem_cons_of_mem _ hmem, ?_⟩
      exact hend.imp_left fun hend => ⟨hend.1, List.mem_cons_of_mem _ hend.2⟩

theorem pieces_covers {length start : ℕ} (cuts : List ℕ) {p : ℕ} (hp : start ≤ p) (hlength : p < length) :
    ∃ w ∈ pieces length start cuts, w.start ≤ p ∧ p < w.stop := by
  induction cuts generalizing start with
  | nil => exact ⟨_, List.mem_singleton_self _, hp, hlength⟩
  | cons cut cuts ih =>
    by_cases hcut : p < cut
    · exact ⟨_, List.mem_cons_self, hp, hcut⟩
    · obtain ⟨w, hw, hcovers⟩ := ih (Nat.not_lt.mp hcut)
      exact ⟨w, List.mem_cons_of_mem _ hw, hcovers⟩

/-- The first piece ends at the first cut, and each of the others begins at one. -/
theorem pieces_first {length start : ℕ} {cuts : List ℕ} (h : Cuts length start cuts) :
    ∃ rest, pieces length start cuts = ⟨start, cuts.headD length⟩ :: rest ∧
      ∀ w ∈ rest, cuts.headD length ≤ w.start ∧ w.start ∈ cuts := by
  cases cuts with
  | nil => exact ⟨[], rfl, by simp⟩
  | cons cut cuts =>
    refine ⟨pieces length cut cuts, rfl, fun w hw => ?_⟩
    have hbounds := pieces_bounds h.tail w hw
    exact ⟨hbounds.1, hbounds.2.2.2.1⟩

namespace Frame

/-- A run of blanks begins behind another character. -/
def RunStart (f : Frame) (p : ℕ) : Prop := 0 < p ∧ p < f.length ∧ f.blank p ∧ ¬ f.blank (p - 1)

/-- Where the window that begins at `start` ends. -/
inductive Cut (f : Frame) (start : ℕ) : ℕ → Prop where
  | last (hlast : f.length ≤ start + f.width) : Cut f start f.length
  | soft {stop : ℕ} (hinner : start + f.width < f.length) (hrun : f.RunStart stop)
      (hlt : start < stop) (hle : stop ≤ start + f.width)
      (hnone : ∀ p, stop < p → p ≤ start + f.width → ¬ f.RunStart p) : Cut f start stop
  | hard (hinner : start + f.width < f.length)
      (hnone : ∀ p, start < p → p ≤ start + f.width → ¬ f.RunStart p) : Cut f start (start + f.width)

def next (f : Frame) (start stop : ℕ) : ℕ :=
  if stop - f.overlap ≤ start then stop else stop - f.overlap

/-- The windows from `start` to the end of the text. -/
inductive Windows (f : Frame) : ℕ → List Window → Prop where
  | last {start : ℕ} (hcut : f.Cut start f.length) : Windows f start [⟨start, f.length⟩]
  | more {start stop : ℕ} {ws : List Window} (hcut : f.Cut start stop) (hstop : stop < f.length)
      (hrest : Windows f (f.next start stop) ws) : Windows f start (⟨start, stop⟩ :: ws)

variable {f : Frame} {start stop : ℕ} {ws : List Window}

/-! ## One window -/

theorem Cut.start_lt (h : f.Cut start stop) (hstart : start < f.length) : start < stop := by
  have := f.overlap_lt
  cases h with
  | last => exact hstart
  | soft _ _ hlt => exact hlt
  | hard => omega

theorem Cut.stop_le (h : f.Cut start stop) : stop ≤ start + f.width ∧ stop ≤ f.length := by
  cases h with
  | last hlast => exact ⟨hlast, le_rfl⟩
  | soft hinner _ _ hle => exact ⟨hle, by omega⟩
  | hard hinner => exact ⟨le_rfl, hinner.le⟩

theorem lt_next (h : start < stop) : start < f.next start stop := by
  unfold next
  split <;> omega

theorem next_le : f.next start stop ≤ stop := by
  unfold next
  split <;> omega

/-- A window with a character that is no blank ends with one. -/
theorem Cut.letter_last (h : f.Cut start stop) (hend : ¬ f.blank (f.length - 1)) {q : ℕ} (hstart : start ≤ q)
    (hstop : q < stop) (hletter : ¬ f.blank q) : ¬ f.blank (stop - 1) := by
  cases h with
  | last => exact hend
  | soft _ hrun => exact hrun.2.2.2
  | hard hinner hnone =>
    have hletters : ∀ n, q + n ≤ start + f.width → ¬ f.blank (q + n) := by
      intro n
      induction n with
      | zero => exact fun _ => hletter
      | succ n ih =>
        intro hle hblank
        exact hnone (q + (n + 1)) (by omega) hle ⟨by omega, by omega, hblank, ih (by omega)⟩
    have hq : start + f.width - 1 = q + (start + f.width - 1 - q) := by omega
    rw [hq]
    exact hletters _ (by omega)

/-! ## All windows -/

theorem Windows.first (h : f.Windows start ws) :
    ∃ stop rest, ws = ⟨start, stop⟩ :: rest ∧ f.Cut start stop := by
  cases h with
  | last hcut => exact ⟨_, [], rfl, hcut⟩
  | more hcut _ _ => exact ⟨_, _, rfl, hcut⟩

/-- What each step of the walk over the windows keeps: the next window begins
behind this one's start and not behind its end. -/
theorem next_lt_length (hcut : f.Cut start stop) (hstart : start < f.length) (hstop : stop < f.length) :
    start < f.next start stop ∧ f.next start stop ≤ stop ∧ f.next start stop < f.length := by
  have hlt := lt_next (f := f) (hcut.start_lt hstart)
  have hle : f.next start stop ≤ stop := next_le
  omega

theorem Windows.bounds (h : f.Windows start ws) (hstart : start < f.length) :
    ∀ w ∈ ws, start ≤ w.start ∧ w.start < w.stop ∧ w.stop ≤ w.start + f.width ∧ w.stop ≤ f.length := by
  induction h with
  | last hcut =>
    intro w hw
    rw [List.mem_singleton.mp hw]
    exact ⟨le_rfl, hcut.start_lt hstart, hcut.stop_le⟩
  | @more start stop ws hcut hstop hrest ih =>
    have hnext := next_lt_length hcut hstart hstop
    intro w hw
    cases hw with
    | head => exact ⟨le_rfl, hcut.start_lt hstart, hcut.stop_le⟩
    | tail _ hw =>
      have := ih hnext.2.2 w hw
      omega

theorem Windows.cut (h : f.Windows start ws) : ∀ w ∈ ws, f.Cut w.start w.stop := by
  induction h with
  | last hcut =>
    intro w hw
    rw [List.mem_singleton.mp hw]
    exact hcut
  | more hcut _ _ ih => exact List.forall_mem_cons.mpr ⟨hcut, ih⟩

theorem Windows.starts (h : f.Windows start ws) (hstart : start < f.length) :
    ws.Pairwise fun w w' => w.start < w'.start := by
  induction h with
  | last => exact List.pairwise_singleton _ _
  | @more start stop ws hcut hstop hrest ih =>
    have hnext := next_lt_length hcut hstart hstop
    rw [List.pairwise_cons]
    constructor
    · intro w hw
      have := hrest.bounds hnext.2.2 w hw
      dsimp only
      omega
    · exact ih hnext.2.2

theorem Windows.covers (h : f.Windows start ws) (hstart : start < f.length) {p : ℕ} (hp : start ≤ p)
    (hlength : p < f.length) : ∃ w ∈ ws, w.start ≤ p ∧ p < w.stop := by
  induction h with
  | last => exact ⟨_, List.mem_singleton_self _, hp, hlength⟩
  | @more start stop ws hcut hstop hrest ih =>
    have hnext := next_lt_length hcut hstart hstop
    by_cases hinside : p < stop
    · exact ⟨_, List.mem_cons_self, hp, hinside⟩
    · obtain ⟨w, hw, hcovers⟩ := ih hnext.2.2 (by omega)
      exact ⟨w, List.mem_cons_of_mem _ hw, hcovers⟩

/-! ## Words -/

/-- The word from `a` to `b`, and the run of blanks before it, from `gap` on. -/
structure Word (f : Frame) (gap a b : ℕ) : Prop where
  gap_le : gap ≤ a
  nonempty : a < b
  le_length : b ≤ f.length
  blanks : ∀ p, gap ≤ p → p < a → f.blank p
  letters : ∀ p, a ≤ p → p < b → ¬ f.blank p
  ends : b = f.length ∨ f.blank b
  run : gap = 0 ∨ f.RunStart gap

variable {gap a b : ℕ}

theorem Word.runStart (h : f.Word gap a b) (hb : b < f.length) : f.RunStart b := by
  have hne := h.nonempty
  refine ⟨by omega, hb, h.ends.resolve_left hb.ne, h.letters (b - 1) (by omega) (by omega)⟩

/-- Between the run of blanks and the end of the word no other run begins. -/
theorem Word.no_run (h : f.Word gap a b) {p : ℕ} (hgap : gap < p) (hp : p < b) : ¬ f.RunStart p := by
  intro hrun
  by_cases hword : a ≤ p
  · exact h.letters p hword hp hrun.2.2.1
  · exact hrun.2.2.2 (h.blanks (p - 1) (by omega) (by omega))

/-- A window that the word fits into contains it. -/
theorem Word.le_stop (h : f.Word gap a b) (hcut : f.Cut start stop)
    (hfits : b ≤ start + f.width) : b ≤ stop := by
  have hne := h.nonempty
  cases hcut with
  | last => exact h.le_length
  | soft hinner _ _ _ hnone =>
    by_contra hlt
    exact hnone b (by omega) hfits (h.runStart (by omega))
  | hard hinner hnone => exact hfits

def Contains (ws : List Window) (a b : ℕ) : Prop := ∃ w ∈ ws, w.start ≤ a ∧ b ≤ w.stop

theorem not_contains_of_lt (h : f.Windows start ws) (hstart : start < f.length) (ha : a < start) :
    ¬ Contains ws a b := by
  intro ⟨w, hw, hle, _⟩
  have := h.bounds hstart w hw
  omega

theorem contains_cons {w : Window} : Contains (w :: ws) a b ↔ (w.start ≤ a ∧ b ≤ w.stop) ∨ Contains ws a b := by
  simp [Contains]

/-- From a window that begins in the run of blanks, the windows walk towards the
word in equal steps. -/
theorem Windows.contains_iff_of_gap (h : f.Windows start ws) (hstart : start < f.length)
    (hword : f.Word gap a b) (hgap : gap ≤ start) (ha : start ≤ a) :
    Contains ws a b ↔ (a - start) % (f.width - f.overlap) + (b - a) ≤ f.width := by
  have hne := hword.nonempty
  have hoverlap := f.overlap_lt
  induction h with
  | @last start hcut =>
    have hle := hcut.stop_le.1
    have hb := hword.le_length
    have hmod := Nat.mod_le (a - start) (f.width - f.overlap)
    refine iff_of_true ⟨_, List.mem_singleton_self _, ha, hb⟩ (by omega)
  | @more start stop ws hcut hstop hrest ih =>
    have hnext := next_lt_length hcut hstart hstop
    by_cases hinside : b ≤ start + f.width
    · have hmod := Nat.mod_le (a - start) (f.width - f.overlap)
      refine iff_of_true ⟨_, List.mem_cons_self, ha, hword.le_stop hcut hinside⟩ (by omega)
    · have hstop' : stop = start + f.width := by
        cases hcut with
        | last => omega
        | soft _ hrun hlt hle => exact absurd hrun (hword.no_run (by omega) (by omega))
        | hard => rfl
      have hnext' : f.next start stop = start + (f.width - f.overlap) := by
        unfold next
        split <;> omega
      rw [contains_cons, or_iff_right (by dsimp only; omega)]
      rw [hnext'] at hrest ih hnext
      by_cases hreached : start + (f.width - f.overlap) ≤ a
      · have hmod : (a - start) % (f.width - f.overlap) =
            (a - (start + (f.width - f.overlap))) % (f.width - f.overlap) := by
          rw [Nat.sub_add_eq, ← Nat.mod_eq_sub_mod (by omega)]
        rw [hmod]
        exact ih hnext.2.2 (by omega) hreached
      · have hmod : (a - start) % (f.width - f.overlap) = a - start := Nat.mod_eq_of_lt (by omega)
        rw [hmod]
        exact iff_of_false (not_contains_of_lt hrest hnext.2.2 (by omega)) (by omega)

/-- A word that fits into a window is whole in one exactly where what is left of
the blanks before it, after steps of the width less the overlap, fits with it. -/
theorem Windows.contains_iff (h : f.Windows start ws) (hstart : start < f.length)
    (hword : f.Word gap a b) (hgap : start ≤ gap) :
    Contains ws a b ↔ (a - gap) % (f.width - f.overlap) + (b - a) ≤ f.width := by
  have hne := hword.nonempty
  have hle := hword.gap_le
  have hb := hword.le_length
  by_cases hat : start = gap
  · subst hat
    exact h.contains_iff_of_gap hstart hword le_rfl hle
  induction h with
  | @last start hcut =>
    have hmod := Nat.mod_le (a - gap) (f.width - f.overlap)
    have hwidth := hcut.stop_le.1
    exact iff_of_true ⟨_, List.mem_singleton_self _, by dsimp only; omega, hb⟩ (by omega)
  | @more start stop ws hcut hstop hrest ih =>
    have hnext := next_lt_length hcut hstart hstop
    by_cases hinside : b ≤ stop
    · have hmod := Nat.mod_le (a - gap) (f.width - f.overlap)
      have hwidth := hcut.stop_le.1
      exact iff_of_true ⟨_, List.mem_cons_self, by dsimp only; omega, hinside⟩ (by omega)
    · have hrun : f.RunStart gap := hword.run.resolve_left (by omega)
      -- the cut lies at the run of blanks or before it
      have hbefore : stop ≤ gap := by
        by_contra hlt
        cases hcut with
        | last => omega
        | soft _ hstopRun => exact hword.no_run (by omega) (by omega) hstopRun
        | hard _ hnone => exact hnone gap (by omega) (by omega) hrun
      rw [contains_cons, or_iff_right (by dsimp only; omega)]
      by_cases hnextGap : f.next start stop = gap
      · rw [hnextGap] at hrest
        exact hrest.contains_iff_of_gap (by omega) hword le_rfl hle
      · exact ih hnext.2.2 (by omega) hnextGap

/-! ## Progress -/

/-- The state before a window is cut: where the window is cut at a run of blanks
and the overlap reaches back behind its start, the text from there on has a later
run of blanks, or its end, within the width. -/
def Fine (f : Frame) (start : ℕ) : Prop :=
  ∀ e, start + f.width < f.length → f.RunStart e → start < e → e ≤ start + f.width →
    (∀ p, e < p → p ≤ start + f.width → ¬ f.RunStart p) →
    f.overlap = 0 ∨ e ≤ start + f.overlap ∨ f.length ≤ e - f.overlap + f.width ∨
      ∃ p, f.RunStart p ∧ e < p ∧ p ≤ e - f.overlap + f.width

theorem fine_of_last (h : f.length ≤ start + f.width) : f.Fine start := by
  intro e hinner
  omega

theorem stop_lt_iff {stop' : ℕ} (hstart : start < f.length) (hcut : f.Cut start stop)
    (hstop : stop < f.length) (hcut' : f.Cut (f.next start stop) stop') :
    stop < stop' ↔ f.Fine start := by
  have hoverlap := f.overlap_lt
  have hnext := next_lt_length hcut hstart hstop
  cases hcut with
  | last => omega
  | hard hinner hnone =>
    refine iff_of_true ?_ fun e _ hrun hlt hle => absurd hrun (hnone e hlt hle)
    have hback : f.next start (start + f.width) = start + f.width - f.overlap := by
      unfold next
      split <;> omega
    rw [hback] at hcut'
    cases hcut' with
    | last => omega
    | soft _ hrun hlt =>
      by_contra hge
      exact hnone stop' (by omega) (by omega) hrun
    | hard => omega
  | soft hinner hrun hlt hle hnone =>
    have honly : ∀ e, f.RunStart e → start < e → e ≤ start + f.width →
        (∀ p, e < p → p ≤ start + f.width → ¬ f.RunStart p) → e = stop := by
      intro e he hse hew hlast
      rcases Nat.lt_trichotomy e stop with hes | heq | hse'
      · exact absurd hrun (hlast stop hes hle)
      · exact heq
      · exact absurd he (hnone e hse' hew)
    by_cases hstay : f.overlap = 0 ∨ stop ≤ start + f.overlap
    · have hnextStop : f.next start stop = stop := by
        unfold next
        split <;> omega
      rw [hnextStop] at hcut'
      refine iff_of_true (hcut'.start_lt hstop) fun e _ he hse hew hlast => ?_
      rw [honly e he hse hew hlast]
      rcases hstay with hzero | hclose
      · exact .inl hzero
      · exact .inr (.inl hclose)
    · push Not at hstay
      have hback : f.next start stop = stop - f.overlap := by
        unfold next
        split <;> omega
      rw [hback] at hcut'
      have hfine : f.Fine start ↔ f.length ≤ stop - f.overlap + f.width ∨
          ∃ p, f.RunStart p ∧ stop < p ∧ p ≤ stop - f.overlap + f.width := by
        constructor
        · intro hfine
          rcases hfine stop hinner hrun hlt hle hnone with hzero | hclose | hrest
          · exact absurd hzero hstay.1
          · omega
          · exact hrest
        · intro hrest e _ he hse hew hlast
          rw [honly e he hse hew hlast]
          exact .inr (.inr hrest)
      rw [hfine]
      cases hcut' with
      | last hlast => exact iff_of_true hstop (.inl hlast)
      | soft hinner' hrun' hlt' hle' hnone' =>
        have hge : stop ≤ stop' := by
          by_contra hless
          exact hnone' stop (by omega) (by omega) hrun
        constructor
        · intro hless
          exact .inr ⟨stop', hrun', hless, hle'⟩
        · intro hlater
          rcases hlater with hlast | ⟨p, hp, hsp, hpw⟩
          · omega
          · by_contra hnot
            exact hnone' p (by omega) hpw hp
      | hard _ hnone' => exact absurd hrun (hnone' stop (by omega) (by omega))

/-- The ends of the windows increase exactly where every window is cut in a fine
state. -/
theorem Windows.stops_iff (h : f.Windows start ws) (hstart : start < f.length) :
    ws.IsChain (fun w w' => w.stop < w'.stop) ↔ ∀ w ∈ ws, f.Fine w.start := by
  induction h with
  | @last start hcut =>
    refine iff_of_true (List.isChain_singleton _) fun w hw => ?_
    rw [List.mem_singleton.mp hw]
    exact fine_of_last hcut.stop_le.1
  | @more start stop ws hcut hstop hrest ih =>
    have hnext := next_lt_length hcut hstart hstop
    obtain ⟨stop', rest, rfl, hcut'⟩ := hrest.first
    have hstep := stop_lt_iff hstart hcut hstop hcut'
    rw [List.isChain_cons_cons, ih hnext.2.2, hstep]
    simp only [List.forall_mem_cons]

end Frame

end ModelForge.WindowCuts
