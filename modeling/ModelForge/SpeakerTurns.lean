import Mathlib.Data.List.Chain
import Mathlib.Data.List.Sort
import Mathlib.Data.Rat.Floor
import Mathlib.Tactic.Linarith

set_option autoImplicit false

/-!
# Turns of speakers

`coalesceTurns` merges the turns of a speaker that follow each other within a gap.
Times are exact.
-/
namespace ModelForge.SpeakerTurns

structure DiarizationTurn where
  start : ℚ
  «end» : ℚ
  speaker : String
deriving DecidableEq

/-! ## The function -/

/-- `(a, b) => a.start - b.start` puts no turn behind one that starts later. -/
abbrev StartsBefore (a b : DiarizationTurn) : Prop := a.start ≤ b.start

/-- The second turn is merged into the first. -/
def Joins (gapSec : ℚ) (prev cur : DiarizationTurn) : Prop :=
  cur.speaker = prev.speaker ∧ cur.start - prev.end ≤ gapSec

instance (gapSec : ℚ) (prev cur : DiarizationTurn) : Decidable (Joins gapSec prev cur) :=
  inferInstanceAs (Decidable (_ ∧ _))

def join (prev cur : DiarizationTurn) : DiarizationTurn := { prev with «end» := max prev.end cur.end }

/-- The loop, from its running last turn on. -/
def coalesceFrom (gapSec : ℚ) : DiarizationTurn → List DiarizationTurn → List DiarizationTurn
  | prev, [] => [prev]
  | prev, cur :: sorted =>
    if Joins gapSec prev cur then coalesceFrom gapSec (join prev cur) sorted
    else prev :: coalesceFrom gapSec cur sorted

def coalesceTurns (turns : List DiarizationTurn) (gapSec : ℚ) : List DiarizationTurn :=
  match turns.insertionSort StartsBefore with
  | [] => []
  | first :: sorted => coalesceFrom gapSec first sorted

example : coalesceTurns [⟨12 / 10, 2, "SPEAKER_00"⟩, ⟨0, 1, "SPEAKER_00"⟩, ⟨25 / 10, 3, "SPEAKER_01"⟩] (35 / 100) =
    [⟨0, 2, "SPEAKER_00"⟩, ⟨25 / 10, 3, "SPEAKER_01"⟩] := by decide +kernel

/-! ## One turn -/

variable {gapSec : ℚ} {prev cur : DiarizationTurn} {turns sorted out : List DiarizationTurn}

/-- The turn lies in one of the same speaker. -/
def Within (turn other : DiarizationTurn) : Prop :=
  other.speaker = turn.speaker ∧ other.start ≤ turn.start ∧ turn.end ≤ other.end

/-- What is asked of the merged turns. -/
structure Merges (gapSec : ℚ) (turns out : List DiarizationTurn) : Prop where
  sorted : out.Pairwise StartsBefore
  contained : ∀ turn ∈ turns, ∃ merged ∈ out, Within turn merged
  separated : out.IsChain fun a b => a.speaker = b.speaker → gapSec < b.start - a.end
  starts : ∀ merged ∈ out, ∃ turn ∈ turns, turn.speaker = merged.speaker ∧ turn.start = merged.start
  ends : ∀ merged ∈ out, ∃ turn ∈ turns, turn.speaker = merged.speaker ∧ turn.end = merged.end

/-- What merging the next turn into the last one keeps. -/
theorem Merges.join (h : Merges gapSec (join prev cur :: sorted) out) (hjoins : Joins gapSec prev cur)
    (hstart : prev.start ≤ cur.start) : Merges gapSec (prev :: cur :: sorted) out := by
  have hmem {turn : DiarizationTurn} (hturn : turn ∈ sorted) : turn ∈ prev :: cur :: sorted :=
    List.mem_cons_of_mem _ (List.mem_cons_of_mem _ hturn)
  obtain ⟨merged, hmerged, hspeaker, hle, hend⟩ := h.contained _ List.mem_cons_self
  change merged.speaker = prev.speaker at hspeaker
  change merged.start ≤ prev.start at hle
  change max prev.end cur.end ≤ merged.end at hend
  refine ⟨h.sorted, ?_, h.separated, ?_, ?_⟩
  · intro turn hturn
    rcases List.mem_cons.mp hturn with rfl | hturn
    · exact ⟨merged, hmerged, hspeaker, hle, (le_max_left _ _).trans hend⟩
    rcases List.mem_cons.mp hturn with rfl | hturn
    · exact ⟨merged, hmerged, hspeaker.trans hjoins.1.symm, hle.trans hstart, (le_max_right _ _).trans hend⟩
    · exact h.contained turn (List.mem_cons_of_mem _ hturn)
  · intro other hother
    obtain ⟨turn, hturn, hsame, heq⟩ := h.starts other hother
    rcases List.mem_cons.mp hturn with rfl | hturn
    · exact ⟨prev, List.mem_cons_self, hsame, heq⟩
    · exact ⟨turn, hmem hturn, hsame, heq⟩
  · intro other hother
    obtain ⟨turn, hturn, hsame, heq⟩ := h.ends other hother
    rcases List.mem_cons.mp hturn with rfl | hturn
    · rcases max_choice prev.end cur.end with hmax | hmax
      · exact ⟨prev, List.mem_cons_self, hsame, hmax.symm.trans heq⟩
      · refine ⟨cur, List.mem_cons_of_mem _ List.mem_cons_self, hjoins.1.trans hsame, hmax.symm.trans heq⟩
    · exact ⟨turn, hmem hturn, hsame, heq⟩

/-- What putting the next turn behind the last one keeps. -/
theorem Merges.push {e : ℚ} {rest : List DiarizationTurn}
    (h : Merges gapSec (cur :: sorted) ({ cur with «end» := e } :: rest)) (hapart : ¬ Joins gapSec prev cur)
    (hstart : ∀ turn ∈ cur :: sorted, prev.start ≤ turn.start) :
    Merges gapSec (prev :: cur :: sorted) (prev :: { cur with «end» := e } :: rest) := by
  constructor
  · refine List.pairwise_cons.mpr ⟨fun merged hmerged => ?_, h.sorted⟩
    obtain ⟨turn, hturn, _, heq⟩ := h.starts merged hmerged
    exact (hstart turn hturn).trans_eq heq
  · intro turn hturn
    rcases List.mem_cons.mp hturn with rfl | hturn
    · exact ⟨turn, List.mem_cons_self, rfl, le_rfl, le_rfl⟩
    · obtain ⟨merged, hmerged, hwithin⟩ := h.contained turn hturn
      exact ⟨merged, List.mem_cons_of_mem _ hmerged, hwithin⟩
  · refine List.isChain_cons_cons.mpr ⟨fun hspeaker => ?_, h.separated⟩
    by_contra hnear
    exact hapart ⟨hspeaker.symm, not_lt.mp hnear⟩
  · intro merged hmerged
    rcases List.mem_cons.mp hmerged with rfl | hmerged
    · exact ⟨merged, List.mem_cons_self, rfl, rfl⟩
    · obtain ⟨turn, hturn, hsame⟩ := h.starts merged hmerged
      exact ⟨turn, List.mem_cons_of_mem _ hturn, hsame⟩
  · intro merged hmerged
    rcases List.mem_cons.mp hmerged with rfl | hmerged
    · exact ⟨merged, List.mem_cons_self, rfl, rfl⟩
    · obtain ⟨turn, hturn, hsame⟩ := h.ends merged hmerged
      exact ⟨turn, List.mem_cons_of_mem _ hturn, hsame⟩

/-! ## All turns -/

/-- The running last turn keeps its start and its speaker. -/
theorem coalesceFrom_first (gapSec : ℚ) (prev : DiarizationTurn) (sorted : List DiarizationTurn) :
    ∃ e rest, coalesceFrom gapSec prev sorted = { prev with «end» := e } :: rest := by
  induction sorted generalizing prev with
  | nil => exact ⟨prev.end, [], rfl⟩
  | cons cur sorted ih =>
    by_cases hjoins : Joins gapSec prev cur
    · rw [coalesceFrom, if_pos hjoins]
      exact ih (join prev cur)
    · rw [coalesceFrom, if_neg hjoins]
      exact ⟨prev.end, _, rfl⟩

theorem coalesceFrom_merges (h : (prev :: sorted).Pairwise StartsBefore) :
    Merges gapSec (prev :: sorted) (coalesceFrom gapSec prev sorted) := by
  induction sorted generalizing prev with
  | nil =>
    refine ⟨List.pairwise_singleton _ _, ?_, List.isChain_singleton _, ?_, ?_⟩
    · intro turn hturn
      exact ⟨turn, hturn, rfl, le_rfl, le_rfl⟩
    · exact fun merged hmerged => ⟨merged, hmerged, rfl, rfl⟩
    · exact fun merged hmerged => ⟨merged, hmerged, rfl, rfl⟩
  | cons cur sorted ih =>
    obtain ⟨hstart, htail⟩ := List.pairwise_cons.mp h
    by_cases hjoins : Joins gapSec prev cur
    · rw [coalesceFrom, if_pos hjoins]
      refine (ih ?_).join hjoins (hstart cur List.mem_cons_self)
      refine List.pairwise_cons.mpr ⟨fun turn hturn => ?_, htail.of_cons⟩
      exact hstart turn (List.mem_cons_of_mem _ hturn)
    · rw [coalesceFrom, if_neg hjoins]
      have hrest := ih htail
      obtain ⟨e, rest, hfirst⟩ := coalesceFrom_first gapSec cur sorted
      rw [hfirst] at hrest ⊢
      exact hrest.push hjoins hstart

/-- Turns that stand apart are left as they are. -/
theorem coalesceFrom_of_separated
    (h : (prev :: sorted).IsChain fun a b => a.speaker = b.speaker → gapSec < b.start - a.end) :
    coalesceFrom gapSec prev sorted = prev :: sorted := by
  induction sorted generalizing prev with
  | nil => rfl
  | cons cur sorted ih =>
    obtain ⟨hcur, hrest⟩ := List.isChain_cons_cons.mp h
    have hapart : ¬ Joins gapSec prev cur := by
      intro ⟨hspeaker, hnear⟩
      exact absurd (hcur hspeaker.symm) (not_lt.mpr hnear)
    rw [coalesceFrom, if_neg hapart, ih hrest]

theorem coalesceTurns_of_merged (hsorted : out.Pairwise StartsBefore)
    (h : out.IsChain fun a b => a.speaker = b.speaker → gapSec < b.start - a.end) :
    coalesceTurns out gapSec = out := by
  rw [coalesceTurns, hsorted.insertionSort_eq]
  cases out with
  | nil => rfl
  | cons first sorted => exact coalesceFrom_of_separated h

theorem Merges.of_perm {turns' : List DiarizationTurn} (h : Merges gapSec turns out) (hperm : turns.Perm turns') :
    Merges gapSec turns' out := by
  refine ⟨h.sorted, fun turn hturn => h.contained turn (hperm.mem_iff.mpr hturn), h.separated, ?_, ?_⟩
  · intro merged hmerged
    obtain ⟨turn, hturn, hsame⟩ := h.starts merged hmerged
    exact ⟨turn, hperm.mem_iff.mp hturn, hsame⟩
  · intro merged hmerged
    obtain ⟨turn, hturn, hsame⟩ := h.ends merged hmerged
    exact ⟨turn, hperm.mem_iff.mp hturn, hsame⟩

/-- `coalesceTurns` merges the turns, for every gap, and a second time changes
nothing. -/
theorem coalesceTurns_merges (turns : List DiarizationTurn) (gapSec : ℚ) :
    Merges gapSec turns (coalesceTurns turns gapSec) ∧
      coalesceTurns (coalesceTurns turns gapSec) gapSec = coalesceTurns turns gapSec := by
  have hperm := List.perm_insertionSort StartsBefore turns
  have hsorted := List.pairwise_insertionSort StartsBefore turns
  have hmerges : Merges gapSec turns (coalesceTurns turns gapSec) := by
    apply Merges.of_perm _ hperm
    rw [coalesceTurns]
    cases hlist : turns.insertionSort StartsBefore with
    | nil => exact ⟨List.Pairwise.nil, by simp, List.isChain_nil, by simp, by simp⟩
    | cons first sorted =>
      rw [hlist] at hsorted
      exact coalesceFrom_merges hsorted
  exact ⟨hmerges, coalesceTurns_of_merged hmerges.sorted hmerges.separated⟩

end ModelForge.SpeakerTurns
