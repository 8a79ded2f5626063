import ModelForge.RunInvariant

set_option autoImplicit false

/-!
# Check, then act

Actors share a budget. Each checks that its need fits, and takes what it needs
in a later step, so that what happens in between decides whether the budget
still holds. An observer notes for each actor the room that its check left and
what has been added and freed since.
-/
namespace ModelForge.CheckThenAct
open RunInvariant

variable {σ ε ι : Type}

/-- `passed s i` is the need of an actor between its check and its act, and
`acts s e` is the actor that takes what it needs in the step `e`. -/
structure Shared (σ ε ι : Type) where
  step : σ → ε → Option σ
  used : σ → ℕ
  budget : ℕ
  passed : σ → ι → Option ℕ
  acts : σ → ε → Option ι

/-- What an actor's check left free, and what came and went since. -/
structure Since where
  room : ℕ
  added : ℕ
  freed : ℕ

def Since.after (w : Since) (before now : ℕ) : Since :=
  { w with added := w.added + (now - before), freed := w.freed + (before - now) }

def Since.Fits (w : Since) : Prop := w.added ≤ w.room + w.freed

/-- The actor's note is true to the amount in use. -/
def Since.Balanced (w : Since) (budget used need : ℕ) : Prop :=
  used + need + w.room + w.freed = budget + w.added

theorem Since.Balanced.after {w : Since} {budget before need : ℕ} (h : w.Balanced budget before need)
    (now : ℕ) : (w.after before now).Balanced budget now need := by
  simp only [Since.Balanced, Since.after] at h ⊢
  omega

theorem Since.Balanced.fits_iff {w : Since} {budget used need : ℕ} (h : w.Balanced budget used need) :
    w.Fits ↔ used + need ≤ budget := by
  simp only [Since.Balanced, Since.Fits] at h ⊢
  omega

theorem balanced_of_check {budget used need : ℕ} (h : used + need ≤ budget) :
    Since.Balanced ⟨budget - (used + need), 0, 0⟩ budget used need := by
  simp only [Since.Balanced]
  omega

namespace Shared

variable (m : Shared σ ε ι)

/-- A step in which an actor has come to have passed its check starts its note. -/
def observe (s : σ) (_ : ε) (t : σ) (notes : ι → Since) (i : ι) : Since :=
  match m.passed s i, m.passed t i with
  | none, some need => ⟨m.budget - (m.used t + need), 0, 0⟩
  | _, _ => (notes i).after (m.used s) (m.used t)

def watched : σ × (ι → Since) → ε → Option (σ × (ι → Since)) := observed m.step m.observe

/-- What came since the acting actor's check fits in the room that it left and
in what went since. -/
def ActFits (a : σ × (ι → Since)) (e : ε) : Prop := ∀ i, m.acts a.1 e = some i → (a.2 i).Fits

/-- Under `I`, a check that passes is true when it passes, an act that is
`Clean` adds exactly the actor's need, and nothing else adds anything. -/
structure Lawful (I : σ → Prop) (Clean : σ → ε → Prop) : Prop where
  keep : ∀ {s t : σ} {e : ε}, I s → m.step s e = some t → Clean s e → I t
  passes : ∀ {s t : σ} {e : ε} {i : ι} {need : ℕ}, I s → m.step s e = some t →
    m.passed t i = some need → m.passed s i = some need ∨
      m.passed s i = none ∧ m.used t + need ≤ m.budget
  adds : ∀ {s t : σ} {e : ε} {i : ι}, I s → m.step s e = some t → Clean s e →
    m.acts s e = some i → ∃ need, m.passed s i = some need ∧ m.used t = m.used s + need
  others : ∀ {s t : σ} {e : ε}, I s → m.step s e = some t → m.acts s e = none → m.used t ≤ m.used s

variable {m} {I : σ → Prop} {Clean : σ → ε → Prop}

structure Inv (m : Shared σ ε ι) (I : σ → Prop) (a : σ × (ι → Since)) : Prop where
  base : I a.1
  within : m.used a.1 ≤ m.budget
  balanced : ∀ {i : ι} {need : ℕ}, m.passed a.1 i = some need →
    (a.2 i).Balanced m.budget (m.used a.1) need

theorem Lawful.balanced (hm : m.Lawful I Clean) {a b : σ × (ι → Since)} {e : ε} (ha : Inv m I a)
    (hb : m.watched a e = some b) {i : ι} {need : ℕ} (hi : m.passed b.1 i = some need) :
    (b.2 i).Balanced m.budget (m.used b.1) need := by
  obtain ⟨hstep, hnotes⟩ := observed_eq_some hb
  rw [hnotes, Shared.observe]
  rcases hm.passes ha.base hstep hi with hold | ⟨hnone, hfits⟩
  · rw [hold]
    exact (ha.balanced hold).after _
  · rw [hnone, hi]
    exact balanced_of_check hfits

theorem Lawful.within_iff (hm : m.Lawful I Clean) {a b : σ × (ι → Since)} {e : ε} (ha : Inv m I a)
    (hb : m.watched a e = some b) (hclean : Clean a.1 e) :
    m.used b.1 ≤ m.budget ↔ m.ActFits a e := by
  obtain ⟨hstep, -⟩ := observed_eq_some hb
  cases hact : m.acts a.1 e with
  | none =>
    have hle := hm.others ha.base hstep hact
    refine ⟨fun _ i hi => ?_, fun _ => hle.trans ha.within⟩
    rw [hact] at hi
    cases hi
  | some i =>
    obtain ⟨need, hpassed, hused⟩ := hm.adds ha.base hstep hclean hact
    rw [hused, ← (ha.balanced hpassed).fits_iff]
    refine ⟨fun h j hj => ?_, fun h => h i hact⟩
    obtain rfl := Option.some.inj (hact.symm.trans hj)
    exact h

/-- The budget is kept at every step exactly when every act still fits. -/
theorem Lawful.within_budget_iff (hm : m.Lawful I Clean) {s : σ} (hs : I s)
    (hused : m.used s ≤ m.budget) (hnone : ∀ i, m.passed s i = none) (notes : ι → Since)
    (events : List ε) :
    EveryStep m.step (fun s e t => Clean s e ∧ m.used t ≤ m.budget) s events ↔
      EveryStep m.watched (fun a e _ => Clean a.1 e ∧ m.ActFits a e) (s, notes) events := by
  rw [← everyStep_observed m.observe _ s notes]
  refine everyStep_iff_guarded (Inv m I) _ _ ?_ ?_ ⟨hs, hused, ?_⟩ events
  · rintro a e b ha hb ⟨hclean, hfits⟩
    have hwithin := (hm.within_iff ha hb hclean).mpr hfits
    exact ⟨⟨hclean, hwithin⟩, hm.keep ha.base (observed_eq_some hb).1 hclean, hwithin,
      hm.balanced ha hb⟩
  · rintro a e b ha hb ⟨hclean, hwithin⟩
    exact ⟨hclean, (hm.within_iff ha hb hclean).mp hwithin⟩
  · intro i need hi
    rw [hnone] at hi
    cases hi

end Shared

end ModelForge.CheckThenAct
