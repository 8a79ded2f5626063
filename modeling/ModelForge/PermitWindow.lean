import Mathlib

set_option autoImplicit false

/-!
# A window of permits

Requests are handed to tasks of their own, each of which takes one of so many
permits before it is spawned and gives it back when it ends. A window holds at
most so many unfinished tasks; the calls of its tasks may begin in another order
than the one in which they were spawned, but none overtakes a whole window.
-/
namespace ModelForge.PermitWindow

variable {ρ : Type}

/-! ## What stands before an element -/

section Earlier

variable [DecidableEq ρ]

def earlier (xs : List ρ) (r : ρ) : List ρ := xs.takeWhile fun x => x ≠ r

@[simp] theorem earlier_nil (r : ρ) : earlier [] r = [] := rfl

@[simp] theorem earlier_cons_self (r : ρ) (xs : List ρ) : earlier (r :: xs) r = [] := by
  simp [earlier]

theorem earlier_cons_of_ne {x r : ρ} (h : x ≠ r) (xs : List ρ) :
    earlier (x :: xs) r = x :: earlier xs r :=
  List.takeWhile_cons_of_pos (decide_eq_true h)

theorem earlier_split {xs : List ρ} {r : ρ} (h : r ∈ xs) : ∃ back, xs = earlier xs r ++ r :: back := by
  induction xs with
  | nil => exact absurd h List.not_mem_nil
  | cons x xs ih =>
    by_cases hx : x = r
    · subst hx
      exact ⟨xs, by rw [earlier_cons_self, List.nil_append]⟩
    · obtain ⟨back, hback⟩ := ih (List.mem_of_ne_of_mem (Ne.symm hx) h)
      refine ⟨back, ?_⟩
      rw [earlier_cons_of_ne hx, List.cons_append, ← hback]

theorem earlier_append {xs : List ρ} {r : ρ} (h : r ∈ xs) (ys : List ρ) :
    earlier (xs ++ ys) r = earlier xs r := by
  induction xs with
  | nil => exact absurd h List.not_mem_nil
  | cons x xs ih =>
    by_cases hx : x = r
    · subst hx
      rw [List.cons_append, earlier_cons_self, earlier_cons_self]
    · rw [List.cons_append, earlier_cons_of_ne hx, earlier_cons_of_ne hx,
        ih (List.mem_of_ne_of_mem (Ne.symm hx) h)]

theorem earlier_concat {xs : List ρ} {r : ρ} (h : r ∉ xs) : earlier (xs ++ [r]) r = xs := by
  induction xs with
  | nil => exact earlier_cons_self r []
  | cons x xs ih =>
    obtain ⟨hx, hrest⟩ := not_or.mp (List.mem_cons.not.mp h)
    rw [List.cons_append, earlier_cons_of_ne (Ne.symm hx), ih hrest]

/-- Of what stands before an element that passes, fewer pass. -/
theorem length_filter_earlier_lt {xs : List ρ} {r : ρ} (h : r ∈ xs) {p : ρ → Bool} (hp : p r = true) :
    ((earlier xs r).filter p).length < (xs.filter p).length := by
  obtain ⟨back, hback⟩ := earlier_split h
  have hsplit := congrArg (fun ys => (ys.filter p).length) hback
  simp only [List.filter_append, List.filter_cons_of_pos hp, List.length_append, List.length_cons] at hsplit
  omega

end Earlier

/-! ## Tasks -/

inductive Phase where
  | spawned
  | running
  | returned
  | ended
  deriving DecidableEq, Repr

structure Task (ρ : Type) where
  request : ρ
  phase : Phase

/-- The permit is given back last. -/
def Task.holds (t : Task ρ) : Bool := t.phase ≠ .ended

structure Window (ρ : Type) (size : ℕ) where
  permits : ℕ
  tasks : List (Task ρ)
  /-- The requests whose calls began, in the order in which they did. -/
  begun : List ρ
  balanced : permits + tasks.countP Task.holds = size

theorem countP_set {α : Type} {p : α → Bool} {xs : List α} {j : ℕ} {x : α} (h : xs[j]? = some x) (y : α) :
    (xs.set j y).countP p + (if p x then 1 else 0) = xs.countP p + if p y then 1 else 0 := by
  induction xs generalizing j with
  | nil => simp at h
  | cons a xs ih =>
    cases j with
    | zero =>
      obtain rfl := Option.some.inj h
      simp only [List.set_cons_zero, List.countP_cons]
      omega
    | succ j =>
      have hrest := ih (j := j) h
      simp only [List.set_cons_succ, List.countP_cons]
      omega

namespace Window

variable {size : ℕ}

def empty (size : ℕ) : Window ρ size := ⟨size, [], [], rfl⟩

def handed (w : Window ρ size) : List ρ := w.tasks.map Task.request

def running (w : Window ρ size) : ℕ := w.tasks.countP fun t => t.phase = .running

def spawn (w : Window ρ size) (r : ρ) : Option (Window ρ size) :=
  if h : 0 < w.permits then
    some
      { permits := w.permits - 1
        tasks := w.tasks ++ [⟨r, .spawned⟩]
        begun := w.begun
        balanced := by
          have hbalanced := w.balanced
          simp only [List.countP_append, List.countP_singleton, Task.holds]
          simp only [ne_eq, reduceCtorEq, not_false_eq_true, decide_true, if_true]
          omega }
  else none

/-- What a task takes of the permits, or gives back to them, it changes by. -/
theorem balanced_set (w : Window ρ size) {j : ℕ} {t t' : Task ρ} {permits : ℕ} (h : w.tasks[j]? = some t)
    (hpermits : permits + (if t'.holds then 1 else 0) = w.permits + if t.holds then 1 else 0) :
    permits + (w.tasks.set j t').countP Task.holds = size := by
  have hcount := countP_set (p := Task.holds) h t'
  have hbalanced := w.balanced
  omega

/-- The next step of a task: its call begins, its call returns, its permit is
given back. -/
def advance (w : Window ρ size) (j : ℕ) : Option (Window ρ size) :=
  match h : w.tasks[j]? with
  | none => none
  | some ⟨r, .spawned⟩ =>
    some ⟨w.permits, w.tasks.set j ⟨r, .running⟩, w.begun ++ [r], w.balanced_set h rfl⟩
  | some ⟨r, .running⟩ =>
    some ⟨w.permits, w.tasks.set j ⟨r, .returned⟩, w.begun, w.balanced_set h rfl⟩
  | some ⟨r, .returned⟩ =>
    some ⟨w.permits + 1, w.tasks.set j ⟨r, .ended⟩, w.begun, w.balanced_set h rfl⟩
  | some ⟨_, .ended⟩ => none

variable {w w' : Window ρ size} {r : ρ} {j : ℕ}

theorem spawn_eq_some (h : w.spawn r = some w') :
    w'.tasks = w.tasks ++ [⟨r, .spawned⟩] ∧ w'.begun = w.begun := by
  unfold spawn at h
  split at h
  · obtain rfl := Option.some.inj h
    exact ⟨rfl, rfl⟩
  · cases h

/-- A step of a task begins its call, or changes nothing of what has begun. -/
theorem advance_eq_some (h : w.advance j = some w') :
    ∃ t p, w.tasks[j]? = some t ∧ w'.tasks = w.tasks.set j ⟨t.request, p⟩ ∧ p ≠ .spawned ∧
      ((t.phase = .spawned ∧ w'.begun = w.begun ++ [t.request]) ∨
        (t.phase ≠ .spawned ∧ w'.begun = w.begun)) := by
  unfold advance at h
  split at h
  · cases h
  · rename_i r hget
    obtain rfl := Option.some.inj h
    exact ⟨_, .running, hget, rfl, by decide, .inl ⟨rfl, rfl⟩⟩
  · rename_i r hget
    obtain rfl := Option.some.inj h
    exact ⟨_, .returned, hget, rfl, by decide, .inr ⟨by simp, rfl⟩⟩
  · rename_i r hget
    obtain rfl := Option.some.inj h
    exact ⟨_, .ended, hget, rfl, by decide, .inr ⟨by simp, rfl⟩⟩
  · cases h

theorem handed_spawn (h : w.spawn r = some w') : w'.handed = w.handed ++ [r] := by
  rw [handed, (spawn_eq_some h).1, List.map_append]
  rfl

theorem handed_advance (h : w.advance j = some w') : w'.handed = w.handed := by
  obtain ⟨t, p, hget, htasks, -, -⟩ := advance_eq_some h
  obtain ⟨hlt, rfl⟩ := List.getElem?_eq_some_iff.mp hget
  rw [handed, htasks, List.map_set, handed]
  apply List.ext_getElem?
  intro i
  rw [List.getElem?_set]
  split
  · rename_i hij
    subst hij
    simp [hlt]
  · rfl

/-! ## At most so many, and none far ahead -/

theorem holding_le (w : Window ρ size) : w.tasks.countP Task.holds ≤ size := by
  have hbalanced := w.balanced
  omega

theorem running_le (w : Window ρ size) : w.running ≤ size := by
  apply le_trans _ w.holding_le
  apply List.countP_mono_left
  intro t _ ht
  have hphase : t.phase = .running := of_decide_eq_true ht
  simp [Task.holds, hphase]

variable [DecidableEq ρ]

/-- Each request is handed to one task and its call begins once; fewer than
`size` of the requests handed before it have not begun before it. -/
structure Ordered (w : Window ρ size) : Prop where
  handed_nodup : w.handed.Nodup
  begun_nodup : w.begun.Nodup
  begun_iff : ∀ t ∈ w.tasks, t.request ∈ w.begun ↔ t.phase ≠ .spawned
  begun_handed : ∀ r ∈ w.begun, r ∈ w.handed
  overtaken : ∀ r ∈ w.begun,
    ((earlier w.handed r).filter fun x => x ∉ earlier w.begun r).length < size

theorem ordered_empty : (empty size : Window ρ size).Ordered where
  handed_nodup := List.nodup_nil
  begun_nodup := List.nodup_nil
  begun_iff := fun _ h => absurd h List.not_mem_nil
  begun_handed := fun _ h => absurd h List.not_mem_nil
  overtaken := fun _ h => absurd h List.not_mem_nil

theorem Ordered.spawn (hw : w.Ordered) (hr : r ∉ w.handed) (h : w.spawn r = some w') : w'.Ordered := by
  obtain ⟨htasks, hbegun⟩ := spawn_eq_some h
  have hhanded := handed_spawn h
  have hfresh : r ∉ w.begun := fun hmem => hr (hw.begun_handed r hmem)
  constructor
  · rw [hhanded, ← List.concat_eq_append]
    exact hw.handed_nodup.concat hr
  · rw [hbegun]
    exact hw.begun_nodup
  · intro t ht
    rw [htasks, List.mem_append, List.mem_singleton] at ht
    rw [hbegun]
    cases ht with
    | inl ht => exact hw.begun_iff t ht
    | inr ht =>
      subst ht
      simp [hfresh]
  · intro x hx
    rw [hbegun] at hx
    rw [hhanded]
    exact List.mem_append_left _ (hw.begun_handed x hx)
  · intro x hx
    rw [hbegun] at hx ⊢
    rw [hhanded, earlier_append (hw.begun_handed x hx)]
    exact hw.overtaken x hx

/-- The requests that wait for their calls to begin hold permits. -/
theorem Ordered.waiting_le (hw : w.Ordered) :
    (w.handed.filter fun x => x ∉ w.begun).length ≤ size := by
  rw [← List.countP_eq_length_filter, handed, List.countP_map]
  apply le_trans _ w.holding_le
  apply List.countP_mono_left
  intro t ht hwaits
  have hnot : t.request ∉ w.begun := of_decide_eq_true hwaits
  have hspawned : t.phase = .spawned := by
    by_contra hphase
    exact hnot ((hw.begun_iff t ht).mpr hphase)
  simp [Task.holds, hspawned]

theorem Ordered.request_ne (hw : w.Ordered) {i : ℕ} {t u : Task ρ} (hi : w.tasks[i]? = some u)
    (hj : w.tasks[j]? = some t) (hij : i ≠ j) : u.request ≠ t.request := by
  intro heq
  have hui : w.handed[i]? = some u.request := by rw [handed, List.getElem?_map, hi, Option.map_some]
  have htj : w.handed[j]? = some t.request := by rw [handed, List.getElem?_map, hj, Option.map_some]
  have hlt : i < w.handed.length := (List.getElem?_eq_some_iff.mp hui).choose
  apply hij
  apply (List.getElem?_inj hlt hw.handed_nodup).mp
  rw [hui, htj, heq]

theorem Ordered.advance (hw : w.Ordered) (h : w.advance j = some w') : w'.Ordered := by
  obtain ⟨t, p, hget, htasks, hp, hcase⟩ := advance_eq_some h
  have hhanded := handed_advance h
  have ht : t ∈ w.tasks := List.mem_of_getElem? hget
  have hrequest : t.request ∈ w.handed := List.mem_map_of_mem ht
  have hold : ∀ u ∈ w'.tasks, u = ⟨t.request, p⟩ ∨ u ∈ w.tasks ∧ u.request ≠ t.request := by
    intro u hu
    obtain ⟨i, hi⟩ := List.mem_iff_getElem?.mp hu
    rw [htasks, List.getElem?_set] at hi
    split at hi
    · rename_i hij
      split at hi
      · exact .inl (Option.some.inj hi).symm
      · cases hi
    · rename_i hij
      exact .inr ⟨List.mem_of_getElem? hi, hw.request_ne hi hget (Ne.symm hij)⟩
  rcases hcase with ⟨hphase, hbegun⟩ | ⟨hphase, hbegun⟩
  · have hfresh : t.request ∉ w.begun := fun hmem => (hw.begun_iff t ht).mp hmem hphase
    constructor
    · rw [hhanded]
      exact hw.handed_nodup
    · rw [hbegun, ← List.concat_eq_append]
      exact hw.begun_nodup.concat hfresh
    · intro u hu
      rw [hbegun, List.mem_append, List.mem_singleton]
      rcases hold u hu with rfl | ⟨hu, hne⟩
      · exact iff_of_true (.inr rfl) hp
      · rw [or_iff_left hne]
        exact hw.begun_iff u hu
    · intro r hr
      rw [hhanded]
      rw [hbegun, List.mem_append, List.mem_singleton] at hr
      cases hr with
      | inl hr => exact hw.begun_handed r hr
      | inr hr => exact hr ▸ hrequest
    · intro r hr
      rw [hhanded, hbegun]
      rw [hbegun, List.mem_append, List.mem_singleton] at hr
      by_cases heq : r = t.request
      · -- Everything handed before it that has not begun holds a permit, as it does itself.
        subst heq
        rw [earlier_concat hfresh]
        have hwaits : decide (t.request ∉ w.begun) = true := decide_eq_true hfresh
        have hlt := length_filter_earlier_lt hrequest (p := fun x => x ∉ w.begun) hwaits
        exact lt_of_lt_of_le hlt hw.waiting_le
      · have hmem := hr.resolve_right heq
        rw [earlier_append hmem]
        exact hw.overtaken r hmem
  · constructor
    · rw [hhanded]
      exact hw.handed_nodup
    · rw [hbegun]
      exact hw.begun_nodup
    · intro u hu
      rw [hbegun]
      rcases hold u hu with rfl | ⟨hu, -⟩
      · exact iff_of_true ((hw.begun_iff t ht).mpr hphase) hp
      · exact hw.begun_iff u hu
    · rw [hbegun, hhanded]
      exact hw.begun_handed
    · rw [hbegun, hhanded]
      exact hw.overtaken

end Window

end ModelForge.PermitWindow
