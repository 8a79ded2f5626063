import Mathlib

set_option autoImplicit false

/-!
# Reservations against a limit

An account spends by reserving first: an open reservation holds its estimate
until it is settled for at most that estimate, or cancelled.
-/
namespace ModelForge.Escrow

/-- What has been spent, and the reservations still open. -/
structure Book (ι α : Type) where
  used : α
  pending : Finset ι

variable {ι α : Type}

section Held
variable [DecidableEq ι] [AddCommGroup α]

/-- The sum of what the open reservations hold. -/
def held (estimate : ι → α) (pending : Finset ι) : α := ∑ i ∈ pending, estimate i

theorem held_insert (estimate : ι → α) {pending : Finset ι} {i : ι} (h : i ∉ pending) :
    held estimate (insert i pending) = held estimate pending + estimate i := by
  rw [held, Finset.sum_insert h, add_comm]
  rfl

theorem held_erase (estimate : ι → α) {pending : Finset ι} {i : ι} (h : i ∈ pending) :
    held estimate (pending.erase i) = held estimate pending - estimate i :=
  eq_sub_of_add_eq (Finset.sum_erase_add pending estimate h)

end Held

section Order
variable [AddCommGroup α] [PartialOrder α] [IsOrderedAddMonoid α]

theorem held_nonneg {estimate : ι → α} (nonneg : ∀ i, 0 ≤ estimate i) (pending : Finset ι) :
    0 ≤ held estimate pending :=
  Finset.sum_nonneg fun i _ => nonneg i

theorem le_held {estimate : ι → α} (nonneg : ∀ i, 0 ≤ estimate i) {pending : Finset ι} {i : ι}
    (h : i ∈ pending) : estimate i ≤ held estimate pending :=
  Finset.single_le_sum (fun j _ => nonneg j) h

end Order

section Moves
variable [DecidableEq ι] [AddCommGroup α] [PartialOrder α]

/-- What an account may do: open a reservation that still fits, settle an open
one for at most its estimate, or cancel it. -/
inductive Move (estimate : ι → α) (limit : α) : Book ι α → Book ι α → Prop where
  | grant (b : Book ι α) (i : ι) (closed : i ∉ b.pending)
      (fits : b.used + held estimate b.pending + estimate i ≤ limit) :
      Move estimate limit b ⟨b.used, insert i b.pending⟩
  | settle (b : Book ι α) (i : ι) (x : α) (opened : i ∈ b.pending) (bounded : x ≤ estimate i) :
      Move estimate limit b ⟨b.used + x, b.pending.erase i⟩
  | cancel (b : Book ι α) (i : ι) (opened : i ∈ b.pending) (nonneg : 0 ≤ estimate i) :
      Move estimate limit b ⟨b.used, b.pending.erase i⟩

def Within (estimate : ι → α) (limit : α) (b : Book ι α) : Prop :=
  b.used + held estimate b.pending ≤ limit

variable [IsOrderedAddMonoid α]

theorem Move.within {estimate : ι → α} {limit : α} {b b' : Book ι α}
    (h : Move estimate limit b b') (hb : Within estimate limit b) : Within estimate limit b' := by
  unfold Within at hb ⊢
  cases h with
  | grant i closed fits =>
    rw [held_insert estimate closed, ← add_assoc]
    exact fits
  | settle i x opened bounded =>
    rw [held_erase estimate opened]
    calc
      b.used + x + (held estimate b.pending - estimate i) =
          b.used + held estimate b.pending + (x - estimate i) := by abel
      _ ≤ b.used + held estimate b.pending :=
        add_le_of_nonpos_right (sub_nonpos.mpr bounded)
      _ ≤ limit := hb
  | cancel i opened nonneg =>
    rw [held_erase estimate opened]
    calc
      b.used + (held estimate b.pending - estimate i) ≤ b.used + held estimate b.pending :=
        add_le_add_right (sub_le_self _ nonneg) b.used
      _ ≤ limit := hb

theorem within_of_moves {estimate : ι → α} {limit : α} {b b' : Book ι α}
    (h : Relation.ReflTransGen (Move estimate limit) b b') (hb : Within estimate limit b) :
    Within estimate limit b' := by
  induction h with
  | refl => exact hb
  | tail _ hmove ih => exact hmove.within ih

end Moves

end ModelForge.Escrow
