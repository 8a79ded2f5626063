import ModelForge.RunInvariant

set_option autoImplicit false

/-!
# The registry status of one model

What `loadModel`, `unloadModel` and the exit handler of the gateway's pool do to
one model: to its instance in the pool, and to the status of its `HostedModel`
row. A status write is issued, takes effect at any later moment, and returns
after that.
-/
namespace ModelForge.RegistryStatus
open RunInvariant

inductive ModelStatus where
  | INACTIVE
  | LOADED
  | ERROR
  deriving DecidableEq, Repr

/-- What the load that holds the model's lock awaits; `starting` lasts until the
child process is spawned. -/
inductive LoadPc where
  | starting
  | health
  | registry (status : ModelStatus) (applied : Bool)
  | settled
  deriving DecidableEq, Repr

inductive UnloadPc where
  | exiting
  | registry (applied : Bool)
  | returned
  deriving DecidableEq, Repr

/-- The write that an exit handler leaves behind. -/
inductive ExitPc where
  | registry (applied : Bool)
  | returned
  deriving DecidableEq, Repr

/-- `inst` is the child of the model's instance in the pool, and `load` the
load in `modelLoadLocks`. -/
structure State where
  inst : Option ℕ
  spawned : ℕ
  row : ModelStatus
  load : Option LoadPc
  unloads : List UnloadPc
  exits : List ExitPc
  completed : ℕ
  deriving DecidableEq, Repr

def State.boot (row : ModelStatus) : State := ⟨none, 0, row, none, [], [], 0⟩

/-! ## The operations, from one await to the next -/

def loadModel (s : State) (binaryExists : Bool) : State :=
  match s.load with
  | some _ => s
  | none =>
    if s.inst.isSome ∨ ¬ binaryExists then { s with load := some .settled, completed := s.completed + 1 }
    else { s with load := some .starting }

/-- The weights are missing, the eviction fails, or there is no free port. -/
def refuse (s : State) : Option State :=
  match s.load with
  | some .starting => some { s with load := some .settled, completed := s.completed + 1 }
  | _ => none

def spawn (s : State) : Option State :=
  match s.load with
  | some .starting =>
    some { s with inst := some s.spawned, spawned := s.spawned + 1, load := some .health }
  | _ => none

def healthAnswers (s : State) (ready : Bool) : Option State :=
  match s.load with
  | some .health =>
    if ready then some { s with load := some (.registry .LOADED false) }
    else some { s with inst := none, load := some (.registry .ERROR false) }
  | _ => none

def loadWritten (s : State) : Option State :=
  match s.load with
  | some (.registry status false) => some { s with row := status, load := some (.registry status true) }
  | _ => none

def loadReturned (s : State) : Option State :=
  match s.load with
  | some (.registry _ true) => some { s with load := some .settled, completed := s.completed + 1 }
  | _ => none

/-- The `finally` of the lock. -/
def unlock (s : State) : Option State :=
  match s.load with
  | some .settled => some { s with load := none }
  | _ => none

def unloadModel (s : State) : State :=
  match s.inst with
  | none => { s with unloads := s.unloads ++ [.registry false] }
  | some _ => { s with inst := none, unloads := s.unloads ++ [.exiting] }

/-- The child has exited, or five seconds have passed. -/
def unloadStopped (s : State) (u : ℕ) : Option State :=
  match s.unloads[u]? with
  | some .exiting => some { s with unloads := s.unloads.set u (.registry false) }
  | _ => none

def unloadWritten (s : State) (u : ℕ) : Option State :=
  match s.unloads[u]? with
  | some (.registry false) =>
    some { s with row := .INACTIVE, unloads := s.unloads.set u (.registry true) }
  | _ => none

def unloadReturned (s : State) (u : ℕ) : Option State :=
  match s.unloads[u]? with
  | some (.registry true) =>
    some { s with unloads := s.unloads.set u .returned, completed := s.completed + 1 }
  | _ => none

/-- The `exit` handler of a child. -/
def childExit (s : State) (child : ℕ) : State :=
  if s.inst = some child then { s with inst := none, exits := s.exits ++ [.registry false] } else s

def exitWritten (s : State) (x : ℕ) : Option State :=
  match s.exits[x]? with
  | some (.registry false) => some { s with row := .ERROR, exits := s.exits.set x (.registry true) }
  | _ => none

def exitReturned (s : State) (x : ℕ) : Option State :=
  match s.exits[x]? with
  | some (.registry true) =>
    some { s with exits := s.exits.set x .returned, completed := s.completed + 1 }
  | _ => none

inductive Event where
  | loadModel (binaryExists : Bool)
  | refuse
  | spawn
  | healthAnswers (ready : Bool)
  | loadWritten
  | loadReturned
  | unlock
  | unloadModel
  | unloadStopped (u : ℕ)
  | unloadWritten (u : ℕ)
  | unloadReturned (u : ℕ)
  | childExit (child : ℕ)
  | exitWritten (x : ℕ)
  | exitReturned (x : ℕ)
  deriving DecidableEq, Repr

def step (s : State) : Event → Option State
  | .loadModel binaryExists => some (RegistryStatus.loadModel s binaryExists)
  | .refuse => RegistryStatus.refuse s
  | .spawn => RegistryStatus.spawn s
  | .healthAnswers ready => RegistryStatus.healthAnswers s ready
  | .loadWritten => RegistryStatus.loadWritten s
  | .loadReturned => RegistryStatus.loadReturned s
  | .unlock => RegistryStatus.unlock s
  | .unloadModel => some (RegistryStatus.unloadModel s)
  | .unloadStopped u => RegistryStatus.unloadStopped s u
  | .unloadWritten u => RegistryStatus.unloadWritten s u
  | .unloadReturned u => RegistryStatus.unloadReturned s u
  | .childExit child => some (RegistryStatus.childExit s child)
  | .exitWritten x => RegistryStatus.exitWritten s x
  | .exitReturned x => RegistryStatus.exitReturned s x

/-! ## The status and the instance -/

def Agrees (row : ModelStatus) (inst : Option ℕ) : Prop := row = .LOADED ↔ inst.isSome = true

instance (row : ModelStatus) (inst : Option ℕ) : Decidable (Agrees row inst) :=
  inferInstanceAs (Decidable (_ ↔ _))

/-- No operation is in flight and no write is pending. -/
def Quiet (s : State) : Prop :=
  (s.load = none ∨ s.load = some .settled) ∧ (∀ u ∈ s.unloads, u = .returned) ∧
    ∀ x ∈ s.exits, x = .returned

instance (s : State) : Decidable (Quiet s) := inferInstanceAs (Decidable (_ ∧ _))

def StatusTracks (s : State) : Prop := Quiet s → 0 < s.completed → Agrees s.row s.inst

instance (s : State) : Decidable (StatusTracks s) := inferInstanceAs (Decidable (_ → _))

/-- An operation in flight has still to write what the pool says: the load of
the instance that is there, or whoever took away or missed the one that is not. -/
def Owed (s : State) : Prop :=
  if s.inst.isSome then s.load = some .health ∨ s.load = some (.registry .LOADED false)
  else s.load = some (.registry .ERROR false) ∨ .exiting ∈ s.unloads ∨ .registry false ∈ s.unloads ∨
    .registry false ∈ s.exits

instance (s : State) : Decidable (Owed s) := by
  unfold Owed
  infer_instance

/-- The status in the row once the step has written it, or has ended a load that
writes none. -/
def leaves (s : State) : Event → Option ModelStatus
  | .loadModel binaryExists =>
    if s.load = none ∧ s.inst = none ∧ ¬ binaryExists then some s.row else none
  | .refuse => some s.row
  | .loadWritten =>
    match s.load with
    | some (.registry status _) => some status
    | _ => none
  | .unloadWritten _ => some .INACTIVE
  | .exitWritten _ => some .ERROR
  | _ => none

/-- What the step leaves in the row agrees with the pool, or the operation that
the pool's present state comes from has still to write. -/
def InOrder (s : State) (e : Event) : Prop :=
  ∀ status ∈ leaves s e, Agrees status s.inst ∨ Owed s

instance (s : State) (e : Event) : Decidable (InOrder s e) :=
  inferInstanceAs (Decidable (∀ status ∈ leaves s e, _))

/-! ## What the steps keep -/

def Settling (s : State) : Prop := Agrees s.row s.inst ∨ Owed s

/-- Nothing has happened yet but a load that has not spawned its child. -/
structure Untouched (s : State) : Prop where
  inst : s.inst = none
  completed : s.completed = 0
  load : s.load = none ∨ s.load = some .starting
  unloads : s.unloads = []
  exits : s.exits = []

variable {s t : State}

theorem mem_set_of_ne {α : Type} {l : List α} {i : ℕ} {x y z : α} (hi : l[i]? = some y) (hx : x ∈ l)
    (hne : x ≠ y) : x ∈ l.set i z := by
  obtain ⟨j, hj⟩ := List.mem_iff_getElem?.mp hx
  refine List.mem_iff_getElem?.mpr ⟨j, ?_⟩
  rw [List.getElem?_set_ne, hj]
  rintro rfl
  exact hne (Option.some.inj (hj.symm.trans hi))

theorem statusTracks_of_settling (h : Settling s ∨ Untouched s) : StatusTracks s := by
  rintro ⟨hload, hunloads, hexits⟩ hcompleted
  rcases h with (hagrees | howed) | huntouched
  · exact hagrees
  · unfold Owed at howed
    split at howed
    · rcases hload with hload | hload <;> rw [hload] at howed <;> simp at howed
    · rcases howed with howed | howed | howed | howed
      · rcases hload with hload | hload <;> rw [hload] at howed <;> cases howed
      · cases hunloads _ howed
      · cases hunloads _ howed
      · cases hexits _ howed
  · rw [huntouched.completed] at hcompleted
    exact absurd hcompleted (Nat.lt_irrefl 0)

/-- A step that changes neither the row nor the instance, and after which every
write that was owed is owed. -/
theorem Settling.carry (h : Settling s) (hrow : t.row = s.row) (hinst : t.inst = s.inst)
    (howed : Owed s → Owed t) : Settling t := by
  rcases h with hagrees | h
  · exact .inl (by rw [hrow, hinst]; exact hagrees)
  · exact .inr (howed h)

theorem owed_of_inst {c : ℕ} (hinst : s.inst = some c) :
    Owed s ↔ s.load = some .health ∨ s.load = some (.registry .LOADED false) := by
  rw [Owed, hinst]
  exact Iff.rfl

theorem owed_of_none (hinst : s.inst = none) :
    Owed s ↔ s.load = some (.registry .ERROR false) ∨ .exiting ∈ s.unloads ∨
      .registry false ∈ s.unloads ∨ .registry false ∈ s.exits := by
  rw [Owed, hinst]
  exact Iff.rfl

/-- While the instance is there, only the load owes a write. -/
theorem owed_of_load {c : ℕ} (hs : s.inst = some c) (hinst : t.inst = s.inst) (hload : t.load = s.load)
    (h : Owed s) : Owed t := by
  rw [owed_of_inst (hinst.trans hs), hload]
  exact (owed_of_inst hs).mp h

/-- A load that is not waiting for its child or its write owes nothing. -/
theorem owed_carry (hinst : t.inst = s.inst) (hunloads : t.unloads = s.unloads) (hexits : t.exits = s.exits)
    (hload : ∀ pc, s.load = some pc → pc = .health ∨ pc = .registry .LOADED false ∨
      pc = .registry .ERROR false → t.load = s.load ∨ pc = .health ∧ t.load = some (.registry .LOADED false)) :
    Owed s → Owed t := by
  intro howed
  cases hs : s.inst with
  | none =>
    rw [owed_of_none hs] at howed
    rw [owed_of_none (hinst.trans hs), hunloads, hexits]
    rcases howed with howed | hrest
    · rcases hload _ howed (.inr (.inr rfl)) with hsame | ⟨hpc, -⟩
      · exact .inl (hsame.trans howed)
      · cases hpc
    · exact .inr hrest
  | some c =>
    rw [owed_of_inst hs] at howed
    rw [owed_of_inst (hinst.trans hs)]
    rcases howed with howed | howed
    · rcases hload _ howed (.inl rfl) with hsame | ⟨-, hnext⟩
      · exact .inl (hsame.trans howed)
      · exact .inr hnext
    · rcases hload _ howed (.inr (.inl rfl)) with hsame | ⟨hpc, -⟩
      · exact .inr (hsame.trans howed)
      · cases hpc

/-- Wherever a load that owes nothing goes on to. -/
theorem owed_of_idle {pc : LoadPc} (hload : s.load = some pc)
    (hidle : pc ≠ .health ∧ pc ≠ .registry .LOADED false ∧ pc ≠ .registry .ERROR false)
    (hinst : t.inst = s.inst) (hunloads : t.unloads = s.unloads) (hexits : t.exits = s.exits) :
    Owed s → Owed t := by
  refine owed_carry hinst hunloads hexits fun owing hpc howing => ?_
  obtain rfl := Option.some.inj (hload.symm.trans hpc)
  rcases howing with hpc | hpc | hpc
  · exact absurd hpc hidle.1
  · exact absurd hpc hidle.2.1
  · exact absurd hpc hidle.2.2

/-- A write that takes effect in order. -/
theorem Settling.written {status : ModelStatus} (h : Agrees status s.inst ∨ Owed s) (hrow : t.row = status)
    (hinst : t.inst = s.inst) (howed : ¬ Agrees status s.inst → Owed s → Owed t) : Settling t := by
  by_cases hagrees : Agrees status s.inst
  · exact .inl (by rw [hrow, hinst]; exact hagrees)
  · exact .inr (howed hagrees (h.resolve_left hagrees))

theorem inst_of_not_agrees {status : ModelStatus} (hstatus : status ≠ .LOADED)
    (h : ¬ Agrees status s.inst) : ∃ c, s.inst = some c := by
  cases hinst : s.inst with
  | none => exact absurd (by simp [Agrees, hinst, hstatus]) h
  | some c => exact ⟨c, rfl⟩

/-- An unload or an exit writes its status: while the instance is there, only the
load owes a write, and without one the status agrees. -/
theorem Settling.stopped {status : ModelStatus} (hstatus : status ≠ .LOADED)
    (h : Agrees status s.inst ∨ Owed s) (hrow : t.row = status) (hinst : t.inst = s.inst)
    (hload : t.load = s.load) : Settling t := by
  refine Settling.written h hrow hinst fun hagrees howed => ?_
  obtain ⟨c, hc⟩ := inst_of_not_agrees hstatus hagrees
  exact owed_of_load hc hinst hload howed

/-- A step of an unload or of an exit that writes nothing. -/
theorem Settling.continued (h : Settling s) (hrow : t.row = s.row) (hinst : t.inst = s.inst)
    (hload : t.load = s.load) (howed : s.inst = none → t.inst = none → Owed s → Owed t) :
    Settling t := by
  refine h.carry hrow hinst fun hs => ?_
  cases hc : s.inst with
  | some c => exact owed_of_load hc hinst hload hs
  | none => exact howed hc (hinst.trans hc) hs

theorem loadModel_keeps {binaryExists : Bool} (hs : Settling s ∨ Untouched s)
    (hc : InOrder s (.loadModel binaryExists)) :
    Settling (loadModel s binaryExists) ∨ Untouched (loadModel s binaryExists) := by
  cases hload : s.load with
  | some pc =>
    simp only [loadModel, hload]
    exact hs
  | none =>
    have howed : ∀ pc completed, Owed s → Owed { s with load := some pc, completed := completed } :=
      fun pc completed => owed_carry rfl rfl rfl fun _ h => by cases hload.symm.trans h
    by_cases hends : s.inst.isSome ∨ ¬ binaryExists
    · have hsettling : Settling s := hs.elim id fun huntouched => by
        have hgives : ¬ binaryExists = true := hends.resolve_left (by simp [huntouched.inst])
        exact hc s.row (if_pos ⟨hload, huntouched.inst, hgives⟩)
      simp only [loadModel, hload, if_pos hends]
      exact .inl (hsettling.carry rfl rfl (howed _ _))
    · simp only [loadModel, hload, if_neg hends]
      refine hs.imp (fun h => h.carry rfl rfl (howed _ _)) fun h => ?_
      exact ⟨h.inst, h.completed, .inr rfl, h.unloads, h.exits⟩

theorem Untouched.load_ne (h : Untouched s) {pc : LoadPc} (hload : s.load = some pc)
    (hne : pc ≠ .starting) : False := by
  rcases h.load with hnone | hstarting
  · cases hnone.symm.trans hload
  · exact hne (Option.some.inj (hload.symm.trans hstarting))

/-- The steps of a load that holds the lock. -/
theorem loadStep_keeps {e : Event} (hs : Settling s ∨ Untouched s) (hc : InOrder s e)
    (he : e ∈ [.refuse, .spawn, .healthAnswers true, .healthAnswers false, .loadWritten, .loadReturned, .unlock])
    (h : step s e = some t) : Settling t ∨ Untouched t := by
  simp only [List.mem_cons, List.not_mem_nil, or_false] at he
  rcases he with rfl | rfl | rfl | rfl | rfl | rfl | rfl
  · simp only [step, refuse] at h
    split at h
    · rename_i hload
      obtain rfl := Option.some.inj h
      have hsettling : Settling s := hc s.row rfl
      exact .inl (hsettling.carry rfl rfl (owed_of_idle hload ⟨nofun, nofun, nofun⟩ rfl rfl rfl))
    · cases h
  · simp only [step, spawn] at h
    split at h
    · obtain rfl := Option.some.inj h
      exact .inl (.inr ((owed_of_inst rfl).mpr (.inl rfl)))
    · cases h
  · simp only [step, healthAnswers] at h
    split at h
    · rename_i hload
      obtain rfl := Option.some.inj h
      refine .inl (Settling.carry (hs.resolve_right fun hu => hu.load_ne hload nofun) rfl rfl
        (owed_carry rfl rfl rfl fun pc hpc _ => ?_))
      exact .inr ⟨Option.some.inj (hpc.symm.trans hload), rfl⟩
    · cases h
  · simp only [step, healthAnswers] at h
    split at h
    · obtain rfl := Option.some.inj h
      exact .inl (.inr ((owed_of_none rfl).mpr (.inl rfl)))
    · cases h
  · simp only [step, loadWritten] at h
    split at h
    · rename_i status hload
      obtain rfl := Option.some.inj h
      have hleaves : Agrees status s.inst ∨ Owed s := hc status (by simp [leaves, hload])
      refine .inl (Settling.written hleaves rfl rfl fun hagrees howed => ?_)
      cases hinst : s.inst with
      | none =>
        rw [owed_of_none hinst, hload] at howed
        rw [owed_of_none rfl]
        rcases howed with howed | hrest
        · cases howed
          exact absurd (by simp [Agrees, hinst]) hagrees
        · exact .inr hrest
      | some c =>
        rw [owed_of_inst hinst, hload] at howed
        rcases howed with howed | howed <;> cases howed
        exact absurd (by simp [Agrees, hinst]) hagrees
    · cases h
  · simp only [step, loadReturned] at h
    split at h
    · rename_i status hload
      obtain rfl := Option.some.inj h
      have hsettling := hs.resolve_right fun hu => hu.load_ne hload nofun
      exact .inl (hsettling.carry rfl rfl (owed_of_idle hload ⟨nofun, nofun, nofun⟩ rfl rfl rfl))
    · cases h
  · simp only [step, unlock] at h
    split at h
    · rename_i hload
      obtain rfl := Option.some.inj h
      have hsettling := hs.resolve_right fun hu => hu.load_ne hload nofun
      exact .inl (hsettling.carry rfl rfl (owed_of_idle hload ⟨nofun, nofun, nofun⟩ rfl rfl rfl))
    · cases h

theorem unloadModel_settling (s : State) : Settling (unloadModel s) := by
  refine .inr ?_
  cases hinst : s.inst with
  | none =>
    simp only [unloadModel, hinst]
    exact (owed_of_none rfl).mpr (.inr (.inr (.inl (by simp))))
  | some c =>
    simp only [unloadModel, hinst]
    exact (owed_of_none rfl).mpr (.inr (.inl (by simp)))

theorem unloadStep_keeps (u : ℕ) {e : Event} (hs : Settling s ∨ Untouched s) (hc : InOrder s e)
    (he : e ∈ [.unloadStopped u, .unloadWritten u, .unloadReturned u]) (h : step s e = some t) :
    Settling t := by
  have hsettling : ∀ {pc}, s.unloads[u]? = some pc → Settling s := fun hu =>
    hs.resolve_right fun huntouched => by
      rw [huntouched.unloads] at hu
      cases hu
  simp only [List.mem_cons, List.not_mem_nil, or_false] at he
  rcases he with rfl | rfl | rfl
  · simp only [step, unloadStopped] at h
    split at h
    · rename_i hu
      obtain rfl := Option.some.inj h
      refine (hsettling hu).continued rfl rfl rfl fun _ hinst _ => ?_
      refine (owed_of_none hinst).mpr (.inr (.inr (.inl ?_)))
      exact List.mem_set (List.getElem?_eq_some_iff.mp hu).1 _
    · cases h
  · simp only [step, unloadWritten] at h
    split at h
    · rename_i hu
      obtain rfl := Option.some.inj h
      exact Settling.stopped (by decide) (hc .INACTIVE rfl) rfl rfl rfl
    · cases h
  · simp only [step, unloadReturned] at h
    split at h
    · rename_i hu
      obtain rfl := Option.some.inj h
      refine (hsettling hu).continued rfl rfl rfl fun hs hinst howed => ?_
      refine (owed_of_none hinst).mpr (((owed_of_none hs).mp howed).imp_right ?_)
      exact Or.imp (mem_set_of_ne hu · nofun) (Or.imp_left (mem_set_of_ne hu · nofun))
    · cases h

theorem exitStep_keeps (x : ℕ) {e : Event} (hs : Settling s ∨ Untouched s) (hc : InOrder s e)
    (he : e ∈ [.exitWritten x, .exitReturned x]) (h : step s e = some t) : Settling t := by
  simp only [List.mem_cons, List.not_mem_nil, or_false] at he
  rcases he with rfl | rfl
  · simp only [step, exitWritten] at h
    split at h
    · obtain rfl := Option.some.inj h
      exact Settling.stopped (by decide) (hc .ERROR rfl) rfl rfl rfl
    · cases h
  · simp only [step, exitReturned] at h
    split at h
    · rename_i hx
      obtain rfl := Option.some.inj h
      have hsettling : Settling s := hs.resolve_right fun huntouched => by
        rw [huntouched.exits] at hx
        cases hx
      refine hsettling.continued rfl rfl rfl fun hs hinst howed => ?_
      refine (owed_of_none hinst).mpr (((owed_of_none hs).mp howed).imp_right ?_)
      exact Or.imp_right (Or.imp_right (mem_set_of_ne hx · nofun))
    · cases h

theorem childExit_keeps (hs : Settling s ∨ Untouched s) (child : ℕ) :
    Settling (childExit s child) ∨ Untouched (childExit s child) := by
  unfold childExit
  split
  · exact .inl (.inr ((owed_of_none rfl).mpr (.inr (.inr (.inr (by simp))))))
  · exact hs

theorem step_keeps {e : Event} (hs : Settling s ∨ Untouched s) (hc : InOrder s e) (h : step s e = some t) :
    Settling t ∨ Untouched t := by
  cases e with
  | loadModel binaryExists =>
    obtain rfl := Option.some.inj h
    exact loadModel_keeps hs hc
  | healthAnswers ready => cases ready <;> exact loadStep_keeps hs hc (by simp) h
  | unloadModel =>
    obtain rfl := Option.some.inj h
    exact .inl (unloadModel_settling s)
  | childExit child =>
    obtain rfl := Option.some.inj h
    exact childExit_keeps hs child
  | unloadStopped u => exact .inl (unloadStep_keeps u hs hc (by simp) h)
  | unloadWritten u => exact .inl (unloadStep_keeps u hs hc (by simp) h)
  | unloadReturned u => exact .inl (unloadStep_keeps u hs hc (by simp) h)
  | exitWritten x => exact .inl (exitStep_keeps x hs hc (by simp) h)
  | exitReturned x => exact .inl (exitStep_keeps x hs hc (by simp) h)
  | _ => exact loadStep_keeps hs hc (by simp) h

/-- Where every status write takes effect in order, the status tracks the pool. -/
theorem status_tracks {row : ModelStatus} {events : List Event}
    (h : EveryStep step (fun s e _ => InOrder s e) (.boot row) events) :
    EveryStep step (fun _ _ t => StatusTracks t) (.boot row) events := by
  refine everyStep_guarded (fun s => Settling s ∨ Untouched s) _ _ ?_ ?_ h
  · intro s e t hs ht hc
    have hnext := step_keeps hs hc ht
    exact ⟨statusTracks_of_settling hnext, hnext⟩
  · exact .inr ⟨rfl, rfl, .inl rfl, rfl, rfl⟩

/-- A load and an unload, one after the other. -/
theorem status_tracks_of_load_and_unload :
    EveryStep step (fun _ _ t => StatusTracks t) (.boot .INACTIVE)
      [.loadModel true, .spawn, .healthAnswers true, .loadWritten, .loadReturned, .unlock, .unloadModel,
        .unloadStopped 0, .unloadWritten 0, .unloadReturned 0] :=
  status_tracks (by decide)

/-- The child exits while the `LOADED` write is on its way, and that write takes
effect last. -/
theorem loaded_without_instance :
    ¬ EveryStep step (fun _ _ t => StatusTracks t) (.boot .INACTIVE)
      [.loadModel true, .spawn, .healthAnswers true, .childExit 0, .exitWritten 0, .exitReturned 0,
        .loadWritten, .loadReturned] := by
  decide

end ModelForge.RegistryStatus
