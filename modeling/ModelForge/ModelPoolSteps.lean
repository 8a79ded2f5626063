import ModelForge.ModelPool
import ModelForge.Participants

set_option autoImplicit false

/-!
# The steps of the model pool

What each step of the Rust pool can do, and what each effect leaves as it is.
-/
namespace ModelForge.ModelPoolSteps
open ModelPool Participants

variable {budget : ℕ} {p q : Pool}

def returned : LoadPc → Bool
  | .returned _ => true
  | _ => false

/-- The load has read enough free RAM and has not inserted its model yet. -/
def mayInsert : LoadPc → Bool
  | .insert => true
  | _ => false

/-- The load that inserts its model in the step. -/
def inserts (p : Pool) : Event → Option ℕ
  | .loadStep l (.insert _) => (p.loads[l]?).bind fun load => if mayInsert load.pc then some l else none
  | _ => none

theorem unload_model_ok {model_id : String} (h : unload_model p model_id = .ok q) :
    (∃ m, p.models.get? model_id = some m ∧ m.active_requests ≤ 0) ∧
      q = { p with models := p.models.delete model_id } := by
  unfold unload_model at h
  split at h
  · cases h
  · rename_i m hm
    split at h
    · cases h
    · rename_i hactive
      exact ⟨⟨m, hm, Int.not_lt.mp hactive⟩, (Except.ok.inj h).symm⟩

inductive LoadMove (budget : ℕ) (p : Pool) (l : ℕ) (load : LoadCall) : LoadInput → Pool → Prop where
  | wait {input : LoadInput} {next : LoadPc} (hin : ∀ now, input ≠ .insert now)
      (hpc : returned load.pc = false)
      (hnext : mayInsert next = true → mayInsert load.pc = false ∧
        used_ram_mb p + load.weights.ram ≤ budget) :
      LoadMove budget p l load input (p.setLoad l next)
  | evict {victim : String} (hpc : load.pc = .unload victim) (q : Pool)
      (h : unload_model p victim = .ok q) : LoadMove budget p l load .unload (q.setLoad l .measure)
  | insert (now : ℕ) (hpc : load.pc = .insert) :
      LoadMove budget p l load (.insert now)
        ((insert_model p load.model_id load.weights.ram now).setLoad l
          (.returned (.ok load.weights.ram)))

theorem resumeLoad_move {l : ℕ} {load : LoadCall} {input : LoadInput}
    (h : resumeLoad budget p l load input = some q) : LoadMove budget p l load input q := by
  cases input with
  | measure =>
    simp only [resumeLoad] at h
    split at h
    · rename_i hpc
      obtain rfl := Option.some.inj h
      refine .wait nofun (hpc ▸ rfl) fun hnext => ⟨hpc ▸ rfl, ?_⟩
      split at hnext
      · rename_i hfits
        exact hfits
      · cases hnext
    · cases h
  | pick victim =>
    simp only [resumeLoad] at h
    split at h
    · rename_i hpc
      split at h
      · split at h <;> obtain rfl := Option.some.inj h <;> exact .wait nofun (hpc ▸ rfl) nofun
      · cases h
    · cases h
  | unload =>
    simp only [resumeLoad] at h
    split at h
    · rename_i hpc
      split at h
      · rename_i u hu
        obtain rfl := Option.some.inj h
        exact .evict hpc u hu
      · obtain rfl := Option.some.inj h
        exact .wait nofun (hpc ▸ rfl) nofun
    · cases h
  | insert now =>
    simp only [resumeLoad] at h
    split at h
    · rename_i hpc
      obtain rfl := Option.some.inj h
      exact .insert now hpc
    · cases h
  | backendFails error =>
    simp only [resumeLoad] at h
    split at h
    · rename_i hpc
      split at h
      · obtain rfl := Option.some.inj h
        exact .wait nofun (hpc ▸ rfl) nofun
      · cases h
    · cases h

/-- The handle that a call holds until it returns. -/
def held : CallPc → Option ℕ
  | .obtained arc | .touched arc | .queued arc | .generating arc | .refused arc => some arc
  | .returned => none

/-- The handle whose request a call has begun and not ended. -/
def counted : CallPc → Option ℕ
  | .queued arc | .generating arc => some arc
  | _ => none

def countOf (pc : CallPc) : ℤ := if (counted pc).isSome then 1 else 0

/-- A call goes on with its handle, or returns; what it does to the resident
model keeps the counter in step with its own request. -/
inductive CallMove (p : Pool) (c : ℕ) (call : GenerateCall) : Pool → Prop where
  | quiet {arc : ℕ} {next : CallPc} (hheld : held call.pc = some arc)
      (hnext : ∀ a, held next = some a → a = arc) (hcount : counted next = counted call.pc) :
      CallMove p c call (p.setCall c next)
  | acts {arc : ℕ} {next : CallPc} {f : ResidentModel → ResidentModel}
      (hheld : held call.pc = some arc) (hnext : ∀ a, held next = some a → a = arc)
      (hf : ∀ m, (f m).model_id = m.model_id ∧ (f m).arc = m.arc ∧ (f m).ram_used_mb = m.ram_used_mb)
      (hcount : ∀ m, (f m).active_requests + countOf call.pc = m.active_requests + countOf next) :
      CallMove p c call ((p.update call.model_id arc f).setCall c next)

theorem resumeCall_move {c : ℕ} {call : GenerateCall} {input : CallInput}
    (h : resumeCall p c call input = some q) : CallMove p c call q := by
  have hsame : ∀ {a b : ℕ}, some a = some b → a = b := Option.some.inj
  cases input with
  | touch now =>
    simp only [resumeCall] at h
    split at h
    · rename_i hpc
      obtain rfl := Option.some.inj h
      exact .acts (hpc ▸ rfl) (fun a ha => (hsame ha).symm) (fun _ => ⟨rfl, rfl, rfl⟩)
        fun m => by rw [hpc]; rfl
    · cases h
  | beginRequest =>
    simp only [resumeCall] at h
    split at h
    · rename_i hpc
      obtain rfl := Option.some.inj h
      exact .acts (hpc ▸ rfl) (fun a ha => (hsame ha).symm) (fun _ => ⟨rfl, rfl, rfl⟩)
        fun m => by rw [hpc]; exact Int.add_zero _
    · cases h
  | permit acquired =>
    simp only [resumeCall] at h
    split at h
    · rename_i hpc
      split at h
      · obtain rfl := Option.some.inj h
        exact .quiet (hpc ▸ rfl) (fun a ha => (hsame ha).symm) (hpc ▸ rfl)
      · obtain rfl := Option.some.inj h
        exact .acts (hpc ▸ rfl) (fun a ha => (hsame ha).symm) (fun _ => ⟨rfl, rfl, rfl⟩)
          fun m => by rw [hpc]; simp [end_request, countOf, counted]
    · cases h
  | generated =>
    simp only [resumeCall] at h
    split at h
    · rename_i hpc
      obtain rfl := Option.some.inj h
      exact .acts (hpc ▸ rfl) nofun (fun _ => ⟨rfl, rfl, rfl⟩)
        fun m => by rw [hpc]; simp [end_request, countOf, counted]
    · cases h
  | errorSent =>
    simp only [resumeCall] at h
    split at h
    · rename_i hpc
      obtain rfl := Option.some.inj h
      exact .quiet (by rw [hpc]; rfl) nofun (by rw [hpc]; rfl)
    · cases h

/-! ## What each effect leaves -/

theorem load_of_setLoad {l j : ℕ} {pc : LoadPc} {load : LoadCall}
    (h : (p.setLoad l pc).loads[j]? = some load) :
    j = l ∧ (∃ old, p.loads[l]? = some old ∧ load = { old with pc := pc }) ∨
      j ≠ l ∧ p.loads[j]? = some load :=
  get_of_modify h

theorem call_of_setCall {c j : ℕ} {pc : CallPc} {call : GenerateCall}
    (h : (p.setCall c pc).calls[j]? = some call) :
    j = c ∧ (∃ old, p.calls[c]? = some old ∧ call = { old with pc := pc }) ∨
      j ≠ c ∧ p.calls[j]? = some call :=
  get_of_modify h

theorem used_ram_mb_delete_le (p : Pool) (model_id : String) :
    (p.models.delete model_id).total ResidentModel.ram_used_mb ≤ used_ram_mb p := by
  cases hm : p.models.get? model_id with
  | none => exact (KeyedMap.total_delete_of_absent hm _).le
  | some m => exact (Nat.le_add_right _ _).trans (KeyedMap.total_delete hm _).le

theorem used_ram_mb_update (p : Pool) (model_id : String) (arc : ℕ)
    {f : ResidentModel → ResidentModel} (hf : ∀ m, (f m).ram_used_mb = m.ram_used_mb) :
    used_ram_mb (p.update model_id arc f) = used_ram_mb p := by
  refine KeyedMap.total_update _ _ fun m => ?_
  by_cases hm : m.arc = arc <;> simp [hm, hf]

theorem used_ram_mb_insert {model_id : String} (h : p.models.get? model_id = none) (ram now : ℕ) :
    used_ram_mb (insert_model p model_id ram now) = used_ram_mb p + ram :=
  KeyedMap.total_set_of_absent h _ _

theorem get?_update (p : Pool) (model_id id : String) (arc : ℕ) (f : ResidentModel → ResidentModel) :
    (p.update model_id arc f).models.get? id =
      (p.models.get? id).map fun m => if id = model_id ∧ m.arc = arc then f m else m := by
  refine (KeyedMap.get?_update _ _ _ _).trans ?_
  by_cases hid : id = model_id
  · simp [hid]
  · simp [hid]

end ModelForge.ModelPoolSteps
