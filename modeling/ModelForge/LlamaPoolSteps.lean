import ModelForge.LlamaPool
import ModelForge.Participants

set_option autoImplicit false

/-!
# The steps of the pool

What each step of the llama-server pool can do, once and for all: `step_move`
splits a step by its effect, and the simp lemmas say what each effect leaves.
-/
namespace ModelForge.LlamaPoolSteps
open LlamaPool Participants

variable {cfg : Config} {p q : Pool}

/-- The need of a load whose budget check has passed and which has not yet put
its instance into the pool. -/
def passedNeed : LoadPc → Option ℕ
  | .port needMb => some needMb
  | _ => none

/-- The load has not come to put its instance into the pool. -/
def beforeInsert : LoadPc → Bool
  | .stat | .reservations _ | .evicting _ _ _ | .port _ => true
  | _ => false

def unlocked : LoadPc → Bool
  | .unlocked _ => true
  | _ => false

def evicting : LoadPc → Bool
  | .evicting _ _ _ => true
  | _ => false

def insertsAt : LoadPc → LoadInput → Bool
  | .port _, .port (some _) _ => true
  | _, _ => false

/-- The load whose instance the event puts into the pool. -/
def inserts (p : Pool) : Event → Option ℕ
  | .loadStep l input => (p.loads[l]?).bind fun load => if insertsAt load.pc input then some l else none
  | _ => none

/-- A load goes on to await something else and touches no instance: where it
comes to have passed its budget check, the check was made in this step. -/
structure Waits (cfg : Config) (p : Pool) (pc next : LoadPc) : Prop where
  before : beforeInsert next = true → beforeInsert pc = true
  locked : unlocked pc = false ∧ unlocked next = false
  notEvicting : evicting next = false
  checked : ∀ needMb, next = .port needMb →
    passedNeed pc = none ∧ usedRamMb p + needMb ≤ cfg.totalRamBudgetMb

/-- The candidates that the loop is at, with the slugs it read: the list is
computed when the reservations come, and carried from then on. -/
def ListedBy (cfg : Config) (p : Pool) (pc : LoadPc) (input : LoadInput) (needMb : ℕ)
    (slugs candidates : List String) : Prop :=
  pc = .evicting needMb slugs candidates ∧ input = .unloaded ∨
    pc = .reservations needMb ∧ input = .reservations slugs ∧
      candidates = evictionCandidates cfg p slugs

inductive LoadMove (cfg : Config) (p : Pool) (l : ℕ) (load : Load) : LoadInput → Pool → Prop where
  | wait {input : LoadInput} {next : LoadPc} (hin : insertsAt load.pc input = false)
      (h : Waits cfg p load.pc next) : LoadMove cfg p l load input (p.setLoad l next)
  | evict {input : LoadInput} {needMb : ℕ} {slugs : List String} {candidate : String}
      {rest : List String} (hfull : cfg.totalRamBudgetMb < usedRamMb p + needMb)
      (h : ListedBy cfg p load.pc input needMb slugs (candidate :: rest)) :
      LoadMove cfg p l load input ((unloadModel p candidate).setLoad l (.evicting needMb slugs rest))
  | failed {ramMb port : ℕ} {error : EngineError} (h : load.pc = .health ramMb port) :
      LoadMove cfg p l load (.health (some error))
        ((unloadModel p load.req.model_id).setLoad l (.registry (.rejected error)))
  | insert {ramMb : ℕ} (port now : ℕ) (h : load.pc = .port ramMb) :
      LoadMove cfg p l load (.port (some port) now)
        ((insertInstance p load.req.model_id ramMb port now).setLoad l (.health ramMb port))
  | unlock {answer : Answer} (locks : KeyedMap String ℕ) (h : load.pc = .settled answer)
      (hlocks : locks = if p.modelLoadLocks.get? load.req.model_id = some l then
        p.modelLoadLocks.delete load.req.model_id else p.modelLoadLocks) :
      LoadMove cfg p l load .unlock { p.setLoad l (.unlocked answer) with modelLoadLocks := locks }

/-- A load that is past its insertion only waits. -/
theorem LoadMove.waitAfter {l : ℕ} {load : Load} {input : LoadInput} {next : LoadPc}
    (hin : insertsAt load.pc input = false) (hpc : unlocked load.pc = false)
    (hnext : beforeInsert next = false) (hnl : unlocked next = false) :
    LoadMove cfg p l load input (p.setLoad l next) := by
  refine .wait hin ⟨fun hb => ?_, ⟨hpc, hnl⟩, ?_, ?_⟩
  · rw [hnext] at hb
    cases hb
  · cases next <;> first | rfl | cases hnext
  · rintro needMb rfl
    cases hnext

theorem LoadMove.waitChecked {l : ℕ} {load : Load} {input : LoadInput} {needMb : ℕ}
    (hpc : beforeInsert load.pc = true) (hnone : passedNeed load.pc = none)
    (hfits : usedRamMb p + needMb ≤ cfg.totalRamBudgetMb) :
    LoadMove cfg p l load input (p.setLoad l (.port needMb)) := by
  refine .wait ?_ ⟨fun _ => hpc, ⟨?_, rfl⟩, rfl, fun need hneed => ?_⟩
  · cases hload : load.pc <;> first | rfl | (rw [hload] at hnone; cases hnone)
  · cases hload : load.pc <;> first | rfl | (rw [hload] at hpc; cases hpc)
  · obtain rfl := LoadPc.port.inj hneed
    exact ⟨hnone, hfits⟩

theorem evictLoop_move {l needMb : ℕ} {load : Load} {input : LoadInput}
    {slugs candidates : List String} (h : ListedBy cfg p load.pc input needMb slugs candidates) :
    LoadMove cfg p l load input (evictLoop cfg p l needMb slugs candidates) := by
  have hbefore : insertsAt load.pc input = false ∧ beforeInsert load.pc = true ∧
      unlocked load.pc = false ∧ passedNeed load.pc = none := by
    rcases h with ⟨h, rfl⟩ | ⟨h, rfl, -⟩ <;> rw [h] <;> exact ⟨rfl, rfl, rfl, rfl⟩
  obtain ⟨hin, hpc, hl, hnone⟩ := hbefore
  cases candidates with
  | nil =>
    simp only [evictLoop]
    split
    · exact .waitAfter hin hl rfl rfl
    · rename_i hfits
      exact .waitChecked hpc hnone (Nat.not_lt.mp hfits)
  | cons candidate rest =>
    simp only [evictLoop]
    split
    · rename_i hfits
      exact .waitChecked hpc hnone hfits
    · rename_i hfull
      exact .evict (Nat.not_le.mp hfull) h

theorem resumeLoad_move {l : ℕ} {load : Load} {input : LoadInput}
    (h : resumeLoad cfg p l load input = some q) : LoadMove cfg p l load input q := by
  cases input with
  | stat size =>
    simp only [resumeLoad] at h
    split at h
    · rename_i hat
      obtain rfl := Option.some.inj h
      exact .waitAfter (hat ▸ rfl) (hat ▸ rfl) rfl rfl
    · rename_i hat
      obtain rfl := Option.some.inj h
      unfold evictForBudget
      split
      · rename_i hfits
        exact .waitChecked (hat ▸ rfl) (hat ▸ rfl) hfits
      · exact .wait (hat ▸ rfl) ⟨fun _ => hat ▸ rfl, ⟨hat ▸ rfl, rfl⟩, rfl, by rintro _ ⟨⟩⟩
    · cases h
  | reservations slugs =>
    simp only [resumeLoad] at h
    split at h
    · rename_i hat
      obtain rfl := Option.some.inj h
      exact evictLoop_move (.inr ⟨hat, rfl, rfl⟩)
    · cases h
  | unloaded =>
    simp only [resumeLoad] at h
    split at h
    · rename_i hat
      obtain rfl := Option.some.inj h
      exact evictLoop_move (.inl ⟨hat, rfl⟩)
    · cases h
  | port found now =>
    simp only [resumeLoad] at h
    split at h
    · rename_i hat
      obtain rfl := Option.some.inj h
      exact .insert _ now hat
    · rename_i hat
      obtain rfl := Option.some.inj h
      exact .waitAfter (hat ▸ rfl) (hat ▸ rfl) rfl rfl
    · cases h
  | health failure =>
    simp only [resumeLoad] at h
    split at h
    · rename_i hat
      obtain rfl := Option.some.inj h
      exact .waitAfter (hat ▸ rfl) (hat ▸ rfl) rfl rfl
    · rename_i hat
      obtain rfl := Option.some.inj h
      exact .failed hat
    · cases h
  | registry =>
    simp only [resumeLoad] at h
    split at h
    · rename_i hat
      obtain rfl := Option.some.inj h
      exact .waitAfter (hat ▸ rfl) (hat ▸ rfl) rfl rfl
    · cases h
  | unlock =>
    simp only [resumeLoad] at h
    split at h
    · rename_i answer hat
      have hmove : LoadMove cfg p l load .unlock _ := .unlock _ hat rfl
      by_cases hown : p.modelLoadLocks.get? load.req.model_id = some l
      · rw [if_pos hown] at hmove
        rw [if_pos (by exact hown)] at h
        obtain rfl := Option.some.inj h
        exact hmove
      · rw [if_neg hown] at hmove
        rw [if_neg (by exact hown)] at h
        obtain rfl := Option.some.inj h
        exact hmove
    · cases h

def generating : RequestPc → Option ℕ
  | .generating child => some child
  | _ => none

/-- The instance object that a request has got from the pool. -/
def holds : RequestPc → Option ℕ
  | .ready child | .generating child => some child
  | _ => none

/-- What a request comes to hold is the pool's instance of its model. -/
def HoldsOwn (p : Pool) (model_id : String) (pc : RequestPc) : Prop :=
  ∀ child, holds pc = some child → ∃ i, p.instances.get? model_id = some i ∧ i.child = child

inductive RequestMove (cfg : Config) (p : Pool) (r : ℕ) (request : Request) :
    RequestInput → Pool → Prop where
  | wait {input : RequestInput} {next : RequestPc} (h : generating request.pc = none)
      (hnext : generating next = none) (hown : HoldsOwn p request.model_id next) :
      RequestMove cfg p r request input (p.setRequest r next)
  | loads {input : RequestInput} (req : LoadRequest) (h : request.pc = .hosted) :
      RequestMove cfg p r request input
        ((loadModel cfg p req).1.setRequest r (.loading (loadModel cfg p req).2))
  | begins {child : ℕ} (now : ℕ) (h : request.pc = .ready child) :
      RequestMove cfg p r request (.ready true now)
        ((p.touch request.model_id child fun i =>
          { i with activeRequests := i.activeRequests + 1, lastUsedAt := now }).setRequest r
            (.generating child))
  | finishes {child : ℕ} (now : ℕ) (h : request.pc = .generating child) :
      RequestMove cfg p r request (.finish now)
        ((p.touch request.model_id child fun i =>
          { i with activeRequests := i.activeRequests - 1, lastUsedAt := now }).setRequest r .ended)

theorem beginRequest_waits (cfg : Config) (p : Pool) (model_id : String) :
    generating (beginRequest cfg p model_id) = none ∧
      HoldsOwn p model_id (beginRequest cfg p model_id) := by
  unfold beginRequest
  split
  · rename_i existing hexisting
    exact ⟨rfl, fun child hchild => ⟨existing, hexisting, Option.some.inj hchild⟩⟩
  · split <;> exact ⟨rfl, nofun⟩

theorem resumeRequest_move {r : ℕ} {request : Request} {input : RequestInput}
    (h : resumeRequest cfg p r request input = some q) : RequestMove cfg p r request input q := by
  cases input with
  | hosted row =>
    simp only [resumeRequest] at h
    split at h
    · rename_i hat
      obtain rfl := Option.some.inj h
      exact .wait (hat ▸ rfl) rfl nofun
    · rename_i hat
      obtain rfl := Option.some.inj h
      exact .loads _ hat
    · cases h
  | loaded =>
    simp only [resumeRequest] at h
    split at h
    · rename_i hat
      have hgen : generating request.pc = none := hat ▸ rfl
      split at h
      · cases h
      · obtain rfl := Option.some.inj h
        exact .wait hgen rfl nofun
      · split at h
        · obtain rfl := Option.some.inj h
          exact .wait hgen rfl nofun
        · rename_i loaded hloaded
          obtain rfl := Option.some.inj h
          exact .wait hgen rfl fun child hchild => ⟨loaded, hloaded, Option.some.inj hchild⟩
    · cases h
  | ready ok now =>
    simp only [resumeRequest] at h
    split at h
    · rename_i hat
      split at h
      · rename_i hok
        subst hok
        obtain rfl := Option.some.inj h
        exact .begins now hat
      · obtain rfl := Option.some.inj h
        exact .wait (hat ▸ rfl) rfl nofun
    · cases h
  | finish now =>
    simp only [resumeRequest] at h
    split at h
    · rename_i hat
      obtain rfl := Option.some.inj h
      exact .finishes now hat
    · cases h

/-! ## What each effect leaves -/

theorem requests_loadModel (cfg : Config) (p : Pool) (req : LoadRequest) :
    (loadModel cfg p req).1.requests = p.requests := by
  unfold loadModel
  split <;> rfl

theorem loads_setLoad (p : Pool) (l j : ℕ) (pc : LoadPc) :
    (p.setLoad l pc).loads[j]? =
      (p.loads[j]?).map fun load => if l = j then { load with pc := pc } else load := by
  simp only [Pool.setLoad, List.getElem?_modify]
  rfl

theorem load_of_setLoad {l j : ℕ} {pc : LoadPc} {load : Load}
    (h : (p.setLoad l pc).loads[j]? = some load) :
    j = l ∧ (∃ old, p.loads[l]? = some old ∧ load = { old with pc := pc }) ∨
      j ≠ l ∧ p.loads[j]? = some load :=
  get_of_modify h

theorem requests_setRequest (p : Pool) (r j : ℕ) (pc : RequestPc) :
    (p.setRequest r pc).requests[j]? =
      (p.requests[j]?).map fun request => if r = j then { request with pc := pc } else request := by
  simp only [Pool.setRequest, List.getElem?_modify]
  rfl

theorem request_of_setRequest {r j : ℕ} {pc : RequestPc} {request : Request}
    (h : (p.setRequest r pc).requests[j]? = some request) :
    j = r ∧ (∃ old, p.requests[r]? = some old ∧ request = { old with pc := pc }) ∨
      j ≠ r ∧ p.requests[j]? = some request :=
  get_of_modify h

theorem usedRamMb_unload_le (p : Pool) (model_id : String) :
    usedRamMb (unloadModel p model_id) ≤ usedRamMb p := by
  cases hi : p.instances.get? model_id with
  | none => exact (KeyedMap.total_delete_of_absent hi _).le
  | some i => exact (Nat.le_add_right _ _).trans (KeyedMap.total_delete hi _).le

theorem usedRamMb_touch (p : Pool) (model_id : String) (child : ℕ) {f : Instance → Instance}
    (hf : ∀ i, (f i).ramMb = i.ramMb) : usedRamMb (p.touch model_id child f) = usedRamMb p := by
  refine KeyedMap.total_update _ _ fun i => ?_
  by_cases hi : i.child = child <;> simp [hi, hf]

theorem usedRamMb_insert {model_id : String} (h : p.instances.get? model_id = none)
    (ramMb port now : ℕ) :
    usedRamMb (insertInstance p model_id ramMb port now) = usedRamMb p + ramMb :=
  KeyedMap.total_set_of_absent h _ _

theorem get?_touch (p : Pool) (model_id id : String) (child : ℕ) (f : Instance → Instance) :
    (p.touch model_id child f).instances.get? id =
      (p.instances.get? id).map fun i => if id = model_id ∧ i.child = child then f i else i := by
  refine (KeyedMap.get?_update _ _ _ _).trans ?_
  by_cases hid : id = model_id
  · simp [hid]
  · simp [hid]

theorem get?_unload (p : Pool) (model_id id : String) :
    (unloadModel p model_id).instances.get? id =
      if id = model_id then none else p.instances.get? id := KeyedMap.get?_delete _ _ _

theorem childExit_cases (p : Pool) (model_id : String) (child : ℕ) :
    childExit p model_id child = p ∨ childExit p model_id child = unloadModel p model_id := by
  unfold childExit
  split
  · split
    · exact .inr rfl
    · exact .inl rfl
  · exact .inl rfl

end ModelForge.LlamaPoolSteps
