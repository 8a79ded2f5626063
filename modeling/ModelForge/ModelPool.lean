import ModelForge.KeyedMap

set_option autoImplicit false

/-!
# The inference engine's model pool

The Rust `ModelPool`: loading with LRU eviction, unloading, and generation calls
that hold a handle of a resident model. Each section under the lock of `models`
and each update of an atomic counter is one step.
-/
namespace ModelForge.ModelPool

inductive EngineError where
  | ModelNotFound (message : String)
  | ModelUnavailable (message : String)
  | Oom (message : String)
  | InvalidArgument (message : String)
  | Internal (message : String)
  deriving DecidableEq, Repr

/-- A resident model; no two share their `arc`, which stands for the `Arc` that
the handles hold. -/
structure ResidentModel where
  model_id : String
  arc : ℕ
  ram_used_mb : ℕ
  last_used_at : ℕ
  active_requests : ℤ
  deriving DecidableEq, Repr

/-- What the file system says of the weights: whether the probe finds a GGUF
file, and its length where its metadata can be read. -/
structure Weights where
  real : Bool
  len : Option ℕ
  deriving DecidableEq, Repr

/-- What a `load_model` call does next: read the RAM in use, pick a victim,
unload it, or load the weights and insert. -/
inductive LoadPc where
  | measure
  | pick (used : ℕ)
  | unload (victim : String)
  | insert
  | returned (result : Except EngineError ℕ)

structure LoadCall where
  model_id : String
  weights : Weights
  pc : LoadPc

/-- Where a `generate_stream` call is: it holds its handle from `obtained` on,
and `refused` is what follows a closed semaphore. -/
inductive CallPc where
  | obtained (arc : ℕ)
  | touched (arc : ℕ)
  | queued (arc : ℕ)
  | generating (arc : ℕ)
  | refused (arc : ℕ)
  | returned
  deriving DecidableEq, Repr

structure GenerateCall where
  model_id : String
  pc : CallPc
  deriving DecidableEq, Repr

structure Pool where
  models : KeyedMap String ResidentModel
  loads : List LoadCall
  calls : List GenerateCall
  arcs : ℕ

def Pool.new : Pool := ⟨.empty, [], [], 0⟩

namespace Pool

def setLoad (p : Pool) (l : ℕ) (pc : LoadPc) : Pool :=
  { p with loads := p.loads.modify l fun load => { load with pc := pc } }

def setCall (p : Pool) (c : ℕ) (pc : CallPc) : Pool :=
  { p with calls := p.calls.modify c fun call => { call with pc := pc } }

/-- Acts on what the handle's `Arc` holds, where the pool still has it. -/
def update (p : Pool) (model_id : String) (arc : ℕ) (f : ResidentModel → ResidentModel) : Pool :=
  { p with models := p.models.update model_id fun m => if m.arc = arc then f m else m }

end Pool

def used_ram_mb (p : Pool) : ℕ := p.models.total ResidentModel.ram_used_mb

def estimate_ram_mb : Option ℕ → ℕ
  | some len => max (len / (1024 * 1024)) 64
  | none => 512

def Weights.ram (w : Weights) : ℕ := if w.real then estimate_ram_mb w.len else 64

/-! ## Eviction and unloading -/

def idle (m : ResidentModel) : Bool := m.active_requests = 0

/-- The least recently used idle model, the first of them in iteration order. -/
def pick_victim (p : Pool) : Option String :=
  ((p.models.values.filter idle).argmin ResidentModel.last_used_at).map ResidentModel.model_id

/-- What `min_by_key` may pick, whatever the iteration order of the map. -/
def MayPick (p : Pool) : Option String → Prop
  | none => ∀ m ∈ p.models.values, idle m = false
  | some victim => ∃ m ∈ p.models.values, idle m = true ∧ m.model_id = victim ∧
      ∀ other ∈ p.models.values, idle other = true → m.last_used_at ≤ other.last_used_at

instance (p : Pool) (victim : Option String) : Decidable (MayPick p victim) := by
  cases victim <;> unfold MayPick <;> infer_instance

def unload_model (p : Pool) (model_id : String) : Except EngineError Pool :=
  match p.models.get? model_id with
  | none => .error (.ModelNotFound model_id)
  | some m =>
    if 0 < m.active_requests then .error (.ModelUnavailable "model has active requests")
    else .ok { p with models := p.models.delete model_id }

def oom (budget needed_mb used : ℕ) : EngineError :=
  .Oom ("need " ++ toString needed_mb ++ "MB, used " ++ toString used ++ "MB, budget " ++
    toString budget ++ "MB, no idle models to evict")

/-- The loop of `evict_until`, for at most `fuel` rounds. -/
def evict_until (budget needed_mb : ℕ) : ℕ → Pool → Option (Pool × Except EngineError Unit)
  | 0, _ => none
  | fuel + 1, p =>
    let used := used_ram_mb p
    if used + needed_mb ≤ budget then some (p, .ok ())
    else
      match pick_victim p with
      | some id =>
        match unload_model p id with
        | .ok q => evict_until budget needed_mb fuel q
        | .error e => some (p, .error e)
      | none => some (p, .error (oom budget needed_mb used))

/-! ## Loading -/

/-- `load_model` up to and with its residency check. -/
def load_model (p : Pool) (model_id : String) (w : Weights) : Pool :=
  let pc : LoadPc :=
    if model_id = "" then .returned (.error (.InvalidArgument "model_id required"))
    else
      match p.models.get? model_id with
      | some m => .returned (.ok m.ram_used_mb)
      | none => .measure
  { p with loads := p.loads ++ [⟨model_id, w, pc⟩] }

def insert_model (p : Pool) (model_id : String) (ram now : ℕ) : Pool :=
  { p with
    models := p.models.set model_id ⟨model_id, p.arcs, ram, now, 0⟩
    arcs := p.arcs + 1 }

inductive LoadInput where
  | measure
  | pick (victim : Option String)
  | unload
  | insert (now : ℕ)
  | backendFails (error : EngineError)
  deriving DecidableEq, Repr

def resumeLoad (budget : ℕ) (p : Pool) (l : ℕ) (load : LoadCall) : LoadInput → Option Pool
  | .measure =>
    match load.pc with
    | .measure =>
      let used := used_ram_mb p
      some (p.setLoad l (if used + load.weights.ram ≤ budget then .insert else .pick used))
    | _ => none
  | .pick victim =>
    match load.pc with
    | .pick used =>
      if MayPick p victim then
        match victim with
        | some id => some (p.setLoad l (.unload id))
        | none => some (p.setLoad l (.returned (.error (oom budget load.weights.ram used))))
      else none
    | _ => none
  | .unload =>
    match load.pc with
    | .unload victim =>
      match unload_model p victim with
      | .ok q => some (q.setLoad l .measure)
      | .error e => some (p.setLoad l (.returned (.error e)))
    | _ => none
  | .insert now =>
    match load.pc with
    | .insert =>
      some ((insert_model p load.model_id load.weights.ram now).setLoad l
        (.returned (.ok load.weights.ram)))
    | _ => none
  | .backendFails error =>
    match load.pc with
    | .insert => if load.weights.real then some (p.setLoad l (.returned (.error error))) else none
    | _ => none

/-! ## Generating -/

/-- `generate_stream` up to and with `ensure_loaded`. -/
def generate_stream (p : Pool) (model_id : String) : Pool :=
  let pc : CallPc :=
    match p.models.get? model_id with
    | some m => .obtained m.arc
    | none => .returned
  { p with calls := p.calls ++ [⟨model_id, pc⟩] }

def begin_request (m : ResidentModel) : ResidentModel :=
  { m with active_requests := m.active_requests + 1 }

def end_request (m : ResidentModel) : ResidentModel :=
  { m with active_requests := m.active_requests - 1 }

inductive CallInput where
  | touch (now : ℕ)
  | beginRequest
  | permit (acquired : Bool)
  | generated
  | errorSent
  deriving DecidableEq, Repr

def resumeCall (p : Pool) (c : ℕ) (call : GenerateCall) : CallInput → Option Pool
  | .touch now =>
    match call.pc with
    | .obtained arc =>
      some ((p.update call.model_id arc fun m => { m with last_used_at := now }).setCall c
        (.touched arc))
    | _ => none
  | .beginRequest =>
    match call.pc with
    | .touched arc => some ((p.update call.model_id arc begin_request).setCall c (.queued arc))
    | _ => none
  | .permit acquired =>
    match call.pc with
    | .queued arc =>
      if acquired then some (p.setCall c (.generating arc))
      else some ((p.update call.model_id arc end_request).setCall c (.refused arc))
    | _ => none
  | .generated =>
    match call.pc with
    | .generating arc => some ((p.update call.model_id arc end_request).setCall c .returned)
    | _ => none
  | .errorSent =>
    match call.pc with
    | .refused _ => some (p.setCall c .returned)
    | _ => none

/-! ## The interleavings -/

inductive Event where
  | load (model_id : String) (w : Weights)
  | loadStep (l : ℕ) (input : LoadInput)
  | unload (model_id : String)
  | generate (model_id : String)
  | callStep (c : ℕ) (input : CallInput)
  deriving DecidableEq, Repr

def step (budget : ℕ) (p : Pool) : Event → Option Pool
  | .load model_id w => some (load_model p model_id w)
  | .loadStep l input => (p.loads[l]?).bind fun load => resumeLoad budget p l load input
  | .unload model_id =>
    match unload_model p model_id with
    | .ok q => some q
    | .error _ => some p
  | .generate model_id => some (generate_stream p model_id)
  | .callStep c input => (p.calls[c]?).bind fun call => resumeCall p c call input

end ModelForge.ModelPool
