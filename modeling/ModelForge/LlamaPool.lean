import ModelForge.KeyedMap

set_option autoImplicit false

/-!
# The llama-server pool

The gateway's pool of `llama-server` instances: loading with eviction under a
RAM budget, unloading, exits of the child processes, and the generation requests
that hold an instance. Each function runs from one `await` to the next; a call
is kept by what it awaits.
-/
namespace ModelForge.LlamaPool

structure EngineError where
  code : String
  message : String
  deriving DecidableEq, Repr

structure LoadRequest where
  model_id : String
  weights_path : String
  context_length : ℕ
  deriving DecidableEq, Repr

structure Loaded where
  message : String
  ram_used_mb : ℕ
  deriving DecidableEq, Repr

/-- An instance object; no two share the `child` process that they spawned. -/
structure Instance where
  modelId : String
  port : ℕ
  child : ℕ
  ramMb : ℕ
  lastUsedAt : ℕ
  activeRequests : ℕ
  deriving DecidableEq, Repr

/-- `ramMb size context` is `Math.round((size / 1024 ** 2) * 1.1 + context / 8)`,
computed in doubles. -/
structure Config where
  totalRamBudgetMb : ℕ
  protectedModels : String
  llamaAutoLoad : Bool
  serverBinary : String
  serverBinaryExists : Bool
  absoluteWeights : String → String
  ramMb : ℕ → ℕ → ℕ

inductive Answer where
  | resolved (loaded : Loaded)
  | rejected (error : EngineError)
  deriving DecidableEq, Repr

/-- What a `loadModelUnlocked` call awaits. While it evicts it holds the slugs
that it read and the candidates that it has not come to; `port` lasts from the
return of `evictForBudget` to a port that is free. -/
inductive LoadPc where
  | stat
  | reservations (needMb : ℕ)
  | evicting (needMb : ℕ) (reservedSlugs candidates : List String)
  | port (needMb : ℕ)
  | health (ramMb port : ℕ)
  | registry (answer : Answer)
  | settled (answer : Answer)
  | unlocked (answer : Answer)
  deriving DecidableEq, Repr

structure Load where
  req : LoadRequest
  pc : LoadPc
  deriving DecidableEq, Repr

/-- What a `generateStream` call awaits; the instance it holds is named by its
child process. -/
inductive RequestPc where
  | hosted
  | loading (load : ℕ)
  | ready (child : ℕ)
  | generating (child : ℕ)
  | ended
  deriving DecidableEq, Repr

structure Request where
  model_id : String
  pc : RequestPc
  deriving DecidableEq, Repr

structure Pool where
  instances : KeyedMap String Instance
  modelLoadLocks : KeyedMap String ℕ
  loads : List Load
  requests : List Request
  spawned : ℕ
  deriving DecidableEq

def Pool.initial : Pool := ⟨.empty, .empty, [], [], 0⟩

namespace Pool

def setLoad (p : Pool) (l : ℕ) (pc : LoadPc) : Pool :=
  { p with loads := p.loads.modify l fun load => { load with pc := pc } }

def setRequest (p : Pool) (r : ℕ) (pc : RequestPc) : Pool :=
  { p with requests := p.requests.modify r fun request => { request with pc := pc } }

/-- Changes the instance object of this child, if the pool still has it. -/
def touch (p : Pool) (model_id : String) (child : ℕ) (f : Instance → Instance) : Pool :=
  { p with instances := p.instances.update model_id fun i => if i.child = child then f i else i }

end Pool

def usedRamMb (p : Pool) : ℕ := p.instances.total Instance.ramMb

/-- `String.prototype.trim` takes these off both ends. -/
def isWhiteSpace (c : Char) : Bool :=
  [9, 10, 11, 12, 13, 32, 160, 0x1680, 0x2028, 0x2029, 0x202F, 0x205F, 0x3000, 0xFEFF].contains c.toNat ||
    (0x2000 ≤ c.toNat && c.toNat ≤ 0x200A)

def trim (text : List Char) : List Char :=
  ((text.dropWhile isWhiteSpace).reverse.dropWhile isWhiteSpace).reverse

def isModelProtectedFromEviction (cfg : Config) (modelId : String) : Bool :=
  (((cfg.protectedModels.toList.splitOn ',').map trim).filter fun value => value ≠ []).contains
    modelId.toList

/-! ## Loading and unloading -/

/-- `unloadModel` up to its first await. -/
def unloadModel (p : Pool) (model_id : String) : Pool :=
  { p with instances := p.instances.delete model_id }

def oom (cfg : Config) (p : Pool) (needMb : ℕ) : EngineError :=
  ⟨"OOM", "Need " ++ toString needMb ++ " MB but only " ++
    toString ((cfg.totalRamBudgetMb : ℤ) - usedRamMb p) ++ " MB of the " ++
    toString cfg.totalRamBudgetMb ++ " MB budget is free"⟩

/-- `evictForBudget` up to its first await. -/
def evictForBudget (cfg : Config) (p : Pool) (needMb : ℕ) : LoadPc :=
  if usedRamMb p + needMb ≤ cfg.totalRamBudgetMb then .port needMb else .reservations needMb

/-- The idle instances that nothing protects, least recently used first. -/
def evictionCandidates (cfg : Config) (p : Pool) (reservedSlugs : List String) : List String :=
  ((p.instances.values.filter fun i =>
      i.activeRequests = 0 ∧ ¬ isModelProtectedFromEviction cfg i.modelId ∧
        i.modelId ∉ reservedSlugs).insertionSort
    fun a b => a.lastUsedAt ≤ b.lastUsedAt).map Instance.modelId

/-- The eviction loop up to its next await. -/
def evictLoop (cfg : Config) (p : Pool) (l needMb : ℕ) (reservedSlugs : List String) :
    List String → Pool
  | [] =>
    if cfg.totalRamBudgetMb < usedRamMb p + needMb then
      p.setLoad l (.settled (.rejected (oom cfg p needMb)))
    else p.setLoad l (.port needMb)
  | candidate :: rest =>
    if usedRamMb p + needMb ≤ cfg.totalRamBudgetMb then p.setLoad l (.port needMb)
    else (unloadModel p candidate).setLoad l (.evicting needMb reservedSlugs rest)

/-- The eviction loop with nothing else running at its awaits. -/
def evictEach (cfg : Config) (needMb : ℕ) : List String → Pool → Pool × Except EngineError Unit
  | [], p =>
    (p, if cfg.totalRamBudgetMb < usedRamMb p + needMb then .error (oom cfg p needMb) else .ok ())
  | candidate :: rest, p =>
    if usedRamMb p + needMb ≤ cfg.totalRamBudgetMb then (p, .ok ())
    else evictEach cfg needMb rest (unloadModel p candidate)

/-- `evictForBudget` with nothing else running at its awaits. -/
def evictAlone (cfg : Config) (p : Pool) (needMb : ℕ) (reservedSlugs : List String) :
    Pool × Except EngineError Unit :=
  if usedRamMb p + needMb ≤ cfg.totalRamBudgetMb then (p, .ok ())
  else evictEach cfg needMb (evictionCandidates cfg p reservedSlugs) p

/-- `loadModelUnlocked` up to its first await. -/
def beginLoad (cfg : Config) (p : Pool) (req : LoadRequest) : LoadPc :=
  match p.instances.get? req.model_id with
  | some existing => .settled (.resolved ⟨"already loaded", existing.ramMb⟩)
  | none =>
    if cfg.serverBinaryExists then .stat
    else .settled (.rejected ⟨"MODEL_UNAVAILABLE",
      "llama-server not found at " ++ cfg.serverBinary ++ ". Run: pnpm llama:fetch"⟩)

/-- Answers with the load whose promise is returned. -/
def loadModel (cfg : Config) (p : Pool) (req : LoadRequest) : Pool × ℕ :=
  match p.modelLoadLocks.get? req.model_id with
  | some existingLock => (p, existingLock)
  | none =>
    ({ p with
        loads := p.loads ++ [⟨req, beginLoad cfg p req⟩]
        modelLoadLocks := p.modelLoadLocks.set req.model_id p.loads.length }, p.loads.length)

def insertInstance (p : Pool) (model_id : String) (ramMb port now : ℕ) : Pool :=
  { p with
    instances := p.instances.set model_id ⟨model_id, port, p.spawned, ramMb, now, 0⟩
    spawned := p.spawned + 1 }

/-- How a load's awaited promise settles. -/
inductive LoadInput where
  | stat (size : Option ℕ)
  | reservations (slugs : List String)
  | unloaded
  | port (found : Option ℕ) (now : ℕ)
  | health (failure : Option EngineError)
  | registry
  | unlock
  deriving DecidableEq, Repr

def resumeLoad (cfg : Config) (p : Pool) (l : ℕ) (load : Load) : LoadInput → Option Pool
  | .stat size =>
    match load.pc, size with
    | .stat, none =>
      some (p.setLoad l (.settled (.rejected ⟨"MODEL_NOT_FOUND",
        "Weights not found: " ++ cfg.absoluteWeights load.req.weights_path⟩)))
    | .stat, some size =>
      some (p.setLoad l (evictForBudget cfg p (cfg.ramMb size load.req.context_length)))
    | _, _ => none
  | .reservations slugs =>
    match load.pc with
    | .reservations needMb =>
      some (evictLoop cfg p l needMb slugs (evictionCandidates cfg p slugs))
    | _ => none
  | .unloaded =>
    match load.pc with
    | .evicting needMb slugs rest => some (evictLoop cfg p l needMb slugs rest)
    | _ => none
  | .port found now =>
    match load.pc, found with
    | .port ramMb, some port =>
      some ((insertInstance p load.req.model_id ramMb port now).setLoad l (.health ramMb port))
    | .port _, none =>
      some (p.setLoad l (.settled (.rejected ⟨"INTERNAL", "No free port for llama-server"⟩)))
    | _, _ => none
  | .health failure =>
    match load.pc, failure with
    | .health ramMb port, none =>
      some (p.setLoad l (.registry (.resolved
        ⟨"listening on 127.0.0.1:" ++ toString port, ramMb⟩)))
    | .health _ _, some error =>
      some ((unloadModel p load.req.model_id).setLoad l (.registry (.rejected error)))
    | _, _ => none
  | .registry =>
    match load.pc with
    | .registry answer => some (p.setLoad l (.settled answer))
    | _ => none
  | .unlock =>
    match load.pc with
    | .settled answer =>
      let p := p.setLoad l (.unlocked answer)
      if p.modelLoadLocks.get? load.req.model_id = some l then
        some { p with modelLoadLocks := p.modelLoadLocks.delete load.req.model_id }
      else some p
    | _ => none

/-- The `exit` handler of a child process. -/
def childExit (p : Pool) (model_id : String) (child : ℕ) : Pool :=
  match p.instances.get? model_id with
  | some i => if i.child = child then unloadModel p model_id else p
  | none => p

/-! ## Generation requests -/

/-- `ensureLoaded` up to its first await. -/
def beginRequest (cfg : Config) (p : Pool) (model_id : String) : RequestPc :=
  match p.instances.get? model_id with
  | some existing => .ready existing.child
  | none => if cfg.llamaAutoLoad then .hosted else .ended

inductive RequestInput where
  | hosted (row : Option LoadRequest)
  | loaded
  | ready (ok : Bool) (now : ℕ)
  | finish (now : ℕ)
  deriving DecidableEq, Repr

def Load.answer? (load : Load) : Option Answer :=
  match load.pc with
  | .settled answer | .unlocked answer => some answer
  | _ => none

def resumeRequest (cfg : Config) (p : Pool) (r : ℕ) (request : Request) :
    RequestInput → Option Pool
  | .hosted row =>
    match request.pc, row with
    | .hosted, none => some (p.setRequest r .ended)
    | .hosted, some req =>
      let (q, load) := loadModel cfg p { req with model_id := request.model_id }
      some (q.setRequest r (.loading load))
    | _, _ => none
  | .loaded =>
    match request.pc with
    | .loading l =>
      match (p.loads[l]?).bind Load.answer? with
      | none => none
      | some (.rejected _) => some (p.setRequest r .ended)
      | some (.resolved _) =>
        match p.instances.get? request.model_id with
        | none => some (p.setRequest r .ended)
        | some loaded => some (p.setRequest r (.ready loaded.child))
    | _ => none
  | .ready ok now =>
    match request.pc with
    | .ready child =>
      if ok then
        some ((p.touch request.model_id child fun i =>
          { i with activeRequests := i.activeRequests + 1, lastUsedAt := now }).setRequest r
            (.generating child))
      else some (p.setRequest r .ended)
    | _ => none
  | .finish now =>
    match request.pc with
    | .generating child =>
      some ((p.touch request.model_id child fun i =>
        { i with activeRequests := i.activeRequests - 1, lastUsedAt := now }).setRequest r .ended)
    | _ => none

/-! ## The interleavings -/

inductive Event where
  | load (req : LoadRequest)
  | loadStep (l : ℕ) (input : LoadInput)
  | unload (model_id : String)
  | childExit (model_id : String) (child : ℕ)
  | generate (model_id : String)
  | requestStep (r : ℕ) (input : RequestInput)
  deriving DecidableEq, Repr

def step (cfg : Config) (p : Pool) : Event → Option Pool
  | .load req => some (loadModel cfg p req).1
  | .loadStep l input => (p.loads[l]?).bind fun load => resumeLoad cfg p l load input
  | .unload model_id => some (unloadModel p model_id)
  | .childExit model_id child => some (childExit p model_id child)
  | .generate model_id =>
    some { p with requests := p.requests ++ [⟨model_id, beginRequest cfg p model_id⟩] }
  | .requestStep r input =>
    (p.requests[r]?).bind fun request => resumeRequest cfg p r request input

/-- A pool of 1000 MB without protected models. -/
def sampleConfig : Config where
  totalRamBudgetMb := 1000
  protectedModels := ""
  llamaAutoLoad := true
  serverBinary := "llama-server"
  serverBinaryExists := true
  absoluteWeights := id
  ramMb := fun size context => (11 * size / 2 ^ 20 + 10 * (context / 8)) / 10

end ModelForge.LlamaPool
