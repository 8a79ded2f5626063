import ModelForge.LlamaPoolSteps
import ModelForge.RunInvariant
import ModelForge.HolderCount

set_option autoImplicit false

/-!
# Evicting idle models only

`evictForBudget` computes its candidates once and unloads them one after
another. Each instance's `activeRequests` counts the `generateStream` calls that
generate on it, so a candidate is idle when its turn comes exactly where every
call that has begun on it since the list was computed has ended.
-/
namespace ModelForge.LlamaPoolEviction
open LlamaPool LlamaPoolSteps RunInvariant HolderCount Participants

variable {cfg : Config} {p q : Pool}

/-- The candidate that the loop unloads before it awaits, and the slugs it read. -/
def evictHead (cfg : Config) (p : Pool) (needMb : ℕ) (slugs : List String) :
    List String → Option (String × List String)
  | [] => none
  | candidate :: _ =>
    if usedRamMb p + needMb ≤ cfg.totalRamBudgetMb then none else some (candidate, slugs)

def evicts (cfg : Config) (p : Pool) : Event → Option (String × List String)
  | .loadStep l input =>
    (p.loads[l]?).bind fun load =>
      match load.pc, input with
      | .reservations needMb, .reservations slugs =>
        evictHead cfg p needMb slugs (evictionCandidates cfg p slugs)
      | .evicting needMb slugs rest, .unloaded => evictHead cfg p needMb slugs rest
      | _, _ => none
  | _ => none

/-- What the step evicts has no active request, is not protected and is not
covered by the reservations that were read. -/
def EvictsIdle (cfg : Config) (p : Pool) (e : Event) : Prop :=
  ∀ id slugs i, evicts cfg p e = some (id, slugs) → p.instances.get? id = some i →
    i.activeRequests = 0 ∧ isModelProtectedFromEviction cfg id = false ∧ id ∉ slugs

def Generates (p : Pool) (r child : ℕ) : Prop :=
  (p.requests[r]?).bind (fun request => generating request.pc) = some child

/-- The request that begins to generate in the step. -/
def begun : Event → List ℕ
  | .requestStep r (.ready true _) => [r]
  | _ => []

/-- For each load, the requests begun since its candidates were computed. -/
def observe (_ : Pool) (e : Event) (_ : Pool) (since : ℕ → List ℕ) (l : ℕ) : List ℕ :=
  match e with
  | .loadStep j (.reservations _) => if j = l then [] else since l
  | e => begun e ++ since l

def watched (cfg : Config) : Pool × (ℕ → List ℕ) → Event → Option (Pool × (ℕ → List ℕ)) :=
  observed (step cfg) observe

/-- Every request that has begun on the candidate's instance since the list was
computed has ended when the loop comes to the candidate. -/
def BegunHaveEnded (cfg : Config) (a : Pool × (ℕ → List ℕ)) (e : Event) : Prop :=
  ∀ l id slugs i, e = .loadStep l .unloaded → evicts cfg a.1 e = some (id, slugs) →
    a.1.instances.get? id = some i → ∀ r ∈ a.2 l, ¬ Generates a.1 r i.child

/-! ## Counting the requests of an instance -/

def generatingOn (p : Pool) (child : ℕ) : ℕ :=
  p.requests.countP fun request => generating request.pc = some child

theorem generatingOn_eq_zero {child : ℕ} : generatingOn p child = 0 ↔ ∀ r, ¬ Generates p r child :=
  holders_eq_zero fun request : Request => generating request.pc

theorem generatingOn_setRequest {r : ℕ} {request : Request} (hr : p.requests[r]? = some request)
    (pc : RequestPc) (child : ℕ) :
    generatingOn (p.setRequest r pc) child + (if generating request.pc = some child then 1 else 0) =
      generatingOn p child + if generating pc = some child then 1 else 0 :=
  holders_modify (fun request : Request => generating request.pc) hr _ child

theorem generates_setRequest {r : ℕ} {request : Request} (hr : p.requests[r]? = some request)
    {pc : RequestPc} {j child : ℕ} :
    Generates (p.setRequest r pc) j child ↔
      if r = j then generating pc = some child else Generates p j child := by
  rw [Generates, requests_setRequest]
  by_cases hrj : r = j
  · subst hrj
    simp [hr]
  · simp [hrj, Generates]

/-! ## The invariant -/

/-- What the pool says of its instances and of the requests that hold one. -/
structure CountInv (p : Pool) : Prop where
  named : ∀ {id : String} {i : Instance}, p.instances.get? id = some i → i.modelId = id
  spawned : ∀ {id : String} {i : Instance}, p.instances.get? id = some i → i.child < p.spawned
  unique : ∀ {id id' : String} {i i' : Instance}, p.instances.get? id = some i →
    p.instances.get? id' = some i' → i.child = i'.child → id = id'
  held : ∀ {r child : ℕ} {request : Request}, p.requests[r]? = some request →
    holds request.pc = some child → child < p.spawned
  own : ∀ {r : ℕ} {request : Request} {id : String} {i : Instance},
    p.requests[r]? = some request → p.instances.get? id = some i →
      holds request.pc = some i.child → id = request.model_id
  counted : ∀ {id : String} {i : Instance}, p.instances.get? id = some i →
    i.activeRequests = generatingOn p i.child

theorem initial_countInv : CountInv .initial := by
  constructor <;> intros <;> contradiction

/-- The instances are as they were or fewer. -/
theorem CountInv.frame (hp : CountInv p) (hrequests : q.requests = p.requests)
    (hspawned : q.spawned = p.spawned)
    (hget : ∀ {id i}, q.instances.get? id = some i → p.instances.get? id = some i) : CountInv q where
  named hi := hp.named (hget hi)
  spawned hi := hspawned ▸ hp.spawned (hget hi)
  unique hi hi' := hp.unique (hget hi) (hget hi')
  held hr hpc := hspawned ▸ hp.held (hrequests ▸ hr) hpc
  own hr hi hpc := hp.own (hrequests ▸ hr) (hget hi) hpc
  counted hi := by
    rw [generatingOn, hrequests]
    exact hp.counted (hget hi)

theorem get?_of_unload {model_id id : String} {i : Instance}
    (h : (unloadModel p model_id).instances.get? id = some i) : p.instances.get? id = some i := by
  rw [get?_unload] at h
  split at h
  · cases h
  · exact h

theorem CountInv.unload (hp : CountInv p) (model_id : String) : CountInv (unloadModel p model_id) :=
  hp.frame rfl rfl get?_of_unload

theorem CountInv.loadModel (hp : CountInv p) (cfg : Config) (req : LoadRequest) :
    CountInv (loadModel cfg p req).1 := by
  unfold LlamaPool.loadModel
  split
  · exact hp
  · exact hp.frame rfl rfl id

/-- A new instance's child is held by no request yet. -/
theorem CountInv.insert (hp : CountInv p) (model_id : String) (ramMb port now : ℕ) :
    CountInv (insertInstance p model_id ramMb port now) := by
  have hget : ∀ {id i}, (insertInstance p model_id ramMb port now).instances.get? id = some i →
      id = model_id ∧ i = ⟨model_id, port, p.spawned, ramMb, now, 0⟩ ∨
        p.instances.get? id = some i := by
    intro id i hi
    rw [insertInstance, KeyedMap.get?_set] at hi
    split at hi
    · rename_i hid
      exact .inl ⟨hid, (Option.some.inj hi).symm⟩
    · exact .inr hi
  refine ⟨?_, ?_, ?_, ?_, ?_, ?_⟩
  · intro id i hi
    rcases hget hi with ⟨rfl, rfl⟩ | hi
    · rfl
    · exact hp.named hi
  · intro id i hi
    rcases hget hi with ⟨-, rfl⟩ | hi
    · exact Nat.lt_succ_self _
    · exact Nat.lt_succ_of_lt (hp.spawned hi)
  · intro id id' i i' hi hi' hchild
    rcases hget hi with ⟨rfl, rfl⟩ | hold <;> rcases hget hi' with ⟨rfl, rfl⟩ | hold'
    · rfl
    · exact absurd hchild.symm (Nat.ne_of_lt (hp.spawned hold'))
    · exact absurd hchild (Nat.ne_of_lt (hp.spawned hold))
    · exact hp.unique hold hold' hchild
  · intro r child request hr hpc
    exact Nat.lt_succ_of_lt (hp.held hr hpc)
  · intro r request id i hr hi hpc
    rcases hget hi with ⟨-, rfl⟩ | hi
    · exact absurd (hp.held hr hpc) (Nat.lt_irrefl _)
    · exact hp.own hr hi hpc
  · intro id i hi
    rcases hget hi with ⟨-, rfl⟩ | hi
    · refine (generatingOn_eq_zero.mpr fun r hr => ?_).symm
      obtain ⟨request, hmem, hgen⟩ := Option.bind_eq_some_iff.mp hr
      have hheld : holds request.pc = some p.spawned := by
        cases hpc : request.pc <;> rw [hpc] at hgen <;> first | exact hgen | cases hgen
      exact absurd (hp.held hmem hheld) (Nat.lt_irrefl _)
    · exact hp.counted hi

theorem CountInv.wait (hp : CountInv p) {r : ℕ} {request : Request}
    (hr : p.requests[r]? = some request) (hgen : generating request.pc = none) {next : RequestPc}
    (hnext : generating next = none) (hown : HoldsOwn p request.model_id next) :
    CountInv (p.setRequest r next) where
  named hi := hp.named hi
  spawned hi := hp.spawned hi
  unique hi hi' := hp.unique hi hi'
  held {j child other} hj hpc := by
    rcases request_of_setRequest hj with ⟨rfl, old, -, rfl⟩ | ⟨-, hold⟩
    · obtain ⟨i, hi, rfl⟩ := hown child hpc
      exact hp.spawned hi
    · exact hp.held hold hpc
  own {j other id i} hj hi hpc := by
    rcases request_of_setRequest hj with ⟨rfl, old, hold, rfl⟩ | ⟨-, hold⟩
    · obtain rfl := Option.some.inj (hr.symm.trans hold)
      obtain ⟨i', hi', hchild⟩ := hown _ hpc
      exact hp.unique hi hi' hchild.symm
    · exact hp.own hold hi hpc
  counted {id i} hi := by
    have hcount := generatingOn_setRequest hr next i.child
    rw [hgen, hnext] at hcount
    exact (hp.counted hi).trans hcount.symm

/-- The instance that a request holds is changed along with the request. -/
theorem CountInv.touched (hp : CountInv p) {r child : ℕ} {request : Request} {next : RequestPc}
    {f : Instance → Instance} (hr : p.requests[r]? = some request)
    (hholds : holds request.pc = some child) (hnext : ∀ c, holds next = some c → c = child)
    (hf : ∀ i, (f i).modelId = i.modelId ∧ (f i).child = i.child)
    (hcount : ∀ i, i.activeRequests = generatingOn p child →
      (f i).activeRequests = generatingOn (p.setRequest r next) child)
    (hothers : ∀ c, c ≠ child → generatingOn (p.setRequest r next) c = generatingOn p c) :
    CountInv ((p.touch request.model_id child f).setRequest r next) := by
  have hget : ∀ {id i}, ((p.touch request.model_id child f).setRequest r next).instances.get? id =
      some i → ∃ old, p.instances.get? id = some old ∧ i.modelId = old.modelId ∧
        i.child = old.child ∧
          (i = if id = request.model_id ∧ old.child = child then f old else old) := by
    intro id i hi
    obtain ⟨old, hold, rfl⟩ := Option.map_eq_some_iff.mp ((get?_touch _ _ _ _ _).symm.trans hi)
    refine ⟨old, hold, ?_, ?_, rfl⟩ <;> split <;> simp [hf]
  refine ⟨?_, ?_, ?_, ?_, ?_, ?_⟩
  · intro id i hi
    obtain ⟨old, hold, hname, -, -⟩ := hget hi
    exact hname.trans (hp.named hold)
  · intro id i hi
    obtain ⟨old, hold, -, hchild, -⟩ := hget hi
    exact hchild ▸ hp.spawned hold
  · intro id id' i i' hi hi' heq
    obtain ⟨old, hold, -, hchild, -⟩ := hget hi
    obtain ⟨old', hold', -, hchild', -⟩ := hget hi'
    exact hp.unique hold hold' (hchild.symm.trans (heq.trans hchild'))
  · intro j c other hj hpc
    rcases request_of_setRequest hj with ⟨rfl, old, -, rfl⟩ | ⟨-, hold⟩
    · obtain rfl := hnext c hpc
      exact hp.held hr hholds
    · exact hp.held hold hpc
  · intro j other id i hj hi hpc
    obtain ⟨before, hbefore, -, hchild, -⟩ := hget hi
    rcases request_of_setRequest hj with ⟨rfl, old, hold, rfl⟩ | ⟨-, hold⟩
    · obtain rfl := Option.some.inj (hr.symm.trans hold)
      have hheld : child = before.child := (hnext _ hpc).symm.trans hchild
      have hid : id = request.model_id := hp.own hr hbefore (hholds.trans (congrArg some hheld))
      exact hid
    · exact hp.own hold hbefore (hchild ▸ hpc)
  · intro id i hi
    obtain ⟨old, hold, -, hchild, hi⟩ := hget hi
    change i.activeRequests = generatingOn (p.setRequest r next) i.child
    rw [hchild, hi]
    by_cases hc : old.child = child
    · have hid : id = request.model_id := hp.own hr hold (hc ▸ hholds)
      rw [if_pos ⟨hid, hc⟩, hc]
      exact hcount old (hc ▸ hp.counted hold)
    · rw [if_neg (fun h => hc h.2), hothers _ hc]
      exact hp.counted hold

theorem CountInv.request (hp : CountInv p) {r : ℕ} {request : Request} {input : RequestInput}
    (hr : p.requests[r]? = some request) (h : RequestMove cfg p r request input q) : CountInv q := by
  cases h with
  | wait hgen hnext hown => exact hp.wait hr hgen hnext hown
  | loads req hpc =>
    exact (hp.loadModel cfg req).wait ((requests_loadModel cfg p req).symm ▸ hr) (hpc ▸ rfl) rfl nofun
  | @begins child now hpc =>
    have hcount := generatingOn_setRequest hr (.generating child)
    rw [hpc] at hcount
    refine hp.touched hr (hpc ▸ rfl) (fun c hc => (Option.some.inj hc).symm)
      (fun _ => ⟨rfl, rfl⟩) ?_ ?_
    · intro i hi
      have := hcount child
      simp only [generating, reduceCtorEq, if_false, if_true] at this
      exact (congrArg (· + 1) hi).trans this.symm
    · intro c hc
      have := hcount c
      simpa [generating, Ne.symm hc] using this
  | @finishes child now hpc =>
    have hcount := generatingOn_setRequest hr .ended
    rw [hpc] at hcount
    refine hp.touched hr (hpc ▸ rfl) nofun (fun _ => ⟨rfl, rfl⟩) ?_ ?_
    · intro i hi
      have := hcount child
      simp only [generating, reduceCtorEq, if_false, if_true] at this
      change i.activeRequests - 1 = _
      omega
    · intro c hc
      have := hcount c
      simpa [generating, Ne.symm hc] using this

theorem request_of_append {j : ℕ} {request new : Request}
    (h : (p.requests ++ [new])[j]? = some request) : p.requests[j]? = some request ∨ request = new :=
  (get_of_concat h).imp_right And.right

theorem CountInv.generate (hp : CountInv p) (cfg : Config) (model_id : String) :
    CountInv { p with requests := p.requests ++ [⟨model_id, beginRequest cfg p model_id⟩] } := by
  obtain ⟨hgen, hown⟩ := beginRequest_waits cfg p model_id
  refine ⟨hp.named, hp.spawned, hp.unique, ?_, ?_, ?_⟩
  · intro j child request hj hpc
    rcases request_of_append hj with hold | rfl
    · exact hp.held hold hpc
    · obtain ⟨i, hi, rfl⟩ := hown child hpc
      exact hp.spawned hi
  · intro j request id i hj hi hpc
    rcases request_of_append hj with hold | rfl
    · exact hp.own hold hi hpc
    · obtain ⟨i', hi', hchild⟩ := hown _ hpc
      exact hp.unique hi hi' hchild.symm
  · intro id i hi
    rw [hp.counted hi, generatingOn, generatingOn, List.countP_append]
    simp [hgen]

theorem CountInv.step (hp : CountInv p) {e : Event} (h : step cfg p e = some q) : CountInv q := by
  cases e with
  | load req =>
    obtain rfl := Option.some.inj h
    exact hp.loadModel cfg req
  | loadStep l input =>
    obtain ⟨load, hl, hresume⟩ := Option.bind_eq_some_iff.mp h
    cases resumeLoad_move hresume with
    | wait _ _ => exact hp.frame rfl rfl id
    | evict _ _ => exact hp.frame rfl rfl get?_of_unload
    | failed _ => exact hp.frame rfl rfl get?_of_unload
    | insert port now _ => exact (hp.insert _ _ port now).frame rfl rfl id
    | unlock _ _ _ => exact hp.frame rfl rfl id
  | unload model_id =>
    obtain rfl := Option.some.inj h
    exact hp.unload model_id
  | childExit model_id child =>
    obtain rfl := Option.some.inj h
    rcases childExit_cases p model_id child with heq | heq <;> rw [heq]
    · exact hp
    · exact hp.unload model_id
  | generate model_id =>
    obtain rfl := Option.some.inj h
    exact hp.generate cfg model_id
  | requestStep r input =>
    obtain ⟨request, hr, hresume⟩ := Option.bind_eq_some_iff.mp h
    exact hp.request hr (resumeRequest_move hresume)

/-- The candidates that a load has still to come to. -/
def Listed (cfg : Config) (p : Pool) (since : List ℕ) : LoadPc → Prop
  | .evicting _ slugs rest => ∀ id ∈ rest, isModelProtectedFromEviction cfg id = false ∧
      id ∉ slugs ∧ ∀ i, p.instances.get? id = some i →
        ∀ r, Generates p r i.child → r ∈ since
  | _ => True

/-! ## The candidates of a load -/

/-- The instances of `q` are those of `p`, and only `new` requests have begun. -/
structure Carries (p q : Pool) (new : List ℕ) : Prop where
  instances : ∀ {id : String} {i : Instance}, q.instances.get? id = some i →
    ∃ old, p.instances.get? id = some old ∧ old.child = i.child
  begun : ∀ {r child : ℕ}, Generates q r child → Generates p r child ∨ r ∈ new

theorem carries_frame (hrequests : q.requests = p.requests)
    (hget : ∀ {id i}, q.instances.get? id = some i → p.instances.get? id = some i) :
    Carries p q [] where
  instances hi := ⟨_, hget hi, rfl⟩
  begun hr := by
    rw [Generates, hrequests] at hr
    exact .inl hr

theorem carries_unload (p : Pool) (model_id : String) : Carries p (unloadModel p model_id) [] :=
  carries_frame rfl get?_of_unload

theorem carries_loadModel (cfg : Config) (p : Pool) (req : LoadRequest) :
    Carries p (loadModel cfg p req).1 [] := by
  unfold loadModel
  split <;> exact carries_frame rfl id

theorem carries_touch (p : Pool) (model_id : String) (child : ℕ) {f : Instance → Instance}
    (hf : ∀ i, (f i).child = i.child) : Carries p (p.touch model_id child f) [] where
  instances hi := by
    rw [get?_touch, Option.map_eq_some_iff] at hi
    obtain ⟨old, hold, rfl⟩ := hi
    refine ⟨old, hold, ?_⟩
    split <;> simp [hf]
  begun hr := .inl hr

theorem carries_generate (cfg : Config) (p : Pool) (model_id : String) :
    Carries p { p with requests := p.requests ++ [⟨model_id, beginRequest cfg p model_id⟩] } [] := by
  refine ⟨fun {_ i} hi => ⟨i, hi, rfl⟩, fun {r child} hr => .inl ?_⟩
  obtain ⟨request, hrequest, hgen⟩ := Option.bind_eq_some_iff.mp hr
  rcases request_of_append hrequest with hold | rfl
  · exact Option.bind_eq_some_iff.mpr ⟨request, hold, hgen⟩
  · rw [(beginRequest_waits cfg p model_id).1] at hgen
    cases hgen

theorem Carries.setRequest {u : Pool} {new : List ℕ} (h : Carries p u []) {r : ℕ} {request : Request}
    (hr : u.requests[r]? = some request) {next : RequestPc}
    (hnext : ∀ child, generating next = some child → r ∈ new) :
    Carries p (u.setRequest r next) new where
  instances hi := h.instances hi
  begun {j child} hj := by
    rw [generates_setRequest hr] at hj
    split at hj
    · rename_i hrj
      exact .inr (hrj ▸ hnext child hj)
    · exact .inl ((h.begun hj).resolve_right nofun)

theorem Listed.carry {since since' new : List ℕ} {pc : LoadPc} (h : Listed cfg p since pc)
    (hpq : Carries p q new) (hnew : ∀ r ∈ new, r ∈ since') (hold : ∀ r ∈ since, r ∈ since') :
    Listed cfg q since' pc := by
  cases pc with
  | evicting needMb slugs rest =>
    intro id hid
    obtain ⟨hprotected, hslugs, hbegun⟩ := h id hid
    refine ⟨hprotected, hslugs, fun i hi r hr => ?_⟩
    obtain ⟨old, hget, hchild⟩ := hpq.instances hi
    rcases hpq.begun hr with hr | hr
    · exact hold r (hbegun old hget r (hchild ▸ hr))
    · exact hnew r hr
  | _ => trivial

/-- No request holds the instance that is put in. -/
theorem Listed.insert (hp : CountInv p) {since : List ℕ} {pc : LoadPc} (h : Listed cfg p since pc)
    (model_id : String) (ramMb port now : ℕ) :
    Listed cfg (insertInstance p model_id ramMb port now) since pc := by
  cases pc with
  | evicting needMb slugs rest =>
    intro id hid
    obtain ⟨hprotected, hslugs, hbegun⟩ := h id hid
    refine ⟨hprotected, hslugs, fun i hi r hr => ?_⟩
    have hcount := (hp.insert model_id ramMb port now).counted hi
    rw [insertInstance, KeyedMap.get?_set] at hi
    split at hi
    · obtain rfl := Option.some.inj hi
      exact absurd hr (generatingOn_eq_zero.mp hcount.symm r)
    · exact hbegun i hi r hr
  | _ => trivial

theorem listed_of_notEvicting {since : List ℕ} {pc : LoadPc} (h : evicting pc = false) :
    Listed cfg p since pc := by
  cases pc <;> trivial

/-- What the list is computed from: idle instances that nothing protects. -/
theorem idle_of_candidate (hp : CountInv p) {slugs : List String} {id : String}
    (h : id ∈ evictionCandidates cfg p slugs) :
    isModelProtectedFromEviction cfg id = false ∧ id ∉ slugs ∧
      ∀ i, p.instances.get? id = some i → i.activeRequests = 0 := by
  obtain ⟨i, hi, rfl⟩ := List.mem_map.mp h
  rw [List.mem_insertionSort, List.mem_filter] at hi
  obtain ⟨hvalue, hidle⟩ := hi
  obtain ⟨hactive, hprotected, hslugs⟩ := of_decide_eq_true hidle
  obtain ⟨id, hget⟩ := KeyedMap.mem_values.mp hvalue
  refine ⟨Bool.eq_false_iff.mpr hprotected, hslugs, fun other hother => ?_⟩
  rw [hp.named hget, hget] at hother
  obtain rfl := Option.some.inj hother
  exact hactive

theorem listed_of_candidates (hp : CountInv p) {needMb : ℕ} {slugs rest : List String}
    (h : ∀ id ∈ rest, id ∈ evictionCandidates cfg p slugs) (notes : List ℕ) :
    Listed cfg p notes (.evicting needMb slugs rest) := by
  intro id hid
  obtain ⟨hprotected, hslugs, hidle⟩ := idle_of_candidate hp (h id hid)
  refine ⟨hprotected, hslugs, fun i hi r hr => ?_⟩
  exact absurd hr (generatingOn_eq_zero.mp ((hp.counted hi).symm.trans (hidle i hi)) r)

structure Inv (cfg : Config) (a : Pool × (ℕ → List ℕ)) : Prop where
  count : CountInv a.1
  listed : ∀ {l : ℕ} {load : Load}, a.1.loads[l]? = some load → Listed cfg a.1 (a.2 l) load.pc

variable {a b : Pool × (ℕ → List ℕ)}

theorem Inv.carry (ha : Inv cfg a) {new : List ℕ} (hpq : Carries a.1 q new)
    {since : ℕ → List ℕ} (hsince : ∀ l, since l = new ++ a.2 l)
    {l : ℕ} {load : Load} (hl : a.1.loads[l]? = some load) : Listed cfg q (since l) load.pc := by
  refine (ha.listed hl).carry hpq (fun r hr => ?_) fun r hr => ?_ <;> rw [hsince]
  · exact List.mem_append_left _ hr
  · exact List.mem_append_right _ hr

theorem load_of_loadModel {req : LoadRequest} {l : ℕ} {load : Load}
    (h : (loadModel cfg p req).1.loads[l]? = some load) :
    p.loads[l]? = some load ∨ evicting load.pc = false := by
  unfold loadModel at h
  split at h
  · exact .inl h
  · rcases get_of_concat h with hold | ⟨-, rfl⟩
    · exact .inl hold
    · refine .inr ?_
      unfold beginLoad
      split
      · rfl
      · split <;> rfl

theorem Inv.loadModel (ha : Inv cfg a) (req : LoadRequest) {u : Pool} {new : List ℕ}
    (hloads : u.loads = (loadModel cfg a.1 req).1.loads) (hu : Carries a.1 u new)
    {since : ℕ → List ℕ} (hsince : ∀ l, since l = new ++ a.2 l)
    {l : ℕ} {load : Load} (hl : u.loads[l]? = some load) : Listed cfg u (since l) load.pc := by
  rw [hloads] at hl
  rcases load_of_loadModel hl with hold | hnew
  · exact ha.carry hu hsince hold
  · exact listed_of_notEvicting hnew

theorem observe_loadStep {p q : Pool} {j l : ℕ} (input : LoadInput) (since : ℕ → List ℕ)
    (h : l ≠ j) : observe p (.loadStep j input) q since l = since l := by
  cases input with
  | reservations slugs => exact if_neg (Ne.symm h)
  | _ => rfl

theorem Inv.loadStep (ha : Inv cfg a) {j : ℕ} {load : Load} {input : LoadInput}
    (hload : a.1.loads[j]? = some load) (h : LoadMove cfg a.1 j load input q)
    {l : ℕ} {load' : Load} (hl : q.loads[l]? = some load') :
    Listed cfg q (observe a.1 (.loadStep j input) q a.2 l) load'.pc := by
  have hothers : ∀ {u : Pool} {next : LoadPc}, u.loads = a.1.loads → Carries a.1 u [] →
      (u.setLoad j next).loads[l]? = some load' → (l = j → Listed cfg (u.setLoad j next)
        (observe a.1 (.loadStep j input) (u.setLoad j next) a.2 j) next) →
      Listed cfg (u.setLoad j next) (observe a.1 (.loadStep j input) (u.setLoad j next) a.2 l)
        load'.pc := by
    intro u next hloads hu hl hself
    rcases load_of_setLoad hl with ⟨rfl, old, -, rfl⟩ | ⟨hne, hold⟩
    · exact hself rfl
    · rw [observe_loadStep _ _ hne]
      rw [hloads] at hold
      have hlisted := (ha.listed hold).carry hu nofun fun _ hr => hr
      exact hlisted
  cases h with
  | wait _ hw =>
    exact hothers rfl (carries_frame rfl id) hl fun _ => listed_of_notEvicting hw.notEvicting
  | @evict _ needMb slugs candidate rest hfull hlist =>
    refine hothers rfl (carries_unload a.1 candidate) hl fun _ => ?_
    rcases hlist with ⟨hpc, rfl⟩ | ⟨hpc, rfl, hcandidates⟩
    · change Listed cfg _ (a.2 j) _
      have hold := ha.listed hload
      rw [hpc] at hold
      have hrest : Listed cfg a.1 (a.2 j) (.evicting needMb slugs rest) := fun id hid =>
        hold id (List.mem_cons_of_mem _ hid)
      have hlisted := hrest.carry (carries_unload a.1 candidate) nofun fun _ hr => hr
      exact hlisted
    · have hrest : Listed cfg a.1 [] (.evicting needMb slugs rest) :=
        listed_of_candidates ha.count (fun id hid => hcandidates ▸ List.mem_cons_of_mem _ hid) []
      have hlisted : Listed cfg (unloadModel a.1 candidate) [] (.evicting needMb slugs rest) :=
        hrest.carry (carries_unload a.1 candidate) nofun nofun
      rw [observe, if_pos rfl]
      exact hlisted
  | failed _ => exact hothers rfl (carries_unload a.1 _) hl fun _ => trivial
  | @insert ramMb port now hpc =>
    rcases load_of_setLoad hl with ⟨rfl, old, -, rfl⟩ | ⟨hne, hold⟩
    · trivial
    · rw [observe_loadStep _ _ hne]
      have hlisted := (ha.listed hold).insert ha.count load.req.model_id ramMb port now
      exact hlisted
  | @unlock answer locks _ _ =>
    rcases load_of_setLoad hl with ⟨rfl, old, -, rfl⟩ | ⟨hne, hold⟩
    · trivial
    · rw [observe_loadStep _ _ hne]
      have hlisted := (ha.listed hold).carry (q := { a.1.setLoad j (.unlocked answer) with
        modelLoadLocks := locks }) (carries_frame rfl id) nofun fun _ hr => hr
      exact hlisted

theorem Inv.request (ha : Inv cfg a) {r : ℕ} {request : Request} {input : RequestInput}
    (hr : a.1.requests[r]? = some request) (h : resumeRequest cfg a.1 r request input = some q)
    {l : ℕ} {load : Load} (hl : q.loads[l]? = some load) :
    Listed cfg q (observe a.1 (.requestStep r input) q a.2 l) load.pc := by
  have hsince : ∀ l, observe a.1 (.requestStep r input) q a.2 l =
      begun (.requestStep r input) ++ a.2 l := fun _ => rfl
  have hquiet : Carries a.1 a.1 [] := carries_frame rfl id
  have hbegun : ∀ {u}, Carries a.1 u [] → Carries a.1 u (begun (.requestStep r input)) := fun hu =>
    ⟨hu.instances, fun hr => .inl ((hu.begun hr).resolve_right nofun)⟩
  cases resumeRequest_move h with
  | wait _ hnext _ =>
    refine ha.carry (hbegun (hquiet.setRequest hr fun child hchild => ?_)) hsince hl
    rw [hnext] at hchild
    cases hchild
  | loads req _ =>
    have hpq : Carries a.1 ((LlamaPool.loadModel cfg a.1 req).1.setRequest r
        (.loading (LlamaPool.loadModel cfg a.1 req).2)) [] :=
      (carries_loadModel cfg a.1 req).setRequest ((requests_loadModel cfg a.1 req).symm ▸ hr) nofun
    refine ha.loadModel req ?_ (hbegun hpq) hsince hl
    rfl
  | @begins child now _ =>
    have htouch : Carries a.1 (a.1.touch request.model_id child fun i =>
        { i with activeRequests := i.activeRequests + 1, lastUsedAt := now }) [] :=
      carries_touch _ _ _ fun _ => rfl
    exact ha.carry (htouch.setRequest hr fun _ _ => List.mem_singleton_self r) hsince hl
  | @finishes child now _ =>
    have htouch : Carries a.1 (a.1.touch request.model_id child fun i =>
        { i with activeRequests := i.activeRequests - 1, lastUsedAt := now }) [] :=
      carries_touch _ _ _ fun _ => rfl
    exact ha.carry (hbegun (htouch.setRequest hr (by rintro _ ⟨⟩))) hsince hl

theorem Inv.step (ha : Inv cfg a) {e : Event} (h : step cfg a.1 e = some q) :
    Inv cfg (q, observe a.1 e q a.2) := by
  refine ⟨ha.count.step h, fun {l load} hl => ?_⟩
  change q.loads[l]? = some load at hl
  change Listed cfg q (observe a.1 e q a.2 l) load.pc
  cases e with
  | load req =>
    obtain rfl := Option.some.inj h
    exact ha.loadModel req rfl (carries_loadModel cfg a.1 req) (fun _ => rfl) hl
  | loadStep j input =>
    obtain ⟨load, hload, hresume⟩ := Option.bind_eq_some_iff.mp h
    exact ha.loadStep hload (resumeLoad_move hresume) hl
  | unload model_id =>
    obtain rfl := Option.some.inj h
    exact ha.carry (carries_unload a.1 model_id) (fun _ => rfl) hl
  | childExit model_id child =>
    obtain rfl := Option.some.inj h
    rcases childExit_cases a.1 model_id child with heq | heq <;> rw [heq] at hl ⊢
    · exact ha.carry (carries_frame rfl id) (fun _ => rfl) hl
    · exact ha.carry (carries_unload a.1 model_id) (fun _ => rfl) hl
  | generate model_id =>
    obtain rfl := Option.some.inj h
    exact ha.carry (carries_generate cfg a.1 model_id) (fun _ => rfl) hl
  | requestStep r input =>
    obtain ⟨request, hr, hresume⟩ := Option.bind_eq_some_iff.mp h
    exact ha.request hr hresume hl

/-! ## Runs of the pool -/

/-- What the loop is at when it evicts: the head of its list, fresh or carried. -/
theorem load_of_evicts {e : Event} {id : String} {slugs : List String}
    (h : evicts cfg p e = some (id, slugs)) :
    ∃ l load needMb input rest, e = .loadStep l input ∧ p.loads[l]? = some load ∧
      ListedBy cfg p load.pc input needMb slugs (id :: rest) := by
  have hhead : ∀ {needMb slugs' candidates}, evictHead cfg p needMb slugs' candidates =
      some (id, slugs) → slugs' = slugs ∧ ∃ rest, candidates = id :: rest := by
    intro needMb slugs' candidates hh
    cases candidates with
    | nil => cases hh
    | cons candidate rest =>
      rw [evictHead, Option.ite_none_left_eq_some] at hh
      obtain ⟨-, hpair⟩ := hh
      obtain ⟨rfl, rfl⟩ := Prod.mk.inj (Option.some.inj hpair)
      exact ⟨rfl, rest, rfl⟩
  cases e with
  | loadStep l input =>
    obtain ⟨load, hl, hload⟩ := Option.bind_eq_some_iff.mp h
    split at hload
    · rename_i needMb slugs' hpc
      obtain ⟨rfl, rest, hrest⟩ := hhead hload
      exact ⟨l, load, needMb, _, rest, rfl, hl, .inr ⟨hpc, rfl, hrest.symm⟩⟩
    · rename_i needMb slugs' candidates hpc
      obtain ⟨rfl, rest, rfl⟩ := hhead hload
      exact ⟨l, load, needMb, _, rest, rfl, hl, .inl ⟨hpc, rfl⟩⟩
    · cases hload
  | _ => cases h

theorem evictsIdle_iff (ha : Inv cfg a) {e : Event} :
    EvictsIdle cfg a.1 e ↔ BegunHaveEnded cfg a e := by
  constructor
  · intro h l id slugs i he hevicts hi r hr
    have hidle := (h id slugs i hevicts hi).1
    exact generatingOn_eq_zero.mp ((ha.count.counted hi).symm.trans hidle) r
  · intro h id slugs i hevicts hi
    obtain ⟨l, load, needMb, input, rest, rfl, hl, hlist⟩ := load_of_evicts hevicts
    rcases hlist with ⟨hpc, rfl⟩ | ⟨hpc, rfl, hcandidates⟩
    · have hlisted := ha.listed hl
      rw [hpc] at hlisted
      obtain ⟨hprotected, hslugs, hbegun⟩ := hlisted id List.mem_cons_self
      refine ⟨?_, hprotected, hslugs⟩
      rw [ha.count.counted hi, generatingOn_eq_zero]
      intro r hr
      exact h l id slugs i rfl hevicts hi r (hbegun i hi r hr) hr
    · obtain ⟨hprotected, hslugs, hidle⟩ :=
        idle_of_candidate ha.count (hcandidates ▸ List.mem_cons_self)
      exact ⟨hidle i hi, hprotected, hslugs⟩

/-- In a run, every model that `evictForBudget` removes is idle, unprotected and
not reserved exactly where, whenever the loop comes to a candidate, the requests
begun on it since the candidates were computed have ended. -/
theorem evicts_idle_iff (cfg : Config) (events : List Event) :
    EveryStep (step cfg) (fun p e _ => EvictsIdle cfg p e) .initial events ↔
      EveryStep (watched cfg) (fun a e _ => BegunHaveEnded cfg a e) (.initial, fun _ => [])
        events := by
  rw [← everyStep_observed observe _ .initial fun _ => []]
  refine everyStep_iff_guarded (Inv cfg) _ _ ?_ ?_ ⟨initial_countInv, fun h => by cases h⟩
    events
  · rintro a e ⟨q, since⟩ ha hb hended
    obtain ⟨hstep, hsince⟩ := observed_eq_some hb
    change since = _ at hsince
    rw [hsince]
    exact ⟨(evictsIdle_iff ha).mpr hended, ha.step hstep⟩
  · exact fun a e b ha _ hidle => (evictsIdle_iff ha).mp hidle

/-- While the loop waits for `a` to exit a request begins on `b`, which was idle
when the candidates were computed; the loop then unloads `b` under it. -/
theorem busy_model_evicted :
    let loaded := fun id l size => [Event.load ⟨id, id, 0⟩, .loadStep l (.stat (some (size * 2 ^ 20))),
      .loadStep l (.port (some (9100 + l)) l), .loadStep l (.health none)]
    let events := loaded "a" 0 300 ++ loaded "b" 1 300 ++ [.load ⟨"c", "c", 0⟩,
      .loadStep 2 (.stat (some (900 * 2 ^ 20))), .loadStep 2 (.reservations []), .generate "b",
      .requestStep 0 (.ready true 5)] ++ [.loadStep 2 .unloaded]
    ¬ EveryStep (step sampleConfig) (fun p e _ => EvictsIdle sampleConfig p e) .initial events := by
  intro loaded events hidle
  have hbusy : (run (step sampleConfig) .initial events.dropLast).map (fun p =>
      (evicts sampleConfig p (.loadStep 2 .unloaded),
        (p.instances.get? "b").map Instance.activeRequests,
          (step sampleConfig p (.loadStep 2 .unloaded)).isSome)) =
      some (some ("b", []), some 1, true) := by
    decide
  obtain ⟨p, hp, hfacts⟩ := Option.map_eq_some_iff.mp hbusy
  simp only [Prod.mk.injEq, Option.map_eq_some_iff, Option.isSome_iff_exists] at hfacts
  obtain ⟨hevicts, ⟨i, hi, hone⟩, q, hq⟩ := hfacts
  have hlast := (everyStep_iff_cut _ _ events).mp hidle events.dropLast (.loadStep 2 .unloaded) [] rfl
    p q hp hq
  have hzero := (hlast "b" [] i hevicts hi).1
  omega

end ModelForge.LlamaPoolEviction
