import ModelForge.EvictionAgreement

set_option autoImplicit false

/-!
# What a refused load leaves behind

A load evicts before it knows that it can succeed, and nothing is put back when
it cannot. Here a load takes its steps with nothing in between: a load that is
refused for want of room has evicted every model that eviction may take, and one
that fails in the backend has evicted what was in its way.
-/
namespace ModelForge.RefusedLoads
open RunInvariant EvictionAgreement

/-! ## Rust's `load_model` -/

section Rust

open ModelPool

variable {budget l : ℕ} {p q r : Pool} {model_id : String} {w : Weights}

/-- The call `load_model` and then its own steps. -/
def loadAlone (budget : ℕ) (p : Pool) (model_id : String) (w : Weights) (inputs : List LoadInput) :
    Option Pool :=
  run (fun q input => ModelPool.step budget q (.loadStep p.loads.length input))
    (load_model p model_id w) inputs

def LoadPc.result : LoadPc → Option (Except EngineError ℕ)
  | .returned result => some result
  | _ => none

def result (q : Pool) (l : ℕ) : Option (Except EngineError ℕ) :=
  (q.loads[l]?).bind fun load => LoadPc.result load.pc

/-- What a step of a load does to the models, and where the load is then. -/
inductive OwnMove (budget : ℕ) (p : Pool) (load : LoadCall) :
    LoadInput → KeyedMap String ResidentModel → LoadPc → Prop where
  | fits (hpc : load.pc = .measure) (h : used_ram_mb p + load.weights.ram ≤ budget) :
      OwnMove budget p load .measure p.models .insert
  | full (hpc : load.pc = .measure) (h : ¬ used_ram_mb p + load.weights.ram ≤ budget) :
      OwnMove budget p load .measure p.models (.pick (used_ram_mb p))
  | picked (used : ℕ) (victim : String) (hpc : load.pc = .pick used) (h : MayPick p (some victim)) :
      OwnMove budget p load (.pick (some victim)) p.models (.unload victim)
  | stuck (used : ℕ) (hpc : load.pc = .pick used) (h : MayPick p none) :
      OwnMove budget p load (.pick none) p.models
        (.returned (.error (oom budget load.weights.ram used)))
  | evicted (victim : String) (m : ResidentModel) (hpc : load.pc = .unload victim)
      (hfound : p.models.get? victim = some m) (h : ¬ 0 < m.active_requests) :
      OwnMove budget p load .unload (p.models.delete victim) .measure
  | kept (victim : String) (error : EngineError) (hpc : load.pc = .unload victim)
      (h : ∀ m, p.models.get? victim = some m → 0 < m.active_requests) :
      OwnMove budget p load .unload p.models (.returned (.error error))
  | inserted (now : ℕ) (models : KeyedMap String ResidentModel) (hpc : load.pc = .insert) :
      OwnMove budget p load (.insert now) models (.returned (.ok load.weights.ram))
  | failed (error : EngineError) (hpc : load.pc = .insert) :
      OwnMove budget p load (.backendFails error) p.models (.returned (.error error))

theorem loads_setLoad {load : LoadCall} (hl : p.loads[l]? = some load) (pc : LoadPc) :
    (p.setLoad l pc).loads[l]? = some { load with pc := pc } := by
  simp [Pool.setLoad, hl]

theorem ownMove_of_step {input : LoadInput}
    (h : ModelPool.step budget p (.loadStep l input) = some q) :
    ∃ load pc, p.loads[l]? = some load ∧ OwnMove budget p load input q.models pc ∧
      q.loads[l]? = some { load with pc := pc } := by
  obtain ⟨load, hl, hresume⟩ := Option.bind_eq_some_iff.mp h
  refine ⟨load, ?_⟩
  cases input with
  | measure =>
    cases hpc : load.pc <;> simp only [resumeLoad, hpc, Option.some.injEq, reduceCtorEq] at hresume
    subst hresume
    by_cases hfits : used_ram_mb p + load.weights.ram ≤ budget
    · rw [if_pos hfits]
      exact ⟨.insert, hl, .fits hpc hfits, loads_setLoad hl _⟩
    · rw [if_neg hfits]
      exact ⟨.pick (used_ram_mb p), hl, .full hpc hfits, loads_setLoad hl _⟩
  | pick victim =>
    cases hpc : load.pc with
    | pick used =>
      simp only [resumeLoad, hpc] at hresume
      split at hresume
      · rename_i hmay
        cases victim with
        | none =>
          obtain rfl := Option.some.inj hresume
          exact ⟨_, hl, .stuck used hpc hmay, loads_setLoad hl _⟩
        | some victim =>
          obtain rfl := Option.some.inj hresume
          exact ⟨_, hl, .picked used victim hpc hmay, loads_setLoad hl _⟩
      · cases hresume
    | _ => simp [resumeLoad, hpc] at hresume
  | unload =>
    cases hpc : load.pc with
    | unload victim =>
      simp only [resumeLoad, hpc, unload_model] at hresume
      cases hfound : p.models.get? victim with
      | none =>
        simp only [hfound, Option.some.injEq] at hresume
        subst hresume
        refine ⟨_, hl, .kept victim _ hpc ?_, loads_setLoad hl _⟩
        intro m hm
        rw [hfound] at hm
        cases hm
      | some m =>
        simp only [hfound] at hresume
        by_cases hactive : 0 < m.active_requests
        · simp only [if_pos hactive, Option.some.injEq] at hresume
          subst hresume
          refine ⟨_, hl, .kept victim _ hpc ?_, loads_setLoad hl _⟩
          intro m' hm'
          rw [hfound] at hm'
          exact Option.some.inj hm' ▸ hactive
        · simp only [if_neg hactive, Option.some.injEq] at hresume
          subst hresume
          exact ⟨_, hl, .evicted victim m hpc hfound hactive, by simp [Pool.setLoad, hl]⟩
    | _ => simp [resumeLoad, hpc] at hresume
  | insert now =>
    cases hpc : load.pc <;> simp only [resumeLoad, hpc, Option.some.injEq, reduceCtorEq] at hresume
    subst hresume
    exact ⟨_, hl, .inserted now _ hpc, by simp [Pool.setLoad, insert_model, hl]⟩
  | backendFails error =>
    cases hpc : load.pc with
    | insert =>
      simp only [resumeLoad, hpc] at hresume
      split at hresume
      · obtain rfl := Option.some.inj hresume
        exact ⟨_, hl, .failed error hpc, loads_setLoad hl _⟩
      · cases hresume
    | _ => simp [resumeLoad, hpc] at hresume

/-- The pool that a load began with, less some of its idle models. -/
structure Evicted (p q : Pool) : Prop where
  named : Named Model.ofResident q.models
  fewer : q.models.entries.Sublist p.models.entries
  busy : ∀ e ∈ p.models.entries, idle e.2 = false → e ∈ q.models.entries

theorem Evicted.congr (h : Evicted p q) (hmodels : r.models = q.models) : Evicted p r where
  named := hmodels ▸ h.named
  fewer := hmodels ▸ h.fewer
  busy := hmodels ▸ h.busy

theorem Evicted.delete (h : Evicted p q) {victim : String} {m : ResidentModel}
    (hfound : q.models.get? victim = some m) (hidle : idle m = true)
    (hr : r.models = q.models.delete victim) : Evicted p r where
  named := hr ▸ h.named.delete victim
  fewer := hr ▸ List.filter_sublist.trans h.fewer
  busy := by
    intro e he hbusy
    rw [hr]
    refine List.mem_filter.mpr ⟨h.busy e he hbusy, decide_eq_true ?_⟩
    intro hname
    have hsame : q.models.get? e.1 = some e.2 := KeyedMap.get?_of_mem (h.busy e he hbusy)
    rw [hname, hfound] at hsame
    rw [← Option.some.inj hsame, hidle] at hbusy
    cases hbusy

theorem Evicted.entries_eq (h : Evicted p q) (hbusy : ∀ e ∈ q.models.entries, idle e.2 = false) :
    q.models.entries = p.models.entries.filter fun e => !idle e.2 := by
  have hkeep : q.models.entries.filter (fun e => !idle e.2) = q.models.entries := by
    apply List.filter_eq_self.mpr
    intro e he
    rw [hbusy e he]
    rfl
  have hsub : q.models.entries.Sublist (p.models.entries.filter fun e => !idle e.2) := by
    rw [← hkeep]
    exact h.fewer.filter _
  have hnodup : (p.models.entries.filter fun e => !idle e.2).Nodup :=
    (List.Nodup.of_map Prod.fst p.models.nodup).filter _
  apply hsub.eq_of_length_le
  apply (List.subperm_of_subset hnodup _).length_le
  intro e he
  obtain ⟨hmem, hnot⟩ := List.mem_filter.mp he
  exact h.busy e hmem (by simpa using hnot)

/-- What holds where a load that began with the pool `p` is. -/
def Stage (budget need : ℕ) (p q : Pool) : LoadPc → Prop
  | .measure => Evicted p q ∧ (used_ram_mb p + need ≤ budget → q.models = p.models)
  | .pick _ => Evicted p q ∧ ¬ used_ram_mb p + need ≤ budget
  | .unload victim => Evicted p q ∧ ¬ used_ram_mb p + need ≤ budget ∧
      ∃ m, q.models.get? victim = some m ∧ idle m = true
  | .insert => Evicted p q ∧ used_ram_mb q + need ≤ budget ∧
      (used_ram_mb p + need ≤ budget → q.models = p.models)
  | .returned _ => True

theorem used_ram_mb_congr (h : q.models = p.models) : used_ram_mb q = used_ram_mb p := by
  rw [used_ram_mb, used_ram_mb, h]

theorem stage_step {load : LoadCall} {input : LoadInput} {pc : LoadPc}
    (h : Stage budget load.weights.ram p q load.pc) (hmove : OwnMove budget q load input r.models pc) :
    Stage budget load.weights.ram p r pc := by
  generalize hmodels : r.models = models at hmove
  cases hmove with
  | fits hpc hfits =>
    rw [hpc] at h
    obtain ⟨hevicted, hsame⟩ := h
    refine ⟨hevicted.congr hmodels, ?_, ?_⟩
    · rw [used_ram_mb_congr hmodels]
      exact hfits
    · exact fun hp => hmodels.trans (hsame hp)
  | full hpc hfull =>
    rw [hpc] at h
    obtain ⟨hevicted, hsame⟩ := h
    refine ⟨hevicted.congr hmodels, ?_⟩
    intro hp
    rw [used_ram_mb_congr (hsame hp)] at hfull
    exact hfull hp
  | picked used victim hpc hmay =>
    rw [hpc] at h
    obtain ⟨hevicted, hfull⟩ := h
    obtain ⟨m, hm, hidle, hname, -⟩ := hmay
    obtain ⟨id, hget⟩ := KeyedMap.mem_values.mp hm
    have hid : m.model_id = id := hevicted.named id m hget
    refine ⟨hevicted.congr hmodels, hfull, m, ?_, hidle⟩
    rw [hmodels, ← hname, hid]
    exact hget
  | stuck used hpc hmay => trivial
  | evicted victim m hpc hfound hidle =>
    rw [hpc] at h
    obtain ⟨hevicted, hfull, m', hfound', hidle'⟩ := h
    exact ⟨hevicted.delete hfound' hidle' hmodels, fun hp => absurd hp hfull⟩
  | kept victim error hpc hbusy => trivial
  | inserted now _ hpc => trivial
  | failed error hpc => trivial

/-- The load of a run on its own, and the stage it has come to. -/
structure Own (budget : ℕ) (p : Pool) (model_id : String) (w : Weights) (q : Pool) : Prop where
  load : ∃ pc, q.loads[p.loads.length]? = some ⟨model_id, w, pc⟩ ∧ Stage budget w.ram p q pc

theorem own_load (budget : ℕ) (hp : Named Model.ofResident p.models) (model_id : String) (w : Weights) :
    Own budget p model_id w (load_model p model_id w) := by
  unfold load_model
  constructor
  refine ⟨_, List.getElem?_concat_length, ?_⟩
  dsimp only
  split_ifs
  · trivial
  · cases p.models.get? model_id with
    | none => exact ⟨⟨hp, List.Sublist.refl _, fun e he _ => he⟩, fun _ => rfl⟩
    | some m => trivial

theorem own_step {input : LoadInput} (h : Own budget p model_id w q)
    (hstep : ModelPool.step budget q (.loadStep p.loads.length input) = some r) :
    Own budget p model_id w r := by
  obtain ⟨pc, hload, hstage⟩ := h.load
  obtain ⟨load, next, hl, hmove, hnext⟩ := ownMove_of_step hstep
  obtain rfl := Option.some.inj (hload.symm.trans hl)
  exact ⟨next, hnext, stage_step hstage hmove⟩

theorem own_run {inputs : List LoadInput} (hp : Named Model.ofResident p.models)
    (h : loadAlone budget p model_id w inputs = some q) : Own budget p model_id w q :=
  run_invariant (Own budget p model_id w) (fun _ _ _ hown hstep => own_step hown hstep)
    (own_load budget hp model_id w) h

theorem loadAlone_concat {inputs : List LoadInput} {input : LoadInput}
    (h : loadAlone budget p model_id w (inputs ++ [input]) = some q) :
    ∃ r, loadAlone budget p model_id w inputs = some r ∧
      ModelPool.step budget r (.loadStep p.loads.length input) = some q := by
  rw [loadAlone, run_append] at h
  obtain ⟨r, hr, hlast⟩ := Option.bind_eq_some_iff.mp h
  obtain ⟨t, hstep, ht⟩ := run_cons_some hlast
  exact ⟨r, hr, Option.some.inj ht ▸ hstep⟩

/-- A load without room has evicted every idle model. -/
theorem rust_no_room {inputs : List LoadInput} {message : String}
    (hp : Named Model.ofResident p.models) (h : loadAlone budget p model_id w inputs = some q)
    (hbackend : ∀ error, .backendFails error ∉ inputs)
    (hresult : result q p.loads.length = some (.error (.Oom message))) :
    q.models.entries = p.models.entries.filter fun e => !idle e.2 := by
  induction inputs using List.reverseRecOn with
  | nil =>
    obtain rfl := Option.some.inj h
    rw [result, load_model, List.getElem?_concat_length, Option.bind_some] at hresult
    dsimp only at hresult
    split_ifs at hresult
    · cases hresult
    · cases hget : p.models.get? model_id <;> rw [hget] at hresult <;> cases hresult
  | append_singleton inputs input _ =>
    obtain ⟨r, hr, hstep⟩ := loadAlone_concat h
    obtain ⟨pc, hload, hstage⟩ := (own_run hp hr).load
    obtain ⟨load, next, hl, hmove, hnext⟩ := ownMove_of_step hstep
    obtain rfl := Option.some.inj (hload.symm.trans hl)
    rw [result, hnext, Option.bind_some] at hresult
    generalize hmodels : q.models = models at hmove
    cases hmove with
    | stuck used hpc hmay =>
      dsimp only at hpc
      subst hpc
      obtain ⟨hevicted, -⟩ := hstage
      apply hevicted.entries_eq
      intro e he
      exact hmay e.2 (KeyedMap.mem_values.mpr ⟨e.1, KeyedMap.get?_of_mem he⟩)
    | kept victim error hpc hbusy =>
      dsimp only at hpc
      subst hpc
      obtain ⟨-, -, m, hfound, hidle⟩ := hstage
      have hactive : 0 < m.active_requests := hbusy m hfound
      simp [idle] at hidle
      omega
    | failed error hpc =>
      exact absurd (List.mem_append_right inputs List.mem_cons_self) (hbackend error)
    | _ => cases hresult

/-- A load that fails in the backend has evicted what was in its way. -/
theorem rust_backend_fails {inputs : List LoadInput} {error : EngineError}
    (hp : Named Model.ofResident p.models)
    (h : loadAlone budget p model_id w (inputs ++ [.backendFails error]) = some q) :
    result q p.loads.length = some (.error error) ∧ Evicted p q ∧
      (q.models = p.models ↔ used_ram_mb p + w.ram ≤ budget) := by
  obtain ⟨r, hr, hstep⟩ := loadAlone_concat h
  obtain ⟨pc, hload, hstage⟩ := (own_run hp hr).load
  obtain ⟨load, next, hl, hmove, hnext⟩ := ownMove_of_step hstep
  obtain rfl := Option.some.inj (hload.symm.trans hl)
  generalize hmodels : q.models = models at hmove
  cases hmove with
  | failed error hpc =>
    dsimp only at hpc
    subst hpc
    obtain ⟨hevicted, hfits, hsame⟩ := hstage
    refine ⟨?_, hevicted.congr hmodels, ?_⟩
    · rw [result, hnext]
      rfl
    · rw [← hmodels]
      constructor
      · intro hunchanged
        rw [← used_ram_mb_congr hunchanged, used_ram_mb_congr hmodels]
        exact hfits
      · exact fun hroom => hmodels.trans (hsame hroom)

end Rust

/-! ## The gateway's `loadModel` -/

section Gateway

open LlamaPool

variable {cfg : Config} {p q r : Pool} {req : LoadRequest} {slugs : List String}

/-- The call `loadModel` and then the steps of its load; the reserved models that
the database reports are `slugs`. -/
def loadModelAlone (cfg : Config) (p : Pool) (req : LoadRequest) (inputs : List LoadInput) :
    Option Pool :=
  run (fun q input => LlamaPool.step cfg q (.loadStep p.loads.length input))
    (loadModel cfg p req).1 inputs

def answer (q : Pool) (l : ℕ) : Option Answer := (q.loads[l]?).bind Load.answer?

/-- What `evictForBudget` may take. -/
def evictable (cfg : Config) (slugs : List String) (i : Instance) : Bool :=
  i.activeRequests = 0 ∧ ¬ isModelProtectedFromEviction cfg i.modelId ∧ i.modelId ∉ slugs

/-- The instances that `done` are gone, and these and `rest` are the candidates. -/
structure Walked (cfg : Config) (slugs : List String) (p q : Pool) (rest : List String) : Prop where
  walk : ∃ done, evictionCandidates cfg p slugs = done ++ rest ∧
    q.instances.entries = p.instances.entries.filter fun e => e.1 ∉ done

theorem Walked.evicts {candidate : String} {rest : List String}
    (h : Walked cfg slugs p q (candidate :: rest))
    (hr : r.instances = q.instances.delete candidate) : Walked cfg slugs p r rest := by
  obtain ⟨done, hsplit, hentries⟩ := h.walk
  refine ⟨done ++ [candidate], ?_, ?_⟩
  · rw [hsplit, List.append_assoc, List.singleton_append]
  · rw [hr]
    change q.instances.entries.filter (fun e => e.1 ≠ candidate) = _
    rw [hentries, List.filter_filter]
    apply List.filter_congr
    intro e _
    by_cases hdone : e.1 ∈ done <;> by_cases hnow : e.1 = candidate <;> simp [hdone, hnow]

theorem mem_evictionCandidates (hp : Named Model.ofInstance p.instances) {e : String × Instance}
    (he : e ∈ p.instances.entries) :
    e.1 ∈ evictionCandidates cfg p slugs ↔ evictable cfg slugs e.2 = true := by
  have hname : e.2.modelId = e.1 := hp e.1 e.2 (KeyedMap.get?_of_mem he)
  have hget : p.instances.get? e.1 = some e.2 := KeyedMap.get?_of_mem he
  rw [evictionCandidates, List.mem_map]
  constructor
  · rintro ⟨i, hi, hid⟩
    rw [List.mem_insertionSort, List.mem_filter] at hi
    obtain ⟨id, hfound⟩ := KeyedMap.mem_values.mp hi.1
    have hown : i.modelId = id := hp id i hfound
    rw [← hown, hid, hget] at hfound
    rw [Option.some.inj hfound]
    exact hi.2
  · intro hfree
    refine ⟨e.2, ?_, hname⟩
    rw [List.mem_insertionSort, List.mem_filter]
    exact ⟨KeyedMap.mem_values.mpr ⟨e.1, hget⟩, hfree⟩

theorem Walked.entries_eq (hp : Named Model.ofInstance p.instances) (h : Walked cfg slugs p q []) :
    q.instances.entries = p.instances.entries.filter fun e => !evictable cfg slugs e.2 := by
  obtain ⟨done, hsplit, hentries⟩ := h.walk
  rw [List.append_nil] at hsplit
  rw [hentries]
  apply List.filter_congr
  intro e he
  have hcandidate := @mem_evictionCandidates cfg p slugs hp e he
  rw [hsplit] at hcandidate
  cases hfree : evictable cfg slugs e.2 <;> simp [hcandidate, hfree]

/-- What holds where a load that began with the pool `p` is. -/
def GatewayStage (cfg : Config) (slugs : List String) (p q : Pool) : LlamaPool.LoadPc → Prop
  | .stat => q.instances = p.instances
  | .reservations _ => q.instances = p.instances
  | .evicting _ reserved rest => reserved = slugs ∧ Walked cfg slugs p q rest
  | .port _ | .health _ _ | .registry (.resolved _) => True
  | .registry (.rejected _) => False
  | .settled answer | .unlocked answer =>
    ∀ message, answer = .rejected ⟨"OOM", message⟩ → Walked cfg slugs p q []

theorem GatewayStage.congr {pc : LlamaPool.LoadPc} (h : GatewayStage cfg slugs p q pc)
    (hr : r.instances = q.instances) : GatewayStage cfg slugs p r pc := by
  have hwalked : ∀ rest, Walked cfg slugs p q rest → Walked cfg slugs p r rest := by
    intro rest hw
    obtain ⟨done, hsplit, hentries⟩ := hw.walk
    exact ⟨done, hsplit, hr ▸ hentries⟩
  cases pc with
  | stat => exact hr.trans h
  | reservations needMb => exact hr.trans h
  | evicting needMb reserved rest => exact ⟨h.1, hwalked rest h.2⟩
  | port needMb => trivial
  | health ramMb port => trivial
  | registry answer =>
    cases answer with
    | resolved loaded => trivial
    | rejected error => exact h
  | settled answer => exact fun message hanswer => hwalked [] (h message hanswer)
  | unlocked answer => exact fun message hanswer => hwalked [] (h message hanswer)

/-- The load, if it is there, has come to a stage. -/
def GatewayOwn (cfg : Config) (slugs : List String) (p q : Pool) : Prop :=
  ∀ load, q.loads[p.loads.length]? = some load → GatewayStage cfg slugs p q load.pc

theorem gatewayOwn_setLoad {load : Load} {l : ℕ} (hl : q.loads[l]? = some load)
    (hsame : l = p.loads.length) {pc : LlamaPool.LoadPc} (h : GatewayStage cfg slugs p q pc) :
    GatewayOwn cfg slugs p (q.setLoad l pc) := by
  intro found hfound
  subst hsame
  rw [LlamaPoolSteps.loads_setLoad, hl, Option.map_some, if_pos rfl] at hfound
  obtain rfl := Option.some.inj hfound
  exact h.congr rfl

theorem gatewayOwn_evictLoop {load : Load} {l needMb : ℕ} {rest : List String}
    (hl : q.loads[l]? = some load) (hsame : l = p.loads.length) (h : Walked cfg slugs p q rest) :
    GatewayOwn cfg slugs p (evictLoop cfg q l needMb slugs rest) := by
  cases rest with
  | nil =>
    rw [evictLoop]
    split
    · exact gatewayOwn_setLoad hl hsame fun message _ => h
    · exact gatewayOwn_setLoad hl hsame trivial
  | cons candidate rest =>
    rw [evictLoop]
    split
    · exact gatewayOwn_setLoad hl hsame trivial
    · have hload : (unloadModel q candidate).loads[l]? = some load := hl
      exact gatewayOwn_setLoad hload hsame ⟨rfl, h.evicts rfl⟩

theorem walked_start (hq : q.instances = p.instances) :
    Walked cfg slugs p q (evictionCandidates cfg q slugs) := by
  refine ⟨[], ?_, ?_⟩
  · rw [evictionCandidates, evictionCandidates, hq, List.nil_append]
  · rw [hq]
    exact (List.filter_eq_self.mpr fun e _ => decide_eq_true List.not_mem_nil).symm

/-- The health check does not fail, and the database reports these slugs. -/
def Quiet (slugs : List String) (input : LlamaPool.LoadInput) : Prop :=
  (∀ error, input ≠ .health (some error)) ∧ ∀ reported, input = .reservations reported → reported = slugs

theorem gatewayOwn_step {input : LlamaPool.LoadInput} (h : GatewayOwn cfg slugs p q)
    (hquiet : Quiet slugs input)
    (hstep : LlamaPool.step cfg q (.loadStep p.loads.length input) = some r) :
    GatewayOwn cfg slugs p r := by
  obtain ⟨load, hl, hresume⟩ := Option.bind_eq_some_iff.mp hstep
  have hstage : GatewayStage cfg slugs p q load.pc := h load hl
  cases input with
  | stat size =>
    cases hpc : load.pc with
    | stat =>
      rw [hpc] at hstage
      cases size with
      | none =>
        simp only [LlamaPool.resumeLoad, hpc, Option.some.injEq] at hresume
        subst hresume
        exact gatewayOwn_setLoad hl rfl fun message hanswer => by simp at hanswer
      | some size =>
        simp only [LlamaPool.resumeLoad, hpc, Option.some.injEq] at hresume
        subst hresume
        apply gatewayOwn_setLoad hl rfl
        unfold evictForBudget
        split
        · trivial
        · exact hstage
    | _ => cases size <;> simp [LlamaPool.resumeLoad, hpc] at hresume
  | reservations reported =>
    obtain rfl := hquiet.2 reported rfl
    cases hpc : load.pc with
    | reservations needMb =>
      rw [hpc] at hstage
      simp only [LlamaPool.resumeLoad, hpc, Option.some.injEq] at hresume
      subst hresume
      exact gatewayOwn_evictLoop hl rfl (walked_start hstage)
    | _ => simp [LlamaPool.resumeLoad, hpc] at hresume
  | unloaded =>
    cases hpc : load.pc with
    | evicting needMb reserved rest =>
      rw [hpc] at hstage
      simp only [LlamaPool.resumeLoad, hpc, Option.some.injEq] at hresume
      subst hresume
      obtain ⟨rfl, hwalked⟩ := hstage
      exact gatewayOwn_evictLoop hl rfl hwalked
    | _ => simp [LlamaPool.resumeLoad, hpc] at hresume
  | port found now =>
    cases hpc : load.pc with
    | port ramMb =>
      cases found with
      | none =>
        simp only [LlamaPool.resumeLoad, hpc, Option.some.injEq] at hresume
        subst hresume
        exact gatewayOwn_setLoad hl rfl fun message hanswer => by simp at hanswer
      | some port =>
        simp only [LlamaPool.resumeLoad, hpc, Option.some.injEq] at hresume
        subst hresume
        have hload : (insertInstance q load.req.model_id ramMb port now).loads[p.loads.length]? =
          some load := hl
        exact gatewayOwn_setLoad hload rfl trivial
    | _ => cases found <;> simp [LlamaPool.resumeLoad, hpc] at hresume
  | health failure =>
    cases failure with
    | some error => exact absurd rfl (hquiet.1 error)
    | none =>
      cases hpc : load.pc with
      | health ramMb port =>
        simp only [LlamaPool.resumeLoad, hpc, Option.some.injEq] at hresume
        subst hresume
        exact gatewayOwn_setLoad hl rfl trivial
      | _ => simp [LlamaPool.resumeLoad, hpc] at hresume
  | registry =>
    cases hpc : load.pc with
    | registry answer =>
      rw [hpc] at hstage
      simp only [LlamaPool.resumeLoad, hpc, Option.some.injEq] at hresume
      subst hresume
      cases answer with
      | resolved loaded =>
        exact gatewayOwn_setLoad hl rfl fun message hanswer => by simp at hanswer
      | rejected error => exact hstage.elim
    | _ => simp [LlamaPool.resumeLoad, hpc] at hresume
  | unlock =>
    cases hpc : load.pc with
    | settled answer =>
      rw [hpc] at hstage
      simp only [LlamaPool.resumeLoad, hpc] at hresume
      have hunlocked : GatewayOwn cfg slugs p (q.setLoad p.loads.length (.unlocked answer)) :=
        gatewayOwn_setLoad hl rfl hstage
      split at hresume
      · obtain rfl := Option.some.inj hresume
        exact fun found hfound => (hunlocked found hfound).congr rfl
      · obtain rfl := Option.some.inj hresume
        exact hunlocked
    | _ => simp [LlamaPool.resumeLoad, hpc] at hresume

theorem gatewayOwn_load (cfg : Config) (slugs : List String) (p : Pool) (req : LoadRequest) :
    GatewayOwn cfg slugs p (loadModel cfg p req).1 := by
  intro load hl
  rw [loadModel] at hl ⊢
  cases hlock : p.modelLoadLocks.get? req.model_id with
  | some existing =>
    rw [hlock] at hl
    simp at hl
  | none =>
    rw [hlock] at hl
    obtain rfl := Option.some.inj (List.getElem?_concat_length.symm.trans hl)
    dsimp only
    unfold beginLoad
    split
    · exact fun message hanswer => by simp at hanswer
    · split
      · rfl
      · exact fun message hanswer => by simp at hanswer

/-- A load without room has stopped every model that eviction may take. -/
theorem gateway_no_room {inputs : List LlamaPool.LoadInput} {message : String}
    (hp : Named Model.ofInstance p.instances) (h : loadModelAlone cfg p req inputs = some q)
    (hquiet : ∀ input ∈ inputs, Quiet slugs input)
    (hanswer : answer q p.loads.length = some (.rejected ⟨"OOM", message⟩)) :
    q.instances.entries = p.instances.entries.filter fun e => !evictable cfg slugs e.2 := by
  have hown : GatewayOwn cfg slugs p q :=
    run_guarded (GatewayOwn cfg slugs p) (fun _ input _ => Quiet slugs input)
      (fun _ _ _ hq hstep hinput => gatewayOwn_step hq hinput hstep)
      (gatewayOwn_load cfg slugs p req) (everyStep_of_forall hquiet) h
  obtain ⟨load, hl, hsettled⟩ := Option.bind_eq_some_iff.mp hanswer
  have hstage := hown load hl
  apply Walked.entries_eq hp
  unfold Load.answer? at hsettled
  split at hsettled
  · rename_i answer hpc
    rw [hpc] at hstage
    exact hstage message (Option.some.inj hsettled)
  · rename_i answer hpc
    rw [hpc] at hstage
    exact hstage message (Option.some.inj hsettled)
  · cases hsettled

end Gateway

/-! ## Both pools -/

/-- A refused load adds nothing. Refused for want of room, it has removed all
that eviction may take and nothing else; failed in the backend, it has removed
idle models, and none exactly when the new one had room beside the others. -/
theorem refused_load_leaves (budget : ℕ) {p : ModelPool.Pool} (hp : Named Model.ofResident p.models)
    (model_id : String) (w : ModelPool.Weights) (cfg : LlamaPool.Config) {g : LlamaPool.Pool}
    (hg : Named Model.ofInstance g.instances) (slugs : List String) (req : LlamaPool.LoadRequest) :
    (∀ inputs q message, loadAlone budget p model_id w inputs = some q →
      (∀ error, .backendFails error ∉ inputs) →
      result q p.loads.length = some (.error (.Oom message)) →
      q.models.entries = p.models.entries.filter fun e => !ModelPool.idle e.2) ∧
    (∀ inputs q error, loadAlone budget p model_id w (inputs ++ [.backendFails error]) = some q →
      result q p.loads.length = some (.error error) ∧
      q.models.entries.Sublist p.models.entries ∧
      (∀ e ∈ p.models.entries, ModelPool.idle e.2 = false → e ∈ q.models.entries) ∧
      (q.models = p.models ↔ ModelPool.used_ram_mb p + w.ram ≤ budget)) ∧
    (∀ inputs q message, loadModelAlone cfg g req inputs = some q →
      (∀ input ∈ inputs, Quiet slugs input) →
      answer q g.loads.length = some (.rejected ⟨"OOM", message⟩) →
      q.instances.entries = g.instances.entries.filter fun e => !evictable cfg slugs e.2) := by
  refine ⟨fun inputs q message h => rust_no_room hp h, fun inputs q error h => ?_,
    fun inputs q message h => gateway_no_room hg h⟩
  obtain ⟨hresult, hevicted, hunchanged⟩ := rust_backend_fails hp h
  exact ⟨hresult, hevicted.fewer, hevicted.busy, hunchanged⟩

theorem refused_load_leaves_sample :
    (∀ inputs q message, loadAlone 1000 rustSample "c" ⟨true, some (2 ^ 31)⟩ inputs = some q →
      (∀ error, .backendFails error ∉ inputs) →
      result q rustSample.loads.length = some (.error (.Oom message)) →
      q.models.entries = rustSample.models.entries.filter fun e => !ModelPool.idle e.2) ∧
    (∀ inputs q error,
      loadAlone 1000 rustSample "c" ⟨true, some (2 ^ 31)⟩ (inputs ++ [.backendFails error]) = some q →
      result q rustSample.loads.length = some (.error error) ∧
      q.models.entries.Sublist rustSample.models.entries ∧
      (∀ e ∈ rustSample.models.entries, ModelPool.idle e.2 = false → e ∈ q.models.entries) ∧
      (q.models = rustSample.models ↔
        ModelPool.used_ram_mb rustSample + ModelPool.Weights.ram ⟨true, some (2 ^ 31)⟩ ≤ 1000)) ∧
    (∀ inputs q message,
      loadModelAlone LlamaPool.sampleConfig gatewaySample ⟨"c", "c.gguf", 4096⟩ inputs = some q →
      (∀ input ∈ inputs, Quiet [] input) →
      answer q gatewaySample.loads.length = some (.rejected ⟨"OOM", message⟩) →
      q.instances.entries =
        gatewaySample.instances.entries.filter fun e => !evictable LlamaPool.sampleConfig [] e.2) := by
  have hp : Named Model.ofResident rustSample.models := named_iff.mpr (by decide +kernel)
  have hg : Named Model.ofInstance gatewaySample.instances := named_iff.mpr (by decide +kernel)
  exact refused_load_leaves 1000 hp "c" ⟨true, some (2 ^ 31)⟩ LlamaPool.sampleConfig hg []
    ⟨"c", "c.gguf", 4096⟩

/-- Of two idle models a load of 2 GB leaves none, in either pool, before it is
refused; and one of 500 MB takes the place of the first before its file fails. -/
theorem refused_load_evicts :
    (∃ inputs q message, loadAlone 1000 rustSample "c" ⟨true, some (2 ^ 31)⟩ inputs = some q ∧
      (∀ error, .backendFails error ∉ inputs) ∧
      result q rustSample.loads.length = some (.error (.Oom message)) ∧
      q.models.entries ≠ rustSample.models.entries) ∧
    (∃ inputs q error,
      loadAlone 1000 rustSample "c" ⟨true, some (500 * 2 ^ 20)⟩ (inputs ++ [.backendFails error]) = some q ∧
      q.models.entries ≠ rustSample.models.entries) ∧
    (∃ inputs q message,
      loadModelAlone LlamaPool.sampleConfig gatewaySample ⟨"c", "c.gguf", 4096⟩ inputs = some q ∧
      (∀ input ∈ inputs, Quiet [] input) ∧
      answer q gatewaySample.loads.length = some (.rejected ⟨"OOM", message⟩) ∧
      q.instances.entries ≠ gatewaySample.instances.entries) := by
  refine ⟨⟨[.measure, .pick (some "a"), .unload, .measure, .pick (some "b"), .unload, .measure, .pick none],
    _, _, rfl, ?_, rfl, by decide⟩,
    ⟨[.measure, .pick (some "a"), .unload, .measure], _, .ModelUnavailable "load failed", rfl, by decide⟩,
    ⟨[.stat (some (2 ^ 31)), .reservations [], .unloaded, .unloaded], _, _, rfl, ?_, rfl, by decide⟩⟩
  · intro error hmem
    simp at hmem
  · intro input hmem
    constructor
    · rintro error rfl
      simp at hmem
    · rintro reported rfl
      simpa using hmem

end ModelForge.RefusedLoads
