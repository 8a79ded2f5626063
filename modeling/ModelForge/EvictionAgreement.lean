import ModelForge.LruEviction
import ModelForge.ModelPoolHandles
import ModelForge.LlamaPoolEviction

set_option autoImplicit false

/-!
# The two eviction engines agree

Rust's `evict_until` picks the least recently used idle model in each round; the
gateway's `evictForBudget` sorts the idle models once and walks the list. From
the same models both evict the shortest prefix of the idle ones that makes room.
-/
namespace ModelForge.EvictionAgreement
open LruEviction RunInvariant

/-- What both pools keep of a model. -/
structure Model where
  model_id : String
  ram : ℕ
  lastUse : ℕ
  active : ℤ
  deriving DecidableEq, Repr

def Model.Idle (x : Model) : Prop := x.active = 0

instance (x : Model) : Decidable x.Idle := inferInstanceAs (Decidable (_ = _))

def Model.ofResident (m : ModelPool.ResidentModel) : Model :=
  ⟨m.model_id, m.ram_used_mb, m.last_used_at, m.active_requests⟩

def Model.ofInstance (i : LlamaPool.Instance) : Model :=
  ⟨i.modelId, i.ramMb, i.lastUsedAt, i.activeRequests⟩

/-! ## The models of a map -/

section Contents

variable {ν : Type} {view : ν → Model} {m : KeyedMap String ν} {x y : Model}

def Named (view : ν → Model) (m : KeyedMap String ν) : Prop :=
  ∀ id v, m.get? id = some v → (view v).model_id = id

def contents (view : ν → Model) (m : KeyedMap String ν) : Finset Model :=
  (m.values.map view).toFinset

theorem named_iff : Named view m ↔ ∀ e ∈ m.entries, (view e.2).model_id = e.1 :=
  ⟨fun h e he => h e.1 e.2 (KeyedMap.get?_of_mem he), fun h id v hget => h (id, v) (KeyedMap.mem_of_get? hget)⟩

theorem mem_contents : x ∈ contents view m ↔ ∃ id v, m.get? id = some v ∧ view v = x := by
  rw [contents, List.mem_toFinset, List.mem_map]
  constructor
  · rintro ⟨v, hv, rfl⟩
    obtain ⟨id, hget⟩ := KeyedMap.mem_values.mp hv
    exact ⟨id, v, hget, rfl⟩
  · rintro ⟨id, v, hget, rfl⟩
    exact ⟨v, KeyedMap.mem_values.mpr ⟨id, hget⟩, rfl⟩

theorem Named.get? (h : Named view m) (hx : x ∈ contents view m) :
    ∃ v, m.get? x.model_id = some v ∧ view v = x := by
  obtain ⟨id, v, hget, rfl⟩ := mem_contents.mp hx
  exact ⟨v, (h id v hget) ▸ hget, rfl⟩

theorem Named.eq (h : Named view m) (hx : x ∈ contents view m) (hy : y ∈ contents view m)
    (hid : x.model_id = y.model_id) : x = y := by
  obtain ⟨v, hv, rfl⟩ := h.get? hx
  obtain ⟨w, hw, rfl⟩ := h.get? hy
  rw [hid, hw] at hv
  rw [Option.some.inj hv]

theorem Named.delete (h : Named view m) (id : String) : Named view (m.delete id) := by
  intro id' v hget
  rw [KeyedMap.get?_delete] at hget
  split at hget
  · cases hget
  · exact h id' v hget

theorem Named.contents_delete (h : Named view m) (hx : x ∈ contents view m) :
    contents view (m.delete x.model_id) = (contents view m).erase x := by
  ext y
  rw [Finset.mem_erase]
  constructor
  · intro hy
    obtain ⟨v, hget, rfl⟩ := (h.delete x.model_id).get? hy
    rw [KeyedMap.get?_delete] at hget
    split at hget
    · cases hget
    · rename_i hne
      exact ⟨fun heq => hne (congrArg Model.model_id heq), mem_contents.mpr ⟨_, v, hget, rfl⟩⟩
  · rintro ⟨hne, hy⟩
    obtain ⟨v, hget, rfl⟩ := h.get? hy
    refine mem_contents.mpr ⟨_, v, (KeyedMap.get?_delete_of_ne fun hid => ?_).trans hget, rfl⟩
    exact hne (h.eq hy hx hid)

theorem Named.nodup (h : Named view m) : (m.values.map view).Nodup := by
  have hkeys : (m.values.map view).map Model.model_id = m.keys := by
    rw [KeyedMap.values, KeyedMap.keys, List.map_map, List.map_map]
    refine List.map_congr_left fun e he => ?_
    exact h e.1 e.2 (KeyedMap.get?_of_mem he)
  exact List.Nodup.of_map Model.model_id (hkeys ▸ m.nodup)

theorem Named.total (h : Named view m) {f : ν → ℕ} (hf : ∀ v, f v = (view v).ram) :
    m.total f = ∑ x ∈ contents view m, x.ram := by
  rw [contents, List.sum_toFinset _ h.nodup, KeyedMap.values, List.map_map, List.map_map]
  exact congrArg List.sum (List.map_congr_left fun e _ => hf e.2)

end Contents

/-! ## The loop of `evict_until` -/

section Rust

open ModelPool ModelPoolSteps

variable {p q : ModelPool.Pool} {x : Model} {order : List Model}

abbrev models (p : ModelPool.Pool) : Finset Model := contents Model.ofResident p.models

/-- Every reachable pool keeps its models under their own ids. -/
theorem rust_named {budget : ℕ} {events : List ModelPool.Event}
    (h : run (ModelPool.step budget) .new events = some p) : Named Model.ofResident p.models := by
  refine run_invariant (fun p => Named Model.ofResident p.models) ?_ (fun _ _ hget => by cases hget) h
  intro p e q hp hstep
  cases e with
  | load model_id w =>
    obtain rfl := Option.some.inj hstep
    exact hp
  | loadStep l input =>
    obtain ⟨load, hl, hresume⟩ := Option.bind_eq_some_iff.mp hstep
    cases resumeLoad_move hresume with
    | wait _ _ _ => exact hp
    | evict _ u hu =>
      exact fun id m hget => hp id m (ModelPoolHandles.get?_of_unload hu hget).1
    | insert now _ =>
      intro id m hget
      rcases ModelPoolHandles.get?_of_insert hget with ⟨rfl, rfl⟩ | ⟨-, hold⟩
      · rfl
      · exact hp id m hold
  | unload model_id =>
    simp only [ModelPool.step] at hstep
    split at hstep <;> obtain rfl := Option.some.inj hstep
    · rename_i hu
      exact fun id m hget => hp id m (ModelPoolHandles.get?_of_unload hu hget).1
    · exact hp
  | generate model_id =>
    obtain rfl := Option.some.inj hstep
    exact hp
  | callStep c input =>
    obtain ⟨call, hc, hresume⟩ := Option.bind_eq_some_iff.mp hstep
    cases resumeCall_move hresume with
    | quiet _ _ _ => exact hp
    | @acts arc next f _ _ hf _ =>
      intro id m hget
      obtain ⟨old, hold, rfl⟩ := Option.map_eq_some_iff.mp
        ((get?_update p call.model_id id arc f).symm.trans hget)
      have hid : old.model_id = id := hp id old hold
      change (if id = call.model_id ∧ old.arc = arc then f old else old).model_id = id
      split
      · exact (hf old).1.trans hid
      · exact hid

theorem mem_models {m : ResidentModel} (hm : m ∈ p.models.values) : Model.ofResident m ∈ models p := by
  obtain ⟨id, hget⟩ := KeyedMap.mem_values.mp hm
  exact mem_contents.mpr ⟨id, m, hget, rfl⟩

theorem mayPick_pick_victim (p : ModelPool.Pool) : MayPick p (pick_victim p) := by
  unfold pick_victim
  cases hmin : (p.models.values.filter idle).argmin ResidentModel.last_used_at with
  | none =>
    intro m hm
    have hnone := List.filter_eq_nil_iff.mp (List.argmin_eq_none.mp hmin) m hm
    exact Bool.not_eq_true _ ▸ hnone
  | some m =>
    obtain ⟨hm, hidle⟩ := List.mem_filter.mp (List.argmin_mem hmin)
    refine ⟨m, hm, hidle, rfl, fun other hother hoidle => ?_⟩
    exact List.le_of_mem_argmin (List.mem_filter.mpr ⟨hother, hoidle⟩) hmin

/-- Whatever the iteration order, the victim is the first by last use. -/
theorem eq_of_mayPick (h : LruOrder Model.lastUse Model.Idle (models p) order) {victim : Option String}
    (hpick : MayPick p victim) : victim = order.head?.map Model.model_id := by
  cases victim with
  | none =>
    cases order with
    | nil => rfl
    | cons x rest =>
      obtain ⟨hx, hidle⟩ := (h.mem x).mp List.mem_cons_self
      obtain ⟨id, m, hget, rfl⟩ := mem_contents.mp hx
      have hbusy := hpick m (KeyedMap.mem_values.mpr ⟨id, hget⟩)
      exact absurd hidle (of_decide_eq_false hbusy)
  | some id =>
    obtain ⟨m, hm, hidle, rfl, hmin⟩ := hpick
    have hmem := (h.mem (.ofResident m)).mpr ⟨mem_models hm, of_decide_eq_true hidle⟩
    cases order with
    | nil => cases hmem
    | cons x rest =>
      have hfirst : Model.ofResident m = x := by
        refine h.eq_first (mem_models hm) (of_decide_eq_true hidle) fun z hz hzidle => ?_
        obtain ⟨id', w, hw, rfl⟩ := mem_contents.mp hz
        exact hmin w (KeyedMap.mem_values.mpr ⟨id', hw⟩) (decide_eq_true hzidle)
      rw [← hfirst]
      rfl

theorem pick_victim_eq (h : LruOrder Model.lastUse Model.Idle (models p) order) :
    pick_victim p = order.head?.map Model.model_id :=
  eq_of_mayPick h (mayPick_pick_victim p)

theorem used_ram_mb_eq (hp : Named Model.ofResident p.models) :
    used_ram_mb p = ∑ x ∈ models p, x.ram :=
  hp.total fun _ => rfl

theorem unload_idle (hp : Named Model.ofResident p.models) (hx : x ∈ models p) (hidle : x.Idle) :
    unload_model p x.model_id = .ok { p with models := p.models.delete x.model_id } := by
  obtain ⟨m, hget, rfl⟩ := hp.get? hx
  have hactive : ¬ 0 < m.active_requests := not_lt.mpr (le_of_eq hidle)
  unfold unload_model
  rw [hget]
  exact if_neg hactive

/-- With a round for each idle model and one more the loop ends, and has evicted
what the walk through the idle models evicts. -/
theorem evict_until_eq (budget needed : ℕ) (hp : Named Model.ofResident p.models)
    (h : LruOrder Model.lastUse Model.Idle (models p) order) :
    ∃ q result, (∀ fuel, order.length < fuel → evict_until budget needed fuel p = some (q, result)) ∧
      models q = models p \ (evict Model.ram budget needed (models p) order).1.toFinset ∧
      (if (evict Model.ram budget needed (models p) order).2 then result = .ok ()
        else ∃ message, result = .error (.Oom message)) := by
  induction order generalizing p with
  | nil =>
    by_cases hfits : Fits Model.ram budget needed (models p)
    · refine ⟨p, .ok (), fun fuel hfuel => ?_, by simp [evict], by simp [evict, hfits]⟩
      obtain ⟨fuel, rfl⟩ := Nat.exists_eq_succ_of_ne_zero (Nat.ne_of_gt hfuel)
      exact if_pos (used_ram_mb_eq hp ▸ hfits)
    · refine ⟨p, .error (oom budget needed (used_ram_mb p)), fun fuel hfuel => ?_, by simp [evict], ?_⟩
      · obtain ⟨fuel, rfl⟩ := Nat.exists_eq_succ_of_ne_zero (Nat.ne_of_gt hfuel)
        rw [evict_until, if_neg (used_ram_mb_eq hp ▸ hfits), pick_victim_eq h]
        rfl
      · rw [evict, decide_eq_false hfits]
        exact ⟨_, rfl⟩
  | cons x rest ih =>
    by_cases hfits : Fits Model.ram budget needed (models p)
    · refine ⟨p, .ok (), fun fuel hfuel => ?_, by simp [evict, hfits], by simp [evict, hfits]⟩
      obtain ⟨fuel, rfl⟩ := Nat.exists_eq_succ_of_ne_zero (Nat.ne_of_gt (Nat.zero_lt_of_lt hfuel))
      exact if_pos (used_ram_mb_eq hp ▸ hfits)
    · obtain ⟨hx, hidle⟩ := (h.mem x).mp List.mem_cons_self
      have hrest : models { p with models := p.models.delete x.model_id } = (models p).erase x :=
        hp.contents_delete hx
      have hnamed : Named Model.ofResident (p.models.delete x.model_id) := hp.delete x.model_id
      obtain ⟨q, result, hrun, hleft, hresult⟩ :=
        ih (p := { p with models := p.models.delete x.model_id }) hnamed (hrest ▸ h.erase)
      rw [hrest] at hleft hresult
      refine ⟨q, result, fun fuel hfuel => ?_, ?_, ?_⟩
      · obtain ⟨fuel, rfl⟩ := Nat.exists_eq_succ_of_ne_zero (Nat.ne_of_gt (Nat.zero_lt_of_lt hfuel))
        rw [evict_until, if_neg (used_ram_mb_eq hp ▸ hfits), pick_victim_eq h]
        simp only [List.head?_cons, Option.map_some, unload_idle hp hx hidle]
        exact hrun fuel (Nat.lt_of_succ_lt_succ hfuel)
      · rw [evict, if_neg hfits, sdiff_cons]
        exact hleft
      · rw [evict, if_neg hfits]
        exact hresult

/-! ### The loop as steps of a load -/

variable {l : ℕ} {load : LoadCall}

theorem setLoad_setLoad (p : ModelPool.Pool) (l : ℕ) (pc next : ModelPool.LoadPc) :
    (p.setLoad l pc).setLoad l next = p.setLoad l next := by
  simp only [Pool.setLoad, List.modify_modify_eq]
  rfl

theorem load_setLoad (hl : p.loads[l]? = some load) (pc : ModelPool.LoadPc) :
    (p.setLoad l pc).loads[l]? = some { load with pc := pc } := by
  simp [Pool.setLoad, hl]

def afterEviction : Except EngineError Unit → ModelPool.LoadPc
  | .ok () => .insert
  | .error e => .returned (.error e)

theorem step_measure (budget : ℕ) (hl : p.loads[l]? = some load) :
    ModelPool.step budget (p.setLoad l .measure) (.loadStep l .measure) =
      some (p.setLoad l
        (if used_ram_mb p + load.weights.ram ≤ budget then .insert else .pick (used_ram_mb p))) := by
  simp only [ModelPool.step, load_setLoad hl, Option.bind_some, ModelPool.resumeLoad, setLoad_setLoad]
  rfl

theorem step_pick (budget used : ℕ) (hl : p.loads[l]? = some load) {victim : Option String}
    (hpick : MayPick p victim) :
    ModelPool.step budget (p.setLoad l (.pick used)) (.loadStep l (.pick victim)) =
      some (p.setLoad l
        ((victim.map ModelPool.LoadPc.unload).getD
          (.returned (.error (oom budget load.weights.ram used))))) := by
  have hmay : MayPick (p.setLoad l (.pick used)) victim := by
    cases victim <;> exact hpick
  simp only [ModelPool.step, load_setLoad hl, Option.bind_some, ModelPool.resumeLoad, if_pos hmay]
  cases victim <;> exact congrArg some (setLoad_setLoad _ _ _ _)

theorem step_unload (budget : ℕ) (hl : p.loads[l]? = some load) (victim : String) :
    ModelPool.step budget (p.setLoad l (.unload victim)) (.loadStep l .unload) =
      some (match unload_model p victim with
        | .ok q => q.setLoad l .measure
        | .error e => p.setLoad l (.returned (.error e))) := by
  simp only [ModelPool.step, load_setLoad hl, Option.bind_some, ModelPool.resumeLoad]
  have hmodels : (p.setLoad l (.unload victim)).models = p.models := rfl
  unfold unload_model
  rw [hmodels]
  cases p.models.get? victim with
  | none => exact congrArg some (setLoad_setLoad _ _ _ _)
  | some m =>
    by_cases hactive : 0 < m.active_requests
    · simp only [if_pos hactive]
      exact congrArg some (setLoad_setLoad _ _ _ _)
    · simp only [if_neg hactive]
      exact congrArg some (setLoad_setLoad { p with models := p.models.delete victim } _ _ _)

/-- A load whose own steps are the only ones evicts as `evict_until` does. -/
theorem evict_until_steps {budget fuel : ℕ} {result : Except EngineError Unit}
    (hl : p.loads[l]? = some load) (h : evict_until budget load.weights.ram fuel p = some (q, result)) :
    ∃ inputs : List ModelPool.LoadInput,
      run (ModelPool.step budget) (p.setLoad l .measure) (inputs.map (.loadStep l)) =
        some (q.setLoad l (afterEviction result)) := by
  induction fuel generalizing p with
  | zero => cases h
  | succ fuel ih =>
    rw [evict_until] at h
    by_cases hfits : used_ram_mb p + load.weights.ram ≤ budget
    · rw [if_pos hfits] at h
      obtain ⟨rfl, rfl⟩ := Prod.mk.inj (Option.some.inj h)
      refine ⟨[.measure], ?_⟩
      rw [List.map_singleton, run_cons, step_measure budget hl, if_pos hfits]
      rfl
    · have hpick := step_pick budget (used_ram_mb p) hl (mayPick_pick_victim p)
      rw [if_neg hfits] at h
      cases hvictim : pick_victim p with
      | none =>
        simp only [hvictim] at h hpick
        obtain ⟨rfl, rfl⟩ := Prod.mk.inj (Option.some.inj h)
        refine ⟨[.measure, .pick none], ?_⟩
        rw [List.map_cons, run_cons, step_measure budget hl, if_neg hfits, Option.bind_some,
          List.map_singleton, run_cons, hpick]
        rfl
      | some victim =>
        simp only [hvictim] at h hpick
        have hunload := step_unload budget hl victim
        have hround : ∀ inputs : List ModelPool.LoadInput,
            run (ModelPool.step budget) (p.setLoad l .measure)
                ((.measure :: .pick (some victim) :: .unload :: inputs).map (.loadStep l)) =
              run (ModelPool.step budget) (match unload_model p victim with
                | .ok q => q.setLoad l .measure
                | .error e => p.setLoad l (.returned (.error e))) (inputs.map (.loadStep l)) := by
          intro inputs
          simp only [List.map_cons, run_cons, step_measure budget hl, if_neg hfits, Option.bind_some,
            hpick, Option.map_some, Option.getD_some, hunload]
        cases hu : unload_model p victim with
        | ok u =>
          simp only [hu] at h hround
          have hloads : u.loads[l]? = some load := by
            rw [(unload_model_ok hu).2]
            exact hl
          obtain ⟨inputs, hrun⟩ := ih hloads h
          exact ⟨_, (hround inputs).trans hrun⟩
        | error e =>
          simp only [hu] at h hround
          obtain ⟨rfl, rfl⟩ := Prod.mk.inj (Option.some.inj h)
          exact ⟨_, (hround []).trans rfl⟩

end Rust

/-! ## The walk of `evictForBudget` -/

section Gateway

open LlamaPool

variable {cfg : Config} {p : LlamaPool.Pool} {needMb : ℕ} {slugs : List String} {x : Model}
  {order : List Model}

abbrev hosted (p : LlamaPool.Pool) : Finset Model := contents Model.ofInstance p.instances

theorem gateway_named {events : List LlamaPool.Event}
    (h : run (LlamaPool.step cfg) .initial events = some p) : Named Model.ofInstance p.instances := by
  have hinv : LlamaPoolEviction.CountInv p :=
    run_invariant _ (fun _ _ _ hp hstep => hp.step hstep) LlamaPoolEviction.initial_countInv h
  exact fun _ _ hget => hinv.named hget

def Distinct (pool : Finset Model) : Prop :=
  ∀ x ∈ pool, ∀ y ∈ pool, x.lastUse = y.lastUse → x = y

def Unprotected (cfg : Config) (slugs : List String) (pool : Finset Model) : Prop :=
  ∀ x ∈ pool, isModelProtectedFromEviction cfg x.model_id = false ∧ x.model_id ∉ slugs

theorem evictionCandidates_eq (hp : Named Model.ofInstance p.instances) (hdistinct : Distinct (hosted p))
    (hopen : Unprotected cfg slugs (hosted p))
    (h : LruOrder Model.lastUse Model.Idle (hosted p) order) :
    evictionCandidates cfg p slugs = order.map Model.model_id := by
  let r := fun a b : Instance => a.lastUsedAt ≤ b.lastUsedAt
  have : Std.Total r := ⟨fun a b => le_total a.lastUsedAt b.lastUsedAt⟩
  have : IsTrans Instance r := ⟨fun _ _ _ => le_trans⟩
  set idle := p.instances.values.filter fun i =>
    i.activeRequests = 0 ∧ ¬ isModelProtectedFromEviction cfg i.modelId ∧ i.modelId ∉ slugs with hidle
  have hperm : ((idle.insertionSort r).map Model.ofInstance).Perm (idle.map Model.ofInstance) :=
    (List.perm_insertionSort r idle).map _
  have hnodup : (idle.map Model.ofInstance).Nodup :=
    (List.filter_sublist.map Model.ofInstance).nodup hp.nodup
  have hmem : ∀ x, x ∈ idle.map Model.ofInstance ↔ x ∈ order := by
    intro x
    rw [h.mem, List.mem_map]
    constructor
    · rintro ⟨i, hi, rfl⟩
      obtain ⟨hvalue, hfree⟩ := List.mem_filter.mp hi
      obtain ⟨id, hget⟩ := KeyedMap.mem_values.mp hvalue
      have hzero : i.activeRequests = 0 := (of_decide_eq_true hfree).1
      exact ⟨mem_contents.mpr ⟨id, i, hget, rfl⟩, congrArg Nat.cast hzero⟩
    · rintro ⟨hx, hzero⟩
      obtain ⟨hnot, hslug⟩ := hopen x hx
      obtain ⟨id, i, hget, rfl⟩ := mem_contents.mp hx
      refine ⟨i, List.mem_filter.mpr ⟨KeyedMap.mem_values.mpr ⟨id, hget⟩, decide_eq_true ?_⟩, rfl⟩
      exact ⟨Int.natCast_eq_zero.mp hzero, fun hyes => Bool.false_ne_true (hnot.symm.trans hyes), hslug⟩
  have hsorted : ((idle.insertionSort r).map Model.ofInstance).Pairwise
      fun x y => x.lastUse ≤ y.lastUse :=
    List.pairwise_map.mpr (List.pairwise_insertionSort r idle)
  have hsame : (idle.insertionSort r).map Model.ofInstance = order := by
    refine List.Perm.eq_of_pairwise ?_ hsorted (h.sorted.imp le_of_lt) (hperm.trans ?_)
    · intro x y hx hy hxy hyx
      have hx' := (h.mem x).mp ((hmem x).mp (hperm.mem_iff.mp hx))
      exact hdistinct x hx'.1 y ((h.mem y).mp hy).1 (le_antisymm hxy hyx)
    · exact (List.perm_ext_iff_of_nodup hnodup h.nodup).mpr hmem
  rw [← hsame, List.map_map]
  rfl

theorem usedRamMb_eq (hp : Named Model.ofInstance p.instances) :
    usedRamMb p = ∑ x ∈ hosted p, x.ram :=
  hp.total fun _ => rfl

theorem evictEach_eq (cfg : Config) (needMb : ℕ) (hp : Named Model.ofInstance p.instances)
    (h : LruOrder Model.lastUse Model.Idle (hosted p) order) :
    hosted (evictEach cfg needMb (order.map Model.model_id) p).1 =
        hosted p \ (evict Model.ram cfg.totalRamBudgetMb needMb (hosted p) order).1.toFinset ∧
      (if (evict Model.ram cfg.totalRamBudgetMb needMb (hosted p) order).2 then
          (evictEach cfg needMb (order.map Model.model_id) p).2 = .ok ()
        else ∃ message, (evictEach cfg needMb (order.map Model.model_id) p).2 =
          .error ⟨"OOM", message⟩) := by
  induction order generalizing p with
  | nil =>
    by_cases hfits : Fits Model.ram cfg.totalRamBudgetMb needMb (hosted p)
    · have hroom : ¬ cfg.totalRamBudgetMb < usedRamMb p + needMb :=
        not_lt.mpr (usedRamMb_eq hp ▸ hfits)
      simp [evictEach, evict, hfits, hroom]
    · have hroom : cfg.totalRamBudgetMb < usedRamMb p + needMb :=
        not_le.mp (usedRamMb_eq hp ▸ hfits)
      simp [evictEach, evict, hfits, hroom, oom]
  | cons x rest ih =>
    by_cases hfits : Fits Model.ram cfg.totalRamBudgetMb needMb (hosted p)
    · have hroom : usedRamMb p + needMb ≤ cfg.totalRamBudgetMb := usedRamMb_eq hp ▸ hfits
      simp [evictEach, evict, hfits, hroom]
    · have hroom : ¬ usedRamMb p + needMb ≤ cfg.totalRamBudgetMb := usedRamMb_eq hp ▸ hfits
      obtain ⟨hx, -⟩ := (h.mem x).mp List.mem_cons_self
      have hrest : hosted (unloadModel p x.model_id) = (hosted p).erase x := hp.contents_delete hx
      have hwalk := ih (p := unloadModel p x.model_id) (hp.delete x.model_id) (hrest ▸ h.erase)
      rw [hrest] at hwalk
      rw [List.map_cons, evictEach, if_neg hroom, evict, if_neg hfits, sdiff_cons]
      exact hwalk

theorem evictAlone_eq (hp : Named Model.ofInstance p.instances) (hdistinct : Distinct (hosted p))
    (hopen : Unprotected cfg slugs (hosted p))
    (h : LruOrder Model.lastUse Model.Idle (hosted p) order) :
    evictAlone cfg p needMb slugs = evictEach cfg needMb (order.map Model.model_id) p := by
  rw [evictAlone, evictionCandidates_eq hp hdistinct hopen h]
  split
  · rename_i hfits
    cases order with
    | nil => simp [evictEach, hfits]
    | cons x rest => simp [evictEach, hfits]
  · rfl

/-! ### The walk as steps of a load -/

variable {l : ℕ} {load : Load}

theorem setLoad_setLoad' (p : LlamaPool.Pool) (l : ℕ) (pc next : LlamaPool.LoadPc) :
    (p.setLoad l pc).setLoad l next = p.setLoad l next := by
  simp only [Pool.setLoad, List.modify_modify_eq]
  rfl

theorem evictLoop_setLoad (cfg : Config) (p : LlamaPool.Pool) (l needMb : ℕ) (slugs : List String)
    (pc : LlamaPool.LoadPc) (candidates : List String) :
    evictLoop cfg (p.setLoad l pc) l needMb slugs candidates =
      evictLoop cfg p l needMb slugs candidates := by
  have hused : usedRamMb (p.setLoad l pc) = usedRamMb p := rfl
  cases candidates with
  | nil =>
    simp only [evictLoop, hused, setLoad_setLoad']
    rfl
  | cons candidate rest =>
    have hunload : (unloadModel (p.setLoad l pc) candidate).setLoad l (.evicting needMb slugs rest) =
        (unloadModel p candidate).setLoad l (.evicting needMb slugs rest) :=
      setLoad_setLoad' (unloadModel p candidate) _ _ _
    simp only [evictLoop, hused, setLoad_setLoad', hunload]

def afterEvictForBudget (needMb : ℕ) : Except EngineError Unit → LlamaPool.LoadPc
  | .ok () => .port needMb
  | .error e => .settled (.rejected e)

theorem evictEach_steps (hl : p.loads[l]? = some load) (candidates : List String) :
    ∃ rounds, run (LlamaPool.step cfg) (evictLoop cfg p l needMb slugs candidates)
        (List.replicate rounds (.loadStep l .unloaded)) =
      some ((evictEach cfg needMb candidates p).1.setLoad l
        (afterEvictForBudget needMb (evictEach cfg needMb candidates p).2)) := by
  induction candidates generalizing p with
  | nil =>
    refine ⟨0, congrArg some ?_⟩
    simp only [evictLoop, evictEach]
    split <;> rfl
  | cons candidate rest ih =>
    by_cases hfits : usedRamMb p + needMb ≤ cfg.totalRamBudgetMb
    · refine ⟨0, congrArg some ?_⟩
      rw [evictLoop, evictEach, if_pos hfits, if_pos hfits]
      rfl
    · have hloads : (unloadModel p candidate).loads[l]? = some load := hl
      obtain ⟨rounds, hrun⟩ := ih hloads
      have hresume : LlamaPool.step cfg ((unloadModel p candidate).setLoad l (.evicting needMb slugs rest))
          (.loadStep l .unloaded) = some (evictLoop cfg (unloadModel p candidate) l needMb slugs rest) := by
        simp only [LlamaPool.step, LlamaPoolSteps.loads_setLoad, hloads, Option.map_some, if_pos,
          Option.bind_some, LlamaPool.resumeLoad, evictLoop_setLoad]
      refine ⟨rounds + 1, ?_⟩
      rw [evictLoop, if_neg hfits, List.replicate_succ, run_cons, hresume, Option.bind_some, hrun,
        evictEach, if_neg hfits]

/-- A load whose own steps are the only ones evicts as `evictAlone` does. -/
theorem evictAlone_steps (hl : p.loads[l]? = some load) :
    ∃ inputs : List LlamaPool.LoadInput,
      run (LlamaPool.step cfg) (p.setLoad l (evictForBudget cfg p needMb)) (inputs.map (.loadStep l)) =
        some ((evictAlone cfg p needMb slugs).1.setLoad l
          (afterEvictForBudget needMb (evictAlone cfg p needMb slugs).2)) := by
  by_cases hfits : usedRamMb p + needMb ≤ cfg.totalRamBudgetMb
  · refine ⟨[], congrArg some ?_⟩
    rw [evictForBudget, evictAlone, if_pos hfits, if_pos hfits]
    rfl
  · obtain ⟨rounds, hrun⟩ : ∃ rounds, run (LlamaPool.step cfg)
        (evictLoop cfg p l needMb slugs (evictionCandidates cfg p slugs)) _ = some _ :=
      evictEach_steps hl (evictionCandidates cfg p slugs)
    have hread : LlamaPool.step cfg (p.setLoad l (.reservations needMb))
        (.loadStep l (.reservations slugs)) =
          some (evictLoop cfg p l needMb slugs (evictionCandidates cfg p slugs)) := by
      have hsame : evictionCandidates cfg (p.setLoad l (.reservations needMb)) slugs =
          evictionCandidates cfg p slugs := rfl
      simp only [LlamaPool.step, LlamaPoolSteps.loads_setLoad, hl, Option.map_some, if_pos,
        Option.bind_some, LlamaPool.resumeLoad, evictLoop_setLoad, hsame]
    refine ⟨.reservations slugs :: List.replicate rounds .unloaded, ?_⟩
    rw [evictForBudget, if_neg hfits, List.map_cons, List.map_replicate, run_cons, hread,
      Option.bind_some, hrun, evictAlone, if_neg hfits]

end Gateway

/-! ## Agreement -/

/-- From the same models the two engines fail together, and leave the same
models; what goes is idle, and is the shortest prefix of the idle models by last
use that makes room. -/
theorem engines_agree {p : ModelPool.Pool} {q : LlamaPool.Pool} {cfg : LlamaPool.Config}
    {slugs : List String} (hp : Named Model.ofResident p.models)
    (hq : Named Model.ofInstance q.instances) (same : models p = hosted q)
    (hdistinct : Distinct (models p)) (hopen : Unprotected cfg slugs (models p)) (needed : ℕ) :
    ∃ order victims rust gateway, LruOrder Model.lastUse Model.Idle (models p) order ∧
      (∀ fuel, order.length < fuel →
        ModelPool.evict_until cfg.totalRamBudgetMb needed fuel p = some rust) ∧
      LlamaPool.evictAlone cfg q needed slugs = gateway ∧
      models rust.1 = models p \ victims.toFinset ∧ hosted gateway.1 = models rust.1 ∧
      (∀ x ∈ victims, x.active = 0) ∧
      ((rust.2 = .ok () ∧ gateway.2 = .ok () ∧
          ShortestPrefix Model.ram cfg.totalRamBudgetMb needed (models p) order victims) ∨
        ((∃ message, rust.2 = .error (.Oom message)) ∧
          (∃ message, gateway.2 = .error ⟨"OOM", message⟩) ∧ victims = order ∧
          ∀ other, other <+: order →
            ¬ Fits Model.ram cfg.totalRamBudgetMb needed (models p \ other.toFinset))) := by
  obtain ⟨order, horder⟩ : ∃ order, LruOrder Model.lastUse Model.Idle (models p) order :=
    exists_lruOrder hdistinct
  obtain ⟨left, result, hrust, hleft, hresult⟩ := evict_until_eq cfg.totalRamBudgetMb needed hp horder
  have hgateway := evictEach_eq cfg needed hq (same ▸ horder)
  rw [← evictAlone_eq hq (same ▸ hdistinct) (same ▸ hopen) (same ▸ horder), ← same] at hgateway
  refine ⟨order, (evict Model.ram cfg.totalRamBudgetMb needed (models p) order).1, (left, result),
    LlamaPool.evictAlone cfg q needed slugs, horder, hrust, rfl, hleft, ?_, ?_, ?_⟩
  · rw [hleft]
    exact hgateway.1
  · intro x hx
    exact ((horder.mem x).mp ((evict_isPrefix _ _).subset hx)).2
  · cases hok : (evict Model.ram cfg.totalRamBudgetMb needed (models p) order).2 with
    | true =>
      rw [hok] at hresult hgateway
      exact .inl ⟨hresult, hgateway.2, evict_of_fits hok⟩
    | false =>
      rw [hok] at hresult hgateway
      exact .inr ⟨hresult, hgateway.2, evict_of_not_fits hok⟩

/-- A pool of two idle models, of 300 MB and 400 MB. -/
def rustSample : ModelPool.Pool :=
  ModelPool.insert_model (ModelPool.insert_model .new "a" 300 1) "b" 400 2

def gatewaySample : LlamaPool.Pool :=
  LlamaPool.insertInstance (LlamaPool.insertInstance .initial "a" 300 9100 1) "b" 400 9101 2

theorem engines_agree_on_two_models :
    ∃ order victims rust gateway, LruOrder Model.lastUse Model.Idle (models rustSample) order ∧
      (∀ fuel, order.length < fuel → ModelPool.evict_until 1000 500 fuel rustSample = some rust) ∧
      LlamaPool.evictAlone LlamaPool.sampleConfig gatewaySample 500 ["c"] = gateway ∧
      models rust.1 = models rustSample \ victims.toFinset ∧ hosted gateway.1 = models rust.1 ∧
      (∀ x ∈ victims, x.active = 0) ∧
      ((rust.2 = .ok () ∧ gateway.2 = .ok () ∧
          ShortestPrefix Model.ram 1000 500 (models rustSample) order victims) ∨
        ((∃ message, rust.2 = .error (.Oom message)) ∧
          (∃ message, gateway.2 = .error ⟨"OOM", message⟩) ∧ victims = order ∧
          ∀ other, other <+: order → ¬ Fits Model.ram 1000 500 (models rustSample \ other.toFinset))) := by
  have hp : Named Model.ofResident rustSample.models := named_iff.mpr (by decide +kernel)
  have hq : Named Model.ofInstance gatewaySample.instances := named_iff.mpr (by decide +kernel)
  have same : models rustSample = hosted gatewaySample := by decide +kernel
  have hdistinct : Distinct (models rustSample) := by
    unfold Distinct
    decide +kernel
  have hopen : Unprotected LlamaPool.sampleConfig ["c"] (models rustSample) := by
    unfold Unprotected
    decide +kernel
  exact engines_agree hp hq same hdistinct hopen 500

end ModelForge.EvictionAgreement
