import ModelForge.ModelPoolSteps
import ModelForge.CheckThenAct

set_option autoImplicit false

/-!
# The capacity of the model pool

`load_model` looks for the model, reads the RAM in use and inserts in three
separate critical sections. The budget holds and no entry is replaced as long as
no other load has inserted the same model since the look-up and what others have
inserted since the reading still fits.
-/
namespace ModelForge.ModelPoolBudget
open ModelPool ModelPoolSteps RunInvariant CheckThenAct Participants

variable {budget : ℕ} {p q : Pool}

/-- No `load_model` call inserts over an entry that is there, and the RAM in use
is within the budget. -/
structure WithinCapacity (budget : ℕ) (p : Pool) (e : Event) (q : Pool) : Prop where
  replaces : ∀ l load, inserts p e = some l → p.loads[l]? = some load →
    p.models.get? load.model_id = none
  ram : used_ram_mb q ≤ budget

/-! ## Models that arrived since a load's look-up -/

/-- For each load, the models that have entered the pool since it looked for its
own and that are still there. -/
abbrev Arrivals := ℕ → List String

def noteArrivals (p : Pool) (e : Event) (q : Pool) (arrived : Arrivals) (l : ℕ) : List String :=
  let since := (arrived l ++ q.models.keys.filter fun id => id ∉ p.models.keys).filter fun id =>
    id ∈ q.models.keys
  match e with
  | .load _ _ => if l = p.loads.length then [] else since
  | _ => since

def arrivalStep (budget : ℕ) : Pool × Arrivals → Event → Option (Pool × Arrivals) :=
  observed (step budget) noteArrivals

/-- The load that inserts finds its model not arrived since it looked. -/
def NotArrived (a : Pool × Arrivals) (e : Event) : Prop :=
  ∀ l load, inserts a.1 e = some l → a.1.loads[l]? = some load → load.model_id ∉ a.2 l

/-- A load that has not returned has its model's presence noted. -/
def Noted (a : Pool × Arrivals) : Prop :=
  ∀ l load, a.1.loads[l]? = some load → returned load.pc = false →
    (load.model_id ∈ a.1.models.keys ↔ load.model_id ∈ a.2 l)

theorem mem_noteArrivals {e : Event} {arrived : Arrivals} {l : ℕ} {id : String}
    (h : id ∈ p.models.keys ↔ id ∈ arrived l)
    (hl : ∀ model_id w, e = .load model_id w → l ≠ p.loads.length) :
    id ∈ q.models.keys ↔ id ∈ noteArrivals p e q arrived l := by
  have hsince : noteArrivals p e q arrived l =
      (arrived l ++ q.models.keys.filter fun id => id ∉ p.models.keys).filter fun id =>
        id ∈ q.models.keys := by
    cases e with
    | load model_id w => exact if_neg (hl model_id w rfl)
    | _ => rfl
  rw [hsince, List.mem_filter, List.mem_append, List.mem_filter]
  by_cases hq : id ∈ q.models.keys
  · by_cases hp : id ∈ p.models.keys
    · simp [hq, h.mp hp]
    · simp [hq, hp]
  · simp [hq]

/-- The loads of `q` that have not returned are those of `p`. -/
def KeepsLoads (p q : Pool) : Prop :=
  ∀ {l : ℕ} {load : LoadCall}, q.loads[l]? = some load → returned load.pc = false →
    ∃ old, p.loads[l]? = some old ∧ old.model_id = load.model_id ∧ returned old.pc = false

theorem keepsLoads_of_eq (h : q.loads = p.loads) : KeepsLoads p q :=
  fun hl hpc => ⟨_, h ▸ hl, rfl, hpc⟩

theorem keepsLoads_setLoad {u : Pool} {l : ℕ} {load : LoadCall} {next : LoadPc}
    (hu : u.loads = p.loads) (hl : p.loads[l]? = some load) (hpc : returned load.pc = false) :
    KeepsLoads p (u.setLoad l next) := by
  intro j other hj hother
  rcases load_of_setLoad hj with ⟨rfl, old, hold, rfl⟩ | ⟨-, hold⟩
  · rw [hu, hl] at hold
    obtain rfl := Option.some.inj hold
    exact ⟨load, hl, rfl, hpc⟩
  · exact ⟨other, hu ▸ hold, rfl, hother⟩

theorem loads_of_unload {model_id : String} (h : unload_model p model_id = .ok q) :
    q.loads = p.loads := by
  rw [(unload_model_ok h).2]

theorem step_keepsLoads {e : Event} (h : step budget p e = some q)
    (he : ∀ model_id w, e ≠ .load model_id w) : KeepsLoads p q := by
  cases e with
  | load model_id w => exact absurd rfl (he model_id w)
  | loadStep l input =>
    obtain ⟨load, hl, hresume⟩ := Option.bind_eq_some_iff.mp h
    cases resumeLoad_move hresume with
    | wait _ hpc _ => exact keepsLoads_setLoad rfl hl hpc
    | evict hpc u hu => exact keepsLoads_setLoad (loads_of_unload hu) hl (hpc ▸ rfl)
    | insert now hpc => exact keepsLoads_setLoad rfl hl (hpc ▸ rfl)
  | unload model_id =>
    simp only [step] at h
    split at h <;> obtain rfl := Option.some.inj h
    · rename_i hu
      exact keepsLoads_of_eq (loads_of_unload hu)
    · exact keepsLoads_of_eq rfl
  | generate model_id =>
    obtain rfl := Option.some.inj h
    exact keepsLoads_of_eq rfl
  | callStep c input =>
    obtain ⟨call, hc, hresume⟩ := Option.bind_eq_some_iff.mp h
    cases resumeCall_move hresume with
    | quiet _ _ _ => exact keepsLoads_of_eq rfl
    | acts _ _ _ _ => exact keepsLoads_of_eq rfl

theorem Noted.step {a : Pool × Arrivals} (ha : Noted a) {e : Event} (h : step budget a.1 e = some q) :
    Noted (q, noteArrivals a.1 e q a.2) := by
  intro l load hl hpc
  change load.model_id ∈ q.models.keys ↔ load.model_id ∈ noteArrivals a.1 e q a.2 l
  by_cases he : ∃ model_id w, e = .load model_id w
  · obtain ⟨model_id, w, rfl⟩ := he
    obtain rfl := Option.some.inj h
    change (a.1.loads ++ [_])[l]? = some load at hl
    rcases get_of_concat hl with hl | ⟨hlen, rfl⟩
    · have hlt : l < a.1.loads.length := (List.getElem?_eq_some_iff.mp hl).1
      exact mem_noteArrivals (ha l load hl hpc) fun _ _ _ => Nat.ne_of_lt hlt
    · rw [noteArrivals, if_pos hlen]
      refine ⟨fun hmem => ?_, nofun⟩
      change model_id ∈ a.1.models.keys at hmem
      obtain ⟨m, hm⟩ := Option.isSome_iff_exists.mp (KeyedMap.mem_keys.mp hmem)
      simp only [hm] at hpc
      split at hpc <;> cases hpc
  · obtain ⟨old, hold, hid, hopen⟩ := step_keepsLoads h (fun model_id w hew => he ⟨model_id, w, hew⟩)
      hl hpc
    rw [← hid]
    exact mem_noteArrivals (ha l old hold hopen) fun model_id w hew => absurd ⟨model_id, w, hew⟩ he

theorem Noted.arrivalStep {a b : Pool × Arrivals} (ha : Noted a) {e : Event}
    (h : arrivalStep budget a e = some b) : Noted b := by
  obtain ⟨hstep, hnotes⟩ := observed_eq_some h
  have hb : b = (b.1, noteArrivals a.1 e b.1 a.2) := Prod.ext rfl hnotes
  rw [hb]
  exact ha.step hstep

/-! ## The budget -/

/-- The RAM that a load's last reading of the pool allows it. -/
def passed (p : Pool) (l : ℕ) : Option ℕ :=
  (p.loads[l]?).bind fun load => if mayInsert load.pc then some load.weights.ram else none

def sharedRam (budget : ℕ) : Shared (Pool × Arrivals) Event ℕ where
  step := arrivalStep budget
  used a := used_ram_mb a.1
  budget := budget
  passed a := passed a.1
  acts a := inserts a.1

/-- The step adds no model, and a load that comes to may insert has read the RAM
in use in this step. -/
structure NoInsertion (budget : ℕ) (p q : Pool) : Prop where
  used : used_ram_mb q ≤ used_ram_mb p
  passes : ∀ {i need : ℕ}, passed q i = some need → passed p i = some need ∨
    passed p i = none ∧ used_ram_mb q + need ≤ budget

theorem noInsertion_of_loads (hused : used_ram_mb q ≤ used_ram_mb p) (hloads : q.loads = p.loads) :
    NoInsertion budget p q := by
  refine ⟨hused, fun {i need} hi => .inl ?_⟩
  rwa [passed, hloads] at hi

theorem used_ram_mb_unload {model_id : String} (h : unload_model p model_id = .ok q) :
    used_ram_mb q ≤ used_ram_mb p := by
  rw [(unload_model_ok h).2]
  exact used_ram_mb_delete_le p model_id

theorem noInsertion_setLoad {u : Pool} {l : ℕ} {load : LoadCall} {next : LoadPc}
    (hloads : u.loads = p.loads) (hused : used_ram_mb u ≤ used_ram_mb p) (hl : p.loads[l]? = some load)
    (hnext : mayInsert next = true → mayInsert load.pc = false ∧
      used_ram_mb u + load.weights.ram ≤ budget) : NoInsertion budget p (u.setLoad l next) := by
  refine ⟨hused, fun {i need} hi => ?_⟩
  obtain ⟨other, hother, hneed⟩ := Option.bind_eq_some_iff.mp hi
  rcases load_of_setLoad hother with ⟨rfl, old, hold, rfl⟩ | ⟨-, hold⟩
  · rw [hloads, hl] at hold
    obtain rfl := Option.some.inj hold
    rw [Option.ite_none_right_eq_some] at hneed
    obtain ⟨hinsert, hneed⟩ := hneed
    obtain ⟨hnot, hfits⟩ := hnext hinsert
    obtain rfl := Option.some.inj hneed
    refine .inr ⟨?_, hfits⟩
    rw [passed, hl, Option.bind_some, if_neg (by simp [hnot])]
  · exact .inl (Option.bind_eq_some_iff.mpr ⟨other, hloads ▸ hold, hneed⟩)

theorem passed_load_model (p : Pool) (model_id : String) (w : Weights) (i : ℕ) :
    passed (load_model p model_id w) i = passed p i := by
  change ((p.loads ++ [_])[i]?).bind _ = (p.loads[i]?).bind _
  apply bind_concat
  split
  · rfl
  · split <;> rfl

theorem step_noInsertion {e : Event} (h : step budget p e = some q) (hin : inserts p e = none) :
    NoInsertion budget p q := by
  cases e with
  | load model_id w =>
    obtain rfl := Option.some.inj h
    refine ⟨Nat.le_refl _, fun {i need} hi => .inl ?_⟩
    rwa [passed_load_model] at hi
  | loadStep l input =>
    obtain ⟨load, hl, hresume⟩ := Option.bind_eq_some_iff.mp h
    cases resumeLoad_move hresume with
    | wait _ _ hnext => exact noInsertion_setLoad rfl (Nat.le_refl _) hl hnext
    | evict hpc u hu =>
      exact noInsertion_setLoad (loads_of_unload hu) (used_ram_mb_unload hu) hl nofun
    | insert now hpc =>
      rw [inserts, hl, Option.bind_some, hpc] at hin
      cases hin
  | unload model_id =>
    simp only [step] at h
    split at h <;> obtain rfl := Option.some.inj h
    · rename_i hu
      exact noInsertion_of_loads (used_ram_mb_unload hu) (loads_of_unload hu)
    · exact noInsertion_of_loads (Nat.le_refl _) rfl
  | generate model_id =>
    obtain rfl := Option.some.inj h
    exact noInsertion_of_loads (Nat.le_refl _) rfl
  | callStep c input =>
    obtain ⟨call, hc, hresume⟩ := Option.bind_eq_some_iff.mp h
    cases resumeCall_move hresume with
    | quiet _ _ _ => exact noInsertion_of_loads (Nat.le_refl _) rfl
    | acts _ _ hf _ =>
      exact noInsertion_of_loads (used_ram_mb_update p _ _ fun m => (hf m).2.2).le rfl

theorem insertion_of_step {e : Event} (h : step budget p e = some q) {i : ℕ}
    (hin : inserts p e = some i) :
    ∃ load now, p.loads[i]? = some load ∧ load.pc = .insert ∧
      q = (insert_model p load.model_id load.weights.ram now).setLoad i
        (.returned (.ok load.weights.ram)) := by
  cases e with
  | loadStep l input =>
    cases input with
    | insert now =>
      obtain ⟨load, hl, hresume⟩ := Option.bind_eq_some_iff.mp h
      rw [inserts, hl, Option.bind_some, Option.ite_none_right_eq_some] at hin
      obtain rfl := Option.some.inj hin.2
      cases resumeLoad_move hresume with
      | wait hnot _ _ => exact absurd rfl (hnot now)
      | insert _ hpc => exact ⟨load, now, hl, hpc, rfl⟩
    | _ => cases hin
  | _ => cases hin

theorem notArrived_iff {a : Pool × Arrivals} (ha : Noted a) {e : Event}
    (h : step budget a.1 e = some q) :
    NotArrived a e ↔ ∀ l load, inserts a.1 e = some l → a.1.loads[l]? = some load →
      a.1.models.get? load.model_id = none := by
  have hiff : ∀ l load, inserts a.1 e = some l → a.1.loads[l]? = some load →
      (load.model_id ∉ a.2 l ↔ a.1.models.get? load.model_id = none) := by
    intro l load hin hl
    obtain ⟨load', now, hl', hpc, -⟩ := insertion_of_step h hin
    obtain rfl := Option.some.inj (hl.symm.trans hl')
    rw [← ha l load hl (hpc ▸ rfl), KeyedMap.not_mem_keys]
  exact ⟨fun hn l load hin hl => (hiff l load hin hl).mp (hn l load hin hl),
    fun hn l load hin hl => (hiff l load hin hl).mpr (hn l load hin hl)⟩

theorem sharedRam_lawful (budget : ℕ) : (sharedRam budget).Lawful Noted NotArrived where
  keep ha h _ := ha.arrivalStep h
  passes {a b e i need} ha h hi := by
    have hstep := (observed_eq_some h).1
    cases hin : inserts a.1 e with
    | none => exact (step_noInsertion hstep hin).passes hi
    | some l =>
      obtain ⟨load, now, hl, hpc, hq⟩ := insertion_of_step hstep hin
      obtain ⟨other, hother, hneed⟩ := Option.bind_eq_some_iff.mp hi
      rw [hq] at hother
      rcases load_of_setLoad hother with ⟨rfl, old, -, rfl⟩ | ⟨-, hold⟩
      · cases hneed
      · exact .inl (Option.bind_eq_some_iff.mpr ⟨other, hold, hneed⟩)
  adds {a b e i} ha h hclean hin := by
    have hstep := (observed_eq_some h).1
    obtain ⟨load, now, hl, hpc, hq⟩ := insertion_of_step hstep hin
    refine ⟨load.weights.ram, ?_, ?_⟩
    · change passed a.1 i = _
      rw [passed, hl, Option.bind_some, hpc]
      rfl
    · change used_ram_mb b.1 = _
      rw [hq]
      exact used_ram_mb_insert ((notArrived_iff ha hstep).mp hclean i load hin hl) _ now
  others ha h hin := (step_noInsertion (observed_eq_some h).1 hin).used

/-- In a run, the RAM in use stays within the budget and no load replaces an
entry exactly where, at every insertion, no other load has inserted the model
since this load looked for it (unless it has left again), and what others have
inserted since its last reading fits in the room that it read and in what has
left since. -/
theorem within_capacity_iff (budget : ℕ) (events : List Event) :
    EveryStep (step budget) (WithinCapacity budget) .new events ↔
      EveryStep (sharedRam budget).watched
        (fun a e _ => NotArrived a.1 e ∧ (sharedRam budget).ActFits a e)
        ((.new, fun _ => []), fun _ => ⟨0, 0, 0⟩) events := by
  have hnoted : Noted (.new, fun _ => []) := fun _ _ hl => by cases hl
  rw [← (sharedRam_lawful budget).within_budget_iff hnoted (Nat.zero_le _) (fun _ => rfl),
    ← everyStep_observed noteArrivals (WithinCapacity budget) .new fun _ => []]
  refine everyStep_iff_guarded Noted _ _ ?_ ?_ hnoted events
  · rintro a e b ha hb ⟨hclean, hram⟩
    exact ⟨⟨(notArrived_iff ha (observed_eq_some hb).1).mp hclean, hram⟩, ha.arrivalStep hb⟩
  · rintro a e b ha hb ⟨hreplaces, hram⟩
    exact ⟨(notArrived_iff ha (observed_eq_some hb).1).mpr hreplaces, hram⟩

/-- Two loads of `m` look for it before either inserts: the second replaces the
first one's entry. -/
theorem second_load_replaces_entry :
    let load := fun _ => Event.load "m" ⟨false, none⟩
    let events := [load 0, load 1, .loadStep 0 .measure, .loadStep 1 .measure,
      .loadStep 0 (.insert 0)] ++ [.loadStep 1 (.insert 1)]
    ¬ EveryStep (step 1000) (WithinCapacity 1000) .new events := by
  intro load events hwithin
  have hthere : (run (step 1000) .new events.dropLast).map (fun p =>
      (inserts p (.loadStep 1 (.insert 1)), (p.loads[1]?).map LoadCall.model_id,
        (p.models.get? "m").isSome, (step 1000 p (.loadStep 1 (.insert 1))).isSome)) =
      some (some 1, some "m", true, true) := by
    decide
  obtain ⟨p, hp, hfacts⟩ := Option.map_eq_some_iff.mp hthere
  simp only [Prod.mk.injEq, Option.map_eq_some_iff, Option.isSome_iff_exists] at hfacts
  obtain ⟨hin, ⟨load, hl, hid⟩, ⟨m, hm⟩, q, hq⟩ := hfacts
  have hlast := (everyStep_iff_cut _ _ events).mp hwithin events.dropLast (.loadStep 1 (.insert 1)) []
    rfl p q hp hq
  have hnone := hlast.replaces 1 load hin hl
  rw [hid, hm] at hnone
  cases hnone

end ModelForge.ModelPoolBudget
