import ModelForge.LlamaPoolSteps
import ModelForge.CheckThenAct

set_option autoImplicit false

/-!
# The RAM budget of the llama-server pool

`evictForBudget` checks the budget and `loadModelUnlocked` inserts its instance
after further awaits. The lock keeps one load for each model, so every insertion
adds its own need; the budget holds as long as what other loads have inserted
since the check fits beside it.
-/
namespace ModelForge.LlamaPoolBudget
open LlamaPool LlamaPoolSteps RunInvariant CheckThenAct Participants

variable {cfg : Config} {p q : Pool}

/-! ## One load for each model -/

structure LockInv (p : Pool) : Prop where
  owns : ∀ {l : ℕ} {load : Load}, p.loads[l]? = some load → unlocked load.pc = false →
    p.modelLoadLocks.get? load.req.model_id = some l
  absent : ∀ {l : ℕ} {load : Load}, p.loads[l]? = some load → beforeInsert load.pc = true →
    p.instances.get? load.req.model_id = none

theorem initial_lockInv : LockInv .initial := by
  constructor <;> intro l load h <;> cases h

theorem unlocked_of_beforeInsert {pc : LoadPc} (h : beforeInsert pc = true) :
    unlocked pc = false := by
  cases pc <;> first | rfl | cases h

theorem LockInv.frame (hp : LockInv p) (hloads : q.loads = p.loads)
    (hlocks : q.modelLoadLocks = p.modelLoadLocks)
    (hget : ∀ id, p.instances.get? id = none → q.instances.get? id = none) : LockInv q where
  owns hl hpc := by
    rw [hlocks]
    exact hp.owns (hloads ▸ hl) hpc
  absent hl hpc := hget _ (hp.absent (hloads ▸ hl) hpc)

theorem LockInv.setLoad (hp : LockInv p) {l : ℕ} {load : Load} (hl : p.loads[l]? = some load)
    (hlocked : unlocked load.pc = false) {next : LoadPc}
    (hnext : beforeInsert next = true → beforeInsert load.pc = true) :
    LockInv (p.setLoad l next) := by
  constructor
  · intro j other hj hpc
    rcases load_of_setLoad hj with ⟨rfl, old, hold, rfl⟩ | ⟨-, hold⟩
    · obtain rfl := Option.some.inj (hl.symm.trans hold)
      have hown := hp.owns hl hlocked
      exact hown
    · exact hp.owns hold hpc
  · intro j other hj hpc
    rcases load_of_setLoad hj with ⟨rfl, old, hold, rfl⟩ | ⟨-, hold⟩
    · obtain rfl := Option.some.inj (hl.symm.trans hold)
      have habsent := hp.absent hl (hnext hpc)
      exact habsent
    · exact hp.absent hold hpc

theorem LockInv.unload (hp : LockInv p) (model_id : String) : LockInv (unloadModel p model_id) :=
  hp.frame rfl rfl fun id hid => by
    rw [get?_unload, hid, ite_self]

theorem LockInv.touch (hp : LockInv p) (model_id : String) (child : ℕ) (f : Instance → Instance) :
    LockInv (p.touch model_id child f) :=
  hp.frame rfl rfl fun id hid => by
    rw [get?_touch, hid]
    rfl

theorem LockInv.setRequest (hp : LockInv p) (r : ℕ) (pc : RequestPc) : LockInv (p.setRequest r pc) :=
  hp.frame rfl rfl fun _ hid => hid

/-- The instance goes in under an id that no other load is still to insert. -/
theorem LockInv.insert (hp : LockInv p) {l ramMb : ℕ} {load : Load} (hl : p.loads[l]? = some load)
    (hpc : load.pc = .port ramMb) (port now : ℕ) :
    LockInv ((insertInstance p load.req.model_id ramMb port now).setLoad l (.health ramMb port)) := by
  have hlocked : unlocked load.pc = false := hpc ▸ rfl
  constructor
  · intro j other hj hother
    have hkeep : LockInv (p.setLoad l (.health ramMb port)) := hp.setLoad hl hlocked nofun
    exact hkeep.owns (l := j) hj hother
  · intro j other hj hother
    rcases load_of_setLoad hj with ⟨rfl, old, hold, rfl⟩ | ⟨hjl, hold⟩
    · cases hother
    · have hne : other.req.model_id ≠ load.req.model_id := by
        intro hid
        have hown := hp.owns hold (unlocked_of_beforeInsert hother)
        rw [hid, hp.owns hl hlocked] at hown
        exact hjl (Option.some.inj hown).symm
      exact (KeyedMap.get?_set_of_ne hne).trans (hp.absent hold hother)

theorem LockInv.unlock (hp : LockInv p) {l : ℕ} {load : Load} {answer : Answer}
    (hl : p.loads[l]? = some load) (hpc : load.pc = .settled answer) :
    LockInv { p.setLoad l (.unlocked answer) with
      modelLoadLocks := if p.modelLoadLocks.get? load.req.model_id = some l then
        p.modelLoadLocks.delete load.req.model_id else p.modelLoadLocks } := by
  have hlocked : unlocked load.pc = false := hpc ▸ rfl
  have hkeep : LockInv (p.setLoad l (.unlocked answer)) := hp.setLoad hl hlocked nofun
  refine ⟨fun {j other} hj hother => ?_, fun hj hother => hkeep.absent hj hother⟩
  have hown : p.modelLoadLocks.get? other.req.model_id = some j := hkeep.owns hj hother
  split
  · refine (KeyedMap.get?_delete_of_ne ?_).trans hown
    intro hid
    rw [hid, hp.owns hl hlocked] at hown
    obtain rfl := Option.some.inj hown
    rcases load_of_setLoad hj with ⟨-, old, -, rfl⟩ | ⟨hjl, -⟩
    · cases hother
    · exact hjl rfl
  · exact hown

theorem LockInv.loadModel (hp : LockInv p) (cfg : Config) (req : LoadRequest) :
    LockInv (loadModel cfg p req).1 := by
  unfold LlamaPool.loadModel
  split
  · exact hp
  · rename_i hnone
    have hold : ∀ {j : ℕ} {load : Load}, (p.loads ++ [⟨req, beginLoad cfg p req⟩])[j]? = some load →
        p.loads[j]? = some load ∨ j = p.loads.length ∧ load = ⟨req, beginLoad cfg p req⟩ := by
      intro j load hj
      exact get_of_concat hj
    constructor
    · intro j load hj hpc
      rcases hold hj with hj | ⟨rfl, rfl⟩
      · have hown := hp.owns hj hpc
        refine (KeyedMap.get?_set_of_ne ?_).trans hown
        rintro hid
        rw [hid, hnone] at hown
        cases hown
      · exact KeyedMap.get?_set_self _ _ _
    · intro j load hj hpc
      rcases hold hj with hj | ⟨rfl, rfl⟩
      · exact hp.absent hj hpc
      · change p.instances.get? req.model_id = none
        cases hi : p.instances.get? req.model_id with
        | none => rfl
        | some existing =>
          simp only [beginLoad, hi] at hpc
          cases hpc

theorem LockInv.step (hp : LockInv p) {e : Event} (h : step cfg p e = some q) : LockInv q := by
  cases e with
  | load req =>
    obtain rfl := Option.some.inj h
    exact hp.loadModel cfg req
  | loadStep l input =>
    obtain ⟨load, hl, hresume⟩ := Option.bind_eq_some_iff.mp h
    cases resumeLoad_move hresume with
    | wait hin hw => exact hp.setLoad hl hw.locked.1 hw.before
    | evict hfull hlist =>
      refine (hp.unload _).setLoad hl ?_ fun _ => ?_ <;>
        rcases hlist with ⟨hpc, -⟩ | ⟨hpc, -⟩ <;> rw [hpc] <;> rfl
    | failed hpc => exact (hp.unload _).setLoad hl (hpc ▸ rfl) nofun
    | insert port now hpc => exact hp.insert hl hpc port now
    | unlock locks hpc hlocks =>
      subst hlocks
      exact hp.unlock hl hpc
  | unload model_id =>
    obtain rfl := Option.some.inj h
    exact hp.unload model_id
  | childExit model_id child =>
    obtain rfl := Option.some.inj h
    rcases childExit_cases p model_id child with heq | heq <;> rw [heq]
    · exact hp
    · exact hp.unload model_id
  | generate model_id =>
    obtain rfl := Option.some.inj h
    exact hp.frame rfl rfl fun _ hid => hid
  | requestStep r input =>
    obtain ⟨request, hr, hresume⟩ := Option.bind_eq_some_iff.mp h
    cases resumeRequest_move hresume with
    | wait _ _ _ => exact hp.setRequest r _
    | loads req _ => exact (hp.loadModel cfg req).setRequest r _
    | begins now _ => exact (hp.touch _ _ _).setRequest r _
    | finishes now _ => exact (hp.touch _ _ _).setRequest r _

/-! ## The budget -/

/-- The RAM that a load's passed budget check allows it. -/
def passed (p : Pool) (l : ℕ) : Option ℕ := (p.loads[l]?).bind fun load => passedNeed load.pc

def sharedRam (cfg : Config) : Shared Pool Event ℕ where
  step := step cfg
  used := usedRamMb
  budget := cfg.totalRamBudgetMb
  passed := passed
  acts := inserts

theorem passed_setLoad (p : Pool) (l j : ℕ) (pc : LoadPc) :
    passed (p.setLoad l pc) j =
      if l = j then (p.loads[l]?).bind fun _ => passedNeed pc else passed p j := by
  rw [passed, passed, loads_setLoad, Option.bind_map]
  by_cases hlj : l = j
  · subst hlj
    simp
  · simp [hlj]

theorem passed_loadModel (cfg : Config) (p : Pool) (req : LoadRequest) (j : ℕ) :
    passed (loadModel cfg p req).1 j = passed p j := by
  unfold loadModel
  split
  · rfl
  · have hnew : passedNeed (beginLoad cfg p req) = none := by
      unfold beginLoad
      split
      · rfl
      · split <;> rfl
    exact bind_concat (x := ⟨req, beginLoad cfg p req⟩) (g := fun load => passedNeed load.pc) hnew p.loads j

theorem usedRamMb_loadModel (cfg : Config) (p : Pool) (req : LoadRequest) :
    usedRamMb (loadModel cfg p req).1 = usedRamMb p := by
  unfold loadModel
  split <;> rfl

/-- Outside insertions a step adds no instance, and a load that comes to have
passed its check has made it in this step. -/
structure NoInsertion (cfg : Config) (p q : Pool) : Prop where
  used : usedRamMb q ≤ usedRamMb p
  passes : ∀ {i needMb : ℕ}, passed q i = some needMb → passed p i = some needMb ∨
    passed p i = none ∧ usedRamMb q + needMb ≤ cfg.totalRamBudgetMb

theorem noInsertion_of_passed (hused : usedRamMb q ≤ usedRamMb p)
    (hpassed : ∀ i, passed q i = passed p i) : NoInsertion cfg p q :=
  ⟨hused, fun {i _} hi => .inl (hpassed i ▸ hi)⟩

theorem noInsertion_setLoad {u : Pool} {l : ℕ} {next : LoadPc} (hloads : u.loads = p.loads)
    (hused : usedRamMb u ≤ usedRamMb p) (hnext : passedNeed next = none) :
    NoInsertion cfg p (u.setLoad l next) := by
  refine ⟨hused, fun {i need} hi => .inl ?_⟩
  rw [passed_setLoad] at hi
  split at hi
  · simp [hnext] at hi
  · rw [passed, hloads] at hi
    exact hi

theorem load_noInsertion {l : ℕ} {load : Load} {input : LoadInput} (hl : p.loads[l]? = some load)
    (h : LoadMove cfg p l load input q) (hin : insertsAt load.pc input = false) :
    NoInsertion cfg p q := by
  cases h with
  | @wait _ next _ hw =>
    refine ⟨Nat.le_refl _, fun {i need} hi => ?_⟩
    rw [passed_setLoad] at hi
    split at hi
    · rename_i hli
      subst hli
      rw [hl] at hi
      have hnext : next = .port need := by
        cases next <;> first | rfl | cases hi
        rfl
      obtain ⟨hnone, hfits⟩ := hw.checked need hnext
      exact .inr ⟨by rw [passed, hl]; exact hnone, hfits⟩
    · exact .inl hi
  | evict _ _ => exact noInsertion_setLoad rfl (usedRamMb_unload_le p _) rfl
  | failed _ => exact noInsertion_setLoad rfl (usedRamMb_unload_le p _) rfl
  | insert port now hpc =>
    rw [hpc] at hin
    cases hin
  | @unlock answer locks _ _ =>
    have hset : NoInsertion cfg p (p.setLoad l (.unlocked answer)) :=
      noInsertion_setLoad rfl (Nat.le_refl _) rfl
    exact ⟨hset.used, hset.passes⟩

theorem noInsertion_touch (model_id : String) (child r : ℕ) {pc : RequestPc}
    {f : Instance → Instance} (hf : ∀ i, (f i).ramMb = i.ramMb) :
    NoInsertion cfg p ((p.touch model_id child f).setRequest r pc) :=
  noInsertion_of_passed (usedRamMb_touch p model_id child hf).le fun _ => rfl

theorem step_noInsertion {e : Event} (h : step cfg p e = some q) (hin : inserts p e = none) :
    NoInsertion cfg p q := by
  cases e with
  | load req =>
    obtain rfl := Option.some.inj h
    exact noInsertion_of_passed (usedRamMb_loadModel cfg p req).le (passed_loadModel cfg p req)
  | loadStep l input =>
    obtain ⟨load, hl, hresume⟩ := Option.bind_eq_some_iff.mp h
    refine load_noInsertion hl (resumeLoad_move hresume) ?_
    simpa [inserts, hl] using hin
  | unload model_id =>
    obtain rfl := Option.some.inj h
    exact noInsertion_of_passed (usedRamMb_unload_le p model_id) fun _ => rfl
  | childExit model_id child =>
    obtain rfl := Option.some.inj h
    rcases childExit_cases p model_id child with heq | heq <;> rw [heq]
    · exact noInsertion_of_passed (Nat.le_refl _) fun _ => rfl
    · exact noInsertion_of_passed (usedRamMb_unload_le p model_id) fun _ => rfl
  | generate model_id =>
    obtain rfl := Option.some.inj h
    exact noInsertion_of_passed (Nat.le_refl _) fun _ => rfl
  | requestStep r input =>
    obtain ⟨request, hr, hresume⟩ := Option.bind_eq_some_iff.mp h
    cases resumeRequest_move hresume with
    | wait _ _ _ => exact noInsertion_of_passed (Nat.le_refl _) fun _ => rfl
    | loads req _ =>
      exact noInsertion_of_passed (usedRamMb_loadModel cfg p req).le (passed_loadModel cfg p req)
    | begins now _ => exact noInsertion_touch _ _ _ fun _ => rfl
    | finishes now _ => exact noInsertion_touch _ _ _ fun _ => rfl

/-- An insertion adds the need that its load's check allowed. -/
theorem insertion_of_step (hp : LockInv p) {e : Event} (h : step cfg p e = some q) {i : ℕ}
    (hin : inserts p e = some i) :
    ∃ load ramMb port now, p.loads[i]? = some load ∧ load.pc = .port ramMb ∧
      usedRamMb q = usedRamMb p + ramMb ∧
      q = (insertInstance p load.req.model_id ramMb port now).setLoad i (.health ramMb port) := by
  cases e with
  | loadStep l input =>
    obtain ⟨load, hl, hresume⟩ := Option.bind_eq_some_iff.mp h
    rw [inserts, hl, Option.bind_some, Option.ite_none_right_eq_some] at hin
    obtain ⟨hat, hli⟩ := hin
    obtain rfl := Option.some.inj hli
    cases resumeLoad_move hresume with
    | insert port now hpc =>
      have habsent := hp.absent hl (hpc ▸ rfl)
      exact ⟨load, _, port, now, hl, hpc, usedRamMb_insert habsent _ port now, rfl⟩
    | wait hnot _ => rw [hnot] at hat; cases hat
    | evict _ hlist =>
      rcases hlist with ⟨hpc, rfl⟩ | ⟨hpc, rfl, -⟩ <;> rw [hpc] at hat <;> cases hat
    | failed hpc => rw [hpc] at hat; cases hat
    | unlock _ hpc _ => rw [hpc] at hat; cases hat
  | _ => cases hin

theorem sharedRam_lawful (cfg : Config) : (sharedRam cfg).Lawful LockInv fun _ _ => True where
  keep hp h _ := hp.step h
  passes {p q e i need} hp h hi := by
    cases hin : inserts p e with
    | none => exact (step_noInsertion h hin).passes hi
    | some l =>
      obtain ⟨load, ramMb, port, now, hl, hpc, -, rfl⟩ := insertion_of_step hp h hin
      change passed (Pool.setLoad _ _ _) i = _ at hi
      rw [passed_setLoad] at hi
      split at hi
      · rw [insertInstance, hl] at hi
        cases hi
      · exact .inl hi
  adds {p q e i} hp h _ hin := by
    obtain ⟨load, ramMb, port, now, hl, hpc, hused, -⟩ := insertion_of_step hp h hin
    refine ⟨ramMb, ?_, hused⟩
    change passed p i = _
    rw [passed, hl, Option.bind_some, hpc]
    rfl
  others hp h hin := (step_noInsertion h hin).used

/-- In a run, the RAM of the instances never exceeds the budget exactly where,
at every insertion, what other loads have inserted since the load's own budget
check fits in the room that the check left and in what has left since. -/
theorem ram_within_budget_iff (cfg : Config) (events : List Event) :
    EveryStep (step cfg) (fun _ _ q => usedRamMb q ≤ cfg.totalRamBudgetMb) .initial events ↔
      EveryStep (sharedRam cfg).watched (fun a e _ => (sharedRam cfg).ActFits a e)
        (.initial, fun _ => ⟨0, 0, 0⟩) events := by
  have h := (sharedRam_lawful cfg).within_budget_iff initial_lockInv (Nat.zero_le _)
    (fun _ => rfl) (fun _ => ⟨0, 0, 0⟩) events
  simp only [true_and] at h
  exact h

/-- Two models of 660 MB are loaded into an empty pool of 1000 MB: both checks
pass before either instance is in. -/
theorem two_loads_exceed_budget :
    let load := fun id => Event.load ⟨id, id, 0⟩
    let events := [load "a", load "b", .loadStep 0 (.stat (some (600 * 2 ^ 20))),
      .loadStep 1 (.stat (some (600 * 2 ^ 20))), .loadStep 0 (.port (some 9100) 0)] ++
      [.loadStep 1 (.port (some 9101) 0)]
    ¬ EveryStep (step sampleConfig) (fun _ _ q => usedRamMb q ≤ sampleConfig.totalRamBudgetMb)
      .initial events := by
  intro load events hwithin
  have hused : (run (step sampleConfig) .initial events).map usedRamMb = some 1320 := by decide
  obtain ⟨q, hq, hsum⟩ := Option.map_eq_some_iff.mp hused
  obtain ⟨_, hlast⟩ := hwithin.last hq
  rw [hsum] at hlast
  exact absurd hlast (by decide)

end ModelForge.LlamaPoolBudget
