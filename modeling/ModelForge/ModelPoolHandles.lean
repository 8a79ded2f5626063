import ModelForge.ModelPoolSteps
import ModelForge.RunInvariant
import ModelForge.HolderCount

set_option autoImplicit false

/-!
# Handles of the model pool

A generation call gets its handle under the lock and counts itself in a later
step. The counters are right in every run; the pool keeps the model of every
handle as long as no entry goes while a call holds its handle uncounted.
-/
namespace ModelForge.ModelPoolHandles
open ModelPool ModelPoolSteps RunInvariant HolderCount Participants

variable {budget : ℕ} {p q : Pool}

/-- The calls between `begin_request` and `end_request` on this handle's model. -/
def inFlight (p : Pool) (arc : ℕ) : ℕ :=
  holders (fun call : GenerateCall => counted call.pc) p.calls arc

structure HandlesKept (p : Pool) : Prop where
  resident : ∀ {c arc : ℕ} {call : GenerateCall}, p.calls[c]? = some call →
    held call.pc = some arc → ∃ m, p.models.get? call.model_id = some m ∧ m.arc = arc
  counted : ∀ {id : String} {m : ResidentModel}, p.models.get? id = some m →
    m.active_requests = inFlight p m.arc
  drained : ∀ {id : String} {m : ResidentModel}, p.models.get? id = some m →
    (∀ call ∈ p.calls, held call.pc ≠ some m.arc) → m.active_requests = 0

/-- The model whose entry the step unloads. -/
def unloads (p : Pool) : Event → Option String
  | .unload model_id => some model_id
  | .loadStep l .unload =>
    (p.loads[l]?).bind fun load =>
      match load.pc with
      | .unload victim => some victim
      | _ => none
  | _ => none

/-- Where the step unloads an idle model, every call with a handle of it is
counted; where it inserts over an entry, no call has a handle of that entry. -/
structure HandlesCounted (p : Pool) (e : Event) : Prop where
  unload : ∀ id m, unloads p e = some id → p.models.get? id = some m → m.active_requests ≤ 0 →
    ∀ call ∈ p.calls, held call.pc = some m.arc → counted call.pc = some m.arc
  insert : ∀ l load m, inserts p e = some l → p.loads[l]? = some load →
    p.models.get? load.model_id = some m → ∀ call ∈ p.calls, held call.pc ≠ some m.arc

/-! ## The counters -/

structure CountInv (p : Pool) : Prop where
  fresh : ∀ {id : String} {m : ResidentModel}, p.models.get? id = some m → m.arc < p.arcs
  unique : ∀ {id id' : String} {m m' : ResidentModel}, p.models.get? id = some m →
    p.models.get? id' = some m' → m.arc = m'.arc → id = id'
  heldFresh : ∀ {c arc : ℕ} {call : GenerateCall}, p.calls[c]? = some call →
    held call.pc = some arc → arc < p.arcs
  own : ∀ {c : ℕ} {call : GenerateCall} {id : String} {m : ResidentModel},
    p.calls[c]? = some call → p.models.get? id = some m → held call.pc = some m.arc →
      id = call.model_id
  counted : ∀ {id : String} {m : ResidentModel}, p.models.get? id = some m →
    m.active_requests = inFlight p m.arc

theorem new_countInv : CountInv .new := by
  constructor <;> intros <;> contradiction

theorem held_of_counted {pc : CallPc} {arc : ℕ} (h : counted pc = some arc) :
    held pc = some arc := by
  cases pc <;> first | exact h | cases h

theorem CountInv.frame (hp : CountInv p) (hcalls : q.calls = p.calls) (harcs : q.arcs = p.arcs)
    (hget : ∀ {id m}, q.models.get? id = some m → p.models.get? id = some m) : CountInv q where
  fresh hm := harcs ▸ hp.fresh (hget hm)
  unique hm hm' := hp.unique (hget hm) (hget hm')
  heldFresh hc hpc := harcs ▸ hp.heldFresh (hcalls ▸ hc) hpc
  own hc hm hpc := hp.own (hcalls ▸ hc) (hget hm) hpc
  counted hm := by
    rw [inFlight, hcalls]
    exact hp.counted (hget hm)

theorem get?_of_unload {model_id id : String} {m : ResidentModel}
    (h : unload_model p model_id = .ok q) (hm : q.models.get? id = some m) :
    p.models.get? id = some m ∧ id ≠ model_id := by
  rw [(unload_model_ok h).2, KeyedMap.get?_delete] at hm
  split at hm
  · cases hm
  · rename_i hne
    exact ⟨hm, hne⟩

theorem CountInv.unload (hp : CountInv p) {model_id : String} (h : unload_model p model_id = .ok q) :
    CountInv q := by
  refine hp.frame ?_ ?_ fun hm => (get?_of_unload h hm).1 <;> rw [(unload_model_ok h).2]

theorem get?_of_insert {model_id id : String} {ram now : ℕ} {m : ResidentModel}
    (h : (insert_model p model_id ram now).models.get? id = some m) :
    id = model_id ∧ m = ⟨model_id, p.arcs, ram, now, 0⟩ ∨
      id ≠ model_id ∧ p.models.get? id = some m := by
  rw [insert_model, KeyedMap.get?_set] at h
  split at h
  · rename_i hid
    exact .inl ⟨hid, (Option.some.inj h).symm⟩
  · rename_i hne
    exact .inr ⟨hne, h⟩

theorem CountInv.insert (hp : CountInv p) (model_id : String) (ram now : ℕ) :
    CountInv (insert_model p model_id ram now) := by
  refine ⟨?_, ?_, ?_, ?_, ?_⟩
  · intro id m hm
    rcases get?_of_insert hm with ⟨-, rfl⟩ | ⟨-, hm⟩
    · exact Nat.lt_succ_self _
    · exact Nat.lt_succ_of_lt (hp.fresh hm)
  · intro id id' m m' hm hm' harc
    rcases get?_of_insert hm with ⟨rfl, rfl⟩ | ⟨-, hold⟩ <;>
      rcases get?_of_insert hm' with ⟨rfl, rfl⟩ | ⟨-, hold'⟩
    · rfl
    · exact absurd harc.symm (Nat.ne_of_lt (hp.fresh hold'))
    · exact absurd harc (Nat.ne_of_lt (hp.fresh hold))
    · exact hp.unique hold hold' harc
  · intro c arc call hc hpc
    exact Nat.lt_succ_of_lt (hp.heldFresh hc hpc)
  · intro c call id m hc hm hpc
    rcases get?_of_insert hm with ⟨-, rfl⟩ | ⟨-, hm⟩
    · exact absurd (hp.heldFresh hc hpc) (Nat.lt_irrefl _)
    · exact hp.own hc hm hpc
  · intro id m hm
    rcases get?_of_insert hm with ⟨-, rfl⟩ | ⟨-, hm⟩
    · have hnone : inFlight p p.arcs = 0 := (holders_eq_zero _).mpr fun i hi => by
        obtain ⟨call, hc, hcounted⟩ := Option.bind_eq_some_iff.mp hi
        exact Nat.lt_irrefl _ (hp.heldFresh hc (held_of_counted hcounted))
      exact (congrArg Nat.cast hnone).symm
    · exact hp.counted hm

theorem inFlight_setCall {c : ℕ} {call : GenerateCall} (hc : p.calls[c]? = some call) (pc : CallPc)
    (arc : ℕ) :
    inFlight (p.setCall c pc) arc + (if counted call.pc = some arc then 1 else 0) =
      inFlight p arc + if counted pc = some arc then 1 else 0 :=
  holders_modify (fun call : GenerateCall => counted call.pc) hc _ arc

theorem countOf_eq {pc : CallPc} {arc : ℕ} (h : ∀ a, held pc = some a → a = arc) :
    countOf pc = if counted pc = some arc then 1 else 0 := by
  cases hpc : counted pc with
  | none => simp [countOf, hpc]
  | some a =>
    obtain rfl := h a (held_of_counted hpc)
    simp [countOf, hpc]

theorem not_counted {pc : CallPc} {arc other : ℕ} (h : ∀ a, held pc = some a → a = arc)
    (hne : other ≠ arc) : counted pc ≠ some other := fun hpc =>
  hne (h other (held_of_counted hpc))

/-- A call acts on the model of its handle, and on no other model's counter. -/
theorem CountInv.call (hp : CountInv p) {c : ℕ} {call : GenerateCall} (hc : p.calls[c]? = some call)
    (h : CallMove p c call q) : CountInv q := by
  have hmoved : ∀ {arc : ℕ} {next : CallPc}, held call.pc = some arc →
      (∀ a, held next = some a → a = arc) →
      ∀ {j a : ℕ} {other : GenerateCall}, (p.setCall c next).calls[j]? = some other →
        held other.pc = some a → ∃ old, p.calls[j]? = some old ∧ held old.pc = some a ∧
          old.model_id = other.model_id := by
    intro arc next hheld hnext j a other hj hpc
    rcases call_of_setCall hj with ⟨rfl, old, hold, rfl⟩ | ⟨-, hold⟩
    · obtain rfl := Option.some.inj (hc.symm.trans hold)
      obtain rfl := hnext a hpc
      exact ⟨call, hc, hheld, rfl⟩
    · exact ⟨other, hold, hpc, rfl⟩
  cases h with
  | @quiet arc next hheld hnext hcount =>
    refine ⟨hp.fresh, hp.unique, ?_, ?_, ?_⟩
    · intro j a other hj hpc
      obtain ⟨old, hold, hpc, -⟩ := hmoved hheld hnext hj hpc
      exact hp.heldFresh hold hpc
    · intro j other id m hj hm hpc
      obtain ⟨old, hold, hpc, hid⟩ := hmoved hheld hnext hj hpc
      exact (hp.own hold hm hpc).trans hid
    · intro id m hm
      have hsame := inFlight_setCall hc next m.arc
      rw [hcount] at hsame
      rw [hp.counted hm, Nat.add_right_cancel hsame]
  | @acts arc next f hheld hnext hf hcount =>
    have hget : ∀ {id m}, (p.update call.model_id arc f).models.get? id = some m →
        ∃ old, p.models.get? id = some old ∧ m.arc = old.arc ∧
          m = if id = call.model_id ∧ old.arc = arc then f old else old := by
      intro id m hm
      rw [get?_update, Option.map_eq_some_iff] at hm
      obtain ⟨old, hold, rfl⟩ := hm
      refine ⟨old, hold, ?_, rfl⟩
      split
      · exact (hf old).2.1
      · rfl
    refine ⟨?_, ?_, ?_, ?_, ?_⟩
    · intro id m hm
      obtain ⟨old, hold, harc, -⟩ := hget hm
      exact harc ▸ hp.fresh hold
    · intro id id' m m' hm hm' heq
      obtain ⟨old, hold, harc, -⟩ := hget hm
      obtain ⟨old', hold', harc', -⟩ := hget hm'
      exact hp.unique hold hold' (harc.symm.trans (heq.trans harc'))
    · intro j a other hj hpc
      obtain ⟨old, hold, hpc, -⟩ := hmoved hheld hnext hj hpc
      exact hp.heldFresh hold hpc
    · intro j other id m hj hm hpc
      obtain ⟨before, hbefore, harc, -⟩ := hget hm
      obtain ⟨old, hold, hpc, hid⟩ := hmoved hheld hnext hj hpc
      exact (hp.own hold hbefore (harc ▸ hpc)).trans hid
    · intro id m hm
      obtain ⟨old, hold, harc, hm⟩ := hget hm
      have hsame := inFlight_setCall hc next old.arc
      change m.active_requests = (inFlight (p.setCall c next) m.arc : ℤ)
      rw [harc, hm]
      by_cases ha : old.arc = arc
      · have hid : id = call.model_id := hp.own hc hold (ha ▸ hheld)
        have hf' := hcount old
        have hafter : countOf next = if ModelPoolSteps.counted next = some old.arc then 1 else 0 :=
          countOf_eq fun a h => (hnext a h).trans ha.symm
        have hbefore : countOf call.pc =
            if ModelPoolSteps.counted call.pc = some old.arc then 1 else 0 :=
          countOf_eq fun a h => (Option.some.inj (hheld.symm.trans h)).symm.trans ha.symm
        rw [hafter, hbefore] at hf'
        rw [if_pos ⟨hid, ha⟩]
        have hcast := congrArg (Nat.cast (R := ℤ)) hsame
        push_cast at hcast
        have hcounted := hp.counted hold
        linarith only [hf', hcast, hcounted]
      · rw [if_neg fun h => ha h.2, hp.counted hold]
        have hnow := not_counted hnext ha
        have hbefore : ModelPoolSteps.counted call.pc ≠ some old.arc :=
          not_counted (fun a h => (Option.some.inj (hheld.symm.trans h)).symm) ha
        rw [if_neg hbefore, if_neg hnow] at hsame
        exact congrArg Nat.cast hsame.symm

/-- A call that begins to hold a handle has got the model's own. -/
theorem call_of_generate {model_id : String} {c : ℕ} {call : GenerateCall}
    (hc : (generate_stream p model_id).calls[c]? = some call) :
    p.calls[c]? = some call ∨ counted call.pc = none ∧ call.model_id = model_id ∧
      ∀ arc, held call.pc = some arc → ∃ m, p.models.get? model_id = some m ∧ m.arc = arc := by
  change (p.calls ++ [_])[c]? = some call at hc
  rcases get_of_concat hc with hold | ⟨-, rfl⟩
  · exact .inl hold
  · refine .inr ⟨?_, rfl, fun arc harc => ?_⟩
    · dsimp only
      split <;> rfl
    · dsimp only at harc
      split at harc
      · rename_i m hm
        exact ⟨m, hm, Option.some.inj harc⟩
      · cases harc

theorem inFlight_generate (p : Pool) (model_id : String) (arc : ℕ) :
    inFlight (generate_stream p model_id) arc = inFlight p arc := by
  refine (holders_append _ _ _ _).trans (Nat.add_eq_left.mpr ((holders_eq_zero _).mpr fun i hi => ?_))
  obtain ⟨call, hmem, hcounted⟩ := Option.bind_eq_some_iff.mp hi
  obtain rfl := List.mem_singleton.mp (List.mem_of_getElem? hmem)
  dsimp only at hcounted
  split at hcounted <;> cases hcounted

theorem CountInv.generate (hp : CountInv p) (model_id : String) :
    CountInv (generate_stream p model_id) := by
  refine ⟨hp.fresh, hp.unique, ?_, ?_, ?_⟩
  · intro c arc call hc hpc
    rcases call_of_generate hc with hold | ⟨-, -, hown⟩
    · exact hp.heldFresh hold hpc
    · obtain ⟨m, hm, rfl⟩ := hown arc hpc
      exact hp.fresh hm
  · intro c call id m hc hm hpc
    rcases call_of_generate hc with hold | ⟨-, hid, hown⟩
    · exact hp.own hold hm hpc
    · obtain ⟨m', hm', harc⟩ := hown m.arc hpc
      exact (hp.unique hm hm' harc.symm).trans hid.symm
  · intro id m hm
    rw [inFlight_generate]
    exact hp.counted hm

theorem CountInv.step (hp : CountInv p) {e : Event} (h : step budget p e = some q) : CountInv q := by
  cases e with
  | load model_id w =>
    obtain rfl := Option.some.inj h
    exact hp.frame rfl rfl id
  | loadStep l input =>
    obtain ⟨load, hl, hresume⟩ := Option.bind_eq_some_iff.mp h
    cases resumeLoad_move hresume with
    | wait _ _ _ => exact hp.frame rfl rfl id
    | evict _ u hu => exact (hp.unload hu).frame rfl rfl id
    | insert now _ => exact (hp.insert _ _ now).frame rfl rfl id
  | unload model_id =>
    simp only [ModelPool.step] at h
    split at h <;> obtain rfl := Option.some.inj h
    · rename_i hu
      exact hp.unload hu
    · exact hp
  | generate model_id =>
    obtain rfl := Option.some.inj h
    exact hp.generate model_id
  | callStep c input =>
    obtain ⟨call, hc, hresume⟩ := Option.bind_eq_some_iff.mp h
    exact hp.call hc (resumeCall_move hresume)

/-! ## The entries of the handles -/

def Resident (p : Pool) : Prop := ∀ (c arc : ℕ) (call : GenerateCall), p.calls[c]? = some call →
  held call.pc = some arc → ∃ m, p.models.get? call.model_id = some m ∧ m.arc = arc

/-- The step keeps every entry, and what the calls of `q` hold is in `q` or was
held under the same model before. -/
theorem Resident.keeps (hp : Resident p)
    (hmodels : ∀ id m, p.models.get? id = some m → ∃ m', q.models.get? id = some m' ∧ m'.arc = m.arc)
    (hcalls : ∀ (c arc : ℕ) (call : GenerateCall), q.calls[c]? = some call → held call.pc = some arc →
      (∃ m, q.models.get? call.model_id = some m ∧ m.arc = arc) ∨
        ∃ (j : ℕ) (old : GenerateCall), p.calls[j]? = some old ∧ held old.pc = some arc ∧
          old.model_id = call.model_id) :
    Resident q := by
  intro c arc call hc hpc
  rcases hcalls c arc call hc hpc with hin | ⟨j, old, hold, hheld, hid⟩
  · exact hin
  · obtain ⟨m, hm, rfl⟩ := hp j arc old hold hheld
    exact hmodels call.model_id m (hid ▸ hm)

theorem Resident.keepsModels (hp : Resident p) (hcalls : q.calls = p.calls)
    (hmodels : q.models = p.models) : Resident q :=
  hp.keeps (fun _ m hm => ⟨m, hmodels ▸ hm, rfl⟩)
    fun c _ call hc hpc => .inr ⟨c, call, hcalls ▸ hc, hpc, rfl⟩

theorem Resident.generate (hp : Resident p) (model_id : String) :
    Resident (generate_stream p model_id) := by
  refine hp.keeps (fun id m hm => ⟨m, hm, rfl⟩) fun c arc call hc hpc => ?_
  rcases call_of_generate hc with hold | ⟨-, rfl, hown⟩
  · exact .inr ⟨c, call, hold, hpc, rfl⟩
  · exact .inl (hown arc hpc)

theorem Resident.call (hp : Resident p) {c : ℕ} {call : GenerateCall} (hc : p.calls[c]? = some call)
    (h : CallMove p c call q) : Resident q := by
  have hmoved : ∀ {arc : ℕ} {next : CallPc}, held call.pc = some arc →
      (∀ a, held next = some a → a = arc) → ∀ (j a : ℕ) (other : GenerateCall),
        (p.setCall c next).calls[j]? = some other → held other.pc = some a →
          ∃ (j : ℕ) (old : GenerateCall), p.calls[j]? = some old ∧ held old.pc = some a ∧
            old.model_id = other.model_id := by
    intro arc next hheld hnext j a other hj hpc
    rcases call_of_setCall hj with ⟨rfl, old, hold, rfl⟩ | ⟨-, hold⟩
    · obtain rfl := Option.some.inj (hc.symm.trans hold)
      obtain rfl := hnext a hpc
      exact ⟨_, call, hc, hheld, rfl⟩
    · exact ⟨j, other, hold, hpc, rfl⟩
  cases h with
  | quiet hheld hnext _ =>
    exact hp.keeps (fun id m hm => ⟨m, hm, rfl⟩)
      fun j a other hj hpc => .inr (hmoved hheld hnext j a other hj hpc)
  | @acts arc next f hheld hnext hf _ =>
    refine hp.keeps (fun id m hm => ?_)
      fun j a other hj hpc => .inr (hmoved hheld hnext j a other hj hpc)
    refine ⟨_, (get?_update p call.model_id id arc f).trans (congrArg (Option.map _) hm), ?_⟩
    change (if id = call.model_id ∧ m.arc = arc then f m else m).arc = m.arc
    split
    · exact (hf m).2.1
    · rfl

/-- An idle entry can go when every call that holds it is counted, for then no
call holds it. -/
theorem resident_unload_iff (hp : CountInv p) (hr : Resident p) {model_id : String}
    (h : unload_model p model_id = .ok q) :
    Resident q ↔ ∀ m, p.models.get? model_id = some m → m.active_requests ≤ 0 →
      ∀ call ∈ p.calls, held call.pc = some m.arc → counted call.pc = some m.arc := by
  obtain ⟨⟨m, hm, hidle⟩, rfl⟩ := unload_model_ok h
  constructor
  · intro hq m' hm' _ call hmem hheld
    obtain ⟨c, hc⟩ := List.mem_iff_getElem?.mp hmem
    obtain ⟨left, hleft, -⟩ := hq c m'.arc call hc hheld
    rw [← hp.own hc hm' hheld, KeyedMap.get?_delete_self] at hleft
    cases hleft
  · intro hcounted c arc call hc hpc
    obtain ⟨own, hown, rfl⟩ := hr c arc call hc hpc
    refine ⟨own, (KeyedMap.get?_delete_of_ne ?_).trans hown, rfl⟩
    intro hid
    rw [hid, hm] at hown
    obtain rfl := Option.some.inj hown
    have hcall := hcounted m hm hidle call (List.mem_of_getElem? hc) hpc
    have hpos : 0 < inFlight p m.arc := holders_pos _ hc hcall
    have := hp.counted hm
    omega

theorem resident_insert_iff (hp : CountInv p) (hr : Resident p) (model_id : String) (ram now : ℕ) :
    Resident (insert_model p model_id ram now) ↔ ∀ m, p.models.get? model_id = some m →
      ∀ call ∈ p.calls, held call.pc ≠ some m.arc := by
  constructor
  · intro hq m hm call hmem hheld
    obtain ⟨c, hc⟩ := List.mem_iff_getElem?.mp hmem
    obtain ⟨left, hleft, harc⟩ := hq c m.arc call hc hheld
    rw [← hp.own hc hm hheld] at hleft
    obtain rfl := Option.some.inj (hleft.symm.trans (KeyedMap.get?_set_self _ _ _))
    exact absurd harc.symm (Nat.ne_of_lt (hp.fresh hm))
  · intro hfree c arc call hc hpc
    obtain ⟨m, hm, rfl⟩ := hr c arc call hc hpc
    refine ⟨m, (KeyedMap.get?_set_of_ne ?_).trans hm, rfl⟩
    intro hid
    exact hfree m (hid ▸ hm) call (List.mem_of_getElem? hc) hpc

theorem handlesCounted_of_none {e : Event} (hunload : unloads p e = none) (hinsert : inserts p e = none) :
    HandlesCounted p e where
  unload id m h := by rw [hunload] at h; cases h
  insert l load m h := by rw [hinsert] at h; cases h

theorem handlesCounted_of_unloads {e : Event} {model_id : String} (he : unloads p e = some model_id)
    (hinsert : inserts p e = none) :
    HandlesCounted p e ↔ ∀ m, p.models.get? model_id = some m → m.active_requests ≤ 0 →
      ∀ call ∈ p.calls, held call.pc = some m.arc → counted call.pc = some m.arc := by
  constructor
  · exact fun h m => h.unload model_id m he
  · intro h
    refine ⟨fun id m hid => ?_, fun l load m hl => ?_⟩
    · obtain rfl := Option.some.inj (he.symm.trans hid)
      exact h m
    · rw [hinsert] at hl
      cases hl

/-- A refused unload leaves the map, and its model is not idle. -/
theorem unload_model_error {model_id : String} {error : EngineError}
    (h : unload_model p model_id = .error error) :
    ∀ m, p.models.get? model_id = some m → ¬ m.active_requests ≤ 0 := by
  intro m hm
  unfold unload_model at h
  simp only [hm] at h
  split at h
  · omega
  · cases h

/-- A load whose step leaves the map has had its unload refused. -/
theorem failed_unload {l : ℕ} {load : LoadCall} {input : LoadInput} {victim : String}
    (hl : p.loads[l]? = some load) (hvictim : unloads p (.loadStep l input) = some victim)
    (h : resumeLoad budget p l load input = some q) (hmodels : q.models = p.models) :
    ∃ error, unload_model p victim = .error error := by
  cases input with
  | unload =>
    simp only [unloads, hl, Option.bind_some] at hvictim
    simp only [resumeLoad] at h
    split at hvictim
    · rename_i v hpc
      obtain rfl := Option.some.inj hvictim
      simp only [hpc] at h
      split at h
      · rename_i u hu
        obtain ⟨⟨m, hm, -⟩, rfl⟩ := unload_model_ok hu
        obtain rfl := Option.some.inj h
        change p.models.delete _ = p.models at hmodels
        rw [← hmodels, KeyedMap.get?_delete_self] at hm
        cases hm
      · rename_i error hu
        exact ⟨error, hu⟩
    · cases hvictim
  | _ => cases hvictim

theorem resident_iff (hp : CountInv p) (hr : Resident p) {e : Event} (h : step budget p e = some q) :
    Resident q ↔ HandlesCounted p e := by
  have hsame : ∀ {u : Pool}, u.calls = p.calls → u.models = p.models → Resident u :=
    fun hcalls hmodels => hr.keepsModels hcalls hmodels
  cases e with
  | load model_id w =>
    obtain rfl := Option.some.inj h
    exact iff_of_true (hsame rfl rfl) (handlesCounted_of_none rfl rfl)
  | generate model_id =>
    obtain rfl := Option.some.inj h
    exact iff_of_true (hr.generate model_id) (handlesCounted_of_none rfl rfl)
  | callStep c input =>
    obtain ⟨call, hc, hresume⟩ := Option.bind_eq_some_iff.mp h
    exact iff_of_true (hr.call hc (resumeCall_move hresume)) (handlesCounted_of_none rfl rfl)
  | unload model_id =>
    rw [handlesCounted_of_unloads rfl rfl]
    simp only [step] at h
    split at h <;> obtain rfl := Option.some.inj h
    · rename_i hu
      exact resident_unload_iff hp hr hu
    · rename_i hu
      exact iff_of_true hr fun m hm hidle => absurd hidle (unload_model_error hu m hm)
  | loadStep l input =>
    obtain ⟨load, hl, hresume⟩ := Option.bind_eq_some_iff.mp h
    cases resumeLoad_move hresume with
    | @wait _ next hin _ _ =>
      have hinsert : inserts p (.loadStep l input) = none := by
        cases input <;> first | rfl | exact absurd rfl (hin _)
      refine iff_of_true (hsame rfl rfl) ?_
      by_cases hunload : ∃ victim, unloads p (.loadStep l input) = some victim
      · obtain ⟨victim, hvictim⟩ := hunload
        rw [handlesCounted_of_unloads hvictim hinsert]
        obtain ⟨error, hu⟩ := failed_unload hl hvictim hresume rfl
        exact fun m hm hidle => absurd hidle (unload_model_error hu m hm)
      · exact handlesCounted_of_none (Option.eq_none_iff_forall_ne_some.mpr fun victim hv =>
          hunload ⟨victim, hv⟩) hinsert
    | @evict victim hpc u hu =>
      have hunload : unloads p (.loadStep l .unload) = some victim := by
        simp only [unloads, hl, Option.bind_some, hpc]
      rw [handlesCounted_of_unloads hunload rfl]
      have hresident : Resident u ↔ _ := resident_unload_iff hp hr hu
      exact Iff.trans ⟨fun hq => hq.keepsModels rfl rfl, fun hq => hq.keepsModels rfl rfl⟩ hresident
    | insert now hpc =>
      have hinsert : inserts p (.loadStep l (.insert now)) = some l := by
        simp only [inserts, hl, Option.bind_some, hpc]
        rfl
      have hresident : Resident (insert_model p load.model_id load.weights.ram now) ↔ _ :=
        resident_insert_iff hp hr load.model_id load.weights.ram now
      refine Iff.trans ⟨fun hq => hq.keepsModels rfl rfl, fun hq => hq.keepsModels rfl rfl⟩
        (hresident.trans ?_)
      constructor
      · intro hfree
        refine ⟨fun id m hid => ?_, fun l' load' m hin hl' hm => ?_⟩
        · cases hid
        obtain rfl := Option.some.inj (hinsert.symm.trans hin)
        obtain rfl := Option.some.inj (hl.symm.trans hl')
        exact hfree m hm
      · exact fun hcounted m hm => hcounted.insert l load m hinsert hl hm

/-! ## Runs -/

theorem handlesKept_iff (hp : CountInv p) : HandlesKept p ↔ Resident p := by
  constructor
  · intro h c arc call hc hpc
    exact h.resident hc hpc
  · intro h
    refine ⟨fun hc hpc => h _ _ _ hc hpc, hp.counted, fun hm hnone => ?_⟩
    have hzero : inFlight p _ = 0 := (holders_eq_zero _).mpr fun call hcall => by
      obtain ⟨c, hmem, hcounted⟩ := Option.bind_eq_some_iff.mp hcall
      exact hnone c (List.mem_of_getElem? hmem) (held_of_counted hcounted)
    rw [hp.counted hm, hzero]
    rfl

/-- In a run from the empty pool every handle's model stays, with its counter at
the number of its requests, exactly when no entry goes while a call holds its
handle uncounted. -/
theorem handles_kept_iff (budget : ℕ) (events : List Event) :
    EveryStep (step budget) (fun _ _ q => HandlesKept q) .new events ↔
      EveryStep (step budget) (fun p e _ => HandlesCounted p e) .new events := by
  refine everyStep_iff_guarded (fun p => CountInv p ∧ Resident p) _ _ ?_ ?_
    ⟨new_countInv, fun _ _ _ hc => by cases hc⟩ events
  · rintro p e q ⟨hp, hr⟩ hstep hcounted
    have hq : Resident q := (resident_iff hp hr hstep).mpr hcounted
    exact ⟨(handlesKept_iff (hp.step hstep)).mpr hq, hp.step hstep, hq⟩
  · rintro p e q ⟨hp, hr⟩ hstep hkept
    exact (resident_iff hp hr hstep).mp ((handlesKept_iff (hp.step hstep)).mp hkept)

/-- `unload_model` between a call's lookup and its `begin_request`: the call
goes on with a model that is no longer in the pool. -/
theorem unloaded_before_begin_request :
    let events := [Event.load "m" ⟨false, none⟩, .loadStep 0 .measure, .loadStep 0 (.insert 0),
      .generate "m"] ++ [.unload "m"]
    ¬ EveryStep (step 1000) (fun _ _ q => HandlesKept q) .new events := by
  intro events hkept
  have hthere : (run (step 1000) .new events).map (fun p =>
      ((p.calls[0]?).map fun call => (call.model_id, held call.pc), p.models.get? "m")) =
      some (some ("m", some 0), none) := by
    decide
  obtain ⟨q, hq, hfacts⟩ := Option.map_eq_some_iff.mp hthere
  simp only [Prod.mk.injEq, Option.map_eq_some_iff] at hfacts
  obtain ⟨⟨call, hc, hid, hheld⟩, hgone⟩ := hfacts
  obtain ⟨p, hp⟩ := hkept.last hq
  obtain ⟨m, hm, -⟩ := hp.resident hc hheld
  rw [hid, hgone] at hm
  cases hm

end ModelForge.ModelPoolHandles
