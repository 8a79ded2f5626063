import ModelForge.RunInvariant
import ModelForge.TicketCounter
import ModelForge.TurnMerging

set_option autoImplicit false

/-!
# Turns that are transcribed side by side

The workers of `transcribePerTurn` share a counter of turns. An event is a worker
whose awaited call settles: the cut of its clip, or the transcription. Times are exact.
-/
namespace ModelForge.PerTurnTranscription
open EventStream (JsString js)
open ReservationCover (trim)
open RunInvariant (run run_cons_some run_invariant)
open SpeakerTurns (DiarizationTurn)
open TicketCounter (Tickets GivenUp)
open TurnMerging (TranscriptSegment SegmentBefore)

/-! ## The workers -/

/-- What `stt.transcribe` returns. -/
structure Transcribed where
  text : JsString
  model : JsString
  language : JsString

/-- Whether ffmpeg cuts a clip, from its times and its number, and what is heard in
the clip of that number, `none` where the call throws. -/
structure Tools where
  cutTurnWav : ℚ → ℚ → ℕ → Bool
  transcribe : ℕ → Option Transcribed

structure Input where
  turns : List DiarizationTurn
  language : Option JsString
  turnPadMs : Option ℚ
  concurrency : Option ℚ

namespace Input

def padSec (input : Input) : ℚ := max 0 (input.turnPadMs.getD 200 / 1000)

/-- The turns of at least 0.35 seconds, with their index. -/
def eligible (input : Input) : List (DiarizationTurn × ℕ) :=
  input.turns.zipIdx.filter fun p => 35 / 100 ≤ p.1.end - p.1.start

/-- `Array.from` rounds the length down. -/
def workerCount (input : Input) : ℕ :=
  ⌊min (max 1 (min 8 (input.concurrency.getD 2))) (input.eligible.length : ℚ)⌋₊

end Input

inductive Worker where
  | cutting (slot : ℕ)
  | transcribing (slot : ℕ)
  | done
deriving DecidableEq

def Worker.slot : Worker → Option ℕ
  | .cutting slot => some slot
  | .transcribing slot => some slot
  | .done => none

structure Pool where
  next : ℕ
  workers : List Worker
  results : List (Option TranscriptSegment)
  model : JsString
  language : JsString
deriving DecidableEq

/-- `a || b` -/
def orElse (a b : JsString) : JsString := if a = [] then b else a

/-- Every worker runs up to its first await before the next one begins. -/
def start (input : Input) : Pool where
  next := input.workerCount
  workers := (List.range input.workerCount).map .cutting
  results := List.replicate input.eligible.length none
  model := js "unknown"
  language := input.language.getD (js "unknown")

/-- The top of the worker's loop. -/
def takeNext (input : Input) (p : Pool) (w : ℕ) : Pool :=
  if p.next < input.eligible.length then
    { p with next := p.next + 1, workers := p.workers.set w (.cutting p.next) }
  else { p with workers := p.workers.set w .done }

section
variable (tools : Tools) (input : Input)

def cuts (item : DiarizationTurn × ℕ) : Bool :=
  tools.cutTurnWav (max 0 (item.1.start - input.padSec)) (item.1.end + input.padSec) item.2

/-- The clip is cut, or the error is logged and the loop goes on. -/
def onCut (p : Pool) (w slot : ℕ) (item : DiarizationTurn × ℕ) : Pool :=
  if cuts tools input item then { p with workers := p.workers.set w (.transcribing slot) }
  else takeNext input p w

def segmentOf (turn : DiarizationTurn) (text : JsString) : TranscriptSegment where
  startSec := turn.start
  endSec := turn.end
  text := text
  speaker := some turn.speaker

def onTranscribed (p : Pool) (w slot : ℕ) (item : DiarizationTurn × ℕ) : Pool :=
  match tools.transcribe item.2 with
  | none => takeNext input p w
  | some heard =>
    let p := { p with model := orElse heard.model p.model, language := orElse heard.language p.language }
    let text := trim heard.text
    if text = [] then takeNext input p w
    else takeNext input { p with results := p.results.set slot (some (segmentOf item.1 text)) } w

def step (p : Pool) (w : ℕ) : Option Pool :=
  match p.workers[w]? with
  | some (.cutting slot) => input.eligible[slot]?.map (onCut tools input p w slot)
  | some (.transcribing slot) => input.eligible[slot]?.map (onTranscribed tools input p w slot)
  | _ => none

end

/-- What the function returns once every worker is done. -/
def Pool.segments (p : Pool) : List TranscriptSegment := p.results.reduceOption.insertionSort SegmentBefore

/-! ## One turn after the other -/

variable {tools : Tools} {input : Input} {p q : Pool} {w slot : ℕ} {item : DiarizationTurn × ℕ} {worker : Worker}

/-- What becomes of a turn. -/
def heardIn (tools : Tools) (input : Input) (item : DiarizationTurn × ℕ) : Option TranscriptSegment :=
  if cuts tools input item then
    (tools.transcribe item.2).bind fun heard =>
      if trim heard.text = [] then none else some (segmentOf item.1 (trim heard.text))
  else none

def oneByOne (tools : Tools) (input : Input) : List TranscriptSegment :=
  (input.eligible.filterMap (heardIn tools input)).insertionSort SegmentBefore

/-- The slots that the workers hold. -/
abbrev Pool.held (p : Pool) : List (Option ℕ) := p.workers.map Worker.slot

/-- The results of the turns that have been given up by a worker are there, and no others. -/
structure Inv (tools : Tools) (input : Input) (p : Pool) : Prop where
  tickets : Tickets p.next p.held
  bound : p.next ≤ input.eligible.length
  resting : .done ∈ p.workers → p.next = input.eligible.length
  cut : ∀ slot item, .transcribing slot ∈ p.workers → input.eligible[slot]? = some item → cuts tools input item = true
  length : p.results.length = input.eligible.length
  settled : ∀ i item, input.eligible[i]? = some item → GivenUp p.next p.held i →
    p.results[i]? = some (heardIn tools input item)
  pending : ∀ i < input.eligible.length, ¬ GivenUp p.next p.held i → p.results[i]? = some none
  count : p.workers.length = input.workerCount

theorem workerCount_le (input : Input) : input.workerCount ≤ input.eligible.length :=
  Nat.floor_le_of_le (min_le_right _ _)

theorem workerCount_le_eight (input : Input) : input.workerCount ≤ 8 := by
  refine Nat.floor_le_of_le ((min_le_left _ _).trans (max_le (by norm_num) ?_))
  exact (min_le_left _ _).trans (by norm_num)

theorem workerCount_pos (h : 0 < input.eligible.length) : 0 < input.workerCount := by
  apply Nat.floor_pos.mpr
  exact le_min (le_max_left _ _) (by exact_mod_cast h)

theorem held_start (input : Input) : (start input).held = (List.range input.workerCount).map some := by
  rw [Pool.held, start, List.map_map]
  rfl

theorem inv_start (tools : Tools) (input : Input) : Inv tools input (start input) where
  tickets := by
    rw [held_start]
    exact TicketCounter.tickets_range _
  bound := workerCount_le input
  resting := by
    intro hdone
    obtain ⟨slot, -, heq⟩ := List.mem_map.mp hdone
    cases heq
  cut := by
    intro slot item hmem
    obtain ⟨_, -, heq⟩ := List.mem_map.mp hmem
    cases heq
  length := List.length_replicate
  settled := by
    intro i item _ hgiven
    rw [held_start] at hgiven
    exact absurd (List.mem_map_of_mem (List.mem_range.mpr hgiven.1)) hgiven.2
  pending := by
    intro i hi _
    exact List.getElem?_replicate_of_lt hi
  count := by rw [start, List.length_map, List.length_range]

theorem Inv.slot_lt (h : Inv tools input p) (hw : p.workers[w]? = some worker) (hslot : worker.slot = some slot) :
    slot < input.eligible.length := by
  refine (h.tickets.below slot ?_).trans_le h.bound
  exact hslot ▸ List.mem_map_of_mem (List.mem_of_getElem? hw)

theorem getElem?_held (hw : p.workers[w]? = some worker) : p.held[w]? = some worker.slot := by
  rw [List.getElem?_map, hw]
  rfl

/-- A worker has come to the end of a round, with the result of its turn in place. -/
theorem Inv.takeNext (h : Inv tools input p) (hw : p.workers[w]? = some worker) (hslot : worker.slot = some slot)
    (hitem : input.eligible[slot]? = some item) (model language : JsString) :
    Inv tools input
      (takeNext input ⟨p.next, p.workers, p.results.set slot (heardIn tools input item), model, language⟩ w) := by
  have hheld : p.held[w]? = some (some slot) := hslot ▸ getElem?_held hw
  have hlt : w < p.workers.length := (List.getElem?_eq_some_iff.mp hw).1
  have hslotlt : slot < p.results.length := h.length ▸ h.slot_lt hw hslot
  -- the results of the turns that are given up, once the slot is among them
  have hsettled (i : ℕ) (other : DiarizationTurn × ℕ) (hother : input.eligible[i]? = some other)
      (hgiven : GivenUp p.next p.held i ∨ some slot = some i) :
      (p.results.set slot (heardIn tools input item))[i]? = some (heardIn tools input other) := by
    by_cases hi : slot = i
    · subst hi
      rw [List.getElem?_set_self hslotlt]
      rw [hitem] at hother
      exact congrArg _ (congrArg _ (Option.some.inj hother))
    · rw [List.getElem?_set_ne hi]
      exact h.settled i other hother (hgiven.resolve_right fun heq => hi (Option.some.inj heq))
  have hpending (i : ℕ) (hi : i < input.eligible.length) (hnot : ¬ (GivenUp p.next p.held i ∨ some slot = some i)) :
      (p.results.set slot (heardIn tools input item))[i]? = some none := by
    rw [not_or] at hnot
    rw [List.getElem?_set_ne fun heq => hnot.2 (congrArg some heq)]
    exact h.pending i hi hnot.1
  have hcut {other : Worker} (hother : other.slot = none ∨ other = .cutting p.next) (s : ℕ) (it : DiarizationTurn × ℕ)
      (hmem : .transcribing s ∈ p.workers.set w other) (hit : input.eligible[s]? = some it) :
      cuts tools input it = true := by
    refine h.cut s it ((List.mem_or_eq_of_mem_set hmem).resolve_right ?_) hit
    rintro rfl
    cases hother with
    | inl hnone => cases hnone
    | inr heq => cases heq
  rw [PerTurnTranscription.takeNext]
  dsimp only
  by_cases hnext : p.next < input.eligible.length
  · rw [if_pos hnext]
    have hmap : (p.workers.set w (.cutting p.next)).map Worker.slot = p.held.set w (some p.next) := List.map_set
    refine ⟨?_, hnext, ?_, hcut (.inr rfl), ?_, ?_, ?_, ?_⟩
    · rw [Pool.held, hmap]
      exact h.tickets.take w
    · intro hdone
      have hold := (List.mem_or_eq_of_mem_set hdone).resolve_right (by simp)
      exact absurd (h.resting hold) hnext.ne
    · rw [List.length_set, h.length]
    · intro i other hother hgiven
      rw [Pool.held, hmap, h.tickets.givenUp_take hheld] at hgiven
      exact hsettled i other hother hgiven
    · intro i hi hnot
      rw [Pool.held, hmap, h.tickets.givenUp_take hheld] at hnot
      exact hpending i hi hnot
    · rw [List.length_set, h.count]
  · rw [if_neg hnext]
    have hmap : (p.workers.set w .done).map Worker.slot = p.held.set w none := List.map_set
    refine ⟨?_, h.bound, fun _ => le_antisymm h.bound (not_lt.mp hnext), hcut (.inl rfl), ?_, ?_, ?_, ?_⟩
    · rw [Pool.held, hmap]
      exact h.tickets.stop w
    · rw [List.length_set, h.length]
    · intro i other hother hgiven
      rw [Pool.held, hmap, h.tickets.givenUp_stop hheld] at hgiven
      exact hsettled i other hother hgiven
    · intro i hi hnot
      rw [Pool.held, hmap, h.tickets.givenUp_stop hheld] at hnot
      exact hpending i hi hnot
    · rw [List.length_set, h.count]

theorem set_of_getElem? {α : Type} {xs : List α} {i : ℕ} {x : α} (h : xs[i]? = some x) : xs.set i x = xs := by
  obtain ⟨hlt, rfl⟩ := List.getElem?_eq_some_iff.mp h
  exact List.set_getElem_self hlt

/-- The worker goes on without a result, and there is none. -/
theorem Inv.skip (h : Inv tools input p) (hw : p.workers[w]? = some worker) (hslot : worker.slot = some slot)
    (hitem : input.eligible[slot]? = some item) (hnone : heardIn tools input item = none) (model language : JsString) :
    Inv tools input (PerTurnTranscription.takeNext input ⟨p.next, p.workers, p.results, model, language⟩ w) := by
  have hpending : p.results[slot]? = some none := by
    refine h.pending slot (h.slot_lt hw hslot) fun hgiven => hgiven.2 ?_
    exact hslot ▸ List.mem_map_of_mem (List.mem_of_getElem? hw)
  have hsame : p.results.set slot (heardIn tools input item) = p.results := by
    rw [hnone]
    exact set_of_getElem? hpending
  have hkept := h.takeNext hw hslot hitem model language
  rwa [hsame] at hkept

theorem Inv.transcribe (h : Inv tools input p) (hw : p.workers[w]? = some (.cutting slot))
    (hitem : input.eligible[slot]? = some item) (hcut : cuts tools input item = true) :
    Inv tools input { p with workers := p.workers.set w (.transcribing slot) } := by
  have hheld : Pool.held { p with workers := p.workers.set w (.transcribing slot) } = p.held := by
    have hmap : (p.workers.set w (.transcribing slot)).map Worker.slot = p.held.set w (some slot) := List.map_set
    exact hmap.trans (set_of_getElem? (getElem?_held hw))
  refine ⟨?_, h.bound, ?_, ?_, h.length, ?_, ?_, ?_⟩
  · rw [hheld]
    exact h.tickets
  · intro hdone
    exact h.resting ((List.mem_or_eq_of_mem_set hdone).resolve_right (by simp))
  · intro s it hmem hit
    cases List.mem_or_eq_of_mem_set hmem with
    | inl hold => exact h.cut s it hold hit
    | inr heq =>
      cases heq
      rw [hitem] at hit
      exact Option.some.inj hit ▸ hcut
  · rw [hheld]
    exact h.settled
  · rw [hheld]
    exact h.pending
  · rw [List.length_set]
    exact h.count

theorem Inv.onTranscribed (h : Inv tools input p) (hw : p.workers[w]? = some (.transcribing slot))
    (hitem : input.eligible[slot]? = some item) : Inv tools input (onTranscribed tools input p w slot item) := by
  have hcut := h.cut slot item (List.mem_of_getElem? hw) hitem
  rw [PerTurnTranscription.onTranscribed]
  cases hheard : tools.transcribe item.2 with
  | none =>
    have hnone : heardIn tools input item = none := by rw [heardIn, if_pos hcut, hheard]; rfl
    exact h.skip hw rfl hitem hnone p.model p.language
  | some heard =>
    have hresult : heardIn tools input item =
        if trim heard.text = [] then none else some (segmentOf item.1 (trim heard.text)) := by
      rw [heardIn, if_pos hcut, hheard]
      rfl
    dsimp only
    by_cases hblank : trim heard.text = []
    · rw [if_pos hblank]
      rw [if_pos hblank] at hresult
      exact h.skip hw rfl hitem hresult _ _
    · rw [if_neg hblank]
      rw [if_neg hblank] at hresult
      rw [← hresult]
      exact h.takeNext hw rfl hitem _ _

/-- What an event can be. -/
theorem step_cases (h : step tools input p w = some q) : ∃ slot item, input.eligible[slot]? = some item ∧
    (p.workers[w]? = some (.cutting slot) ∧ q = onCut tools input p w slot item ∨
      p.workers[w]? = some (.transcribing slot) ∧ q = onTranscribed tools input p w slot item) := by
  unfold step at h
  split at h
  next slot hw =>
    obtain ⟨item, hitem, hq⟩ := Option.map_eq_some_iff.mp h
    exact ⟨slot, item, hitem, .inl ⟨hw, hq.symm⟩⟩
  next slot hw =>
    obtain ⟨item, hitem, hq⟩ := Option.map_eq_some_iff.mp h
    exact ⟨slot, item, hitem, .inr ⟨hw, hq.symm⟩⟩
  next => cases h

theorem inv_step (h : Inv tools input p) (hstep : step tools input p w = some q) : Inv tools input q := by
  obtain ⟨slot, item, hitem, ⟨hw, rfl⟩ | ⟨hw, rfl⟩⟩ := step_cases hstep
  · rw [onCut]
    by_cases hcut : cuts tools input item = true
    · rw [if_pos hcut]
      exact h.transcribe hw hitem hcut
    · rw [if_neg hcut]
      have hnone : heardIn tools input item = none := by rw [heardIn, if_neg hcut]
      exact h.skip hw rfl hitem hnone p.model p.language
  · exact h.onTranscribed hw hitem

/-! ## How long it takes -/

def Worker.left : Worker → ℕ
  | .cutting _ => 2
  | .transcribing _ => 1
  | .done => 0

/-- A bound on the events to come. -/
def Pool.left (input : Input) (p : Pool) : ℕ :=
  2 * (input.eligible.length - p.next) + (p.workers.map Worker.left).sum

theorem sum_left_set {workers : List Worker} (hw : workers[w]? = some worker) (worker' : Worker) :
    ((workers.set w worker').map Worker.left).sum + worker.left = (workers.map Worker.left).sum + worker'.left := by
  induction workers generalizing w with
  | nil => simp at hw
  | cons first workers ih =>
    cases w with
    | zero =>
      rw [List.getElem?_cons_zero, Option.some.injEq] at hw
      subst hw
      simp only [List.set_cons_zero, List.map_cons, List.sum_cons]
      omega
    | succ w =>
      have hrest := ih (by simpa using hw)
      simp only [List.set_cons_succ, List.map_cons, List.sum_cons]
      omega

theorem left_takeNext (hw : p.workers[w]? = some worker) :
    (takeNext input p w).left input + worker.left ≤ p.left input := by
  unfold takeNext Pool.left
  by_cases hnext : p.next < input.eligible.length
  · rw [if_pos hnext]
    have hsum := sum_left_set hw (.cutting p.next)
    simp only [Worker.left] at hsum ⊢
    omega
  · rw [if_neg hnext]
    have hsum := sum_left_set hw .done
    simp only [Worker.left] at hsum ⊢
    omega

theorem left_step (hstep : step tools input p w = some q) : q.left input + 1 ≤ p.left input := by
  obtain ⟨slot, item, -, ⟨hw, rfl⟩ | ⟨hw, rfl⟩⟩ := step_cases hstep
  · rw [onCut]
    split
    · have hsum := sum_left_set hw (.transcribing slot)
      simp only [Pool.left, Worker.left] at hsum ⊢
      omega
    · have hleft : (takeNext input p w).left input + 2 ≤ p.left input := left_takeNext hw
      omega
  · have hleft (model language : JsString) (results : List (Option TranscriptSegment)) :
        (takeNext input ⟨p.next, p.workers, results, model, language⟩ w).left input + 1 ≤ p.left input :=
      left_takeNext (p := ⟨p.next, p.workers, results, model, language⟩) hw
    rw [onTranscribed]
    split
    · exact hleft p.model p.language p.results
    · dsimp only
      split
      · exact hleft _ _ _
      · exact hleft _ _ _

theorem left_run {events : List ℕ} (h : run (step tools input) p events = some q) :
    q.left input + events.length ≤ p.left input := by
  induction events generalizing p with
  | nil => cases h; simp
  | cons w events ih =>
    obtain ⟨r, hr, hq⟩ := run_cons_some h
    have hfirst := left_step hr
    have hrest := ih hq
    rw [List.length_cons]
    omega

theorem left_start (input : Input) : (start input).left input = 2 * input.eligible.length := by
  have hsum : ((start input).workers.map Worker.left).sum = 2 * input.workerCount := by
    rw [start, List.map_map]
    have hconst : (Worker.left ∘ Worker.cutting) = Function.const ℕ 2 := rfl
    rw [hconst, List.map_const, List.sum_replicate, List.length_range, smul_eq_mul, Nat.mul_comm]
  have hle := workerCount_le input
  rw [Pool.left, hsum, start]
  dsimp only
  omega

/-! ## Any order of events -/

theorem Inv.segments_eq (h : Inv tools input p) (hdone : ∀ worker ∈ p.workers, worker = .done) :
    p.segments = oneByOne tools input := by
  have hnext : p.next = input.eligible.length := by
    by_cases hempty : p.workers = []
    · have hcount := h.count
      rw [hempty, List.length_nil] at hcount
      by_contra hne
      have hpos := workerCount_pos (lt_of_le_of_lt (Nat.zero_le _) (lt_of_le_of_ne h.bound hne))
      omega
    · obtain ⟨worker, hworker⟩ := List.exists_mem_of_ne_nil _ hempty
      exact h.resting (hdone worker hworker ▸ hworker)
  have hheld : ∀ ticket ∈ p.held, ticket = none := by
    intro ticket hticket
    obtain ⟨worker, hworker, rfl⟩ := List.mem_map.mp hticket
    rw [hdone worker hworker]
    rfl
  have hresults : p.results = input.eligible.map (heardIn tools input) := by
    apply List.ext_getElem?
    intro i
    rw [List.getElem?_map]
    cases hitem : input.eligible[i]? with
    | none => exact List.getElem?_eq_none (h.length.trans_le (List.getElem?_eq_none_iff.mp hitem))
    | some item =>
      apply h.settled i item hitem
      rw [TicketCounter.givenUp_of_all_none hheld, hnext]
      exact (List.getElem?_eq_some_iff.mp hitem).1
  rw [Pool.segments, oneByOne, hresults, List.reduceOption, List.filterMap_map]
  rfl

theorem Inv.enabled (h : Inv tools input p) (hw : p.workers[w]? = some worker) (hbusy : worker ≠ .done) :
    ∃ q, step tools input p w = some q := by
  have hitem (slot : ℕ) (hslot : worker.slot = some slot) : ∃ item, input.eligible[slot]? = some item :=
    ⟨_, List.getElem?_eq_getElem (h.slot_lt hw hslot)⟩
  cases worker with
  | done => exact absurd rfl hbusy
  | cutting slot =>
    obtain ⟨item, hitem⟩ := hitem slot rfl
    exact ⟨onCut tools input p w slot item, by rw [step, hw]; simp [hitem]⟩
  | transcribing slot =>
    obtain ⟨item, hitem⟩ := hitem slot rfl
    exact ⟨PerTurnTranscription.onTranscribed tools input p w slot item, by rw [step, hw]; simp [hitem]⟩

/-- In whatever order the calls settle, no turn is in the hands of two workers, of
whom there are at most eight; after at most two events a turn all workers are done, and
the segments are those of transcribing one turn after the other. -/
theorem any_order_same_segments (tools : Tools) (input : Input) (events : List ℕ)
    (h : run (step tools input) (start input) events = some p) :
    Tickets p.next p.held ∧ p.workers.length ≤ 8 ∧ events.length ≤ 2 * input.eligible.length ∧
      ((∀ worker ∈ p.workers, worker = .done) ∧ p.segments = oneByOne tools input ∨
        ∃ w q, step tools input p w = some q) := by
  have hinv : Inv tools input p :=
    run_invariant (Inv tools input) (fun _ _ _ hinv hstep => inv_step hinv hstep) (inv_start tools input) h
  refine ⟨hinv.tickets, hinv.count.trans_le (workerCount_le_eight input), ?_, ?_⟩
  · have hleft := left_run h
    rw [left_start] at hleft
    omega
  · by_cases hdone : ∀ worker ∈ p.workers, worker = .done
    · exact .inl ⟨hdone, hinv.segments_eq hdone⟩
    · push Not at hdone
      obtain ⟨worker, hmem, hbusy⟩ := hdone
      obtain ⟨w, hw⟩ := List.mem_iff_getElem?.mp hmem
      exact .inr ⟨w, hinv.enabled hw hbusy⟩

/-- Two workers, three turns; the clip of the first turn cannot be cut. -/
def sampleInput : Input :=
  ⟨[⟨4, 6, "SPEAKER_00"⟩, ⟨2, 3, "SPEAKER_01"⟩, ⟨7, 8, "SPEAKER_00"⟩], none, none, none⟩

def sampleTools : Tools := ⟨fun _ _ clip => clip ≠ 0, fun clip => some ⟨js " ok ", js (toString clip), []⟩⟩

theorem any_order_sample : ∃ p, run (step sampleTools sampleInput) (start sampleInput) [1, 0, 0, 1, 0] = some p ∧
    Tickets p.next p.held ∧ p.workers.length ≤ 8 ∧ 5 ≤ 2 * sampleInput.eligible.length ∧
      ((∀ worker ∈ p.workers, worker = .done) ∧ p.segments = oneByOne sampleTools sampleInput ∨
        ∃ w q, step sampleTools sampleInput p w = some q) := by
  have hrun : (run (step sampleTools sampleInput) (start sampleInput) [1, 0, 0, 1, 0]).isSome = true := by
    decide +kernel
  obtain ⟨p, hp⟩ := Option.isSome_iff_exists.mp hrun
  exact ⟨p, hp, any_order_same_segments sampleTools sampleInput [1, 0, 0, 1, 0] hp⟩

end ModelForge.PerTurnTranscription
