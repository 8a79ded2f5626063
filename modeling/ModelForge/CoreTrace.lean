import ModelForge.EventStream
import ModelForge.KeyedMap
import ModelForge.RunInvariant

set_option autoImplicit false

/-!
# Core traces

The armed sessions in memory, the rows of `CoreTraceSession` and
`CoreTraceEvent`, and the requests that claim a session and record into it. What
runs between two awaits, and each query, is one step.
-/
namespace ModelForge.CoreTrace
open RunInvariant
open EventStream (Value JsString js)

/-! ## Rows -/

inductive Status where
  | ARMED
  | CAPTURING
  | EXPIRED
  | CANCELLED
  | COMPLETED
  | FAILED
  deriving DecidableEq, Repr

structure Session where
  customerId : String
  requestId : Option String
  status : Status
  expiresAt : ℤ
  startedAt : Option ℤ
  completedAt : Option ℤ
  summary : Option Value
  createdAt : ℤ

structure TraceEventInput where
  phase : String
  kind : String
  payload : Option Value

inductive Call where
  | event (input : TraceEventInput)
  | complete (summary : Value)
  | fail (message : JsString)

def Call.input : Call → TraceEventInput
  | .event input => input
  | .complete summary => ⟨"complete", "request.completed", some summary⟩
  | .fail message => ⟨"failed", "request.failed", some (.object [(js "message", .string message)])⟩

/-- What the call makes of the session. -/
def Call.closing : Call → Option (Status × Value)
  | .event _ => none
  | .complete summary => some (.COMPLETED, summary)
  | .fail message => some (.FAILED, .object [(js "error", .string message)])

/-- `phase`, `kind` and `payload` are those of the call's input. -/
structure TraceEvent where
  traceId : String
  sequence : ℕ
  atMs : ℤ
  call : Call

def TraceEvent.terminal (e : TraceEvent) : Bool := e.call.closing.isSome

/-! ## Requests -/

inductive Doing where
  | idle
  /-- `coreTraceEvent.create` -/
  | creating (call : Call) (atMs : ℤ)
  /-- `coreTraceSession.update` -/
  | closing (status : Status) (summary : Value) (completedAt : ℤ)

structure CoreTraceRecorder where
  traceId : String
  originMs : ℤ
  sequence : ℕ
  closed : Bool
  doing : Doing

def CoreTraceRecorder.new (traceId : String) (originMs : ℤ) : CoreTraceRecorder :=
  ⟨traceId, originMs, 0, false, .idle⟩

/-- The methods, up to their first await. -/
def CoreTraceRecorder.enter (r : CoreTraceRecorder) (call : Call) (now : ℤ) : CoreTraceRecorder :=
  if r.closed then r
  else { r with sequence := r.sequence + 1, doing := .creating call (max 0 (now - r.originMs)) }

inductive Progress where
  | updating (traceId : String) (now : ℤ)
  | updated (traceId : String) (count : ℕ)
  | recording (recorder : CoreTraceRecorder)
  /-- `claimCoreTrace` returned `null`. -/
  | unclaimed

def Progress.recorder : Progress → Option CoreTraceRecorder
  | .recording r => some r
  | _ => none

/-- A request's call of `claimCoreTrace`, and its recorder. -/
structure Claim where
  customerId : String
  requestId : String
  startedAtMs : ℤ
  requestSnapshot : Value
  progress : Progress

inductive Hydration where
  | expired (now : ℤ)
  | found (sessions : List (String × String))
  | returned (size : ℕ)

structure World where
  armedByCustomer : KeyedMap String String
  sessions : KeyedMap String Session
  events : List TraceEvent
  hydrations : List Hydration
  claims : List Claim
  /-- Which request took which session, in order. -/
  captured : List (String × String)
  /-- The sessions that a recorder closed, and how. -/
  settled : List (String × Status)

def start : World := ⟨.empty, .empty, [], [], [], [], []⟩

/-! ## The map and the rows -/

def armCoreTrace (m : KeyedMap String String) (customerId traceId : String) : KeyedMap String String :=
  m.set customerId traceId

def disarmCoreTrace (m : KeyedMap String String) (customerId : String) (traceId : Option String) :
    KeyedMap String String :=
  if traceId.getD "" = "" ∨ m.get? customerId = traceId then m.delete customerId else m

def expire (now : ℤ) (row : Session) : Session :=
  if row.status = .ARMED ∧ row.expiresAt ≤ now then { row with status := .EXPIRED } else row

/-- The armed sessions, oldest first: their ids and customers. -/
def findArmed (sessions : KeyedMap String Session) (now : ℤ) : List (String × String) :=
  ((sessions.entries.filter fun e => e.2.status = .ARMED ∧ now < e.2.expiresAt).insertionSort
    fun a b => a.2.createdAt ≤ b.2.createdAt).map fun e => (e.1, e.2.customerId)

/-- Only the oldest armed capture per customer claims the next request. -/
def rebuild (sessions : List (String × String)) : KeyedMap String String :=
  sessions.foldl (fun m session =>
    if (m.get? session.2).isSome then m else m.set session.2 session.1) .empty

/-- `requestId` is unique. -/
def taken (sessions : KeyedMap String Session) (traceId requestId : String) : Bool :=
  sessions.entries.any fun e => e.1 ≠ traceId ∧ e.2.requestId = some requestId

def claimRow (sessions : KeyedMap String Session) (claim : Claim) (traceId : String) (now : ℤ) :
    Option Session :=
  (sessions.get? traceId).bind fun row =>
    if row.customerId = claim.customerId ∧ row.status = .ARMED ∧ now < row.expiresAt ∧
        taken sessions traceId claim.requestId = false then
      some { row with status := .CAPTURING, requestId := some claim.requestId, startedAt := some now }
    else none

/-! ## Steps -/

/-- How a query ends: as it should, without its answer, or before it did anything. -/
inductive Outcome where
  | answered
  | unanswered
  | refused
  deriving DecidableEq, Repr

inductive Event where
  /-- The web application opens a session, or cancels one. -/
  | create (traceId customerId : String) (expiresAt createdAt : ℤ)
  | cancel (traceId : String)
  | arm (customerId traceId : String)
  | disarm (customerId : String) (traceId : Option String)
  | hydrate (now : ℤ)
  | find (h : ℕ)
  | rebuild (h : ℕ)
  | claim (customerId requestId : String) (startedAtMs : ℤ) (explicitTraceId : Option String)
      (requestSnapshot : Value) (now : ℤ)
  | update (i : ℕ) (outcome : Outcome)
  /-- The rest of `claimCoreTrace`, to the recording of the request. -/
  | resume (i : ℕ) (now : ℤ)
  | call (i : ℕ) (call : Call) (now : ℤ)
  /-- The answers to what the `i`th request's recorder awaits. -/
  | created (i : ℕ) (now : ℤ)
  | closed (i : ℕ)

def World.setProgress (w : World) (i : ℕ) (progress : Progress) : World :=
  { w with claims := w.claims.modify i fun claim => { claim with progress := progress } }

def World.setHydration (w : World) (h : ℕ) (hydration : Hydration) : World :=
  { w with hydrations := w.hydrations.set h hydration }

def World.recorder (w : World) (i : ℕ) : Option CoreTraceRecorder :=
  w.claims[i]?.bind fun claim => claim.progress.recorder

def World.capture (w : World) (traceId requestId : String) (row : Session) : World :=
  { w with
    sessions := w.sessions.set traceId row
    captured := w.captured ++ [(traceId, requestId)] }

def World.update (w : World) (i : ℕ) (claim : Claim) (traceId : String) (now : ℤ) (outcome : Outcome) : World :=
  match outcome, claimRow w.sessions claim traceId now with
  | .answered, some row => (w.capture traceId claim.requestId row).setProgress i (.updated traceId 1)
  | .unanswered, some row => (w.capture traceId claim.requestId row).setProgress i (.updated traceId 0)
  | _, _ => w.setProgress i (.updated traceId 0)

def World.resume (w : World) (i : ℕ) (claim : Claim) (traceId : String) (count : ℕ) (now : ℤ) : World :=
  let disarmed :=
    { w with armedByCustomer := disarmCoreTrace w.armedByCustomer claim.customerId (some traceId) }
  if count = 1 then
    disarmed.setProgress i (.recording ((CoreTraceRecorder.new traceId claim.startedAtMs).enter
      (.event ⟨"ingress", "request.received", some claim.requestSnapshot⟩) now))
  else disarmed.setProgress i .unclaimed

/-- `traceId` and `sequence` are unique together; a write that fails is skipped. -/
def World.create (w : World) (e : TraceEvent) : World :=
  if w.events.any fun other => other.traceId = e.traceId ∧ other.sequence = e.sequence then w
  else { w with events := w.events ++ [e] }

def CoreTraceRecorder.created (r : CoreTraceRecorder) (call : Call) (now : ℤ) : CoreTraceRecorder :=
  match call.closing with
  | none => { r with doing := .idle }
  | some (status, summary) => { r with closed := true, doing := .closing status summary now }

def World.settle (w : World) (traceId : String) (status : Status) (summary : Value) (completedAt : ℤ) :
    World :=
  match w.sessions.get? traceId with
  | none => w
  | some row =>
    { w with
      sessions := w.sessions.set traceId
        { row with status := status, completedAt := some completedAt, summary := some summary }
      settled := w.settled ++ [(traceId, status)] }

def step (w : World) : Event → Option World
  | .create traceId customerId expiresAt createdAt =>
    if (w.sessions.get? traceId).isSome then none
    else
      some { w with
        sessions := w.sessions.set traceId
          ⟨customerId, none, .ARMED, expiresAt, none, none, none, createdAt⟩ }
  | .cancel traceId =>
    some { w with sessions := w.sessions.update traceId fun row => { row with status := .CANCELLED } }
  | .arm customerId traceId =>
    some { w with armedByCustomer := armCoreTrace w.armedByCustomer customerId traceId }
  | .disarm customerId traceId =>
    some { w with armedByCustomer := disarmCoreTrace w.armedByCustomer customerId traceId }
  | .hydrate now =>
    some { w with
      sessions := w.sessions.mapValues (expire now)
      hydrations := w.hydrations ++ [.expired now] }
  | .find h =>
    w.hydrations[h]?.bind fun
      | .expired now => some (w.setHydration h (.found (findArmed w.sessions now)))
      | _ => none
  | .rebuild h =>
    w.hydrations[h]?.bind fun
      | .found sessions =>
        let armed := rebuild sessions
        some ({ w with armedByCustomer := armed }.setHydration h (.returned armed.size))
      | _ => none
  | .claim customerId requestId startedAtMs explicitTraceId requestSnapshot now =>
    let traceId := explicitTraceId.or (w.armedByCustomer.get? customerId)
    let progress :=
      if traceId.getD "" = "" then .unclaimed else .updating (traceId.getD "") now
    some { w with
      claims := w.claims ++ [⟨customerId, requestId, startedAtMs, requestSnapshot, progress⟩] }
  | .update i outcome =>
    w.claims[i]?.bind fun claim =>
      match claim.progress with
      | .updating traceId now => some (w.update i claim traceId now outcome)
      | _ => none
  | .resume i now =>
    w.claims[i]?.bind fun claim =>
      match claim.progress with
      | .updated traceId count => some (w.resume i claim traceId count now)
      | _ => none
  | .call i call now =>
    (w.recorder i).bind fun r =>
      match r.doing with
      | .idle => some (w.setProgress i (.recording (r.enter call now)))
      | _ => none
  | .created i now =>
    (w.recorder i).bind fun r =>
      match r.doing with
      | .creating call atMs =>
        some ((w.create ⟨r.traceId, r.sequence, atMs, call⟩).setProgress i (.recording (r.created call now)))
      | _ => none
  | .closed i =>
    (w.recorder i).bind fun r =>
      match r.doing with
      | .closing status summary completedAt =>
        some ((w.settle r.traceId status summary completedAt).setProgress i
          (.recording { r with doing := .idle }))
      | _ => none

end ModelForge.CoreTrace
