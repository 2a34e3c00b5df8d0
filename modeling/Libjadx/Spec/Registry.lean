import Libjadx.Lib.Locked
import Libjadx.Spec.Jobs

/-!
# The job registry

`JobRegistry` under its lock. Job and subscription objects live on a heap, since the
dispatcher, the workers and readers hold them after the registry dropped them; `records` is
the registry's own map, in insertion order. Every method body inside `synchronized (lock)` is
one critical section. `log` and `cause` are history, not state of the code: all events a job
ever emitted, and the failure it ended with.
-/

namespace Libjadx

/-- What a registry is given: its limits, the readings of its ticker and of its clock, and the
JSON library. -/
structure JobEnv where
  limits : JobLimits
  ticker : ℕ → Int64
  clock : ℕ → ℤ
  writeValueAsString : EventData → JString
  /-- `json.readTree(text).isObject()`, false where the text does not parse. -/
  isObject : JString → Bool

abbrev SubscriptionId := ℕ

structure Subscription where
  replay : List JobEvent
  live : List JobEvent
  closed : Bool
  terminalAtOpen : Bool
  terminalDelivered : Bool
  overflowed : Bool

namespace Subscription

def offer (maxFrames : ℕ) (event : JobEvent) (s : Subscription) : Subscription :=
  if s.closed || s.overflowed then s
  else if maxFrames ≤ s.live.length then { s with overflowed := true, closed := true }
  else { s with live := s.live ++ [event] }

/-- `next`, once it no longer waits. -/
def next (s : Subscription) : Option JobEvent × Subscription :=
  if s.closed then (none, s)
  else match s.replay, s.live with
    | event :: replay, _ =>
      (some event, { s with replay := replay, terminalDelivered := s.terminalDelivered ||
        event.terminal })
    | [], event :: live =>
      (some event, { s with live := live, terminalDelivered := s.terminalDelivered || event.terminal })
    | [], [] => (none, { s with closed := s.terminalAtOpen || s.terminalDelivered })

def forceClose (s : Subscription) : Subscription := { s with closed := true }

end Subscription

/-- A `Record` of the registry. -/
structure JobRecord where
  spec : JobSpec
  createdAt : ℤ
  deadlineAt : Option ℤ
  deadlineNanos : Option Int64
  token : Option Reason
  events : List JobEvent
  subscribers : List SubscriptionId
  diagnostics : List JString
  state : JobState
  progress : JobProgress
  startedAt : Option ℤ
  completedAt : Option ℤ
  completedNanos : Option Int64
  completedOrder : ℕ
  resultJson : Option JString
  completeness : Option Completeness
  error : Option JobError
  nextSequence : ℕ
  dispatching : Bool
  log : List JobEvent
  cause : Option Throwable

namespace JobRecord

/-- `token.request(reason)`: the first request stays. -/
def request (r : JobRecord) (reason : Reason) : JobRecord :=
  { r with token := r.token.or (some reason) }

theorem isSome_request (r : JobRecord) (reason : Reason) :
    (r.request reason).token.isSome = true := by
  unfold request
  cases r.token <;> rfl

/-- `RUNNING` becomes `CANCELLING`. -/
def cancelling (r : JobRecord) : JobRecord :=
  if r.state = .RUNNING then { r with state := .CANCELLING } else r

def isCancellationRequested (r : JobRecord) : Bool := r.token.isSome

def snapshot (id : JobId) (r : JobRecord) : JobSnapshot where
  jobId := id
  type := r.spec.type
  state := r.state
  createdAt := r.createdAt
  startedAt := r.startedAt
  completedAt := r.completedAt
  deadlineAt := r.deadlineAt
  sessionId := r.spec.admission.sessionId
  logicalRevision := r.spec.admission.logicalRevision
  sourceSnapshotId := r.spec.sourceSnapshotId
  progress := r.progress
  resultJson := r.resultJson
  completeness := r.completeness
  error := r.error
  diagnostics := r.diagnostics
  cancellationReason := r.token

def terminal (r : JobRecord) : Bool := r.state.terminal

/-- The UTF-8 size of the retained result. -/
def resultBytes (r : JobRecord) : ℕ := (r.resultJson.map utf8Length).getD 0

end JobRecord

structure Registry where
  /-- Ids handed out: `UUID.randomUUID()` never repeats. -/
  created : ℕ
  job : JobId → JobRecord
  opened : ℕ
  subscription : SubscriptionId → Subscription
  records : List JobId
  queue : List JobId
  runningSlots : ℤ
  globalSubscribers : ℤ
  retainedResultBytes : ℤ
  completionSequence : ℕ
  stopped : Bool
  submissionsReserved : Bool
  shutdownDone : Bool
  /-- Readings of the ticker and of the clock so far. -/
  ticks : ℕ
  instants : ℕ

namespace Registry

/-- Change one job. -/
def update (s : Registry) (id : JobId) (f : JobRecord → JobRecord) : Registry :=
  { s with job := Function.update s.job id (f (s.job id)) }

def updateSubscription (s : Registry) (sub : SubscriptionId) (f : Subscription → Subscription) :
    Registry :=
  { s with subscription := Function.update s.subscription sub (f (s.subscription sub)) }

end Registry

namespace JobRegistry

open Locked

abbrev Section := Locked Registry Throwable

variable (env : JobEnv)

def edit (id : JobId) (f : JobRecord → JobRecord) : Section Unit := modify fun s => s.update id f

/-- `ticker.getAsLong()`. -/
def nanoTime : Section Int64 := do
  let s ← get
  modify fun s => { s with ticks := s.ticks + 1 }
  pure (env.ticker s.ticks)

/-- `clock.instant()`. -/
def instant : Section ℤ := do
  let s ← get
  modify fun s => { s with instants := s.instants + 1 }
  pure (env.clock s.instants)

/-- `Duration.toNanos()`. -/
def toNanos (duration : ℕ) : Section Int64 :=
  if duration < 2 ^ 63 then pure (Int64.ofNat duration) else throw .arithmetic

/-- The last instant of `java.time`, in nanoseconds. -/
def instantMax : ℤ := 31556889864403199999999999

/-- `Instant.plus`. -/
def plus (at_ : ℤ) (duration : ℕ) : Section ℤ :=
  if at_ + duration ≤ instantMax then pure (at_ + duration) else throw .dateTime

def findLocked (id : JobId) : Section JobRecord := do
  let s ← get
  if id ∈ s.records then pure (s.job id) else throw (.noSuchElement "Job not found or expired")

/-- `expired(record)`: the ticker is read only where there is a deadline. -/
def expired (id : JobId) : Section Bool := do
  let s ← get
  match (s.job id).deadlineNanos with
  | none => pure false
  | some deadline => do
    let now ← nanoTime env
    pure (0 ≤ now - deadline)

/-! ## Retention -/

/-- `removeRetainedLocked`. -/
def removeRetained (id : JobId) (s : Registry) : Registry :=
  let r := s.job id
  let closed := r.subscribers.foldl (fun s sub => s.updateSubscription sub Subscription.forceClose) s
  { closed.update id fun r => { r with subscribers := [], events := [] } with
    records := s.records.erase id
    retainedResultBytes := s.retainedResultBytes - r.resultBytes
    globalSubscribers := s.globalSubscribers - r.subscribers.length }

def purgeExpiredLocked : Section Unit := do
  let now ← nanoTime env
  let s ← get
  let completed := s.records.filter fun id => (s.job id).completedNanos.isSome
  if completed = [] then pure ()
  else do
    let ttl ← toNanos env.limits.terminalTtl
    forEach (completed.filter fun id => (s.job id).completedNanos.any fun c =>
      ttl ≤ now - c) fun id =>
      modify (removeRetained id)

/-- Whether the candidate completed before the oldest so far. -/
def olderThan (candidate oldest : JobRecord) : Bool :=
  match candidate.completedNanos, oldest.completedNanos with
  | some c, some o => c < o || (c == o && candidate.completedOrder < oldest.completedOrder)
  | _, _ => false

def oldestCompleted (requireResult : Bool) (records : List JobId) (job : JobId → JobRecord) :
    Option JobId :=
  records.foldl (fun oldest id =>
    if (job id).completedNanos.isNone || (requireResult && (job id).resultJson.isNone) then oldest
    else match oldest with
      | none => some id
      | some o => if olderThan (job id) (job o) then some id else some o) none

def enforceRetention (s : Registry) : Registry :=
  if (s.records.filter fun id => (s.job id).completedNanos.isSome).length ≤ env.limits.maxRetained then s
  else match oldestCompleted false s.records s.job with
    | none => s
    | some oldest => removeRetained oldest s

/-- `reclaimResultRoomLocked`. Every round removes a record, so as many rounds as there are
records are enough. -/
def reclaimResultRoom (incomingBytes : ℕ) : ℕ → Section Unit
  | 0 => do
    let s ← get
    if env.limits.maxTotalResultBytes < s.retainedResultBytes + incomingBytes then
      throw (.illegalState "Validated job result cannot fit retention budget")
    else pure ()
  | n + 1 => do
    let s ← get
    if env.limits.maxTotalResultBytes < s.retainedResultBytes + incomingBytes then
      match oldestCompleted true s.records s.job with
      | none => throw (.illegalState "Validated job result cannot fit retention budget")
      | some oldest => do
        modify (removeRetained oldest)
        reclaimResultRoom incomingBytes n
    else pure ()

def reclaimResultRoomLocked (incomingBytes : ℕ) : Section Unit := do
  let s ← get
  reclaimResultRoom env incomingBytes s.records.length

/-! ## Events and endings -/

def eventTooLarge : Throwable :=
  .illegalState "Bounded job event exceeds configured event byte limit"

/-- What an event reports about a record. -/
def eventData (id : JobId) (r : JobRecord) (type : EventType) (instant : ℤ) : EventData :=
  ⟨id, r.nextSequence, type, instant, r.state, r.progress⟩

/-- Append to the ring of retained events. -/
def retain (event : JobEvent) (events : List JobEvent) : List JobEvent :=
  if events.length = env.limits.maxEventsPerJob then events.tail ++ [event] else events ++ [event]

def emitLocked (id : JobId) (type : EventType) : Section Unit := do
  edit id fun r => { r with nextSequence := r.nextSequence + 1 }
  let now ← instant env
  let s ← get
  let r := s.job id
  let serialized := env.writeValueAsString (eventData id r type now)
  if env.limits.maxEventBytes < utf8Length serialized then throw eventTooLarge
  else do
    let event : JobEvent := ⟨id, r.nextSequence, type, now, r.state, serialized⟩
    edit id fun r => { r with events := retain env event r.events, log := r.log ++ [event] }
    forEach r.subscribers fun sub =>
      modify fun s => s.updateSubscription sub
        (Subscription.offer env.limits.maxFramesPerSubscriber event)

def markCompletedLocked (id : JobId) : Section Unit := do
  let at_ ← instant env
  let nanos ← nanoTime env
  modify fun s => { s with completionSequence := s.completionSequence + 1 }
  let s ← get
  edit id fun r => { r with
    completedAt := some at_, completedNanos := some nanos, completedOrder := s.completionSequence }

/-- `diagnostics.add`, where there is room. -/
def addDiagnostic (text : JString) (r : JobRecord) : JobRecord :=
  if r.diagnostics.length < env.limits.maxDiagnostics then { r with diagnostics := r.diagnostics ++
    [text] } else r

def finishCancelledLocked (id : JobId) : Section Unit := do
  let s ← get
  if (s.job id).terminal then pure ()
  else do
    edit id fun r => { r with state := .CANCELLED }
    markCompletedLocked env id
    emitLocked env id .cancelled
    modify (enforceRetention env)

def jobError (failure : Option Throwable) (message : String) : JobError :=
  ⟨match failure with
    | some (.resourceLimit _) => "RESOURCE_LIMIT"
    | some .staleJobSnapshot => "STALE_REVISION"
    | _ => "INTERNAL_ERROR", message, false⟩

def finishFailedLocked (id : JobId) (failure : Option Throwable) (message : String) :
    Section Unit := do
  let s ← get
  if (s.job id).terminal then pure ()
  else do
    edit id fun r => { r with state := .FAILED }
    markCompletedLocked env id
    edit id fun r => addDiagnostic env (str message) { r with
      error := some (jobError failure message), cause := failure }
    emitLocked env id .failed
    modify (enforceRetention env)

/-! ## The callers' sections -/

def reserveSubmissions : Section Unit := do
  let s ← get
  if s.stopped || s.submissionsReserved then throw .serviceShuttingDown
  else modify fun s => { s with submissionsReserved := true }

def releaseSubmissionReservation : Section Unit :=
  modify fun s => { s with submissionsReserved := false }

def stopSubmissions : Section Unit := modify fun s => { s with stopped := true }

/-- `new JobProgress(0, null, "queued")`. -/
def queuedProgress : JobProgress := ⟨0, none, str "queued", by decide⟩

/-- The constructor of `Record`. -/
def newRecord (spec : JobSpec) (nowNanos : Int64) (now : ℤ) : Section JobRecord := do
  let deadlineAt ← match spec.deadline with
    | none => pure none
    | some d => do pure (some (← plus now d))
  let deadlineNanos ← match spec.deadline with
    | none => pure none
    | some d => do pure (some (nowNanos + (← toNanos d)))
  pure {
    spec := spec, createdAt := now, deadlineAt := deadlineAt, deadlineNanos :=
      deadlineNanos, token := none
    events := [], subscribers := [], diagnostics := [], state := .QUEUED, progress := queuedProgress
    startedAt := none, completedAt := none, completedNanos := none, completedOrder :=
      0, resultJson := none
    completeness := none, error := none, nextSequence := 0, dispatching := false, log :=
      [], cause := none }

/-- `records.put(record.id, record); queue.addLast(record)`. -/
def enroll (record : JobRecord) (s : Registry) : Registry :=
  { s with
    created := s.created + 1
    job := Function.update s.job s.created record
    records := s.records ++ [s.created]
    queue := s.queue ++ [s.created] }

/-- The critical section of `submit`; it gives the new id. -/
def submit (spec : JobSpec) : Section JobId := do
  purgeExpiredLocked env
  let s ← get
  if s.stopped || s.submissionsReserved then throw .serviceShuttingDown
  else if env.limits.maxQueued ≤ s.queue.length ∨ env.limits.capacity ≤ s.records.length then
    throw (.resourceLimit "The process-local job capacity is exhausted")
  else do
    let now ← nanoTime env
    let at_ ← instant env
    let record ← newRecord spec now at_
    let s ← get
    modify (enroll record)
    emitLocked env s.created .queued
    pure s.created

def snapshot (id : JobId) : Section JobSnapshot := do
  purgeExpiredLocked env
  let r ← findLocked id
  pure (r.snapshot id)

/-- What `cancel` and `tick` do once the token has its reason. -/
def cancelRequested (id : JobId) : Section Unit := do
  edit id JobRecord.cancelling
  emitLocked env id .cancel_requested
  let s ← get
  when ((s.job id).state = .QUEUED && !(s.job id).dispatching) do
    modify fun s => { s with queue := s.queue.erase id }
    finishCancelledLocked env id

def cancel (id : JobId) : Section JobSnapshot := do
  purgeExpiredLocked env
  let r ← findLocked id
  when (!r.terminal && r.token.isNone) do
    edit id fun r => r.request .USER
    cancelRequested env id
  let s ← get
  pure ((s.job id).snapshot id)

/-- One record of `tick`'s loop. -/
def tickRecord (id : JobId) : Section Unit := do
  let s ← get
  when (!(s.job id).terminal) do
    let expired ← expired env id
    when (expired && (s.job id).token.isNone) do
      edit id fun r => addDiagnostic env (str "Job deadline expired") (r.request .DEADLINE)
      cancelRequested env id

def tick : Section Unit := do
  purgeExpiredLocked env
  let s ← get
  forEach s.records (tickRecord env)

/-- `subscribe`; it gives the new subscription. -/
def subscribe (id : JobId) (lastEventId : Option ℤ) : Section SubscriptionId := do
  purgeExpiredLocked env
  let r ← findLocked id
  if lastEventId.any (fun last => last < 0 || (r.nextSequence : ℤ) < last) then
    throw (.illegalArgument "Last-Event-ID is outside this job's event sequence")
  else if lastEventId.any (fun last => r.events.head?.any fun e => last < (e.sequence : ℤ) - 1) then
    throw .eventHistoryExpired
  else do
    let s ← get
    if env.limits.maxGlobalSubscribers ≤ s.globalSubscribers ∨
        env.limits.maxSubscribersPerJob ≤ r.subscribers.length then
      throw (.resourceLimit "Job SSE subscriber capacity is exhausted")
    else do
      let replay := r.events.filter fun e => lastEventId.all fun last => last < (e.sequence : ℤ)
      modify fun s => { s with
        opened := s.opened + 1
        subscription := Function.update s.subscription s.opened
          ⟨replay, [], false, r.terminal, false, false⟩ }
      edit id fun r => { r with subscribers := r.subscribers ++ [s.opened] }
      modify fun s => { s with globalSubscribers := s.globalSubscribers + 1 }
      pure s.opened

/-- `Subscription.close`, for a subscription of the job `id`. -/
def closeSubscription (id : JobId) (sub : SubscriptionId) : Section Unit := do
  let s ← get
  when (sub ∈ (s.job id).subscribers) do
    edit id fun r => { r with subscribers := r.subscribers.erase sub }
    modify fun s => { s with globalSubscribers := s.globalSubscribers - 1 }
  modify fun s => s.updateSubscription sub Subscription.forceClose

/-- `Subscription.next`; the registry lock is not held. -/
def next (sub : SubscriptionId) : Section (Option JobEvent) := do
  let s ← get
  modify fun s => s.updateSubscription sub fun b => b.next.2
  pure (s.subscription sub).next.1

/-- The first loop of `shutdown`, for one queued record. -/
def shutdownQueued (id : JobId) : Section Unit := do
  modify fun s => { s with queue := s.queue.erase id }
  edit id fun r => r.request .SHUTDOWN
  finishCancelledLocked env id

/-- The second loop of `shutdown`, for one record. -/
def shutdownActive (id : JobId) : Section Unit := do
  let s ← get
  when (!(s.job id).terminal) do
    edit id fun r => r.request .SHUTDOWN
    edit id JobRecord.cancelling
    emitLocked env id .cancel_requested

def shutdown : Section Unit := do
  let s ← get
  when (!s.shutdownDone) do
    modify fun s => { s with shutdownDone := true, stopped := true }
    forEach s.queue (shutdownQueued env)
    let s ← get
    forEach s.records (shutdownActive env)
    let s ← get
    forEach s.records fun id => do
      let s ← get
      forEach (s.job id).subscribers fun sub => modify fun s =>
        s.updateSubscription sub Subscription.forceClose

/-! ## The dispatcher's sections -/

/-- The head of `pump`: the record taken from the queue, if there is room for one. -/
def pump : Section (Option JobId) := do
  purgeExpiredLocked env
  let s ← get
  if s.stopped || env.limits.maxRunning ≤ s.runningSlots then pure none
  else match s.queue with
    | [] => pure none
    | id :: queue => do
      modify fun s => { s with queue := queue }
      edit id fun r => { r with dispatching := true }
      modify fun s => { s with runningSlots := s.runningSlots + 1 }
      pure (some id)

/-- The requests a dispatched job may find: its deadline, then a stop. -/
def requestLate (id : JobId) : Section Unit := do
  let expired ← expired env id
  when expired (edit id fun r => r.request .DEADLINE)
  let s ← get
  when s.stopped (edit id fun r => r.request .SHUTDOWN)

def requeueBlocked (id : JobId) : Section Unit := do
  modify fun s => { s with runningSlots := s.runningSlots - 1 }
  edit id fun r => { r with dispatching := false }
  requestLate env id
  let s ← get
  if s.stopped || (s.job id).isCancellationRequested then finishCancelledLocked env id
  else modify fun s => { s with queue := id :: s.queue }

def finishDispatchFailure (id : JobId) (failure : Option Throwable) (cancelled : Bool) :
    Section Unit := do
  modify fun s => { s with runningSlots := s.runningSlots - 1 }
  edit id fun r => { r with dispatching := false }
  let s ← get
  if failure.isSome then finishFailedLocked env id failure "Job admission failed"
  else if cancelled || (s.job id).isCancellationRequested then do
    edit id fun r => r.request .SHUTDOWN
    finishCancelledLocked env id
  else finishFailedLocked env id none "Job admission failed"

/-- The section of `startAdmitted`; it tells whether the job is cancelled instead. -/
def startAdmitted (id : JobId) : Section Bool := do
  requestLate env id
  let s ← get
  if (s.job id).isCancellationRequested then pure true
  else do
    edit id fun r => { r with dispatching := false, state := .RUNNING }
    let at_ ← instant env
    edit id fun r => { r with startedAt := some at_ }
    emitLocked env id .started
    pure false

/-! ## The workers' sections -/

/-- `validateResult`, with what else the `try` block of `execute` may have thrown. -/
def validateResult (result : Except Throwable (Option JobResult)) : Except Throwable JobResult :=
  match result with
  | .error e => .error e
  | .ok none => .error (.resourceLimit "Job result exceeds inline result limit")
  | .ok (some r) =>
    if env.limits.maxResultBytes < utf8Length r.json then
      .error (.resourceLimit "Job result exceeds inline result limit")
    else if env.isObject r.json then .ok r
    else .error (.illegalArgument "Job result is not valid JSON")

/-- The message of a failed execution. -/
def failureMessage : Throwable → String
  | .resourceLimit _ => "Job result exceeded its memory limit"
  | _ => "Job failed; inspect the local service log"

def succeed (id : JobId) (result : JobResult) : Section Unit := do
  reclaimResultRoomLocked env (utf8Length result.json)
  edit id fun r => { r with resultJson := some result.json, completeness := some result.completeness }
  modify fun s => { s with retainedResultBytes := s.retainedResultBytes + utf8Length result.json }
  edit id fun r => { r with state := .SUCCEEDED }
  markCompletedLocked env id
  emitLocked env id .completed

/-- How `execute` ends the job. -/
def conclude (id : JobId) (outcome : Except Throwable JobResult) : Section Unit := do
  let s ← get
  match outcome with
  | .error failure =>
    if failure = .cancellation ∧ (s.job id).isCancellationRequested then finishCancelledLocked env id
    else finishFailedLocked env id (some failure) (failureMessage failure)
  | .ok result =>
    if (s.job id).isCancellationRequested || s.stopped then do
      edit id fun r => r.request .SHUTDOWN
      finishCancelledLocked env id
    else succeed env id result

/-- The section of `execute`, after the task and the lease are done. -/
def finish (id : JobId) (outcome : Except Throwable JobResult) : Section Unit := do
  modify fun s => { s with runningSlots := s.runningSlots - 1 }
  conclude env id outcome
  modify (enforceRetention env)

/-- `Context.progress`. -/
def progress (id : JobId) (completed : ℤ) (total : Option ℤ) (stage : Option JString) :
    Section Unit :=
  match JobProgress.make completed total (bounded stage 128) with
  | .error e => throw e
  | .ok progress => do
    let s ← get
    if (s.job id).state ≠ .RUNNING ∧ (s.job id).state ≠ .CANCELLING then pure ()
    else if completed < (s.job id).progress.completed then
      throw (.illegalArgument "Progress cannot move backwards")
    else do
      edit id fun r => { r with progress := progress }
      emitLocked env id .progress

/-- `Context.diagnostic`. -/
def diagnostic (id : JobId) (message : Option JString) : Section Unit :=
  edit id fun r => addDiagnostic env (bounded message env.limits.maxDiagnosticBytes) r

end JobRegistry

end Libjadx
