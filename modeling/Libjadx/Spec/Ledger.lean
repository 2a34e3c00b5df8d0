import Libjadx.Spec.Scheduler

/-!
# The ledger of a registry

What a job registry keeps account of, without its locks and threads: the jobs, which of them
it still holds, which wait, and the counters. `Move` is everything that can happen to a
ledger; some moves belong to the thread that holds the job (`owner`). Every critical section
is a sequence of moves.
-/

namespace Libjadx

structure Ledger where
  created : ℕ
  job : JobId → JobRecord
  records : List JobId
  queue : List JobId
  runningSlots : ℤ
  globalSubscribers : ℤ
  retainedResultBytes : ℤ
  stopped : Bool

/-- The account of a registry. -/
def Registry.ledger (s : Registry) : Ledger :=
  ⟨s.created, s.job, s.records, s.queue, s.runningSlots, s.globalSubscribers,
    s.retainedResultBytes, s.stopped⟩

namespace JobRecord

/-- As the constructor leaves it. -/
structure Fresh (r : JobRecord) : Prop where
  state : r.state = .QUEUED
  dispatching : r.dispatching = false
  events : r.events = []
  log : r.log = []
  nextSequence : r.nextSequence = 0
  resultJson : r.resultJson = none
  completedNanos : r.completedNanos = none
  subscribers : r.subscribers = []
  token : r.token = none
  cause : r.cause = none

/-- Waiting in the queue. -/
def Waiting (r : JobRecord) : Prop := r.state = .QUEUED ∧ r.dispatching = false

/-- Being executed, or about to be told to stop. -/
def Executing (r : JobRecord) : Prop := r.state = .RUNNING ∨ r.state = .CANCELLING

/-- Holding a slot. -/
def Holds (r : JobRecord) : Prop := r.terminal = false ∧ (r.dispatching = true ∨ r.Executing)

instance (r : JobRecord) : Decidable r.Waiting := inferInstanceAs (Decidable (_ ∧ _))
instance (r : JobRecord) : Decidable r.Executing := inferInstanceAs (Decidable (_ ∨ _))
instance (r : JobRecord) : Decidable r.Holds := inferInstanceAs (Decidable (_ ∧ _))

/-- The record after an event. -/
def emitted (env : JobEnv) (id : JobId) (type : EventType) (now : ℤ) (r : JobRecord) : JobRecord :=
  let event : JobEvent := ⟨id, r.nextSequence + 1, type, now, r.state,
    env.writeValueAsString ⟨id, r.nextSequence + 1, type, now, r.state, r.progress⟩⟩
  { r with
    nextSequence := r.nextSequence + 1
    events := JobRegistry.retain env event r.events
    log := r.log ++ [event] }

def release (r : JobRecord) : JobRecord := { r with dispatching := false }

/-- A shutdown is blamed: for the cancellation, or for a failed admission. -/
def Blamed (r : JobRecord) : Prop :=
  r.token = some .SHUTDOWN ∨
    r.cause = some .serviceShuttingDown ∧ r.error.map JobError.message = some "Job admission failed"

def completed (state : JobState) (at_ : ℤ) (nanos : Int64) (order : ℕ) (r : JobRecord) :
    JobRecord :=
  { r with state := state, completedAt := some at_, completedNanos := some nanos, completedOrder := order }

end JobRecord

/-- What may happen to a job, whoever holds it. -/
inductive Change (env : JobEnv) (id : JobId) (r : JobRecord) : JobRecord → Prop
  | request (reason : Reason) : Change env id r (r.request reason)
  | note (diagnostics : List JString) : Change env id r { r with diagnostics := diagnostics }
  | cancel_requested (now : ℤ) : r.terminal = false →
      Change env id r (r.cancelling.emitted env id .cancel_requested now)
  | progress (progress : JobProgress) (now : ℤ) : r.Executing →
      Change env id r ({ r with progress := progress }.emitted env id .progress now)

/-- How a job ends without a result. -/
inductive Ends (env : JobEnv) (id : JobId) (r : JobRecord) : JobRecord → Prop
  | cancelled (at_ : ℤ) (nanos : Int64) (order : ℕ) (now : ℤ) :
      Ends env id r ((r.completed .CANCELLED at_ nanos order).emitted env id .cancelled now)
  | failed (at_ : ℤ) (nanos : Int64) (order : ℕ) (now : ℤ) (error : JobError)
      (cause : Option Throwable)
      (diagnostics : List JString) :
      Ends env id r ({ r.completed .FAILED at_ nanos order with
        error := some error, cause := cause, diagnostics := diagnostics }.emitted env id
          .failed now)

namespace Ledger

def set (l : Ledger) (id : JobId) (r : JobRecord) : Ledger :=
  { l with job := Function.update l.job id r }

/-- The registry drops a completed job. -/
def drop (l : Ledger) (id : JobId) : Ledger :=
  { l.set id { l.job id with subscribers := [], events := [] } with
    records := l.records.erase id
    retainedResultBytes := l.retainedResultBytes - (l.job id).resultBytes
    globalSubscribers := l.globalSubscribers - (l.job id).subscribers.length }

/-- The oldest completed job goes when there are too many. -/
def evict (env : JobEnv) (l : Ledger) : Ledger :=
  if (l.records.filter fun id => (l.job id).completedNanos.isSome).length ≤ env.limits.maxRetained then l
  else match JobRegistry.oldestCompleted false l.records l.job with
    | none => l
    | some oldest => l.drop oldest

def enroll (l : Ledger) (r : JobRecord) : Ledger :=
  { l with
    created := l.created + 1
    job := Function.update l.job l.created r
    records := l.records ++ [l.created]
    queue := l.queue ++ [l.created] }

/-- A shutdown is blamed for a job only where the registry is stopped, or where its holder was
`refused` by a runtime that shuts down. -/
def Blames (refused : Prop) (l : Ledger) (id : JobId) (r : JobRecord) : Prop :=
  r.Blamed → (l.job id).Blamed ∨ l.stopped = true ∨ refused

/-- One thing that happens to a ledger; `owner` is the job whose holder may act. -/
inductive Move (env : JobEnv) (owner : Option JobId) (refused : Prop) (l : Ledger) : Ledger → Prop
  | stop : Move env owner refused l { l with stopped := true }
  | enroll (r : JobRecord) (now : ℤ) : l.stopped = false → r.Fresh →
      Move env owner refused l (l.enroll (r.emitted env l.created .queued now))
  | change (id : JobId) (r : JobRecord) : id < l.created → Change env id (l.job id) r →
      l.Blames refused id r →
      Move env owner refused l (l.set id r)
  | take (id : JobId) (rest : List JobId) : l.queue = id :: rest →
      l.runningSlots < env.limits.maxRunning →
      Move env owner refused l { l.set id { l.job id with dispatching := true } with
        queue := rest, runningSlots := l.runningSlots + 1 }
  | endWaiting (id : JobId) (r : JobRecord) : id ∈ l.queue → Ends env id (l.job id) r →
      l.Blames refused id r →
      Move env owner refused l ({ l.set id r with queue := l.queue.erase id }.evict env)
  | drop (id : JobId) : id ∈ l.records → (l.job id).terminal = true →
      Move env owner refused l (l.drop id)
  | subscribe (id : JobId) (sub : SubscriptionId) : id ∈ l.records →
      Move env owner refused l { l.set id { l.job id with subscribers := (l.job id).subscribers ++
          [sub] } with
        globalSubscribers := l.globalSubscribers + 1 }
  | unsubscribe (id : JobId) (sub : SubscriptionId) : id < l.created →
      sub ∈ (l.job id).subscribers →
      Move env owner refused l { l.set id
          { l.job id with subscribers := (l.job id).subscribers.erase sub } with
        globalSubscribers := l.globalSubscribers - 1 }
  | start (id : JobId) (at_ now : ℤ) : owner = some id → id < l.created →
      (l.job id).dispatching = true →
      (l.job id).state = .QUEUED → (l.job id).token = none → l.stopped = false →
      Move env owner refused l (l.set id
        ({ (l.job id).release with state := .RUNNING, startedAt := some at_ }.emitted
        env id .started now))
  | putBack (id : JobId) : owner = some id → id < l.created → (l.job id).dispatching = true →
      (l.job id).state = .QUEUED →
      Move env owner refused l { l.set id (l.job id).release with
        queue := id :: l.queue, runningSlots := l.runningSlots - 1 }
  | endHeld (id : JobId) (r : JobRecord) : owner = some id → id < l.created → (l.job id).Holds →
      Ends env id (l.job id).release r → l.Blames refused id r →
      Move env owner refused l ({ l.set id r with runningSlots := l.runningSlots - 1 }.evict env)
  | succeed (id : JobId) (result : JobResult) (at_ : ℤ) (nanos : Int64) (order : ℕ) (now : ℤ) :
      owner = some id →
      id < l.created → (l.job id).Executing →
      l.retainedResultBytes + utf8Length result.json ≤ env.limits.maxTotalResultBytes →
      Move env owner refused l ({ l.set id (({ l.job id with
          resultJson := some result.json, completeness := some result.completeness }.completed
            .SUCCEEDED at_ nanos order).emitted env id .completed now) with
        runningSlots := l.runningSlots - 1
        retainedResultBytes := l.retainedResultBytes + utf8Length result.json }.evict env)

/-- What happens to a ledger over a critical section. -/
def Moves (env : JobEnv) (owner : Option JobId) (refused : Prop) : Ledger → Ledger → Prop :=
  Relation.ReflTransGen (Move env owner refused)

end Ledger

/-! ## What should hold -/

/-- The grammar of a job's events, and what the record says about its end. -/
structure JobRecord.LogOk (id : JobId) (r : JobRecord) : Prop where
  sequences : r.log.map JobEvent.sequence = List.range' 1 r.log.length
  job : ∀ e ∈ r.log, e.jobId = id
  first : r.log.head?.map JobEvent.type = some .queued
  started_once : (r.log.filter fun e => e.type = .started).length ≤ 1
  progress : ∀ a e b, r.log = a ++ e :: b → e.type = .progress →
    (∃ x ∈ a, x.type = .started) ∧ ∀ x ∈ a, x.terminal = false
  terminal_last : ∀ a e b, r.log = a ++ e :: b → e.terminal = true → b = [] ∧ e.state = r.state
  ended : r.terminal = true ↔ ∃ e ∈ r.log, e.terminal = true
  result : r.resultJson.isSome = true ↔ r.state = .SUCCEEDED
  /-- What the registry retains are the last of them. -/
  retained : r.events <:+ r.log

/-- The end of a job does not change any more. -/
def JobRecord.SameEnd (r r' : JobRecord) : Prop :=
  r'.state = r.state ∧ r'.error = r.error ∧ r'.resultJson = r.resultJson ∧
    r'.completeness = r.completeness ∧
    r'.log = r.log

/-- The sum of a weight over the jobs the registry holds. -/
def Ledger.total (w : JobRecord → ℕ) (l : Ledger) : ℕ := (l.records.map fun id => w (l.job id)).sum

/-- The accounts agree with the jobs. -/
structure Ledger.Balanced (env : JobEnv) (l : Ledger) : Prop where
  /-- Slots are held by jobs that dispatch or execute, and there are not too many. -/
  slots : l.runningSlots = l.total fun r => if r.Holds then 1 else 0
  slots_bound : 0 ≤ l.runningSlots ∧ l.runningSlots ≤ env.limits.maxRunning
  /-- The queue holds the waiting jobs, once each, and nothing else. -/
  queue_nodup : l.queue.Nodup
  queue : ∀ id, id ∈ l.queue ↔ id < l.created ∧ (l.job id).Waiting
  /-- A job that is not over is still in the registry. -/
  live : ∀ id < l.created, (l.job id).terminal = false → id ∈ l.records
  retained : (l.total fun r => if r.terminal then 1 else 0) ≤ env.limits.maxRetained
  bytes : l.retainedResultBytes = l.total JobRecord.resultBytes
  bytes_bound : l.retainedResultBytes ≤ env.limits.maxTotalResultBytes
  subscribers : l.globalSubscribers = l.total fun r => r.subscribers.length

end Libjadx
