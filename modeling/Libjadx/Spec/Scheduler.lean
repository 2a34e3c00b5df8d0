import Libjadx.Spec.Coordinator
import Libjadx.Spec.Registry

/-!
# The registry's threads

The dispatcher takes the head of the queue, asks the admission gate, captures, starts the
job and hands it to a worker; each worker runs one task, closes its lease and finishes the
job. `act` is one step of one thread: a critical section of the registry, or what happens
between two of them. What other code answers (the gate, a capture, a task, the closing of a
lease, the executor) is part of the action.
-/

namespace Libjadx

/-- Where the dispatcher is. -/
inductive Dispatch
  /-- Outside `pump`, or at the head of its loop. -/
  | idle
  /-- `gate.tryAdmit` is called. -/
  | gate (id : JobId)
  /-- Refused for now: `requeueBlocked` is next. -/
  | busy (id : JobId)
  /-- Admitted: `capture` is called. -/
  | capture (id : JobId) (lease : LeaseId)
  /-- Captured: the section of `startAdmitted` is next. -/
  | start (id : JobId) (lease : LeaseId)
  /-- `job.started` is emitted: `workers.execute` is called. -/
  | handOff (id : JobId) (lease : LeaseId)
  /-- `lease.close` is called, then `finishDispatchFailure`: after a failed capture, for a
  cancelled job, and for a task the executor rejected. -/
  | closeCaptured (id : JobId) (lease : LeaseId) (failure : Throwable)
  | closeCancelled (id : JobId) (lease : LeaseId)
  | closeRejected (id : JobId) (lease : LeaseId)
  /-- `finishDispatchFailure` is next. -/
  | failure (id : JobId) (failure : Option Throwable) (cancelled : Bool)

/-- Where a worker is. -/
inductive Phase
  /-- The executor has the task. -/
  | handed
  | running
  /-- The task is over: `lease.close` is called. -/
  | closing (outcome : Except Throwable JobResult)
  /-- The section of `execute` is next. -/
  | finishing (outcome : Except Throwable JobResult)

structure Worker where
  id : JobId
  lease : LeaseId
  phase : Phase

structure Scheduler where
  registry : Registry
  dispatch : Dispatch
  workers : List Worker

/-- What `gate.tryAdmit` does. -/
inductive Answer
  | lease (lease : LeaseId)
  | throws (failure : Throwable)

/-- A call of a public method by any thread. -/
inductive Call
  | reserveSubmissions
  | releaseSubmissionReservation
  | stopSubmissions
  | submit (spec : JobSpec)
  | snapshot (id : JobId)
  | cancel (id : JobId)
  | tick
  | subscribe (id : JobId) (lastEventId : Option ℤ)
  | closeSubscription (id : JobId) (sub : SubscriptionId)
  | next (sub : SubscriptionId)
  | shutdown
  | progress (id : JobId) (completed : ℤ) (total : Option ℤ) (stage : Option JString)
  | diagnostic (id : JobId) (message : Option JString)

/-- The objects a call is made on exist: a caller has them from an earlier call. -/
def Call.known (s : Registry) : Call → Bool
  | .closeSubscription id sub => id < s.created && sub < s.opened
  | .next sub => sub < s.opened
  | .progress id _ _ _ => id < s.created
  | .diagnostic id _ => id < s.created
  | _ => true

inductive Act
  | call (c : Call)
  -- the dispatcher
  | pump
  | tryAdmit (answer : Answer)
  | requeue
  | capture (failure : Option Throwable)
  | start
  | close (failure : Option Throwable)
  | execute (accepted : Bool)
  | fail
  -- the worker at a position
  | run (worker : ℕ)
  | returns (worker : ℕ) (result : Except Throwable (Option JobResult))
  | release (worker : ℕ) (failure : Option Throwable)
  | finish (worker : ℕ)

namespace Scheduler

open JobRegistry Locked

variable (env : JobEnv)

/-- Forget the value of a section. -/
def void {α : Type} (m : Section α) : Section Unit := m >>= fun _ => pure ()

def call : Call → Section Unit
  | .reserveSubmissions => reserveSubmissions
  | .releaseSubmissionReservation => releaseSubmissionReservation
  | .stopSubmissions => stopSubmissions
  | .submit spec => void (submit env spec)
  | .snapshot id => void (JobRegistry.snapshot env id)
  | .cancel id => void (cancel env id)
  | .tick => tick env
  | .subscribe id lastEventId => void (subscribe env id lastEventId)
  | .closeSubscription id sub => closeSubscription id sub
  | .next sub => void (next sub)
  | .shutdown => shutdown env
  | .progress id completed total stage => progress env id completed total stage
  | .diagnostic id message => diagnostic env id message

/-- Run a section; what it throws leaves the thread at `failed`. -/
def section_ {α : Type} (s : Scheduler) (m : Section α) (done : α → Scheduler → Scheduler)
    (failed : Scheduler → Scheduler) : Except Throwable Unit × Scheduler :=
  match m s.registry with
  | (.ok a, r) => (.ok (), done a { s with registry := r })
  | (.error e, r) => (.error e, failed { s with registry := r })

def goto (d : Dispatch) (s : Scheduler) : Scheduler := { s with dispatch := d }

/-- Where the answer of the gate takes the dispatcher. -/
def answered (id : JobId) : Answer → Dispatch
  | .lease lease => .capture id lease
  | .throws .projectBusy => .busy id
  | .throws .admissionDeferred => .busy id
  | .throws .serviceShuttingDown => .failure id none true
  | .throws failure => .failure id (some failure) false

/-- Between the sections of the dispatcher: where it goes, with the registry it leaves. -/
def closed (s : Scheduler) (failure : Option Throwable) : Option Scheduler :=
  match s.dispatch with
  | .closeCaptured id _ captureFailure => some (s.goto (.failure id (some captureFailure) false))
  | .closeCancelled id _ => some (s.goto (.failure id failure failure.isNone))
  | .closeRejected id _ =>
    if s.registry.stopped && failure.isNone then
      some { s with
        registry := s.registry.update id fun r => r.request .SHUTDOWN
        dispatch := .failure id none true }
    else some (s.goto (.failure id (some .rejectedExecution) false))
  | _ => none

/-- What `execute` makes of an outcome when its lease is closed: a failure to close is the
failure of a task that had none. -/
def settled (outcome : Except Throwable JobResult) : Option Throwable → Except Throwable JobResult
  | none => outcome
  | some e => match outcome with
    | .ok _ => .error e
    | .error failure => .error failure

def setPhase (s : Scheduler) (i : ℕ) (w : Worker) (phase : Phase) : Scheduler :=
  { s with workers := s.workers.set i { w with phase := phase } }

/-- One step: `none` where the thread is not at that place. -/
def act (s : Scheduler) : Act → Option (Except Throwable Unit × Scheduler)
  | .call c => if c.known s.registry then some (s.section_ (call env c) (fun _ s => s) id) else none
  | .pump => match s.dispatch with
    | .idle => some (s.section_ (JobRegistry.pump env)
        (fun head s => match head with | none => s | some id => s.goto (.gate id)) (goto .idle))
    | _ => none
  | .tryAdmit answer => match s.dispatch with
    | .gate id => some (.ok (), s.goto (answered id answer))
    | _ => none
  | .requeue => match s.dispatch with
    | .busy id => some (s.section_ (requeueBlocked env id) (fun _ => goto .idle) (goto .idle))
    | _ => none
  | .capture failure => match s.dispatch with
    | .capture id lease => some (.ok (), s.goto (match failure with
        | none => .start id lease
        | some e => .closeCaptured id lease e))
    | _ => none
  | .start => match s.dispatch with
    | .start id lease => some (s.section_ (startAdmitted env id)
        (fun cancelled => goto (if cancelled then .closeCancelled id lease else .handOff id lease))
          (goto .idle))
    | _ => none
  | .close failure => (s.closed failure).map fun t => (.ok (), t)
  | .execute accepted => match s.dispatch with
    | .handOff id lease =>
      if accepted then some (.ok (), { s with dispatch := .idle, workers := s.workers ++
        [⟨id, lease, .handed⟩] })
      else some (.ok (), s.goto (.closeRejected id lease))
    | _ => none
  | .fail => match s.dispatch with
    | .failure id failure cancelled =>
      some (s.section_ (finishDispatchFailure env id failure cancelled) (fun _ => goto .idle)
        (goto .idle))
    | _ => none
  | .run i => match s.workers[i]? with
    | some w => match w.phase with
      | .handed => some (.ok (), s.setPhase i w .running)
      | _ => none
    | none => none
  | .returns i result => match s.workers[i]? with
    | some w => match w.phase with
      | .running => some (.ok (), s.setPhase i w (.closing (validateResult env result)))
      | _ => none
    | none => none
  | .release i failure => match s.workers[i]? with
    | some w => match w.phase with
      | .closing outcome => some (.ok (), s.setPhase i w (.finishing (settled outcome failure)))
      | _ => none
    | none => none
  | .finish i => match s.workers[i]? with
    | some w => match w.phase with
      | .finishing outcome =>
        some (s.section_ (JobRegistry.finish env w.id outcome)
          (fun _ s => { s with workers := s.workers.eraseIdx i }) (fun s =>
            { s with workers := s.workers.eraseIdx i }))
      | _ => none
    | none => none

/-! ## Runs -/

/-- A registry without jobs. -/
def empty (job : JobId → JobRecord) (subscription : SubscriptionId → Subscription) : Registry where
  created := 0
  job := job
  opened := 0
  subscription := subscription
  records := []
  queue := []
  runningSlots := 0
  globalSubscribers := 0
  retainedResultBytes := 0
  completionSequence := 0
  stopped := false
  submissionsReserved := false
  shutdownDone := false
  ticks := 0
  instants := 0

/-- A step in which every event fits its size limit. -/
def Step (s t : Scheduler) : Prop := ∃ a r, act env s a = some (r, t) ∧ r ≠ .error eventTooLarge

/-- The states of a run in which every event fits. -/
def Reachable (s : Scheduler) : Prop :=
  ∃ job subscription, Relation.ReflTransGen (Step env) ⟨empty job subscription, .idle, []⟩ s

/-! ## Streams -/

/-- What `next` gives on one subscription. -/
def polled (sub : SubscriptionId) (s : Scheduler) : Act → List JobEvent
  | .call (.next x) => if x = sub then (s.registry.subscription sub).next.1.toList else []
  | _ => []

/-- A run, with what it polled from one subscription. Where `fit` holds, every event fits. -/
inductive Delivers (fit : Prop) (sub : SubscriptionId) (s : Scheduler) :
    List JobEvent → Scheduler → Prop
  | refl : Delivers fit sub s [] s
  | tail {l : List JobEvent} {t u : Scheduler} {a : Act} {o : Except Throwable Unit} :
      Delivers fit sub s l t →
      act env t a = some (o, u) → (fit → o ≠ .error eventTooLarge) →
        Delivers fit sub s (l ++ polled sub t a) u

/-- The states of a run that loses no event, where no job has subscribers before it is created. -/
def Begun (s : Scheduler) : Prop :=
  ∃ job subscription, (∀ id, (job id).subscribers = []) ∧
    Relation.ReflTransGen (Step env) ⟨empty job subscription, .idle, []⟩ s

end Scheduler

/-- Poll a subscription `n` times, with nothing in between. -/
def Subscription.drain : ℕ → Subscription → List JobEvent
  | 0, _ => []
  | n + 1, s => s.next.1.toList ++ drain n s.next.2

/-- The number before the first event that a new subscription gives. -/
def JobRecord.origin (lastEventId : Option ℤ) (r : JobRecord) : ℕ :=
  match lastEventId, r.events with
  | some last, _ => last.toNat
  | none, e :: _ => e.sequence - 1
  | none, [] => r.nextSequence

end Libjadx
