import Libjadx.Spec.Scheduler

/-!
# Signals

`JobRegistry.signal` and the task it gives to the dispatcher's executor, around the sections of
the registry, with the leases that the admission gate looks at. A thread on its way through
`signal` is a count at its place: threads are not told apart, so that the dispatcher's own
signal may come later here than in the code. The closing of a lease is made of steps of its
own (`OperationCoordinator.Act`), by any thread that holds the lease.
-/

namespace Libjadx

/-- Where the dispatcher's task is: `do { pending.set(false); pump(); } while (pending.get())`, then
`finally { scheduled.set(false); if (pending.get()) signal(); }`. -/
inductive Loop
  | off | top | pump | check | clear | recheck
deriving DecidableEq

/-- The steps of the dispatcher's thread. -/
def Act.dispatcher : Act → Bool
  | .pump | .tryAdmit _ | .requeue | .capture _ | .start | .close _ | .execute _ | .fail => true
  | _ => false

/-- Refused since the service shuts down: `pump` returns after `finishDispatchFailure`. -/
def Dispatch.stopping : Dispatch → Bool
  | .failure _ none true => true
  | _ => false

/-- A lease that refuses the request by itself. -/
def OperationCoordinator.blocker (request : OperationRequest) (admission : Admission)
    (c : Coordinator) : Option LeaseId :=
  c.active.find? fun id => !compatible request admission { c with active := [id] }

structure Signals where
  scheduler : Scheduler
  leases : OperationCoordinator.Run
  /-- The lease of the rebuild, while the lifecycle is `RELOADING`. -/
  reloading : Option LeaseId
  /-- The lifecycle is `SHUTTING_DOWN`. -/
  shuttingDown : Bool
  dispatchPending : Bool
  dispatchScheduled : Bool
  loop : Loop
  /-- Tasks that the executor has and did not start. -/
  tasks : ℕ
  /-- Threads about to call `signal`. -/
  owed : ℕ
  /-- Threads that set `dispatchPending`: `compareAndSet` is next. -/
  marked : ℕ
  /-- Threads that won `compareAndSet`: `dispatcher.execute` is next. -/
  won : ℕ
  /-- Threads whose task the executor rejected: `dispatchScheduled.set(false)` is next. -/
  rejected : ℕ
  /-- History: the job that the gate refused last for now, and the lease it was refused for. -/
  refused : Option (JobId × LeaseId)

namespace Signals

inductive Act
  /-- A section of a caller or of a worker. -/
  | thread (a : Libjadx.Act)
  /-- A call of `signal` by any thread. -/
  | signal
  | setPending
  | compareAndSet
  | execute (accepted : Bool)
  | unschedule
  -- the dispatcher's thread
  | begin
  | clearPending
  | dispatch (a : Libjadx.Act) (returns : Bool)
  /-- `gate.tryAdmit`; the failure is that of the checks before the coordinator is asked. -/
  | tryAdmit (failure : Option Throwable)
  | check
  | clear
  | recheck
  -- leases
  | lease (a : OperationCoordinator.Act)
  /-- `admitReloading`. -/
  | reload (request : OperationRequest) (admission : Admission)
  /-- The lifecycle leaves `RELOADING`. -/
  | reloaded
  /-- The lifecycle becomes `SHUTTING_DOWN`, and the registry stops. -/
  | shutDown

variable (env : JobEnv)

/-- Whether the method goes on to call `signal` after its section. -/
def signals (s : Scheduler) (a : Libjadx.Act) (o : Except Throwable Unit) (t : Scheduler) : Bool :=
  match o, a with
  | .error _, _ => false
  | .ok _, .call (.submit _) => true
  -- `changed`: the request was the first
  | .ok _, .call (.cancel id) => !(s.registry.job id).terminal && (s.registry.job id).token.isNone
  -- `freed`: a job left the queue
  | .ok _, .call .tick => decide (t.registry.queue ≠ s.registry.queue)
  -- `removed`: the job was not put back
  | .ok _, .requeue => decide (t.registry.queue.length ≤ s.registry.queue.length)
  | .ok _, .fail => true
  | .ok _, .finish _ => true
  | .ok _, _ => false

/-- Where a step of `pump` takes the loop. -/
def after (a : Libjadx.Act) (returns : Bool) (o : Except Throwable Unit) (t : Scheduler) : Loop :=
  match o, a with
  | .error _, _ => .clear
  | .ok _, .pump => match t.dispatch with
    | .idle => .check
    | _ => .pump
  | .ok _, .requeue => .check
  | .ok _, _ => if returns then .check else .pump

/-- A section of the scheduler, and the signal that may follow. -/
def run (s : Signals) (a : Libjadx.Act) : Option (Except Throwable Unit × Signals) :=
  (Scheduler.act env s.scheduler a).map fun (o, t) =>
    (o, { s with scheduler := t, owed := s.owed + if signals s.scheduler a o t then 1 else 0 })

/-- What the gate answers a job, in the runtime's monitor. -/
def gate (s : Signals) (id : JobId) (failure : Option Throwable) : Option (Answer × Signals) :=
  match s.reloading with
  | some l => some (.throws .admissionDeferred, { s with refused := some (id, l) })
  | none => match failure with
    | some e => if e = .projectBusy ∨ e = .admissionDeferred then none else some (.throws e, s)
    | none =>
      let spec := (s.scheduler.registry.job id).spec
      match OperationCoordinator.tryAdmit spec.operation spec.admission s.leases.coordinator with
      | (.ok l, c) => some (.lease l, { s with leases := { s.leases with coordinator := c } })
      | (.error e, _) => some (.throws e, if e = .projectBusy then { s with
          refused := (OperationCoordinator.blocker spec.operation spec.admission
            s.leases.coordinator).map fun l => (id, l) }
        else s)

def act (s : Signals) : Act → Option (Except Throwable Unit × Signals)
  | .thread a => if a.dispatcher then none else run env s a
  | .signal => some (.ok (), { s with owed := s.owed + 1 })
  | .setPending =>
    if 0 < s.owed then
      some (.ok (), { s with owed := s.owed - 1, marked := s.marked + 1, dispatchPending := true })
    else none
  | .compareAndSet =>
    if 0 < s.marked then
      some (.ok (), if s.dispatchScheduled then { s with marked := s.marked - 1 }
        else { s with marked := s.marked - 1, won := s.won + 1, dispatchScheduled := true })
    else none
  | .execute accepted =>
    if 0 < s.won then
      if accepted then some (.ok (), { s with won := s.won - 1, tasks := s.tasks + 1 })
      -- the executor rejects what comes after `shutdown`
      else if s.scheduler.registry.stopped then some
        (.ok (), { s with won := s.won - 1, rejected := s.rejected + 1 })
      else none
    else none
  | .unschedule =>
    if 0 < s.rejected then some
      (.ok (), { s with rejected := s.rejected - 1, dispatchScheduled := false }) else none
  | .begin => if 0 < s.tasks ∧
      s.loop = .off then some (.ok (), { s with tasks := s.tasks - 1, loop := .top }) else none
  | .clearPending => if s.loop = .top then some
      (.ok (), { s with dispatchPending := false, loop := .pump }) else none
  | .dispatch a returns =>
    if s.loop = .pump ∧ a.dispatcher = true ∧
        (returns = true → s.scheduler.dispatch.stopping = true) then
      match a with
      | .tryAdmit _ => none
      | a => (run env s a).map fun (o, t) => (o, { t with loop := after a returns o t.scheduler })
    else none
  | .tryAdmit failure => match s.loop, s.scheduler.dispatch with
    | .pump, .gate id => (gate s id failure).bind fun (answer, t) => run env t (.tryAdmit answer)
    | _, _ => none
  | .check =>
    if s.loop = .check then some (.ok (), { s with loop := if s.dispatchPending then .top
      else .clear }) else none
  | .clear => if s.loop = .clear then some
      (.ok (), { s with dispatchScheduled := false, loop := .recheck }) else none
  | .recheck =>
    if s.loop = .recheck then
      some (.ok (), { s with loop := .off, owed := s.owed + if s.dispatchPending then 1 else 0 })
    else none
  -- the rebuild's lease is known to its thread only, which closes it after the rebuild
  | .lease (.close id) =>
    if s.reloading = some id then none
    else (OperationCoordinator.act s.leases (.close id)).map fun l =>
      (.ok (), { s with leases := l })
  -- `operationCompleted`; `closeInternal` takes over where the service shuts down
  | .lease (.afterRelease id) => (OperationCoordinator.act s.leases (.afterRelease id)).map fun l =>
    (.ok (), { s with leases := l, owed := s.owed + if s.shuttingDown then 0 else 1 })
  | .lease a => (OperationCoordinator.act s.leases a).map fun l => (.ok (), { s with leases := l })
  | .reload request admission =>
    if s.reloading.isSome ∨ s.shuttingDown = true then none
    else match OperationCoordinator.tryAdmit request admission s.leases.coordinator with
      | (.ok l, c) => some (.ok (), { s with leases := { s.leases with coordinator := c }, reloading := some l })
      | (.error e, _) => some (.error e, s)
  | .reloaded => some (.ok (), { s with reloading := none })
  | .shutDown => (run env s (.call .stopSubmissions)).map fun (o, t) =>
    (o, { t with shuttingDown := true, reloading := none })

/-! ## Runs -/

/-- Nothing was called yet. -/
def start (job : JobId → JobRecord) (subscription : SubscriptionId → Subscription)
    (lease : LeaseId → Lease) : Signals where
  scheduler := ⟨Scheduler.empty job subscription, .idle, []⟩
  leases := OperationCoordinator.start lease
  reloading := none
  shuttingDown := false
  dispatchPending := false
  dispatchScheduled := false
  loop := .off
  tasks := 0
  owed := 0
  marked := 0
  won := 0
  rejected := 0
  refused := none

/-- A step of a run; where `fit` holds every event fits its size limit. -/
def Step (fit : Prop) (s t : Signals) : Prop :=
  ∃ a o, act env s a = some (o, t) ∧ (fit → o ≠ .error JobRegistry.eventTooLarge)

def Reachable (fit : Prop) (s : Signals) : Prop :=
  ∃ job subscription lease, Relation.ReflTransGen (Step env fit) (start job subscription lease) s

/-! ## What should hold -/

/-- The dispatcher is off, nothing is scheduled, and no thread is on its way to signal. -/
structure Quiet (s : Signals) : Prop where
  off : s.loop = .off
  scheduled : s.dispatchScheduled = false
  owed : s.owed = 0
  marked : s.marked = 0

/-- The lease was not given up, or its callback is still to run. -/
def InProgress (s : Signals) (l : LeaseId) : Prop :=
  l ∈ s.leases.coordinator.active ∨ l ∈ s.leases.leaving

/-- The head of the queue was refused for a lease that is in progress, whose end signals. -/
def Refused (s : Signals) : Prop :=
  ∃ id rest l, s.scheduler.registry.queue = id :: rest ∧ s.refused = some (id, l) ∧ InProgress s l ∧
    ∀ o t, act env s (.lease (.afterRelease l)) = some (o, t) → t.owed = s.owed + 1

/-- No wake-up is missing: there is nothing to dispatch, no room, or a lease to wait for. -/
def Settled (s : Signals) : Prop :=
  s.scheduler.registry.queue = [] ∨ s.scheduler.registry.runningSlots = env.limits.maxRunning ∨
    Refused env s

end Signals

end Libjadx
