import Libjadx.Spec.SearchService
import Libjadx.Spec.Signals

/-!
# Search builds

`SearchService.buildIndex` submits a job for an identity of the index and some domains, unless the
build that it last submitted for them is under way. The table of the builds is guarded by
`buildLock`; the identity is read before the lock is taken. One step is what one thread does up to
the next thing that another thread may see. `jobs` and `replies` are history, not state of the code.
-/

namespace Libjadx

namespace SearchBuilds

/-- A call of `buildIndex` that did not return before the lock: the identity and the coverage that
it has read. -/
structure Request where
  key : SearchIndexKey
  domains : List Domain
  force : Bool
  coverage : List SearchIndexStore.Coverage
  /-- The callers refuse a domain that is given twice. -/
  distinct : domains.Nodup
  supported : .STRING_LITERAL ∉ domains
  needed : force = true ∨ ∃ c ∈ coverage, c.state ≠ .COMPLETE

/-- Where the thread that holds `buildLock` is. -/
inductive Point
  /-- `jobRegistry().snapshot(activeBuildId)` is next. -/
  | look (id : JobId)
  /-- `assertSearchBuildAvailable` is next. -/
  | available
  /-- The lease of the check is being closed, then `submitJob` is called. -/
  | submit (lease : LeaseId)
  /-- `submit` returns `snapshot(record.id)`, then `builds.put`. -/
  | put (id : JobId)

/-- How a request ends. -/
inductive Reply
  | existing (job : JobSnapshot)
  | submitted (job : JobSnapshot)
  | incomplete (missing : List JString) (coverage : List SearchIndexStore.Coverage)
  | throws (failure : Throwable)

structure State where
  signals : Signals
  /-- `publishedSearchIdentity` of the runtime. -/
  identity : Option SearchIndexKey
  buildIdentity : Option SearchIndexKey
  builds : JString → Option JobId
  /-- Threads that wait for `buildLock`. -/
  waiting : List Request
  holder : Option (Request × Point)
  jobs : JobId → Option (SearchIndexKey × List Domain)
  replies : List Reply

inductive Act
  /-- Anything that happens to the registry, its threads and the leases. -/
  | other (a : Signals.Act)
  | publish (identity : Option SearchIndexKey)
  /-- `runningBuild` of a query that requires completeness. -/
  | runningBuild (domains : List Domain)
  /-- `runtime.searchIdentity()`: the request goes on to the lock. -/
  | arrive (request : Request)
  /-- The lock is taken, and the table is read. -/
  | enter (i : ℕ)
  | look
  | available (failure : Option Throwable) (admission : Admission)
  | submit (failure : Option Throwable)
  | put

/-- `flight`. -/
def flight (key : SearchIndexKey) (domains : List Domain) : JString :=
  key.snapshotId ++ str ":" ++
    listText ((domains.mergeSort fun a b => a.ordinal ≤ b.ordinal).map Domain.name)

theorem isBlank_snapshotId (key : SearchIndexKey) : isBlank key.snapshotId = false := by
  have hcolon : isWhitespace (chr ':') = false := by decide
  have hin : chr ':' ∈ key.snapshotId := by
    have hsep : str ":" = [chr ':'] := by decide
    simp [SearchIndexKey.snapshotId, hsep]
  rw [isBlank, List.all_eq_false]
  exact ⟨chr ':', hin, by simp [hcolon]⟩

/-- What the request submits. -/
def jobSpec (r : Request) : JobSpec where
  type := str "search-build-index"
  operation := ⟨.CLASS_READ, str "search-build-index"⟩
  admission := ⟨r.key.sessionId, r.key.logicalRevision⟩
  sourceSnapshotId := r.key.snapshotId
  deadline := some (30 * 60 * 1000000000)
  capture := true
  named := ⟨by decide, isBlank_snapshotId r.key⟩
  deadline_positive := by simp
  captured := nofun

namespace State

/-- The registry's record of a job. -/
def job (s : State) (id : JobId) : JobRecord := s.signals.scheduler.registry.job id

/-- A build is not over. -/
def Live (s : State) (id : JobId) : Prop := (s.job id).terminal = false

def goto (r : Request) (p : Point) (s : State) : State := { s with holder := some (r, p) }

/-- The lock is given back. -/
def leave (reply : Reply) (s : State) : State :=
  { s with holder := none, replies := s.replies ++ [reply] }

/-- Where the table takes the request that holds the lock. -/
def found (r : Request) (s : State) : State :=
  s.goto r (match s.builds (flight r.key r.domains) with
    | some id => .look id
    | none => .available)

/-- `if (!key.equals(buildIdentity)) { builds.clear(); buildIdentity = key; }`. -/
def claim (key : SearchIndexKey) (s : State) : State :=
  if s.buildIdentity = some key then s else { s with builds := fun _ => none, buildIdentity := some key }

/-- What the request makes of the build that it has found. -/
def looked (r : Request) (id : JobId) (o : Except Throwable Unit) (s : State) : State :=
  match o with
  | .ok _ =>
    if (s.job id).terminal = false then s.leave (.existing ((s.job id).snapshot id))
    else if r.force = false ∧ (s.job id).state = .SUCCEEDED ∧
        (s.job id).completeness = some .PARTIAL then
      s.leave (.incomplete ((r.coverage.filter fun c => c.state ≠ .COMPLETE).map fun c =>
        c.domain.name) r.coverage)
    else s.goto r .available
  -- the job is gone: submit again
  | .error (.noSuchElement _) => s.goto r .available
  | .error e => s.leave (.throws e)

/-- `requireReady`; what it looks at besides is an answer from outside. -/
def requireReady (failure : Option Throwable) (s : State) : Except Throwable Unit :=
  match failure with
  | some e => .error e
  | none =>
    if s.signals.shuttingDown = true then .error .serviceShuttingDown
    else if s.signals.reloading.isSome = true then .error .projectNotReady
    else .ok ()

/-- A job is enrolled for the request. -/
def submitted (r : Request) (o : Except Throwable Unit) (t : Signals) (s : State) : State :=
  let id := s.signals.scheduler.registry.created
  let s := { s with
    signals := t
    jobs := if t.scheduler.registry.created = id then s.jobs else Function.update s.jobs id
      (some (r.key, r.domains)) }
  match o with
  | .ok _ => s.goto r (.put id)
  | .error e => s.leave (.throws e)

def stored (r : Request) (id : JobId) (o : Except Throwable Unit) (s : State) : State :=
  match o with
  | .ok _ => { s with builds := Function.update s.builds (flight r.key r.domains) (some id) }.leave
      (.submitted ((s.job id).snapshot id))
  | .error e => s.leave (.throws e)

end State

variable (env : JobEnv)

/-- A section of the registry that the service calls. -/
def calls (c : Call) (s : State) : Option (Except Throwable Unit × Signals) :=
  Signals.act env s.signals (.thread (.call c))

def act (s : State) : Act → Option (Except Throwable Unit × State)
  | .other a => (Signals.act env s.signals a).map fun (o, t) => (o, { s with signals := t })
  | .publish identity => some (.ok (), { s with identity := identity })
  | .runningBuild domains => match s.holder, s.identity with
    | some _, _ => none
    | none, none => some (.error .staleRevision, s)
    | none, some key =>
      match (if s.buildIdentity = some key then s.builds (flight key domains) else none) with
      | none => some (.ok (), s)
      | some id => (calls env (.snapshot id) s).map fun (o, t) => (o, { s with signals := t })
  | .arrive r => if s.identity = some r.key then some
      (.ok (), { s with waiting := s.waiting ++ [r] }) else none
  | .enter i => match s.holder, s.waiting[i]? with
    | none, some r => some (.ok (), ({ s with waiting := s.waiting.eraseIdx i }.claim r.key).found r)
    | _, _ => none
  | .look => match s.holder with
    | some (r, .look id) => (calls env (.snapshot id) s).map fun (o, t) =>
        (o, { s with signals := t }.looked r id o)
    | _ => none
  | .available failure admission => match s.holder with
    | some (r, .available) => match s.requireReady failure with
      | .error e => some (.error e, s.leave (.throws e))
      | .ok _ =>
        let request : OperationRequest := ⟨.CLASS_READ, str "search-build-admission"⟩
        match OperationCoordinator.tryAdmit request admission s.signals.leases.coordinator with
        | (.error e, _) => some (.error e, s.leave (.throws e))
        | (.ok l, c) => some (.ok (),
            { s with signals := { s.signals with leases := { s.signals.leases with coordinator :=
              c } } }.goto r (.submit l))
    | _ => none
  | .submit failure => match s.holder with
    | some (r, .submit l) =>
      if l ∈ s.signals.leases.released then
        match s.requireReady failure with
        | .error e => some (.error e, s.leave (.throws e))
        | .ok _ => (calls env (.submit (jobSpec r)) s).map fun (o, t) => (o, s.submitted r o t)
      else none
    | _ => none
  | .put => match s.holder with
    | some (r, .put id) => (calls env (.snapshot id) s).map fun (o, t) =>
        (o, { s with signals := t }.stored r id o)
    | _ => none

/-! ## Runs -/

/-- No build was asked for yet. -/
def start (job : JobId → JobRecord) (subscription : SubscriptionId → Subscription)
    (lease : LeaseId → Lease) : State where
  signals := Signals.start job subscription lease
  identity := none
  buildIdentity := none
  builds _ := none
  waiting := []
  holder := none
  jobs _ := none
  replies := []

/-- No request takes the table for an identity that has lost it while builds of that identity are
under way. -/
def Timely (s : State) (a : Act) : Prop :=
  ∀ i r, a = .enter i → s.waiting[i]? = some r → s.buildIdentity ≠ some r.key →
    ∀ id domains, s.jobs id = some (r.key, domains) → ¬ s.Live id

/-- A step in which every event fits its size limit; where `timely` holds it is timely. -/
def Step (timely : Prop) (s t : State) : Prop :=
  ∃ a o, act env s a = some (o, t) ∧ o ≠ .error JobRegistry.eventTooLarge ∧ (timely → Timely s a)

def Reachable (timely : Prop) (s : State) : Prop :=
  ∃ job subscription lease, Relation.ReflTransGen (Step env timely) (start job subscription lease) s

/-! ## What should hold -/

/-- The same set of domains. -/
def SameDomains (l m : List Domain) : Prop := ∀ d, d ∈ l ↔ d ∈ m

/-- There is at most one build under way for an identity and a set of domains. -/
def SingleFlight (s : State) : Prop :=
  ∀ i j key l m, s.jobs i = some (key, l) → s.jobs j = some (key, m) → SameDomains l m → s.Live i →
    s.Live j → i = j

/-- A build that is new after a step is one for an identity and domains that had none under way. -/
def Needed (s t : State) : Prop :=
  ∀ i key l, s.jobs i = none → t.jobs i = some (key, l) → ∀ j m, s.jobs j = some (key, m) →
    SameDomains l m → ¬ s.Live j

end SearchBuilds

end Libjadx
