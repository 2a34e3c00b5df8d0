import Libjadx.Spec.Repository
import Libjadx.Spec.Scheduler
import Libjadx.Spec.SearchIndex

/-!
# The project runtime

`ProjectRuntime`: one project, its engine, and what is published of both. `Runtime` has the fields
that `lifecycleLock` guards, the coordinator and the registry, and the repositories and engines
the fields refer to. A `Section` runs under `lifecycleLock`; `ofRepository` lifts a call of a
repository, which holds that repository's monitor. The text of the status is left out.
-/

namespace Libjadx

inductive Lifecycle
  | LOADING | READY | RELOADING | FAILED | SHUTTING_DOWN | STOPPED
deriving DecidableEq, Repr

inductive TaskState
  | QUEUED | RUNNING | FINISHED
deriving DecidableEq, Repr

inductive ShutdownPolicy
  | SAVE | REFUSE_IF_DIRTY | DISCARD
deriving DecidableEq, Repr

/-- An engine that the factory returned. -/
abbrev EngineId := ℕ

/-- `JadxArgs`, up to what the settings fix. -/
structure JadxArgs where
  inputFiles : List Path
  userRenamesMappingsPath : Option Path
  codeData : CodeData
deriving DecidableEq

structure Engine where
  args : JadxArgs
  /-- Calls of `close`. -/
  closes : ℕ

/-- What a runtime is made with, and the world around it. -/
structure RuntimeEnv where
  disk : RepositoryId → Disk
  jobs : JobEnv
  inputPaths : List Path
  /-- `effectiveConfig.fingerprint()`. -/
  fingerprint : JString

structure Runtime where
  lifecycle : Lifecycle
  activeEngine : Option EngineId
  repository : Option RepositoryId
  publicationEpoch : ℤ
  publishedAdmission : Admission
  publishedSearchIdentity : Option SearchIndexKey
  initializationStarted : Bool
  initializationTask : Option TaskState
  cleanupInProgress : ℤ
  shutdownReserved : Bool
  leases : OperationCoordinator.Run
  jobs : Scheduler
  /-- The repository objects. -/
  heap : RepositoryId → Repository
  /-- Engines the factory returned so far. -/
  created : ℕ
  engine : EngineId → Engine

namespace ProjectRuntime

open Locked

abbrev Section := Locked Runtime Throwable

variable (env : RuntimeEnv)

/-! ## Calls of other objects -/

/-- A call of a repository. -/
def ofRepository {α : Type} (r : RepositoryId) (m : NativeProjectRepository.Section α) :
    Section α := fun s =>
  ((m (s.heap r)).1, { s with heap := Function.update s.heap r (m (s.heap r)).2 })

/-- A call of the coordinator. -/
def ofCoordinator {α : Type} (m : OperationCoordinator.Section α) : Section α := fun s =>
  ((m s.leases.coordinator).1,
    { s with leases := { s.leases with coordinator := (m s.leases.coordinator).2 } })

/-- A call of the registry. -/
def ofRegistry {α : Type} (m : JobRegistry.Section α) : Section α := fun s =>
  ((m s.jobs.registry).1, { s with jobs := { s.jobs with registry := (m s.jobs.registry).2 } })

/-- `engineFactory.create` returned an engine. -/
def create (args : JadxArgs) (s : Runtime) : Runtime :=
  { s with created := s.created + 1, engine := Function.update s.engine s.created ⟨args, 0⟩ }

/-- The engine has loaded, and its arguments are what `decompiler().getArgs()` says by now. -/
def loaded (e : EngineId) (args : JadxArgs) (s : Runtime) : Runtime :=
  { s with engine := Function.update s.engine e { s.engine e with args := args } }

/-- `engine.close()`. -/
def closeEngine (e : EngineId) (s : Runtime) : Runtime :=
  { s with engine := Function.update s.engine e { s.engine e with closes := (s.engine e).closes + 1 } }

/-- `JadxEngineFactory.arguments`. -/
def arguments (mappings : Option Path) (codeData : CodeData) : JadxArgs :=
  ⟨env.inputPaths, mappings, codeData⟩

/-! ## Admission -/

def unavailable (s : Runtime) : Throwable :=
  if s.lifecycle = .SHUTTING_DOWN ∨ s.lifecycle = .STOPPED then .serviceShuttingDown
    else .projectNotReady

def requireReady : Section Unit := do
  let s ← get
  if s.shutdownReserved then throw .serviceShuttingDown
  else if s.lifecycle ≠ .READY ∨ s.repository = none then throw (unavailable s)
  else pure ()

/-- The cached identity is set on the way. -/
def admission (snapshot : ProjectSnapshot) : Section Admission := do
  modify fun s => { s with
    publishedSearchIdentity := some
      ⟨snapshot.revisions.sessionId, snapshot.revisions.logicalRevision, s.publicationEpoch,
        env.fingerprint⟩ }
  pure ⟨snapshot.revisions.sessionId, snapshot.revisions.logicalRevision⟩

/-- `publishedAdmission = admission(snapshot)`. -/
def publishAdmission (snapshot : ProjectSnapshot) : Section Unit := do
  let admission ← admission env snapshot
  modify fun s => { s with publishedAdmission := admission }

def tryAdmit (request : OperationRequest) : Section LeaseId := do
  let s ← get
  ofCoordinator (OperationCoordinator.tryAdmit request s.publishedAdmission)

/-- `admit`. -/
def admitOperation (request : OperationRequest) : Section LeaseId := do
  requireReady
  tryAdmit request

def admitJob (request : OperationRequest) (expected : Admission) : Section LeaseId := do
  let s ← get
  if s.lifecycle = .RELOADING then throw .admissionDeferred
  else do
    requireReady
    if s.publishedAdmission ≠ expected then throw .staleJobSnapshot
    else tryAdmit request

def admitReloading (request : OperationRequest) : Section LeaseId := do
  requireReady
  let lease ← tryAdmit request
  modify fun s => { s with
    lifecycle := .RELOADING, publicationEpoch := s.publicationEpoch + 1, publishedSearchIdentity :=
      none }
  pure lease

def submitJob (spec : JobSpec) : Section JobId := do
  requireReady
  ofRegistry (JobRegistry.submit env.jobs spec)

/-- `captureSearchRead`, up to the engine it lends. -/
def captureSearchRead (expected : SearchIndexKey) : Section RevisionState := do
  requireReady
  let s ← get
  if some expected ≠ s.publishedSearchIdentity then throw .staleJobSnapshot
  else match s.activeEngine, s.repository with
    | some _, some current => do
      let snapshot ← ofRepository current NativeProjectRepository.snapshot
      pure snapshot.revisions
    -- a `NullPointerException`
    | _, _ => throw .exception

/-! ## Closing -/

/-- The coordinator and the registry take nothing more. -/
def stop : Section Unit := do
  ofCoordinator OperationCoordinator.stopAdmissions
  ofRegistry JobRegistry.stopSubmissions

/-- `coordinator.primaryEngineInUse() ? null : activeEngine`. -/
def detached (s : Runtime) : Option EngineId :=
  if OperationCoordinator.primaryEngineInUse s.leases.coordinator then none else s.activeEngine

/-- The engine is taken out of the runtime where no lease uses it. -/
def detach : Section (Option EngineId) := do
  let s ← get
  match detached s with
  | none => pure none
  | some e => do
    modify fun s => { s with activeEngine := none, cleanupInProgress := s.cleanupInProgress + 1 }
    pure (some e)

/-- The first section of `reportFatalRebuild`. -/
def fail : Section (Option EngineId) := do
  modify fun s => if s.lifecycle ≠ .SHUTTING_DOWN ∧ s.lifecycle ≠ .STOPPED then
    { s with lifecycle := .FAILED, publishedSearchIdentity := none } else s
  stop
  detach

/-- `cancelled.state = FINISHED`, for a task that the loader did not start. -/
def cancelTask (s : Runtime) : Runtime :=
  if s.initializationTask = some .QUEUED then { s with initializationTask := some .FINISHED } else s

/-- The first section of `closeInternal`; `none` where it returns at once. -/
def shutDown : Section (Option (Option EngineId)) := do
  let s ← get
  if s.lifecycle = .STOPPED then pure none
  else do
    modify fun s => if s.lifecycle ≠ .SHUTTING_DOWN then
      { s with lifecycle := .SHUTTING_DOWN, publishedSearchIdentity := none } else s
    stop
    let engine ← detach
    modify cancelTask
    pure (some engine)

def quiescent (s : Runtime) : Bool :=
  s.lifecycle = .SHUTTING_DOWN && (s.initializationTask = none || s.initializationTask =
    some .FINISHED) &&
    s.cleanupInProgress = 0 && s.activeEngine.isNone && OperationCoordinator.inFlightCount
      s.leases.coordinator = 0

def finishShutdownIfQuiescent : Section Unit :=
  modify fun s => if quiescent s then { s with lifecycle := .STOPPED } else s

/-- The last section of `closeInternal` and of `reportFatalRebuild`. -/
def quiesce (cleanup : Bool) : Section Unit := do
  modify fun s => if cleanup then { s with cleanupInProgress := s.cleanupInProgress - 1 } else s
  finishShutdownIfQuiescent

/-- The section of `operationCompleted`: whether `closeInternal` is next. -/
def operationCompleted : Section Bool := do
  let s ← get
  when (s.lifecycle ≠ .SHUTTING_DOWN) finishShutdownIfQuiescent
  pure (s.lifecycle = .SHUTTING_DOWN)

/-! ## Requested shutdown -/

/-- `jobs.activeJobs(16).count()`. -/
def activeJobs (s : Registry) : ℕ := s.records.countP fun id => !(s.job id).terminal

/-- A `try` block: what it throws is looked at later. -/
def attempt {α : Type} (m : Section α) : Section (Except Throwable α) :=
  fun s => (.ok (m s).1, (m s).2)

/-- The checks of `requestShutdown`, and the lease of its save. -/
def saveLease (policy : ShutdownPolicy) : Section (Option LeaseId) := do
  let s ← get
  if OperationCoordinator.inFlightCount s.leases.coordinator ≠ 0 ∨
      activeJobs s.jobs.registry ≠ 0 then
    throw (.shutdownRejected "PROJECT_BUSY" true)
  else if policy = .SAVE then do
    let lease ← tryAdmit ⟨.PROJECT_EXCLUSIVE, str "shutdown-save"⟩
    pure (some lease)
  else pure none

/-- The first section of `requestShutdown`. Where it throws after the runtime was reserved, the
flag says whether the registry was, too. -/
def reserve (policy : ShutdownPolicy) : Section (Except Throwable (Option LeaseId) × Bool) := do
  requireReady
  modify fun s => { s with shutdownReserved := true }
  let registry ← attempt (ofRegistry JobRegistry.reserveSubmissions)
  match registry with
  | .error e => pure (.error e, false)
  | .ok _ => do
    let lease ← attempt (saveLease policy)
    pure (lease, true)

/-- The section that accepts the shutdown. -/
def accept : Section Unit := do
  let s ← get
  if s.lifecycle ≠ .READY then throw (unavailable s)
  else do
    modify fun s => { s with lifecycle := .SHUTTING_DOWN, publishedSearchIdentity := none }
    stop
    modify fun s => { s with shutdownReserved := false }
    ofRegistry JobRegistry.releaseSubmissionReservation

/-- The section of its `finally` block. -/
def unreserve (registryReserved : Bool) : Section Unit := do
  modify fun s => { s with shutdownReserved := false }
  when registryReserved (ofRegistry JobRegistry.releaseSubmissionReservation)

/-! ## Publication -/

/-- `staged.commit()`. -/
inductive RebuildCommit
  | codeData (candidate : CodeDataCandidate)
  | reload (candidate : ReloadCandidate)
  | mappings (candidate : MappingCandidate)
deriving DecidableEq

def RebuildCommit.apply (disk : Disk) :
    RebuildCommit → NativeProjectRepository.Section ProjectSnapshot
  | .codeData candidate => NativeProjectRepository.commitCodeData disk candidate
  | .reload candidate => NativeProjectRepository.commitReload disk candidate
  | .mappings candidate => NativeProjectRepository.commitMappingsPath disk candidate

/-- The arguments of `publishReplacement`, and the lease its caller owns. -/
structure Replacement where
  lease : LeaseId
  current : RepositoryId
  old : Option EngineId
  args : JadxArgs
  commit : RebuildCommit
  resultingRevision : ℤ
  expectedLifecycle : Lifecycle

/-- `current.snapshot()`, which may also throw an `Error`. -/
def snapshotOf (current : RepositoryId) (failure : Option Throwable) : Section ProjectSnapshot :=
  match failure with
  | some e => throw e
  | none => ofRepository current NativeProjectRepository.snapshot

/-- The nested section of `publishReplacement`, under the repository's monitor and `lifecycleLock`.
-/
def publishReplacement (p : Replacement) (replacement : EngineId) (failure : Option Throwable) :
    Section ProjectSnapshot := do
  let s ← get
  if s.lifecycle ≠ p.expectedLifecycle ∨ s.activeEngine ≠ p.old ∨ s.repository ≠ some p.current then
    throw (unavailable s)
  else do
    let before ← snapshotOf p.current failure
    let snapshot ← ofRepository p.current (p.commit.apply (env.disk p.current))
    modify fun s => { s with
      activeEngine := some replacement
      publicationEpoch := s.publicationEpoch + 1
      publishedAdmission := ⟨before.revisions.sessionId, p.resultingRevision⟩
      publishedSearchIdentity := some
        ⟨before.revisions.sessionId, p.resultingRevision, s.publicationEpoch + 1, env.fingerprint⟩
      lifecycle := .READY }
    pure snapshot

/-- The section of the `catch` block of `rebuild`. -/
def rebuildFailed (failure : Option Throwable) : Section Unit := do
  let s ← get
  if s.lifecycle = .RELOADING then do
    modify fun s => { s with lifecycle := .READY }
    match s.repository with
    | none => throw .exception
    | some current => do
      let snapshot ← snapshotOf current failure
      publishAdmission env snapshot
  else pure ()

/-- The section after a save. -/
def publishSaved (saved : ProjectSnapshot) : Section Unit := do
  modify fun s => { s with publicationEpoch := s.publicationEpoch + 1 }
  publishAdmission env saved

/-! ## Initialisation -/

/-- `initializeAsync`: whether the loader has the task. -/
def initializeAsync (accepted : Bool) : Section Unit := do
  let s ← get
  if s.initializationStarted then throw (.illegalState "Project initialization has already been started")
  else do
    modify fun s => { s with initializationStarted := true }
    if s.lifecycle ≠ .LOADING then pure ()
    else if accepted then modify fun s => { s with initializationTask := some .QUEUED }
    else modify fun s => { s with initializationTask := some .FINISHED, lifecycle := .FAILED }

/-- The first section of the task: whether it goes on. -/
def runTask : Section Bool := do
  let s ← get
  if s.initializationTask ≠ some .QUEUED then pure false
  else do
    modify fun s => { s with initializationTask := some .RUNNING }
    pure true

def finishTask : Section Unit := do
  modify fun s => { s with initializationTask := some .FINISHED }
  finishShutdownIfQuiescent

def isLoading : Section Bool := do
  let s ← get
  pure (s.lifecycle = .LOADING)

/-- The section of `initialize` that publishes: whether the engine went to the runtime. -/
def publishLoaded (loaded : Option RepositoryId) (engine : EngineId) (failure : Option Throwable) :
    Section Bool := do
  let s ← get
  if s.lifecycle = .LOADING then do
    modify fun s => { s with activeEngine := some engine, repository := loaded }
    match loaded with
    | none => pure ()
    | some r => do
      let snapshot ← snapshotOf r failure
      publishAdmission env snapshot
    modify fun s => { s with lifecycle := .READY }
    pure true
  else pure false

/-- The sections of its `catch` blocks. -/
def initializationFailed : Section Unit :=
  modify fun s => if s.lifecycle = .LOADING then { s with lifecycle := .FAILED } else s

/-! ## Reads -/

/-- The reads that go through `readPublished`. -/
inductive PublishedRead
  | projectSnapshot | settingsSnapshot | pendingEdits
deriving DecidableEq

/-- What they return: the revisions, and what else the read gives. -/
structure Published where
  sessionId : JString
  logicalRevision : ℤ
  /-- `dirty`, except for the settings. -/
  dirty : Option Bool
  /-- The path of the project, for its snapshot. -/
  projectPath : Option Path
  /-- The path of the mappings, except for the snapshot. -/
  mappingsPath : Option Path
  /-- The code data, for the pending edits. -/
  codeData : Option CodeDataJson
deriving DecidableEq

/-- The function that is applied to the repository. -/
def PublishedRead.apply : PublishedRead → NativeProjectRepository.Section Published
  | .projectSnapshot => do
    let p ← NativeProjectRepository.snapshot
    pure ⟨p.revisions.sessionId, p.revisions.logicalRevision, some p.dirty, p.projectPath, none, none⟩
  | .settingsSnapshot => do
    let s ← get
    let p ← NativeProjectRepository.snapshot
    pure ⟨p.revisions.sessionId, p.revisions.logicalRevision, none, none, s.mappingsPath, none⟩
  | .pendingEdits => do
    let s ← get
    let dirty ← NativeProjectRepository.dirty
    let json ← NativeProjectRepository.codeDataJson
    pure ⟨s.sessionId, s.logicalRevision, some dirty, none, s.mappingsPath, some json⟩

/-- The first section of a round of `readPublished`. -/
def sample : Section (RepositoryId × ℤ) := do
  requireReady
  let s ← get
  match s.repository with
  | none => throw .exception
  | some current => pure (current, s.publicationEpoch)

/-- The second one: whether the result is returned. -/
def recheck (current : RepositoryId) (epoch : ℤ) : Section Bool := do
  requireReady
  let s ← get
  pure (s.repository = some current && s.publicationEpoch = epoch)

end ProjectRuntime

end Libjadx
