import Libjadx.Spec.Runtime

/-!
# The threads of the runtime

What the threads of the service do with a runtime. A thread is a stack of frames: the top one is
what it does next, a section of a monitor or a call that something outside answers, and the ones
below are what comes after it returned. `raise` unwinds: it goes through the frames below, of
which those of a `finally` or `catch` block act (`Frame.catches`). The leases of jobs are closed
by threads that begin with the close; the dispatcher or the worker waits for it.
-/

namespace Libjadx

namespace ProjectRuntime

/-- A rebuild: what `reloadProject` and `updateMappingsPath` stage. -/
inductive Change
  | reload (discardUnsaved : Bool) (expectedSessionId : JString) (expectedRevision : ℤ)
  | mappings (mappings : Option Path) (expectedSessionId : JString) (expectedRevision : ℤ)

inductive Frame
  | raise (failure : Throwable)
  -- `Lease.close`
  | close (lease : LeaseId)
  | remove (lease : LeaseId)
  | afterRelease (lease : LeaseId)
  -- `closeInternal`, `reportFatalRebuild`
  | closeInternal
  | shutdown (detached : Option EngineId)
  /-- `closeOwned`; where `reports` is set an `Error` goes to `reportFatalRebuild` first. -/
  | closeOwned (engine : EngineId) (reports : Bool)
  | quiesce (cleanup : Bool)
  | reportFatalRebuild
  -- `readPublished`
  | readPublished (read : PublishedRead)
  | read (read : PublishedRead) (current : RepositoryId) (epoch : ℤ)
  | recheck (read : PublishedRead) (current : RepositoryId) (epoch : ℤ) (result : Published)
  | returned (result : Published)
  -- a callback under a lease
  | admitOperation (request : OperationRequest)
  | callback (lease : LeaseId)
  -- `withTemporarySourceRead`
  | admitTemporary (key : JString)
  | capture (lease : LeaseId)
  | createTemporary
  | temporary
  -- `withExclusiveEdit`
  | edit
  | editing (lease : LeaseId)
  | operation (lease : LeaseId) (current : RepositoryId) (engine : Option EngineId)
      (before : ProjectSnapshot)
  | stageEdit (lease : LeaseId) (current : RepositoryId) (engine : Option EngineId)
      (before : ProjectSnapshot) (edited : CodeData)
  | editArguments (lease : LeaseId) (current : RepositoryId) (engine : Option EngineId)
      (before : ProjectSnapshot)
      (candidate : CodeDataCandidate)
  -- `rebuild`
  | rebuild (change : Change)
  | stageRebuild (lease : LeaseId) (change : Change)
  | measure (lease : LeaseId) (current : RepositoryId) (old : Option EngineId)
      (candidate : MappingCandidate) (expectedRevision : ℤ)
  | rebuilding (lease : LeaseId)
  | rebuildFailed (lease : LeaseId)
  -- `publishReplacement`
  | create (p : Replacement)
  | load (p : Replacement) (replacement : EngineId)
  | publish (p : Replacement) (replacement : EngineId)
  -- `saveProject`
  | save (target : Option Path) (expectedSessionId : JString) (expectedRevision : Option ℤ)
  | saving (lease : LeaseId) (target : Option Path) (expectedSessionId : JString)
      (expectedRevision : Option ℤ)
  | publishSaved (lease : LeaseId) (current : RepositoryId) (saved : ProjectSnapshot)
  -- `requestShutdown`
  | requestShutdown (policy : ShutdownPolicy)
  | inspect (policy : ShutdownPolicy) (lease : Option LeaseId)
  | accept
  | reserved (registry : Bool)
  | unreserve (registry : Bool)
  -- `initializeAsync`, `InitializationTask`
  | initializeAsync
  | runTask
  | finishTask
  | openProject
  | loading (repository : Option RepositoryId) (args : JadxArgs)
  | createLocal (repository : Option RepositoryId) (args : JadxArgs)
  | stillLoading (repository : Option RepositoryId) (engine : EngineId)
  | loadLocal (repository : Option RepositoryId) (engine : EngineId)
  | checkLocal (repository : Option RepositoryId) (engine : EngineId)
  | publishLocal (repository : Option RepositoryId) (engine : EngineId)
  | initializationFailed
  -- jobs
  | submitJob (spec : JobSpec)

/-- What something outside answers. -/
inductive Choice
  | returns
  | throws (failure : Throwable)
  /-- The callback calls `lease.finishSnapshotCapture`. -/
  | captured
  /-- The callback calls `context.commit`. -/
  | commits (edited : CodeData)
  /-- The engine has loaded, with these arguments. -/
  | loads (args : JadxArgs)
  /-- The project that is opened, if any. -/
  | opens (repository : Option RepositoryId)

namespace Choice

/-- An `Error` that strikes inside a section. -/
def fatal : Choice → Option Throwable
  | .throws e => if e.isError then some e else none
  | _ => none

end Choice

namespace Frame

/-- What a frame does when an exception reaches it, and what is left of the exception. -/
def catches (e : Throwable) : Frame → List Frame
  | .close lease => [.close lease, .raise e]
  | .closeOwned engine reports => [.closeOwned engine reports, .raise e]
  | .quiesce true => [.quiesce true, .raise e]
  | .rebuilding lease => if e.isError then [.reportFatalRebuild, .raise e]
      else [.rebuildFailed lease, .raise e]
  | .reserved registry => [.unreserve registry, .raise e]
  -- `catch (Throwable caught)`
  | .finishTask => [.finishTask]
  | _ => [.raise e]

variable (env : RuntimeEnv)

/-- Run a section; what it throws is raised. -/
def section_ {α : Type} (s : Runtime) (m : Section α) (done : α → List Frame) :
    Option (Runtime × List Frame) :=
  match m s with
  | (.ok a, t) => some (t, done a)
  | (.error e, t) => some (t, [.raise e])

/-- `closeOwned` swallows an `Exception`. -/
def closed (e : Throwable) (reports : Bool) : List Frame :=
  if !e.isError then [] else if reports then [.reportFatalRebuild, .raise e] else [.raise e]

/-- After `fail` or `shutDown`: the engine that was taken out is closed. -/
def cleanUp : Option EngineId → List Frame
  | none => []
  | some e => [.closeOwned e false, .quiesce true]

/-- What `publishReplacement` does about a failure: `catch`, then `finally`. -/
def replacementFailed (e : Throwable) (replacement : List Frame) : List Frame :=
  (if e.isError then [.reportFatalRebuild] else []) ++ replacement ++ [.raise e]

/-- What `initialize` does about a failure: `catch`, then `finally`. -/
def initializeFailed (e : Throwable) (engine : List Frame) : List Frame :=
  [.initializationFailed] ++ engine ++ if e.isError then [.raise e] else []

/-- `stager.stage(repository)`, and what follows from it. -/
def stage (s : Runtime) (lease : LeaseId) (current : RepositoryId) :
    Change → Option (Runtime × List Frame)
  | .reload discardUnsaved expectedSessionId expectedRevision =>
    section_ s (ofRepository current
        (NativeProjectRepository.prepareReload (env.disk current) discardUnsaved expectedSessionId
          expectedRevision))
      fun candidate => [.create {
        lease := lease, current := current, old := s.activeEngine
        args := arguments env candidate.document.mappingsPath candidate.document.codeData
        commit := .reload candidate, resultingRevision := expectedRevision + 1, expectedLifecycle :=
          .RELOADING }]
  | .mappings mappings expectedSessionId expectedRevision =>
    section_ s (ofRepository current
        (NativeProjectRepository.stageMappingsPath (env.disk current) mappings expectedSessionId
          expectedRevision))
      fun candidate => [.measure lease current s.activeEngine candidate expectedRevision]

/-- One step of a thread whose top frame it is: the frames that take its place. -/
def run (s : Runtime) : Frame → Choice → Option (Runtime × List Frame)
  | .raise _, _ => none
  -- `Lease.close`
  | .close l, _ =>
    match OperationCoordinator.winClose l s.leases.coordinator with
    | (.ok true, _) => (OperationCoordinator.act s.leases (.close l)).map fun leases =>
        ({ s with leases := leases }, [.remove l])
    | _ => some (s, [])
  | .remove l, _ =>
    (OperationCoordinator.act s.leases (.remove l)).map fun leases =>
      ({ s with leases := leases }, [.afterRelease l])
  | .afterRelease l, _ =>
    (OperationCoordinator.act s.leases (.afterRelease l)).bind fun leases =>
      section_ { s with leases := leases } operationCompleted fun shuttingDown =>
        if shuttingDown then [.closeInternal] else []
  -- closing
  | .closeInternal, _ => section_ s shutDown fun
    | none => []
    | some detached => [.shutdown detached]
  | .shutdown detached, _ => section_ s (ofRegistry (JobRegistry.shutdown env.jobs)) fun _ =>
      match detached with
    | none => [.quiesce false]
    | some e => cleanUp (some e)
  | .closeOwned e reports, c => some (closeEngine e s, match c with
    | .throws failure => closed failure reports
    | _ => [])
  | .quiesce cleanup, _ => section_ s (ProjectRuntime.quiesce cleanup) fun _ => []
  | .reportFatalRebuild, _ => section_ s fail cleanUp
  -- `readPublished`
  | .readPublished r, _ => section_ s sample fun (current, epoch) => [.read r current epoch]
  | .read r current epoch, _ => section_ s (ofRepository current r.apply) fun result =>
      [.recheck r current epoch result]
  | .recheck r current epoch result, _ =>
      section_ s (ProjectRuntime.recheck current epoch) fun same =>
    if same then [.returned result] else [.readPublished r]
  | .returned _, _ => some (s, [])
  -- a callback under a lease
  | .admitOperation request, _ => section_ s (ProjectRuntime.admitOperation request) fun l =>
      [.callback l, .close l]
  | .callback l, c => match c with
    | .returns => some (s, [])
    | .throws e => some (s, [.raise e])
    | .captured => section_ s (ofCoordinator (OperationCoordinator.finishSnapshotCapture l))
        fun _ => [.callback l]
    | _ => none
  | .admitTemporary key, _ => section_ s (ProjectRuntime.admitOperation ⟨.TEMPORARY_ANALYSIS, key⟩)
      fun l => [.capture l, .close l]
  -- baselines, snapshot and arguments are read, then the gate is released
  | .capture l, c => match c with
    | .throws e => some (s, [.raise e])
    | _ => section_ s (ofCoordinator (OperationCoordinator.finishSnapshotCapture l)) fun _ =>
        [.createTemporary]
  | .createTemporary, c => match c with
    | .loads args => some (ProjectRuntime.create args s, [.temporary, .closeOwned s.created false])
    | .throws e => some (s, [.raise e])
    | _ => none
  | .temporary, c => match c with
    | .throws e => some (s, [.raise e])
    | _ => some (s, [])
  -- `withExclusiveEdit`
  | .edit, _ => section_ s (ProjectRuntime.admitOperation ⟨.PROJECT_EXCLUSIVE,
      str "native-edit-batch"⟩) fun l => [.editing l, .close l]
  | .editing l, _ => match s.repository with
    | none => some (s, [.raise .exception])
    | some current => section_ s (ofRepository current NativeProjectRepository.snapshot)
        fun before =>
      [.operation l current s.activeEngine before]
  | .operation l current engine before, c => match c with
    | .returns => some (s, [])
    | .throws e => some (s, [.raise e])
    | .commits edited => some (s, [.stageEdit l current engine before edited, .callback l])
    | _ => none
  | .stageEdit l current engine before edited, _ =>
    section_ s (ofRepository current
        (NativeProjectRepository.stageCodeData (env.disk current) edited
          before.revisions.logicalRevision))
      fun candidate => if candidate.effective then [.editArguments l current engine before
        candidate] else []
  | .editArguments l current engine before candidate, _ => some (s, [.create {
      lease := l, current := current, old := engine
      args := arguments env (s.heap current).mappingsPath candidate.codeData
      commit := .codeData candidate,
      resultingRevision := before.revisions.logicalRevision + 1, expectedLifecycle := .READY }])
  -- `rebuild`
  | .rebuild change, _ => section_ s (admitReloading ⟨.PROJECT_EXCLUSIVE, str "project-rebuild"⟩)
      fun l =>
    [.stageRebuild l change, .rebuilding l, .close l]
  | .stageRebuild l change, _ => match s.repository with
    | none => some (s, [.raise .exception])
    | some current => stage env s l current change
  | .measure l current old candidate expectedRevision, _ => some (s, [.create {
      lease := l, current := current, old := old
      args := arguments env candidate.path candidate.document.codeData
      commit := .mappings candidate
      resultingRevision := expectedRevision + if (s.heap current).mappingsPath =
        candidate.path then 0 else 1
      expectedLifecycle := .RELOADING }])
  | .rebuilding _, _ => some (s, [])
  | .rebuildFailed _, c => section_ s (ProjectRuntime.rebuildFailed env c.fatal) fun _ => []
  -- `publishReplacement`
  | .create p, c => match c with
    | .returns => some (ProjectRuntime.create p.args s, [.load p s.created])
    | .throws e => some (s, replacementFailed e [])
    | _ => none
  | .load p e, c => match c with
    | .loads args =>
      if args = p.args then some (loaded e args s, [.publish p e])
      else some (loaded e args s,
        replacementFailed (.illegalState "Replacement logical state mismatch") [.closeOwned e true])
    | .throws failure => some (s, replacementFailed failure [.closeOwned e true])
    | _ => none
  | .publish p e, c => match publishReplacement env p e c.fatal s with
    | (.ok _, t) => some (t, match p.old with
      | none => [.raise .exception]
      | some old => [.closeOwned old true])
    | (.error failure, t) => some (t, replacementFailed failure [.closeOwned e true])
  -- `saveProject`
  | .save target expectedSessionId expectedRevision, _ =>
    section_ s (ProjectRuntime.admitOperation ⟨.PROJECT_EXCLUSIVE, str "native-save"⟩) fun l =>
      [.saving l target expectedSessionId expectedRevision, .close l]
  | .saving l target expectedSessionId expectedRevision, _ => match s.repository with
    | none => some (s, [.raise .exception])
    | some current =>
      section_ s (ofRepository current
          (NativeProjectRepository.save (env.disk current) target expectedSessionId expectedRevision))
        fun saved => [.publishSaved l current saved]
  | .publishSaved _ _ saved, _ => section_ s (ProjectRuntime.publishSaved env saved) fun _ => []
  -- `requestShutdown`
  | .requestShutdown policy, _ => section_ s (reserve policy) fun
    | (.error e, registry) => [.raise e, .reserved registry]
    | (.ok lease, registry) => [.inspect policy lease] ++ lease.toList.map .close ++
        [.accept, .reserved registry]
  | .inspect policy lease, _ => match s.repository with
    | none => some (s, [.raise .exception])
    | some current => section_ s (ofRepository current NativeProjectRepository.snapshot)
        fun snapshot =>
      if policy = .REFUSE_IF_DIRTY ∧
        snapshot.dirty = true then [.raise (.shutdownRejected "PROJECT_BUSY" false)]
      else match lease with
        | none => []
        | some l =>
          if snapshot.projectPath = none then [.raise (.shutdownRejected "INVALID_REQUEST" false)]
          else [.saving l none [] none]
  | .accept, _ => section_ s ProjectRuntime.accept fun _ => []
  | .reserved _, _ => some (s, [])
  | .unreserve registry, _ => section_ s (ProjectRuntime.unreserve registry) fun _ => []
  -- initialisation
  | .initializeAsync, c =>
    section_ s (ProjectRuntime.initializeAsync (match c with | .throws _ => false | _ => true)) fun _ => []
  | .runTask, _ => section_ s ProjectRuntime.runTask fun goes =>
      if goes then [.openProject, .finishTask] else []
  | .finishTask, _ => section_ s ProjectRuntime.finishTask fun _ => []
  | .openProject, c => match c with
    | .throws e => some (s, initializeFailed e [])
    | .opens none => some (s, [.loading none ⟨[], none, ⟨[], []⟩⟩])
    | .opens (some r) => match ofRepository r NativeProjectRepository.snapshot s with
      | (.error e, t) => some (t, initializeFailed e [])
      | (.ok snapshot, t) =>
        if snapshot.inputs ≠ env.inputPaths then some (t, initializeFailed
          (.illegalState "Native project input references changed after startup validation") [])
        else some (t, [.loading (some r) (arguments env (t.heap r).mappingsPath (t.heap r).codeData)])
    | _ => none
  | .loading r args, _ => section_ s isLoading fun loading =>
      if loading then [.createLocal r args] else []
  | .createLocal r args, c => match c with
    | .returns => some (ProjectRuntime.create args s, [.stillLoading r s.created])
    | .throws e => some (s, initializeFailed e [])
    | _ => none
  | .stillLoading r e, _ => section_ s isLoading fun loading => if loading then [.loadLocal r e]
      else [.closeOwned e false]
  | .loadLocal r e, c => match c with
    | .loads args => some (loaded e args s, [.checkLocal r e])
    | .throws failure => some (s, initializeFailed failure [.closeOwned e false])
    | _ => none
  | .checkLocal r e, _ => match r with
    | none => some (s, [.publishLocal r e])
    | some current => match ofRepository current
        (NativeProjectRepository.checkAnalysisBaselines (env.disk current)) s with
      | (.ok _, t) => some (t, [.publishLocal r e])
      | (.error failure, t) => some (t, initializeFailed failure [.closeOwned e false])
  | .publishLocal r e, c => match publishLoaded env r e c.fatal s with
    | (.ok true, t) => some (t, [])
    | (.ok false, t) => some (t, [.closeOwned e false])
    | (.error failure, t) => some (t, initializeFailed failure [.closeOwned e false])
  | .initializationFailed, _ => section_ s ProjectRuntime.initializationFailed fun _ => []
  | .submitJob spec, _ => section_ s (ProjectRuntime.submitJob env spec) fun _ => []

/-- What a thread may begin with: a call of the service, the loader's task, or the report of an
`Error` by a worker. -/
def entry : Frame → Bool
  | .readPublished _ | .admitOperation _ | .admitTemporary _ | .edit | .rebuild _ | .save _ _ _ |
    .requestShutdown _
  | .closeInternal | .initializeAsync | .runTask | .reportFatalRebuild | .submitJob _ => true
  | _ => false

end Frame

end ProjectRuntime

/-! ## Jobs -/

namespace Scheduler

/-- The lease that the dispatcher closes next. -/
def Dispatch.closing : Dispatch → Option LeaseId
  | .closeCaptured _ lease _ | .closeCancelled _ lease | .closeRejected _ lease => some lease
  | _ => none

/-- The lease that a worker closes next. -/
def Worker.closing (w : Worker) : Option LeaseId :=
  match w.phase with
  | .closing _ => some w.lease
  | _ => none

/-- Leases that the threads of the registry close. -/
def closing (s : Scheduler) : List LeaseId :=
  (Dispatch.closing s.dispatch).toList ++ s.workers.filterMap Worker.closing

end Scheduler

open ProjectRuntime

/-- The threads, with the runtime they share. -/
structure System where
  runtime : Runtime
  threads : ℕ → List Frame

namespace System

inductive Act
  /-- A thread that has nothing to do begins. -/
  | begin (i : ℕ) (f : Frame)
  | step (i : ℕ) (c : Choice)
  /-- A thread begins to close the lease of a job. -/
  | closeJob (i : ℕ) (lease : LeaseId)
  /-- The dispatcher asks `admitJob`. -/
  | admitJob
  /-- The capture of a job is `captureSearchRead`. -/
  | captureSearch (expected : SearchIndexKey)
  /-- Any other step of the registry's callers and threads. -/
  | jobs (a : Libjadx.Act)
  /-- The computation of an identity is done. -/
  | fingerprinted (repository : RepositoryId) (generation : ℤ) (computed : Option JString)

variable (env : RuntimeEnv)

/-- What the runtime leaves to others: submissions, reservations and the stop are its own. -/
def free (s : Runtime) : Libjadx.Act → Bool
  | .call (.submit _) | .call .reserveSubmissions | .call .releaseSubmissionReservation |
    .call .stopSubmissions
  | .call .shutdown | .tryAdmit _ => false
  -- only `captureSearchRead` says that the service shuts down
  | .capture failure => failure ≠ some .serviceShuttingDown
  -- the lease was closed
  | .close _ => (Scheduler.Dispatch.closing s.jobs.dispatch).any fun l => l ∈ s.leases.released
  | .release i _ => (s.jobs.workers[i]?.bind Scheduler.Worker.closing).any fun l =>
      l ∈ s.leases.released
  | _ => true

/-- A step of the registry with the answer of a section of the runtime. -/
def answer (s : Runtime) (a : Libjadx.Act) : Option Runtime :=
  (Scheduler.act env.jobs s.jobs a).map fun p => { s with jobs := p.2 }

def act (s : System) : Act → Option System
  | .begin i f => if s.threads i = [] ∧ f.entry = true then some
    { s with threads := Function.update s.threads i [f] } else none
  | .step i c => match s.threads i with
    | [] => none
    | [.raise _] => some { s with threads := Function.update s.threads i [] }
    | .raise e :: f :: rest =>
        some { s with threads := Function.update s.threads i (f.catches e ++ rest) }
    | f :: rest => (f.run env s.runtime c).map fun (t, frames) =>
      ⟨t, Function.update s.threads i (frames ++ rest)⟩
  | .closeJob i l =>
    if s.threads i = [] ∧ l ∈ s.runtime.jobs.closing then
      some { s with threads := Function.update s.threads i [.close l] }
    else none
  | .admitJob => match s.runtime.jobs.dispatch with
    | .gate id =>
      let spec := (s.runtime.jobs.registry.job id).spec
      match admitJob spec.operation spec.admission s.runtime with
      | (.ok l, t) => (answer env t (.tryAdmit (.lease l))).map fun t => { s with runtime := t }
      | (.error e, t) => (answer env t (.tryAdmit (.throws e))).map fun t => { s with runtime := t }
    | _ => none
  | .captureSearch expected => match s.runtime.jobs.dispatch with
    | .capture _ _ => match captureSearchRead expected s.runtime with
      | (.ok _, t) => (answer env t (.capture none)).map fun t => { s with runtime := t }
      | (.error e, t) => (answer env t (.capture (some e))).map fun t => { s with runtime := t }
    | _ => none
  | .jobs a => if free s.runtime a then (answer env s.runtime a).map fun t =>
      { s with runtime := t } else none
  | .fingerprinted r generation computed => some { s with
      runtime := (ofRepository r (NativeProjectRepository.fingerprinted generation computed)
        s.runtime).2 }

/-! ## Runs -/

/-- What the constructor of the runtime leaves, with repositories that nobody opened yet. -/
structure Fresh (s : Runtime) : Prop where
  lifecycle : s.lifecycle = .LOADING
  activeEngine : s.activeEngine = none
  repository : s.repository = none
  publicationEpoch : s.publicationEpoch = 0
  publishedAdmission : s.publishedAdmission = ⟨str "initializing", 0⟩
  publishedSearchIdentity : s.publishedSearchIdentity = none
  initializationStarted : s.initializationStarted = false
  initializationTask : s.initializationTask = none
  cleanupInProgress : s.cleanupInProgress = 0
  shutdownReserved : s.shutdownReserved = false
  leases : ∃ lease, s.leases = OperationCoordinator.start lease
  jobs : ∃ job subscription, s.jobs = ⟨Scheduler.empty job subscription, .idle, []⟩
  self : ∀ r, (s.heap r).self = r
  opened : ∀ r, NativeProjectRepository.Opened (s.heap r)
  created : s.created = 0

/-- A step of a run whose steps all meet `ok`. -/
def Step (ok : System → Act → Prop) (s t : System) : Prop := ∃ a, ok s a ∧ act env s a = some t

def Reachable (ok : System → Act → Prop) (s : System) : Prop :=
  ∃ start, Fresh start ∧ Relation.ReflTransGen (Step env ok) ⟨start, fun _ => []⟩ s

end System

end Libjadx
