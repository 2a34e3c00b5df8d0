import Libjadx.Lib.Locked
import Libjadx.Spec.Document

/-!
# The project repository

`NativeProjectRepository`: the native document, its revisions and the file contents it was
accepted with. Every method runs under the repository's monitor. The disk is outside: what a
file holds when it is looked at is an answer of `Disk`, and `reads` counts the looks.
-/

namespace Libjadx

/-- Content hash of a file; `none` where there is no file. -/
abbrev FileFingerprint := Option JString

/-- What looking at a file may throw: an `IOException` or an `Error`. -/
inductive DiskFailure
  | io | noSuchFile | error
deriving DecidableEq

def DiskFailure.toThrowable : DiskFailure → Throwable
  | .io => .io
  | .noSuchFile => .noSuchFile
  | .error => .error

/-- What the file system answers at its `n`-th use. -/
structure Disk where
  allowedRoots : List Path
  startsWith : Path → Path → Bool
  normalize : Path → Path
  /-- `FileFingerprint.of`, at a path. -/
  fingerprint : ℕ → Path → Except DiskFailure FileFingerprint
  toRealPath : ℕ → Path → Except DiskFailure Path
  isRegularFile : ℕ → Path → Bool
  isNativeTarget : Path → Bool
  checkWritableTarget : ℕ → Path → Except Throwable Unit
  exists_ : ℕ → Path → Bool
  /-- The tree that `NativeProjectDocument.open` parses, with its input files and mapping path. -/
  parse : ℕ → Path → Except Throwable
    (Option (List (Entry CodeRename)) × Option (List (Entry CodeComment)) × List Path × Option Path)
  write : ℕ → Document → Except Throwable Unit
  /-- The sizes of the inputs, then `identity(savedPaths)`. -/
  totalBytes : ℕ → List Path → Except DiskFailure ℕ
  identity : ℕ → List Path → Except DiskFailure JString

inductive IdentityState
  | PENDING | READY | FAILED
deriving DecidableEq, Repr

structure RevisionState where
  sessionId : JString
  logicalRevision : ℤ
  indexRevision : ℤ
  persistedIdentity : Option JString
  persistedIdentityState : IdentityState
deriving DecidableEq

structure ProjectSnapshot where
  projectPath : Option Path
  inputs : List Path
  dirty : Bool
  revisions : RevisionState
deriving DecidableEq

/-- A repository object. -/
abbrev RepositoryId := ℕ

structure Repository where
  self : RepositoryId
  sessionId : JString
  inputs : List Path
  document : Option Document
  rawCodeData : CodeData
  projectBaseline : FileFingerprint
  mappingBaseline : FileFingerprint
  inputBaselines : List FileFingerprint
  stagedMappingBaseline : Option FileFingerprint
  baselineMappingsPath : Option Path
  savedMappingsPath : Option Path
  savedCodeData : CodeDataJson
  logicalRevision : ℤ
  indexRevision : ℤ
  persistedIdentity : Option JString
  persistedIdentityState : IdentityState
  identityGeneration : ℤ
  /-- Uses of the disk so far. -/
  reads : ℕ

namespace Repository

def mappingsPath (s : Repository) : Option Path := s.document.bind Document.mappingsPath

def currentPath (s : Repository) : Option Path := s.document.map Document.projectPath

/-- `codeDataCopy`. -/
def codeData (s : Repository) : CodeData := (s.document.map Document.codeData).getD s.rawCodeData

/-- The code data of a document, or of raw inputs, as JSON. -/
def codeDataText (document : Option Document) (rawCodeData : CodeData) :
    Except Throwable CodeDataJson :=
  match document with
  | none => .ok rawCodeData.toJson
  | some document => document.codeDataJson

def codeDataJson (s : Repository) : Except Throwable CodeDataJson :=
  codeDataText s.document s.rawCodeData

end Repository

structure CodeDataCandidate where
  owner : RepositoryId
  expectedRevision : ℤ
  expectedIdentityGeneration : ℤ
  document : Option Document
  codeData : CodeData
  baseline : CodeDataJson
  next : CodeDataJson
  consumed : Bool
deriving DecidableEq

def CodeDataCandidate.effective (c : CodeDataCandidate) : Bool := c.baseline ≠ c.next

structure ReloadCandidate where
  document : Document
  projectFingerprint : FileFingerprint
  mappingFingerprint : FileFingerprint
  inputFingerprints : List FileFingerprint
  expectedRevision : ℤ
deriving DecidableEq

structure MappingCandidate where
  document : Document
  path : Option Path
  baseline : FileFingerprint
  expectedRevision : ℤ
deriving DecidableEq

namespace NativeProjectRepository

open Locked

abbrev Section := Locked Repository Throwable

variable (disk : Disk)

/-- Lift a computation that does not look at the repository. -/
def liftExcept {α : Type} : Except Throwable α → Section α
  | .ok a => pure a
  | .error e => throw e

/-- One use of the disk. -/
def reading {α : Type} (answer : ℕ → Except Throwable α) : Section α := do
  let s ← get
  modify fun s => { s with reads := s.reads + 1 }
  liftExcept (answer s.reads)

/-- `FileFingerprint.of`. -/
def fingerprintOf : Option Path → Section FileFingerprint
  | none => pure none
  | some path => reading fun n => (disk.fingerprint n path).mapError DiskFailure.toThrowable

def checkedReference (path : Path) : Section Path :=
  reading fun n => do
    let real ← (disk.toRealPath n path).mapError DiskFailure.toThrowable
    if !disk.isRegularFile n real || !disk.allowedRoots.any (disk.startsWith real) then
      .error (.security "Native project reference is outside configured allowed roots or not a file")
    else pure real

/-- `NativeProjectDocument.open`. -/
def openDocument (path : Path) : Section Document :=
  reading fun n => do
    let (renames, comments, inputFiles, mappingsPath) ← disk.parse n path
    pure (Document.read renames comments path inputFiles mappingsPath)

def codeDataJson : Section CodeDataJson := do
  let s ← get
  liftExcept s.codeDataJson

def dirty : Section Bool := do
  let json ← codeDataJson
  let s ← get
  pure (s.savedCodeData ≠ json || s.savedMappingsPath ≠ s.mappingsPath)

def snapshot : Section ProjectSnapshot := do
  let dirty ← dirty
  let s ← get
  pure ⟨s.currentPath, s.inputs, dirty,
    ⟨s.sessionId, s.logicalRevision, s.indexRevision, s.persistedIdentity, s.persistedIdentityState⟩⟩

def checkRevision (expected : ℤ) : Section Unit := do
  let s ← get
  when (expected ≠ s.logicalRevision) (throw .staleRevision)

def checkSession (expected : JString) : Section Unit := do
  let s ← get
  when (s.sessionId ≠ expected) (throw .staleRevision)

/-! ## Baselines -/

/-- The `catch (NoSuchFileException missing)` of `checkedAnalysisReference`. -/
def missing : Throwable → Throwable
  | .noSuchFile => .externalModification
      "Analysis file removed since the accepted baseline; explicitly reload the project"
  | e => e

def checkedAnalysisReference (path : Path) : Section Path :=
  mapError missing (checkedReference disk path)

def fingerprintInput (input : Path) : Section FileFingerprint := do
  let checked ← checkedAnalysisReference disk input
  if checked ≠ input then throw (.externalModification "Input reference changed since project startup")
  else do
    let fingerprint ← fingerprintOf disk (some input)
    if fingerprint.isNone then
      throw (.externalModification
        "Input removed since the accepted analysis; explicitly reload the project")
    else pure fingerprint

/-- The loop of `fingerprintInputs`. -/
def fingerprintEach : List Path → Section (List FileFingerprint)
  | [] => pure []
  | input :: inputs => do
    let fingerprint ← fingerprintInput disk input
    let rest ← fingerprintEach inputs
    pure (fingerprint :: rest)

def fingerprintInputs : Section (List FileFingerprint) := do
  let s ← get
  fingerprintEach disk s.inputs

def checkInputBaselines (expected : List FileFingerprint) : Section Unit := do
  let fingerprints ← fingerprintInputs disk
  when (fingerprints ≠ expected)
    (throw (.externalModification
      "Inputs changed since the accepted analysis; explicitly reload the project"))

/-- `for (Path path : paths) checkedReference(path)`, with the real paths. -/
def checkedReferences : List Path → Section (List Path)
  | [] => pure []
  | path :: paths => do
    let real ← checkedReference disk path
    let rest ← checkedReferences paths
    pure (real :: rest)

/-- `if (mapping != null) checkedAnalysisReference(mapping)`. -/
def checkMappingReference : Option Path → Section Unit
  | none => pure ()
  | some mapping => do
    let _ ← checkedAnalysisReference disk mapping
    pure ()

def checkAttachedMappingBaseline : Section Unit := do
  let s ← get
  checkMappingReference disk s.mappingsPath
  let current ← fingerprintOf disk s.mappingsPath
  when (current ≠ s.stagedMappingBaseline.getD s.mappingBaseline)
    (throw (.externalModification
      "Attached mappings changed since the accepted analysis; explicitly reload the project"))

def checkAnalysisBaselines : Section Unit := do
  let s ← get
  checkInputBaselines disk s.inputBaselines
  checkAttachedMappingBaseline disk

/-! ## Identity -/

/-- The `catch (IOException failure)` of `refreshIdentity`. -/
def unidentified {α : Type} : DiskFailure → Section (Option α)
  | .error => throw .error
  | _ => do
    modify fun s => { s with persistedIdentity := none, persistedIdentityState := .FAILED }
    pure none

/-- One use of the disk inside the `try` of `refreshIdentity`. -/
def identifying {α : Type} (answer : ℕ → Except DiskFailure α) : Section (Option α) := do
  let s ← get
  modify fun s => { s with reads := s.reads + 1 }
  match answer s.reads with
  | .ok a => pure (some a)
  | .error failure => unidentified failure

/-- `refreshIdentity`, up to the asynchronous computation it may launch. -/
def refreshIdentity : Section Unit := do
  modify fun s => { s with identityGeneration := s.identityGeneration + 1 }
  let s ← get
  let savedPaths := s.currentPath.toList ++ s.savedMappingsPath.toList ++ s.inputs
  let totalBytes ← identifying fun n => disk.totalBytes n s.inputs
  match totalBytes with
  | none => pure ()
  | some total =>
    if total ≤ 32 * 1024 * 1024 then do
      let identity ← identifying fun n => disk.identity n savedPaths
      match identity with
      | none => pure ()
      | some identity => modify fun s =>
          { s with persistedIdentity := some identity, persistedIdentityState := .READY }
    else modify fun s => { s with persistedIdentity := none, persistedIdentityState := .PENDING }

/-- What the asynchronous computation for a generation does when it is done. -/
def fingerprinted (generation : ℤ) (computed : Option JString) : Section Unit := do
  let s ← get
  if s.identityGeneration = generation then
    match computed with
    | some identity => modify fun s =>
        { s with persistedIdentity := some identity, persistedIdentityState := .READY }
    | none => modify fun s => { s with persistedIdentityState := .FAILED }
  else pure ()

/-! ## Edits -/

def stageCodeData (edited : CodeData) (expectedRevision : ℤ) : Section CodeDataCandidate := do
  checkRevision expectedRevision
  let s ← get
  let candidate ← liftExcept (s.document.mapM fun document => document.withCodeData edited)
  let baseline ← codeDataJson
  let next ← liftExcept (Repository.codeDataText candidate edited)
  when (baseline ≠ next) (checkAnalysisBaselines disk)
  pure ⟨s.self, expectedRevision, s.identityGeneration, candidate, edited, baseline, next, false⟩

/-- The checks of `commitCodeData`. -/
def checkCandidate (candidate : CodeDataCandidate) : Section Unit := do
  let s ← get
  when (candidate.owner ≠ s.self || candidate.consumed)
    (throw (.illegalState "Invalid or consumed code-data candidate"))
  checkRevision candidate.expectedRevision
  when (candidate.expectedIdentityGeneration ≠ s.identityGeneration)
    (throw (.illegalState "Code-data candidate persistence baseline changed"))
  let json ← codeDataJson
  when (candidate.baseline ≠ json) (throw (.illegalState "Code-data candidate baseline changed"))
  when candidate.effective (checkAnalysisBaselines disk)

/-- The receipt of `commitCodeData`. -/
def receipt (candidate : CodeDataCandidate) (s : Repository) : ProjectSnapshot :=
  let step : ℤ := if candidate.effective then 1 else 0
  ⟨s.currentPath, s.inputs, s.savedCodeData ≠ candidate.next || s.savedMappingsPath ≠ s.mappingsPath,
    ⟨s.sessionId, s.logicalRevision + step, s.indexRevision + step, s.persistedIdentity,
      s.persistedIdentityState⟩⟩

/-- The assignments of `commitCodeData` to the repository, for an effective candidate. -/
def install (candidate : CodeDataCandidate) (s : Repository) : Repository :=
  match s.document with
  | none => { s with
      rawCodeData := candidate.codeData
      logicalRevision := s.logicalRevision + 1, indexRevision := s.indexRevision + 1 }
  | some _ => { s with
      document := candidate.document
      logicalRevision := s.logicalRevision + 1, indexRevision := s.indexRevision + 1 }

/-- The candidate is consumed where this returns. -/
def commitCodeData (candidate : CodeDataCandidate) : Section ProjectSnapshot := do
  checkCandidate disk candidate
  -- the receipt is there before the first assignment
  let s ← get
  when candidate.effective (modify (install candidate))
  pure (receipt candidate s)

/-! ## Mappings -/

/-- `mappings == null ? null : checkedReference(mappings)`. -/
def checkedMappings : Option Path → Section (Option Path)
  | none => pure none
  | some path => do
    let real ← checkedReference disk path
    pure (some real)

def stageMappingsPath (mappings : Option Path) (expectedSessionId : JString)
    (expectedRevision : ℤ) : Section MappingCandidate :=
  do
  checkSession expectedSessionId
  checkRevision expectedRevision
  let s ← get
  checkInputBaselines disk s.inputBaselines
  match s.document with
  | none => throw (.illegalArgument "Save the raw input as a native project before changing mappings")
  | some document => do
    let checked ← checkedMappings disk mappings
    when (checked = s.mappingsPath) (checkAttachedMappingBaseline disk)
    let candidate ← liftExcept (document.withMappingsPath checked)
    let baseline ← fingerprintOf disk checked
    pure ⟨candidate, checked, baseline, expectedRevision⟩

/-- The assignments of `commitMappingsPath`. -/
def attach (candidate : MappingCandidate) (s : Repository) : Repository :=
  { s with
    document := some candidate.document, stagedMappingBaseline := some candidate.baseline
    logicalRevision := s.logicalRevision + 1, indexRevision := s.indexRevision + 1 }

def commitMappingsPath (candidate : MappingCandidate) : Section ProjectSnapshot := do
  checkRevision candidate.expectedRevision
  let s ← get
  checkInputBaselines disk s.inputBaselines
  let current ← fingerprintOf disk candidate.path
  when (current ≠ candidate.baseline)
    (throw (.externalModification "Mappings changed during rebuild; retry with a fresh revision"))
  when (s.mappingsPath ≠ candidate.path) (modify (attach candidate))
  snapshot

/-! ## Reload -/

def prepareReload (discardUnsaved : Bool) (expectedSessionId : JString) (expectedRevision : ℤ) :
    Section ReloadCandidate := do
  checkSession expectedSessionId
  checkRevision expectedRevision
  let s ← get
  match s.currentPath with
  | none => throw (.illegalState "Raw input has no saved native project to reload")
  | some path => do
    let dirty ← dirty
    when (dirty && !discardUnsaved) (throw .unsavedChanges)
    let beforeOpen ← fingerprintOf disk (some path)
    let reopened ← openDocument disk path
    let afterOpen ← fingerprintOf disk (some path)
    when (beforeOpen ≠ afterOpen)
      (throw (.externalModification "Native project changed during reload; retry with a fresh revision"))
    let reopenedInputs ← checkedReferences disk reopened.inputFiles
    when (reopenedInputs ≠ s.inputs)
      (throw (.illegalArgument "Reload would change the fixed input identity"))
    let _ ← checkedReferences disk reopened.mappingsPath.toList
    let mapping ← fingerprintOf disk reopened.mappingsPath
    let inputs ← fingerprintInputs disk
    pure ⟨reopened, afterOpen, mapping, inputs, expectedRevision⟩

/-- The assignments of `commitReload` before `codeDataJson()`. -/
def reopen (candidate : ReloadCandidate) (s : Repository) : Repository :=
  { s with
    document := some candidate.document
    projectBaseline := candidate.projectFingerprint
    mappingBaseline := candidate.mappingFingerprint
    inputBaselines := candidate.inputFingerprints
    baselineMappingsPath := candidate.document.mappingsPath
    savedMappingsPath := candidate.document.mappingsPath
    stagedMappingBaseline := none }

/-- The checks of `commitReload`. -/
def checkReload (candidate : ReloadCandidate) : Section Unit := do
  checkRevision candidate.expectedRevision
  checkInputBaselines disk candidate.inputFingerprints
  let project ← fingerprintOf disk (some candidate.document.projectPath)
  if project ≠ candidate.projectFingerprint then
    throw (.externalModification
      "Native project or mappings changed during reload; retry with a fresh revision")
  else do
    let mapping ← fingerprintOf disk candidate.document.mappingsPath
    when (mapping ≠ candidate.mappingFingerprint)
      (throw (.externalModification
        "Native project or mappings changed during reload; retry with a fresh revision"))

def commitReload (candidate : ReloadCandidate) : Section ProjectSnapshot := do
  checkReload disk candidate
  modify (reopen candidate)
  let json ← codeDataJson
  modify fun s => { s with savedCodeData := json }
  refreshIdentity disk
  modify fun s => { s with logicalRevision := s.logicalRevision + 1, indexRevision := s.indexRevision + 1 }
  snapshot

/-! ## Save -/

/-- One disjunct of the baseline check of `save`. -/
def checkUnchanged (path : Option Path) (expected : FileFingerprint) : Section Unit := do
  let current ← fingerprintOf disk path
  when (current ≠ expected)
    (throw (.externalModification
      "Native project or mappings changed on disk; pending edits remain in memory"))

/-- The check of a mapping file that was attached but never saved. -/
def checkStagedMapping (mappings : Option Path) : Option FileFingerprint → Section Unit
  | none => pure ()
  | some expected => checkUnchanged disk mappings expected

/-- The check of the files a document refers to. -/
def checkReferences (inputs : List Path) : Option Document → Section Unit
  | none => pure ()
  | some document => do
    let liveInputs ← checkedReferences disk document.inputFiles
    when (liveInputs ≠ inputs) (throw (.security "Input reference changed since project startup"))
    let _ ← checkedReferences disk document.mappingsPath.toList
    pure ()

/-- The check that the first save of raw inputs overwrites nothing. -/
def checkUnused (target : Path) : Option Path → Section Unit
  | some _ => pure ()
  | none => do
    let taken ← reading fun n => .ok (disk.exists_ n target)
    when taken (throw (.externalModification "Save target already exists; choose an unused .jadx path"))

/-- The checks of `save` on what is about to be overwritten. -/
def checkSaved (target : Path) : Section Unit := do
  let s ← get
  checkUnchanged disk s.currentPath s.projectBaseline
  checkUnchanged disk s.baselineMappingsPath s.mappingBaseline
  checkStagedMapping disk s.mappingsPath s.stagedMappingBaseline
  checkReferences disk s.inputs s.document
  checkUnused disk target s.currentPath

/-- What `save` does once the file is written. -/
def acceptSaved (target : Path) (toSave : Document) : Section ProjectSnapshot := do
  modify fun s => { s with document := s.document.or (some toSave) }
  let project ← fingerprintOf disk (some target)
  modify fun s => { s with projectBaseline := project }
  let mapping ← fingerprintOf disk toSave.mappingsPath
  modify fun s => { s with
    mappingBaseline := mapping, baselineMappingsPath := toSave.mappingsPath
    savedMappingsPath := toSave.mappingsPath, stagedMappingBaseline := none }
  let json ← codeDataJson
  modify fun s => { s with savedCodeData := json }
  refreshIdentity disk
  snapshot

/-- What `save` checks where a revision is expected. -/
def checkExpected (expectedSessionId : JString) : Option ℤ → Section Unit
  | none => pure ()
  | some expectedRevision => do
    checkSession expectedSessionId
    checkRevision expectedRevision

/-- The document that `save` writes. -/
def documentToSave (target : Path) (s : Repository) : Except Throwable Document :=
  match s.document with
  | none => (Document.newFromInputs target s.inputs).setCodeData s.rawCodeData
  | some document => document.rebasedTo target

def save (requestedTarget : Option Path) (expectedSessionId : JString)
    (expectedRevision : Option ℤ) : Section ProjectSnapshot :=
  do
  checkExpected expectedSessionId expectedRevision
  let s ← get
  checkInputBaselines disk s.inputBaselines
  match (requestedTarget.map disk.normalize).or s.currentPath with
  | none => throw (.illegalArgument "A .jadx target path is required for a raw input")
  | some target => do
    when (!disk.isNativeTarget target) (throw (.illegalArgument "Native project target must end in .jadx"))
    reading fun n => disk.checkWritableTarget n target
    when (s.currentPath.any (· ≠ target))
      (throw (.illegalArgument "This process is fixed to its startup native project path"))
    checkSaved disk target
    let toSave ← liftExcept (documentToSave target s)
    -- `write` sets the code data once more
    let toSave ← liftExcept toSave.toJsonTree
    reading fun n => disk.write n toSave
    acceptSaved disk target toSave

/-! ## Calls -/

/-- A candidate object with, for the record, the repository, the logical revision and the
persistence generation it was staged at, and those it was accepted at. -/
structure Staged where
  candidate : CodeDataCandidate
  origin : RepositoryId × ℤ × ℤ
  accepted : List (RepositoryId × ℤ × ℤ)

/-- The operations on a project, with their arguments; code-data candidates are objects. -/
inductive Operation
  | stageCodeData (edited : CodeData) (expectedRevision : ℤ)
  | commitCodeData (candidate : ℕ)
  | stageMappingsPath (mappings : Option Path) (expectedSessionId : JString) (expectedRevision : ℤ)
  | commitMappingsPath (candidate : MappingCandidate)
  | prepareReload (discardUnsaved : Bool) (expectedSessionId : JString) (expectedRevision : ℤ)
  | commitReload (candidate : ReloadCandidate)
  | save (requestedTarget : Option Path) (expectedSessionId : JString) (expectedRevision : Option ℤ)

inductive Receipt
  | codeData (candidate : CodeDataCandidate)
  | mapping (candidate : MappingCandidate)
  | reload (candidate : ReloadCandidate)
  | snapshot (project : ProjectSnapshot)

/-- A call; a `null` candidate makes `commitCodeData` throw a `NullPointerException`. -/
def perform (staged : List Staged) : Operation → Section Receipt
  | .stageCodeData edited expectedRevision => do
    let candidate ← stageCodeData disk edited expectedRevision
    pure (.codeData candidate)
  | .commitCodeData i =>
    match staged[i]? with
    | none => throw .exception
    | some object => do
      let project ← commitCodeData disk object.candidate
      pure (.snapshot project)
  | .stageMappingsPath mappings expectedSessionId expectedRevision => do
    let candidate ← stageMappingsPath disk mappings expectedSessionId expectedRevision
    pure (.mapping candidate)
  | .commitMappingsPath candidate => do
    let project ← commitMappingsPath disk candidate
    pure (.snapshot project)
  | .prepareReload discardUnsaved expectedSessionId expectedRevision => do
    let candidate ← prepareReload disk discardUnsaved expectedSessionId expectedRevision
    pure (.reload candidate)
  | .commitReload candidate => do
    let project ← commitReload disk candidate
    pure (.snapshot project)
  | .save requestedTarget expectedSessionId expectedRevision => do
    let project ← save disk requestedTarget expectedSessionId expectedRevision
    pure (.snapshot project)

/-! ## Runs -/

/-- The repositories of a process and the candidates staged so far. -/
structure World where
  repository : RepositoryId → Repository
  staged : List Staged

/-- The revision and persistence generation of a repository. -/
def place (s : Repository) : RepositoryId × ℤ × ℤ :=
  (s.self, s.logicalRevision, s.identityGeneration)

def Staged.consume (s : Repository) (object : Staged) : Staged :=
  { object with
    candidate := { object.candidate with consumed := true }
    accepted := object.accepted ++ [place s] }

/-- What a call on a repository does to the candidates. -/
def recorded (s : Repository) (staged : List Staged) :
    Operation → Except Throwable Receipt → List Staged
  | .stageCodeData _ _, .ok (.codeData candidate) => staged ++ [⟨candidate, place s, []⟩]
  | .commitCodeData i, .ok _ => staged.modify i (Staged.consume s)
  | _, _ => staged

inductive Move
  | call (repository : RepositoryId) (operation : Operation)
  | fingerprinted (repository : RepositoryId) (generation : ℤ) (computed : Option JString)

/-- Every method holds its repository's monitor throughout. -/
def World.after (disk : RepositoryId → Disk) (w : World) : Move → World
  | .call r op =>
    let outcome := perform (disk r) w.staged op (w.repository r)
    { repository := Function.update w.repository r outcome.2
      staged := recorded (w.repository r) w.staged op outcome.1 }
  | .fingerprinted r generation computed =>
    { w with repository := Function.update w.repository r (fingerprinted generation computed
      (w.repository r)).2 }

/-- What the constructor leaves. -/
structure Opened (s : Repository) : Prop where
  saved : s.codeDataJson = .ok s.savedCodeData
  mappings : s.savedMappingsPath = s.mappingsPath ∧ s.baselineMappingsPath = s.mappingsPath
  staged : s.stagedMappingBaseline = none
  raw : s.rawCodeData = ⟨[], []⟩
  logicalRevision : s.logicalRevision = 0
  indexRevision : s.indexRevision = 0
  identityGeneration : s.identityGeneration = 1

inductive Reachable (disk : RepositoryId → Disk) : World → Prop
  | opened (w : World) (hself : ∀ r, (w.repository r).self = r)
      (hopened : ∀ r, Opened (w.repository r))
      (hstaged : w.staged = []) : Reachable disk w
  | step {w : World} (move : Move) (h : Reachable disk w) : Reachable disk (w.after disk move)

end NativeProjectRepository

end Libjadx
