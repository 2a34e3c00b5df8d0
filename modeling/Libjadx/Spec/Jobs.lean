import Libjadx.Spec.Symbols

/-!
# Jobs

The values a job registry works with: its limits, the specification of a job, its progress,
its events, and what a caller sees of it.
-/

namespace Libjadx

/-! ## UTF-8 sizes -/

def isHighSurrogate (c : JChar) : Bool := 0xD800 ≤ c && c ≤ 0xDBFF
def isLowSurrogate (c : JChar) : Bool := 0xDC00 ≤ c && c ≤ 0xDFFF

/-- The code points that `getBytes(UTF_8)` encodes: a lone surrogate becomes `?`. -/
def codePoints : JString → List ℕ
  | [] => []
  | [c] => if isHighSurrogate c || isLowSurrogate c then [0x3F] else [c.toNat]
  | c :: d :: s =>
    if isHighSurrogate c && isLowSurrogate d then
      (0x10000 + (c.toNat - 0xD800) * 0x400 + (d.toNat - 0xDC00)) :: codePoints s
    else if isHighSurrogate c || isLowSurrogate c then 0x3F :: codePoints (d :: s)
    else c.toNat :: codePoints (d :: s)

/-- The bytes of a code point. -/
def utf8Size (p : ℕ) : ℕ := if p < 0x80 then 1 else if p < 0x800 then 2
    else if p < 0x10000 then 3 else 4

/-- `s.getBytes(UTF_8).length`. -/
def utf8Length (s : JString) : ℕ := ((codePoints s).map utf8Size).sum

/-- `Character.toChars`. -/
def toChars (p : ℕ) : JString :=
  if p < 0x10000 then [p.toUInt16]
  else [(0xD800 + (p - 0x10000) / 0x400).toUInt16, (0xDC00 + (p - 0x10000) % 0x400).toUInt16]

/-- The text of the first `n` bytes of encoded code points; a cut code point decodes to U+FFFD. -/
def decodePrefix : List ℕ → ℕ → JString
  | [], _ => []
  | p :: ps, n =>
    if n = 0 then []
    else if utf8Size p ≤ n then toChars p ++ decodePrefix ps (n - utf8Size p)
    else [0xFFFD]

/-- `s.isBlank()`. -/
def isBlank (s : JString) : Bool := s.all isWhitespace

/-- `JobRegistry.bounded`. -/
def bounded (text : Option JString) (maxBytes : ℕ) : JString :=
  match text with
  | none => str "unspecified"
  | some s =>
    if isBlank s then str "unspecified"
    else if utf8Length s ≤ maxBytes then s
    else decodePrefix (codePoints s) maxBytes

/-! ## Limits -/

/-- Scheduler and stream budgets: `int`s, and durations in nanoseconds. -/
structure JobLimits where
  maxQueued : ℕ
  maxRunning : ℕ
  maxRetained : ℕ
  maxResultBytes : ℕ
  maxTotalResultBytes : ℕ
  maxDiagnostics : ℕ
  maxDiagnosticBytes : ℕ
  maxEventsPerJob : ℕ
  maxEventBytes : ℕ
  maxSubscribersPerJob : ℕ
  maxGlobalSubscribers : ℕ
  maxFramesPerSubscriber : ℕ
  terminalTtl : ℕ
  heartbeatInterval : ℕ
  positive : 1 ≤ maxQueued ∧ 1 ≤ maxRunning ∧ 1 ≤ maxRetained ∧ 1 ≤ maxResultBytes ∧
    maxResultBytes ≤ maxTotalResultBytes ∧ 1 ≤ maxDiagnostics ∧ 1 ≤ maxDiagnosticBytes ∧
    1 ≤ maxEventsPerJob ∧ 1024 ≤ maxEventBytes ∧ 1 ≤ maxSubscribersPerJob ∧
      1 ≤ maxGlobalSubscribers ∧
    1 ≤ maxFramesPerSubscriber ∧ 1 ≤ terminalTtl ∧ 1 ≤ heartbeatInterval
  ints : ∀ n ∈ [maxQueued, maxRunning, maxRetained, maxResultBytes, maxTotalResultBytes, maxDiagnostics,
    maxDiagnosticBytes, maxEventsPerJob, maxEventBytes, maxSubscribersPerJob, maxGlobalSubscribers,
    maxFramesPerSubscriber], n < 2 ^ 31

/-- `maxQueued() + maxRunning() + maxRetained()`, an `int` sum. -/
def JobLimits.capacity (limits : JobLimits) : ℤ :=
  Int.bmod (limits.maxQueued + limits.maxRunning + limits.maxRetained) (2 ^ 32)

/-! ## Operations -/

inductive Category
  | PROJECT_EXCLUSIVE | CLASS_READ | INDEX_READ | QUERY_READ | TEMPORARY_ANALYSIS
deriving DecidableEq, Repr

/-- Resource classification for one admitted project operation. -/
structure OperationRequest where
  category : Category
  key : JString
deriving DecidableEq

/-- The session and logical revision an operation is admitted at. -/
structure Admission where
  sessionId : JString
  logicalRevision : ℤ
deriving DecidableEq

/-- A trusted internal task, without the code it runs. -/
structure JobSpec where
  type : JString
  operation : OperationRequest
  admission : Admission
  sourceSnapshotId : JString
  deadline : Option ℕ
  capture : Bool
  named : isBlank type = false ∧ isBlank sourceSnapshotId = false
  deadline_positive : ∀ d ∈ deadline, 0 < d
  captured : operation.category = .TEMPORARY_ANALYSIS → capture = true

inductive Completeness
  | COMPLETE | PARTIAL
deriving DecidableEq, Repr

structure JobResult where
  json : JString
  completeness : Completeness
deriving DecidableEq

/-! ## Failures -/

/-- What the code distinguishes about a `Throwable`. -/
inductive Throwable
  | resourceLimit (message : String)
  | staleJobSnapshot
  | serviceShuttingDown
  | projectBusy
  | admissionDeferred
  | cancellation
  | rejectedExecution
  | eventHistoryExpired
  | noSuchElement (message : String)
  | illegalState (message : String)
  | illegalArgument (message : String)
  | arithmetic
  | dateTime
  | io
  | noSuchFile
  | externalModification (message : String)
  | security (message : String)
  | staleRevision
  | unsavedChanges
  | projectNotReady
  | shutdownRejected (code : String) (retryable : Bool)
  | exception
  | error
deriving DecidableEq, Repr

/-- `failure instanceof Error`. -/
def Throwable.isError : Throwable → Bool
  | .error => true
  | _ => false

/-! ## Progress and events -/

/-- A job's progress; `total` is absent when the amount of work cannot be known. -/
structure JobProgress where
  completed : ℤ
  total : Option ℤ
  stage : JString
  valid : 0 ≤ completed ∧ (∀ t ∈ total, 0 ≤ t ∧ completed ≤ t) ∧ isBlank stage = false
deriving DecidableEq

/-- The record's constructor. -/
def JobProgress.make (completed : ℤ) (total : Option ℤ) (stage : JString) :
    Except Throwable JobProgress :=
  if h : 0 ≤ completed ∧ (∀ t ∈ total, 0 ≤ t ∧ completed ≤ t) then
    if hs : isBlank stage = false then .ok ⟨completed, total, stage, h.1, h.2, hs⟩
    else .error (.illegalArgument "Progress stage is required")
  else .error (.illegalArgument "Invalid job progress")

inductive Reason
  | USER | DEADLINE | SHUTDOWN
deriving DecidableEq, Repr

inductive JobState
  | QUEUED | RUNNING | CANCELLING | SUCCEEDED | FAILED | CANCELLED
deriving DecidableEq, Repr

def JobState.terminal : JobState → Bool
  | .SUCCEEDED | .FAILED | .CANCELLED => true
  | _ => false

/-- The event types a registry emits. -/
inductive EventType
  | queued | started | progress | cancel_requested | completed | failed | cancelled
deriving DecidableEq, Repr

def EventType.name : EventType → JString
  | .queued => str "job.queued"
  | .started => str "job.started"
  | .progress => str "job.progress"
  | .cancel_requested => str "job.cancel_requested"
  | .completed => str "job.completed"
  | .failed => str "job.failed"
  | .cancelled => str "job.cancelled"

abbrev JobId := ℕ

/-- The members of an event's JSON object; `resultUrl` is a function of `jobId`. -/
structure EventData where
  jobId : JobId
  sequence : ℕ
  type : EventType
  instant : ℤ
  state : JobState
  progress : JobProgress
deriving DecidableEq

/-- A retained, serialized event. -/
structure JobEvent where
  jobId : JobId
  sequence : ℕ
  type : EventType
  instant : ℤ
  state : JobState
  dataJson : JString
deriving DecidableEq

def JobEvent.terminal (e : JobEvent) : Bool := e.state.terminal

structure JobError where
  code : String
  message : String
  retryable : Bool
deriving DecidableEq, Repr

/-- What a poll sees of a job. -/
structure JobSnapshot where
  jobId : JobId
  type : JString
  state : JobState
  createdAt : ℤ
  startedAt : Option ℤ
  completedAt : Option ℤ
  deadlineAt : Option ℤ
  sessionId : JString
  logicalRevision : ℤ
  sourceSnapshotId : JString
  progress : JobProgress
  resultJson : Option JString
  completeness : Option Completeness
  error : Option JobError
  diagnostics : List JString
  cancellationReason : Option Reason

end Libjadx
