import Libjadx.Lib.Locked
import Libjadx.Lib.Utf8
import Libjadx.Spec.Jobs

/-!
# The client's event stream

`Parser`: the bounded parser for job frames, fed with what the network delivers, and the loop of
`Job.events` over it. Text is Python's, a sequence of code points; what the JSON, UUID and date
libraries do is a parameter (`PyEnv`), `dict` and the records of the models are defined.
-/

namespace Libjadx

/-- A Python `str`. -/
abbrev PyStr := List ℕ

/-- A Python string literal. -/
def py (s : String) : PyStr := s.toList.map Char.toNat

/-- What the code distinguishes about an exception. -/
inductive PyError
  | unexpectedResponse (message : String)
  | transport (message : String)
  | value | type | attribute | key
  | other
deriving DecidableEq, Repr

/-- What `json.loads` gives: `int`s and `float`s are apart. -/
inductive Json
  | null
  | bool (b : Bool)
  | int (n : ℤ)
  /-- The value of a finite `float`. -/
  | float (q : Option ℚ)
  | str (s : PyStr)
  | arr (l : List Json)
  /-- The items of a `dict`. -/
  | obj (m : List (PyStr × Json))

namespace Json

/-- `value == n`. -/
def eqInt (n : ℤ) : Json → Bool
  | .int m => m = n
  | .bool b => (if b then 1 else 0) = n
  | .float q => q = some (n : ℚ)
  | _ => false

/-- A key and a value of the `dict` that is made of an iterable. -/
def item (k v : Json) : Except PyError (List (PyStr × Json)) :=
  match k with
  | .str k => .ok [(k, v)]
  -- not hashable
  | .arr _ | .obj _ => .error .type
  -- a key that nothing asks for
  | _ => .ok []

/-- An element of that iterable. -/
def pair : Json → Except PyError (List (PyStr × Json))
  | .arr [k, v] => item k v
  | .str [a, b] => .ok [([a], .str [b])]
  | .obj [(k, _), (v, _)] => .ok [(k, .str v)]
  | .arr _ | .str _ | .obj _ => .error .value
  | _ => .error .type

def pairs : List Json → Except PyError (List (PyStr × Json))
  | [] => .ok []
  | x :: l => do
    let m ← pair x
    let n ← pairs l
    pure (m ++ n)

/-- `dict(value)`. -/
def dict : Json → Except PyError (List (PyStr × Json))
  | .obj m => .ok m
  | .arr l => pairs l
  | .str [] => .ok []
  | .str _ => .error .value
  | _ => .error .type

/-- `d.pop(key)`: of equal keys the last one was kept. -/
def pop (d : List (PyStr × Json)) (key : PyStr) : Except PyError Json :=
  match d.reverse.lookup key with
  | some v => .ok v
  | none => .error .key

end Json

/-! ## The models -/

/-- `JobProgress`: the values are not checked. What the object has besides is left out. -/
structure PyProgress where
  completed : Json
  total : Json
  stage : Json

/-- `JobEvent`, without `additional_properties`. -/
structure PyEvent where
  jobId : JobId
  sequence : Json
  type : EventType
  at_ : ℤ
  state : JobState
  progress : PyProgress
  resultUrl : Json

/-- The libraries of the client. -/
structure PyEnv where
  loads : PyStr → Except PyError Json
  /-- `UUID(value)`. -/
  uuid : Json → Except PyError JobId
  /-- `datetime.fromisoformat(value)`. -/
  fromisoformat : Json → Except PyError ℤ

/-- `JobEventType(value)`. -/
def JobEventType.parse (value : Json) : Except PyError EventType :=
  let types : List (String × EventType) :=
    [("job.cancelled", .cancelled), ("job.cancel_requested", .cancel_requested),
    ("job.completed", .completed), ("job.failed", .failed), ("job.progress", .progress),
      ("job.queued", .queued),
    ("job.started", .started)]
  match value with
  | .str s => match types.find? fun t => py t.1 = s with
    | some t => .ok t.2
    | none => .error .value
  | _ => .error .value

/-- `JobEventState(value)`. -/
def JobEventState.parse (value : Json) : Except PyError JobState :=
  let states : List (String × JobState) := [("CANCELLED", .CANCELLED), ("CANCELLING", .CANCELLING),
    ("FAILED", .FAILED),
    ("QUEUED", .QUEUED), ("RUNNING", .RUNNING), ("SUCCEEDED", .SUCCEEDED)]
  match value with
  | .str s => match states.find? fun t => py t.1 = s with
    | some t => .ok t.2
    | none => .error .value
  | _ => .error .value

/-- The value of a `JobEventType`. -/
def EventType.value : EventType → PyStr
  | .cancelled => py "job.cancelled"
  | .cancel_requested => py "job.cancel_requested"
  | .completed => py "job.completed"
  | .failed => py "job.failed"
  | .progress => py "job.progress"
  | .queued => py "job.queued"
  | .started => py "job.started"

/-- `JobProgress.from_dict`. -/
def PyProgress.fromDict (src : Json) : Except PyError PyProgress := do
  let d ← src.dict
  let completed ← Json.pop d (py "completed")
  let total ← Json.pop d (py "total")
  let stage ← Json.pop d (py "stage")
  pure ⟨completed, total, stage⟩

/-- `JobEvent.from_dict`. -/
def PyEvent.fromDict (env : PyEnv) (src : Json) : Except PyError PyEvent := do
  let d ← src.dict
  let jobId ← Json.pop d (py "jobId") >>= env.uuid
  let sequence ← Json.pop d (py "sequence")
  let type ← Json.pop d (py "type") >>= JobEventType.parse
  let at_ ← Json.pop d (py "at") >>= env.fromisoformat
  let state ← Json.pop d (py "state") >>= JobEventState.parse
  let progress ← Json.pop d (py "progress") >>= PyProgress.fromDict
  let resultUrl ← Json.pop d (py "resultUrl")
  pure ⟨jobId, sequence, type, at_, state, progress, resultUrl⟩

/-! ## The parser -/

def MAX_FRAME : ℕ := 1024 * 1024
def MAX_LINE : ℕ := 1024 * 1024

structure Parser where
  jobId : JobId
  lastId : ℤ
  pending : List UInt8
  lines : List PyStr
  frameBytes : ℕ
  terminal : Bool

/-- `Parser(job_id, last_event_id)`, with the number that was read from the id, or 0. -/
def Parser.make (jobId : JobId) (lastId : ℤ) : Parser := ⟨jobId, lastId, [], [], 0, false⟩

namespace Parser

open Locked

abbrev Section := Locked Parser PyError

variable (env : PyEnv)

/-- `text.rstrip("\r")`. -/
def rstrip (s : PyStr) : PyStr := (s.reverse.dropWhile (· = 13)).reverse

/-- `value.removeprefix(" ")`. -/
def removeprefix : PyStr → PyStr
  | 32 :: s => s
  | s => s

/-- `text.isascii() and text.isdecimal()`. -/
def isDecimal (s : PyStr) : Bool := !s.isEmpty && s.all fun c => 48 ≤ c && c ≤ 57

/-- `int(text)` of decimal digits, of which Python takes no more than 4300. -/
def toInt (s : PyStr) : Except PyError ℤ :=
  if s.length ≤ 4300 then .ok ((s.foldl (fun n c => n * 10 + (c - 48)) 0 : ℕ)) else .error .value

/-- The fields of a frame. -/
structure Fields where
  data : List PyStr
  eventId : Option PyStr
  eventType : Option PyStr

/-- The loop of `_event` over the lines. -/
def fields : List PyStr → Fields → Except PyError Fields
  | [], f => .ok f
  | line :: l, f =>
    if line.head? = some 58 then fields l f
    else if 58 ∉ line then .error (.unexpectedResponse "Malformed SSE field")
    else
      let key := line.takeWhile (· ≠ 58)
      let value := removeprefix (line.drop (key.length + 1))
      if key = py "data" then fields l { f with data := f.data ++ [value] }
      else if key = py "id" then fields l { f with eventId := some value }
      else if key = py "event" then fields l { f with eventType := some value }
      else .error (.unexpectedResponse "Unknown SSE field")

/-- The `try` block of `_event`: the number and the event. -/
def checked (p : Parser) (f : Fields) : Except PyError (ℤ × PyEvent) := do
  let eventId ← match f.eventId with
    | none => .error .value
    | some eventId => if isDecimal eventId then .ok eventId else .error .value
  let number ← toInt eventId
  let json ← env.loads (List.intercalate [10] f.data)
  let event ← PyEvent.fromDict env json
  if number ≤ p.lastId ∨ ¬event.sequence.eqInt number ∨ f.eventType ≠ some event.type.value ∨
      event.jobId ≠ p.jobId then
    .error .value
  else pure (number, event)

/-- `except (ValueError, TypeError, AttributeError, KeyError)`. -/
def malformed : PyError → PyError
  | .value | .type | .attribute | .key => .unexpectedResponse "Malformed job SSE event"
  | e => e

/-- `_event`. -/
def event : Section (Option PyEvent) := do
  let p ← get
  match fields p.lines ⟨[], none, none⟩ with
  | .error e => throw e
  | .ok f =>
    if f.data = [] then
      if f.eventId ≠ none ∨ f.eventType ≠ none then throw (.unexpectedResponse "SSE frame lacks data")
      else pure none
    else match checked env p f with
      | .error e => throw (malformed e)
      | .ok (number, event) => do
        modify fun p => { p with lastId := number }
        pure (some event)

/-- A line that is complete: its bytes, without the line feed. -/
def line (bytes : List UInt8) : Section (Option PyEvent) :=
  if bytes.length > MAX_LINE then throw (.unexpectedResponse "Oversized SSE line")
  else match Utf8.decode bytes with
    | none => throw (.unexpectedResponse "Invalid SSE UTF-8")
    | some text => do
      modify fun p => { p with
        pending := p.pending.drop (bytes.length + 1)
        frameBytes := p.frameBytes + bytes.length + 1 }
      let p ← get
      if p.frameBytes > MAX_FRAME then throw (.unexpectedResponse "Oversized SSE frame")
      else if rstrip text ≠ [] then do
        modify fun p => { p with lines := p.lines ++ [rstrip text] }
        pure none
      else do
        let event ← event env
        modify fun p => { p with lines := [], frameBytes := 0 }
        pure event

/-- The loop of `feed`: every round takes a byte at least. -/
def feedLines : ℕ → List PyEvent → Section (List PyEvent)
  | 0, events => pure events
  | n + 1, events => do
    let p ← get
    if 10 ∉ p.pending then pure events
    else do
      let event ← line env (p.pending.takeWhile (· ≠ 10))
      match event with
      | none => feedLines n events
      | some e =>
        if e.state.terminal then do
          modify fun p => { p with terminal := true }
          pure (events ++ [e])
        else feedLines n (events ++ [e])

/-- `feed`. -/
def feed (chunk : List UInt8) : Section (List PyEvent) := do
  modify fun p => { p with pending := p.pending ++ chunk }
  let p ← get
  let events ← feedLines env p.pending.length []
  let p ← get
  if p.pending.length > MAX_LINE then throw (.unexpectedResponse "Oversized SSE line")
  else if p.frameBytes + p.pending.length > MAX_FRAME then throw (.unexpectedResponse "Oversized SSE frame")
  else pure events

end Parser

/-! ## `Job.events` -/

/-- How the iteration ends. -/
inductive Outcome
  /-- The generator returns. -/
  | returns
  | raises (e : PyError)
deriving DecidableEq

namespace Job

open Locked

variable (env : PyEnv)

/-- `chunk[offset : offset + 16384]` for the offsets of the `range`; `n` bounds their number. -/
def slices : ℕ → List UInt8 → List (List UInt8)
  | 0, _ => []
  | _ + 1, [] => []
  | n + 1, chunk => chunk.take 16384 :: slices n (chunk.drop 16384)

/-- The inner loop: what it yields, and the parser after it. -/
def yields : List (List UInt8) → Parser → List PyEvent × Except PyError Parser
  | [], p => ([], .ok p)
  | slice :: l, p => match Parser.feed env slice p with
    | (.error e, _) => ([], .error e)
    | (.ok events, p) => (events ++ (yields l p).1, (yields l p).2)

/-- `Job.events`, over the chunks of the response. -/
def events : List (List UInt8) → Parser → List PyEvent × Outcome
  | [], _ => ([], .raises (.transport
    "Job event stream ended before terminal event; poll or reconnect explicitly"))
  | chunk :: l, p => match yields env (slices chunk.length chunk) p with
    | (yielded, .error e) => (yielded, .raises e)
    | (yielded, .ok p) =>
      if p.terminal then (yielded, .returns) else (yielded ++ (events l p).1, (events l p).2)

end Job

end Libjadx
