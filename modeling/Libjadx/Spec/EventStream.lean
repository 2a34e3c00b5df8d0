import Libjadx.Spec.Bytes
import Libjadx.Spec.Registry
import Libjadx.Spec.Sse

/-!
# The server's event stream

`JobEventsHandler.serve`: the frames it writes for what the subscription gives. `Understood` is what
the two sides rely on of their libraries, for the data of one event.
-/

namespace Libjadx

/-- The event that `emitLocked` makes of its data. -/
def EventData.event (env : JobEnv) (d : EventData) : JobEvent :=
  ⟨d.jobId, d.sequence, d.type, d.instant, d.state, env.writeValueAsString d⟩

namespace JobEventsHandler

def heartbeat : JString := str ": heartbeat\n\n"

def frame (event : JobEvent) : JString :=
  str "id: " ++ digits event.sequence ++ str "\nevent: " ++ event.type.name ++ str "\ndata: " ++
    event.dataJson ++ str "\n\n"

/-- The frame for what one `next` gives: an event, or nothing within the interval. -/
def written : Option JobEvent → JString
  | none => heartbeat
  | some event => frame event

/-- `serve`, until the subscription is closed. -/
def serve : List (Option JobEvent) → List JString
  | [] => []
  | poll :: polls => written poll :: if poll.any JobEvent.terminal then [] else serve polls

/-- The events among what it writes. -/
def served {α : Type} (terminal : α → Bool) : List (Option α) → List α
  | [] => []
  | poll :: polls => poll.toList ++ if poll.any terminal then [] else served terminal polls

/-- What the client is sent. -/
def stream (polls : List (Option JobEvent)) : List UInt8 := (serve polls).flatMap getBytes

end JobEventsHandler

namespace Parser

open Locked

/-- One `feed` after the other. -/
def feeds (env : PyEnv) : List (List UInt8) → Section (List PyEvent)
  | [] => pure []
  | chunk :: chunks => do
    let events ← feed env chunk
    let more ← feeds env chunks
    pure (events ++ more)

end Parser

/-! ## The data on both sides -/

/-- Texts of the server: `UUID.toString` and `Instant.toString`. -/
structure Texts where
  uuid : JobId → PyStr
  instant : ℤ → PyStr

/-- The value of a `JobEventState`. -/
def JobState.value : JobState → PyStr
  | .QUEUED => py "QUEUED"
  | .RUNNING => py "RUNNING"
  | .CANCELLING => py "CANCELLING"
  | .SUCCEEDED => py "SUCCEEDED"
  | .FAILED => py "FAILED"
  | .CANCELLED => py "CANCELLED"

namespace EventData

variable (texts : Texts) (d : EventData)

/-- The tree of the JSON object. -/
def tree : Json := .obj [(py "jobId", .str (texts.uuid d.jobId)), (py "sequence", .int d.sequence),
  (py "type", .str d.type.value), (py "at", .str (texts.instant d.instant)),
    (py "state", .str d.state.value),
  (py "progress", .obj [(py "completed", .int d.progress.completed),
    (py "total", d.progress.total.elim .null .int),
      (py "stage", .str (codePoints d.progress.stage))]),
  (py "resultUrl", .str (py "/api/v1/jobs/" ++ texts.uuid d.jobId))]

/-- The event on the client's side; a `datetime` counts microseconds. -/
def received : PyEvent where
  jobId := d.jobId
  sequence := .int d.sequence
  type := d.type
  at_ := d.instant / 1000
  state := d.state
  progress := ⟨.int d.progress.completed, d.progress.total.elim .null .int,
    .str (codePoints d.progress.stage)⟩
  resultUrl := .str (py "/api/v1/jobs/" ++ texts.uuid d.jobId)

/-- The instants that a `datetime` knows: of the years 1 to 9999, in nanoseconds. -/
def Dated (instant : ℤ) : Prop := -62135596800000000000 ≤ instant ∧ instant < 253402300800000000000

end EventData

/-- What the libraries make of the data of an event. -/
structure Understood (env : JobEnv) (texts : Texts) (client : PyEnv) (d : EventData) : Prop where
  /-- The writer keeps well-formed text, -/
  paired : Paired d.progress.stage = true → Paired (env.writeValueAsString d) = true
  /-- and escapes every control character. -/
  escaped : ∀ c ∈ env.writeValueAsString d, 0x20 ≤ c.toNat
  loads : Paired d.progress.stage = true → client.loads (codePoints (env.writeValueAsString d)) =
    .ok (d.tree texts)
  uuid : client.uuid (.str (texts.uuid d.jobId)) = .ok d.jobId
  fromisoformat : EventData.Dated d.instant →
    client.fromisoformat (.str (texts.instant d.instant)) = .ok (d.instant / 1000)

end Libjadx
