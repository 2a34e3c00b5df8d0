import Mathlib.Logic.Relation
import Libjadx.Lib.Locked
import Libjadx.Spec.Jobs

/-!
# The operation coordinator

`OperationCoordinator`: short, fail-fast admission for one runtime. Lease objects live on a
heap, since their holders keep them after the coordinator dropped them; `active` is the
coordinator's own map. A close takes three steps: the flag of the lease is won, the lease
leaves the map, its callback runs.
-/

namespace Libjadx

abbrev LeaseId := ℕ

structure Lease where
  request : OperationRequest
  admission : Admission
  closed : Bool
  capturing : Bool

structure Coordinator where
  /-- Leases made so far: `UUID.randomUUID()` never repeats. -/
  issued : ℕ
  lease : LeaseId → Lease
  active : List LeaseId
  stopped : Bool

/-- The constructor of `Lease`. -/
def Lease.make (request : OperationRequest) (admission : Admission) : Lease :=
  ⟨request, admission, false, request.category = .TEMPORARY_ANALYSIS⟩

/-- Whether a category uses the primary engine. -/
def Category.primary (c : Category) : Bool := c = .CLASS_READ || c = .PROJECT_EXCLUSIVE

namespace OperationCoordinator

open Locked

abbrev Section := Locked Coordinator Throwable

/-- One round of the loop of `compatible`. -/
def compatibleWith (candidate : OperationRequest) (admission : Admission) (lease : Lease) : Bool :=
  let existing := lease.request.category
  if candidate.category = .TEMPORARY_ANALYSIS then !(existing = .CLASS_READ ||
    existing = .PROJECT_EXCLUSIVE)
  else if existing = .TEMPORARY_ANALYSIS then
    !(lease.capturing && (candidate.category = .CLASS_READ || candidate.category = .PROJECT_EXCLUSIVE))
  else if candidate.category = .PROJECT_EXCLUSIVE || existing = .PROJECT_EXCLUSIVE then false
  else if candidate.category = .CLASS_READ || existing = .CLASS_READ then false
  -- a caller-selected key alone cannot prove snapshot identity
  else candidate.key = lease.request.key && admission = lease.admission

def compatible (candidate : OperationRequest) (admission : Admission) (c : Coordinator) : Bool :=
  if candidate.category = .TEMPORARY_ANALYSIS &&
      c.active.any (fun id => (c.lease id).request.category = .TEMPORARY_ANALYSIS) then false
  else c.active.all fun id => compatibleWith candidate admission (c.lease id)

/-- `active.put(lease.id(), lease)`. -/
def enter (lease : Lease) (c : Coordinator) : Coordinator :=
  { c with
    issued := c.issued + 1
    lease := Function.update c.lease c.issued lease
    active := c.active ++ [c.issued] }

def tryAdmit (request : OperationRequest) (admission : Admission) : Section LeaseId := do
  let c ← get
  if c.stopped then throw .serviceShuttingDown
  else if !compatible request admission c then throw .projectBusy
  else do
    modify (enter (Lease.make request admission))
    pure c.issued

def stopAdmissions : Section Unit := modify fun c => { c with stopped := true }

def inFlightCount (c : Coordinator) : ℕ := c.active.length

def primaryEngineInUse (c : Coordinator) : Bool :=
  c.active.any fun id => (c.lease id).request.category.primary

/-- Change one lease object. -/
def edit (id : LeaseId) (f : Lease → Lease) : Section Unit :=
  modify fun c => { c with lease := Function.update c.lease id (f (c.lease id)) }

def finishSnapshotCapture (id : LeaseId) : Section Unit := do
  let c ← get
  if (c.lease id).request.category ≠ .TEMPORARY_ANALYSIS ∨ (c.lease id).closed = true then
    throw (.illegalState "No active temporary snapshot capture")
  else edit id fun l => { l with capturing := false }

/-- `closed.compareAndSet(false, true)`. -/
def winClose (id : LeaseId) : Section Bool := do
  let c ← get
  if (c.lease id).closed then pure false
  else do
    edit id fun l => { l with closed := true }
    pure true

/-- `active.remove(id)`. -/
def removeActive (id : LeaseId) : Section Unit :=
  modify fun c => { c with active := c.active.erase id }

/-! ## Runs -/

/-- The coordinator with the closes under way: leases whose flag is won, leases that left the
map, and (as history) the callbacks that ran. -/
structure Run where
  coordinator : Coordinator
  closing : List LeaseId
  leaving : List LeaseId
  released : List LeaseId

/-- One step of any thread. A lease is known to its holders once it was made. -/
inductive Act
  | tryAdmit (request : OperationRequest) (admission : Admission)
  | stopAdmissions
  | finishSnapshotCapture (id : LeaseId)
  /-- The first step of `close`, by any thread, any number of times. -/
  | close (id : LeaseId)
  | remove (id : LeaseId)
  | afterRelease (id : LeaseId)

def act (s : Run) : Act → Option Run
  | .tryAdmit request admission =>
    some { s with coordinator := (OperationCoordinator.tryAdmit request admission s.coordinator).2 }
  | .stopAdmissions => some { s with coordinator := (OperationCoordinator.stopAdmissions
      s.coordinator).2 }
  | .finishSnapshotCapture id =>
    if id < s.coordinator.issued then
      some { s with coordinator := (OperationCoordinator.finishSnapshotCapture id s.coordinator).2 }
    else none
  | .close id =>
    if id < s.coordinator.issued then
      match winClose id s.coordinator with
      | (.ok true, c) => some { s with coordinator := c, closing := s.closing ++ [id] }
      | (_, c) => some { s with coordinator := c }
    else none
  | .remove id =>
    if id ∈ s.closing then
      some { s with
        coordinator := (removeActive id s.coordinator).2, closing := s.closing.erase id, leaving :=
          s.leaving ++ [id] }
    else none
  | .afterRelease id =>
    if id ∈ s.leaving then some { s with leaving := s.leaving.erase id, released := s.released ++
      [id] } else none

/-- A coordinator without leases. -/
def start (lease : LeaseId → Lease) : Run := ⟨⟨0, lease, [], false⟩, [], [], []⟩

def Step (s t : Run) : Prop := ∃ a, act s a = some t

def Reachable (s : Run) : Prop := ∃ lease, Relation.ReflTransGen Step (start lease) s

end OperationCoordinator

end Libjadx
