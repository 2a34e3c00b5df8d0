import Libjadx.Spec.Repository

/-!
# The persisted identity and its computations

`NativeProjectRepository.refreshIdentity` computes the identity of small inputs at once, and of
large ones in a thread of its own. Here the threads are part of the state: each computation keeps
the generation that it was started for and the paths that it reads, and comes back when it likes.
`collected` is history, not state of the code.
-/

namespace Libjadx.PersistedIdentity

open NativeProjectRepository

/-- A computation that `refreshIdentity` has launched: its `generation` and its `immutablePaths`. -/
structure Computation where
  generation : ℤ
  paths : List Path

/-- The paths that `refreshIdentity` collects: the saved project, its saved mapping file and the
inputs. -/
def savedPaths (s : Repository) : List Path :=
  s.currentPath.toList ++ s.savedMappingsPath.toList ++ s.inputs

/-- The computation that a call has launched: it has started a generation, and left its identity
pending. A call that an error has cut short has launched none. -/
def launched {α : Type} (s : Repository) (outcome : Except Throwable α) (t : Repository) :
    List Computation :=
  match outcome with
  | .error .error => []
  | _ =>
    if t.identityGeneration ≠ s.identityGeneration ∧ t.persistedIdentityState = .PENDING then
      [⟨t.identityGeneration, savedPaths t⟩]
    else []

/-- The repositories, the computations that have not come back, and for the record the paths of each
generation. -/
structure Process where
  world : World
  inFlight : RepositoryId → List Computation
  collected : RepositoryId → ℤ → Option (List Path)

inductive Event
  | call (repository : RepositoryId) (operation : Operation)
  /-- A computation comes back; `n` is when its thread has looked at the files. -/
  | finishes (repository : RepositoryId) (i n : ℕ)

variable (disk : RepositoryId → Disk)

/-- What comes of a computation: its thread publishes the identity or the failure, or dies of an
error. -/
def finished (w : World) (r : RepositoryId) (generation : ℤ) : Except DiskFailure JString → World
  | .ok identity => w.after disk (.fingerprinted r generation (some identity))
  | .error .error => w
  | .error _ => w.after disk (.fingerprinted r generation none)

def Process.after (p : Process) : Event → Process
  | .call r op =>
    let s := p.world.repository r
    let outcome := (perform (disk r) p.world.staged op s).1
    let w := p.world.after disk (.call r op)
    let t := w.repository r
    { world := w
      inFlight := Function.update p.inFlight r (p.inFlight r ++ launched s outcome t)
      collected :=
        if t.identityGeneration = s.identityGeneration then p.collected
        else Function.update p.collected r
          (Function.update (p.collected r) t.identityGeneration (some (savedPaths t))) }
  | .finishes r i n =>
    match (p.inFlight r)[i]? with
    | none => p
    | some c =>
      { p with
        world := finished disk p.world r c.generation ((disk r).identity n c.paths)
        inFlight := Function.update p.inFlight r ((p.inFlight r).eraseIdx i) }

/-- What the constructor has set when it calls `refreshIdentity`. -/
structure Fresh (s : Repository) : Prop where
  saved : s.codeDataJson = .ok s.savedCodeData
  mappings : s.savedMappingsPath = s.mappingsPath ∧ s.baselineMappingsPath = s.mappingsPath
  staged : s.stagedMappingBaseline = none
  raw : s.rawCodeData = ⟨[], []⟩
  logicalRevision : s.logicalRevision = 0
  indexRevision : s.indexRevision = 0
  identityGeneration : s.identityGeneration = 0
  persistedIdentity : s.persistedIdentity = none
  persistedIdentityState : s.persistedIdentityState = .PENDING

/-- The constructors have returned. -/
def start (fresh : RepositoryId → Repository) : Process where
  world := ⟨fun r => (refreshIdentity (disk r) (fresh r)).2, []⟩
  inFlight r := launched (fresh r) (refreshIdentity (disk r) (fresh r)).1
    (refreshIdentity (disk r) (fresh r)).2
  collected r := Function.update (fun _ => none) 1
    (some (savedPaths (refreshIdentity (disk r) (fresh r)).2))

inductive Reachable : Process → Prop
  | opened (fresh : RepositoryId → Repository) (hself : ∀ r, (fresh r).self = r)
      (hfresh : ∀ r, Fresh (fresh r))
      (hok : ∀ r, (refreshIdentity (disk r) (fresh r)).1 = .ok ()) : Reachable (start disk fresh)
  | step {p : Process} (event : Event) (h : Reachable p) : Reachable (p.after disk event)

end Libjadx.PersistedIdentity
