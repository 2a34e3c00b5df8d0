import Libjadx.Proof.Runtime

/-!
# Steps of the runtime's threads

`Goes`: after a step of a thread the shared fields keep their invariant, the other threads may rely
on what they knew, and the thread knows what its new frames need. There is one lemma for each
section that publishes; all the others are calm.
-/

namespace Libjadx

namespace ProjectRuntime

open Locked
open NativeProjectRepository (Same Untouched At)

variable {env : RuntimeEnv} {s t u : Runtime} {i j : ℕ} {g g' : Ghost} {l : LeaseId} {f : Frame}
    {rest frames : List Frame}

/-- The saves of a run whose last section finds the project ready. -/
def Timely (s : Runtime) (f : Frame) : Prop :=
  ∀ l r p, f = .publishSaved l r p → s.lifecycle = .READY

/-- What a step of a thread makes sure of. -/
def Goes (env : RuntimeEnv) (g : Ghost) (i : ℕ) (s : Runtime) (f : Frame) (rest : List Frame)
    (t : Runtime)
    (frames : List Frame) : Prop :=
  Advances s t ∧ (Timely s f → Current env s → Current env t) ∧
    ∃ g', Shared g' t ∧ (∀ j, j ≠ i → Rely g g' j s t) ∧ StackOk g' i t (frames ++ rest)

/-! ## Stacks -/

/-- One frame that is in order is a stack in order. -/
theorem stackOk_one (h : FrameOk g i s f) : StackOk g i s [f] := ⟨h, by simp, by simp, trivial⟩

theorem stackOk_raise (e : Throwable) : StackOk g i s [.raise e] := stackOk_one trivial

/-- **A frame goes on a stack of frames that wait.** -/
theorem stackOk_cons {x : Frame} {frames : List Frame} (hx : FrameOk g i s x)
    (hw : ∀ y ∈ frames, y.waits = true)
    (ho : x.outer = true → ∀ y ∈ frames, y.rebuilds = false) (h : StackOk g i s frames) :
    StackOk g i s (x :: frames) :=
  ⟨hx, hw, ho, h⟩

/-- The thread goes on with frames that need not be outside a rebuild, or stood outside already. -/
theorem goes (hst : StackOk g i s (f :: rest)) (hs : Shared g s) (hs' : Shared g' t)
    (hrely : ∀ j, j ≠ i → Rely g g' j s t) (hleased : Leased g g' i s t)
    (hframes : StackOk g' i t frames)
    (hout : ∀ x ∈ frames, x.outer = true → f.outer = true) (hadv : Advances s t)
    (hcur : Timely s f → Current env s → Current env t) : Goes env g i s f rest t frames := by
  refine ⟨hadv, hcur, g', hs', hrely, hst.replace (fun x hx => ?_) hframes hout⟩
  exact (hst.frame x (List.mem_cons_of_mem _ hx)).leased (hst.2.1 x hx) hs.leases hleased

/-- **Calm work goes on.** -/
theorem goes_calm (hst : StackOk g i s (f :: rest)) (hs : Shared g s) (hc : Calm s t)
    (hframes : StackOk g i t frames)
    (hout : ∀ x ∈ frames, x.outer = true → f.outer = true) : Goes env g i s f rest t frames :=
  goes hst hs (hc.shared hs) (fun _ _ => hc.rely) (hc.rely (g := g) (i := i)).toLeased hframes
    hout hc.advances
    fun _ => hc.current

/-- How a section ends. -/
theorem section_ends {α : Type} {m : Section α} {done : α → List Frame}
    (h : Frame.section_ s m done = some (t, frames)) :
    (∃ a, m s = (.ok a, t) ∧ frames = done a) ∨ ∃ e, m s = (.error e, t) ∧ frames = [.raise e] := by
  unfold Frame.section_ at h
  rcases hm : m s with ⟨e | a, v⟩
  · rw [hm] at h
    obtain ⟨rfl, rfl⟩ := Prod.mk.inj (Option.some.inj h)
    exact .inr ⟨e, rfl, rfl⟩
  · rw [hm] at h
    obtain ⟨rfl, rfl⟩ := Prod.mk.inj (Option.some.inj h)
    exact .inl ⟨a, rfl, rfl⟩

/-- A calm section: what it returns decides the frames. -/
theorem goes_section {α : Type} {m : Section α} {done : α → List Frame}
    (hst : StackOk g i s (f :: rest)) (hs : Shared g s)
    (hm : Calms m) (h : Frame.section_ s m done = some (t, frames))
    (hdone : ∀ a, m s = (.ok a, t) → Calm s t → StackOk g i t (done a) ∧
      ∀ x ∈ done a, x.outer = true → f.outer = true) : Goes env g i s f rest t frames := by
  rcases section_ends h with ⟨a, ha, rfl⟩ | ⟨e, he, rfl⟩
  · have hc := hm s
    rw [ha] at hc
    exact goes_calm hst hs hc (hdone a ha hc).1 (hdone a ha hc).2
  · have hc := hm s
    rw [he] at hc
    exact goes_calm hst hs hc (stackOk_raise e) (by simp [Frame.outer])

/-! ## Leases -/

/-- The holder of the exclusive lease is alone. -/
theorem Exclusive.unique {l' : LeaseId} (h : Exclusive g i s l) (h' : Exclusive g j s l')
    (hs : OperationCoordinator.Inv s.leases) :
    i = j := by
  have hprimary : (s.leases.coordinator.lease l').request.category.primary = true :=
    by rw [h'.category]; rfl
  have hl := hs.exclusive h.active h'.active h.category hprimary
  have hholder := h.holder
  rw [hl, h'.holder] at hholder
  exact (Option.some.inj hholder).symm

/-- A step of the coordinator by a thread that removes no lease of another. -/
theorem lease_rely {a : OperationCoordinator.Act} {r : OperationCoordinator.Run}
    (h : OperationCoordinator.act s.leases a = some r)
    (ha : ∀ l, a = .remove l → g.holder l ≠ some j) : Rely g g j s { s with leases := r } := by
  obtain ⟨hissued, hrequest, hactive⟩ := OperationCoordinator.act_stays h
  refine ⟨⟨hissued, fun _ _ => rfl, hrequest, fun l hl hg => hactive l hl fun he => ha l he hg⟩,
    fun hl => ⟨hl, rfl⟩,
    fun _ hr => hr, le_rfl, fun _ _ _ => ⟨rfl, rfl⟩, fun _ _ _ => .refl _⟩

/-- A step of the leases keeps the shared invariant. -/
theorem lease_shared {a : OperationCoordinator.Act} {r : OperationCoordinator.Run} (hs : Shared g s)
    (h : OperationCoordinator.act s.leases a = some r) : Shared g { s with leases := r } := by
  have hissued := (OperationCoordinator.act_stays h).1
  refine ⟨hs.leases.act h, fun l hl => ?_, hs.published, hs.unstarted, hs.queued, hs.unloaded⟩
  obtain ⟨hlt, hnone⟩ := hs.jobs l hl
  exact ⟨hlt.trans_le hissued, hnone⟩

/-- A step of the coordinator by its thread. -/
theorem goes_lease {a : OperationCoordinator.Act} {r : OperationCoordinator.Run}
    (hst : StackOk g i s (f :: rest)) (hs : Shared g s)
    (h : OperationCoordinator.act s.leases a = some r) (ha : ∀ l, a = .remove l → f = .remove l)
    (hframes : StackOk g i { s with leases := r } frames) (hout : ∀ x ∈ frames, x.outer = true →
      f.outer = true) :
    Goes env g i s f rest { s with leases := r } frames := by
  have hissued := (OperationCoordinator.act_stays h).1
  have hadv : Advances s { s with leases := r } :=
    ⟨le_rfl, fun h => h, fun _ h => .inr ⟨h, rfl, rfl, rfl⟩⟩
  refine ⟨hadv, fun _ hc => hc, g, lease_shared hs h, fun j hj => lease_rely h fun l hl hg => ?_,
    hst.replace (fun x hx => ?_) hframes hout⟩
  · have hown : FrameOk g i s f := hst.1
    rw [ha l hl] at hown
    exact hj (hown.2 j hg)
  · have hx' := hst.frame x (List.mem_cons_of_mem _ hx)
    have hw := hst.2.1 x hx
    by_cases hremove : ∃ l, a = .remove l
    · -- no rebuild waits below the close of its lease
      obtain ⟨l, hl⟩ := hremove
      have hreb := hst.2.2.1 (by rw [ha l hl]; rfl) x hx
      cases x with
      | close l | callback l => exact ⟨hx'.1.trans_le hissued, hx'.2⟩
      | rebuilding l => simp [Frame.rebuilds] at hreb
      | raise | closeOwned | quiesce | accept | reserved | finishTask => trivial
      | _ => simp [Frame.waits] at hw
    · have hrely : Rely g g i s { s with leases := r } := lease_rely h fun l hl =>
        absurd ⟨l, hl⟩ hremove
      exact hx'.leased hw hs.leases hrely.toLeased

/-- The thread was admitted. -/
theorem goes_takes {request : OperationRequest} (hst : StackOk g i s (f :: rest)) (hs : Shared g s)
    (ht : Takes s t l request)
    (hframes : StackOk (g.take l (some i)) i t frames) (hout : ∀ x ∈ frames, x.outer = true →
      f.outer = true) :
    Goes env g i s f rest t frames :=
  goes hst hs (ht.shared hs (some i)) (fun _ _ => ht.rely (some i)) (ht.leased (some i)) hframes
    hout ht.advances
    fun _ => ht.current

/-- A section that admits. -/
theorem goes_admit {request : OperationRequest} {done : LeaseId → List Frame}
    (hst : StackOk g i s (f :: rest)) (hs : Shared g s)
    (h : Frame.section_ s (admitOperation request) done = some (t, frames))
    (hdone : ∀ l, Takes s t l request → StackOk (g.take l (some i)) i t (done l))
    (hout : f.outer = true) : Goes env g i s f rest t frames := by
  rcases section_ends h with ⟨l, hl, rfl⟩ | ⟨e, he, rfl⟩
  · rcases admit_ends hl with ⟨l', hl', ht, -⟩ | ⟨e, he, -⟩
    · obtain rfl := Except.ok.inj hl'
      exact goes_takes hst hs ht (hdone l ht) fun _ _ _ => hout
    · simp at he
  · rcases admit_ends he with ⟨l', hl', -⟩ | ⟨e', -, rfl⟩
    · simp at hl'
    · exact goes_calm hst hs (.refl _) (stackOk_raise e) (by simp [Frame.outer])

/-! ## What sections do -/

/-- A call of a repository that leaves it as it was. -/
theorem ofRepository_untouched {α : Type} {r : RepositoryId} {m : NativeProjectRepository.Section α}
    (h : (m (s.heap r)).2 = s.heap r) : ofRepository r m s = ((m (s.heap r)).1, s) := by
  unfold ofRepository
  rw [h, Function.update_eq_self]

/-- A snapshot changes nothing, and shows the revisions. -/
theorem snapshot_ends {r : RepositoryId} {o : Except Throwable ProjectSnapshot}
    (h : ofRepository r NativeProjectRepository.snapshot s = (o, t)) : t = s ∧ ∀ p, o = .ok p →
      p.revisions.sessionId = (s.heap r).sessionId ∧
        p.revisions.logicalRevision = (s.heap r).logicalRevision := by
  rw [ofRepository_untouched (NativeProjectRepository.snapshot_state _)] at h
  obtain ⟨ho, rfl⟩ := Prod.mk.inj h
  refine ⟨rfl, fun p hp => ?_⟩
  rcases hr : NativeProjectRepository.snapshot (s.heap r) with ⟨x, u⟩
  rw [hr] at ho
  obtain rfl : x = .ok p := ho.trans hp
  obtain ⟨json, -, rfl⟩ := NativeProjectRepository.snapshot_ok hr
  exact ⟨rfl, rfl⟩

/-- So does one that may fail. -/
theorem snapshotOf_ends {r : RepositoryId} {failure : Option Throwable}
    {o : Except Throwable ProjectSnapshot}
    (h : snapshotOf r failure s = (o, t)) : t = s ∧ ∀ p, o = .ok p →
      p.revisions.sessionId = (s.heap r).sessionId ∧
        p.revisions.logicalRevision = (s.heap r).logicalRevision := by
  cases failure with
  | none => exact snapshot_ends h
  | some e =>
    obtain ⟨rfl, rfl⟩ := Prod.mk.inj h
    exact ⟨rfl, by simp⟩

/-- What `admitReloading` does after the admission. -/
def reloading (s : Runtime) : Runtime :=
  { s with lifecycle := .RELOADING, publicationEpoch := s.publicationEpoch + 1, publishedSearchIdentity := none }

/-- A reload is admitted with a lease, or nothing changes. -/
theorem admitReloading_ends {request : OperationRequest} {o : Except Throwable LeaseId}
    (h : admitReloading request s = (o, t)) :
    (∃ l u, o = .ok l ∧ Takes s u l request ∧ s.lifecycle = .READY ∧ t = reloading u) ∨
      ∃ e, o = .error e ∧ t = s := by
  unfold admitReloading at h
  rcases requireReady_cases s with ⟨hr, -, hready, -⟩ | ⟨e, hr⟩
  swap
  · rw [bind_error hr] at h
    obtain ⟨rfl, rfl⟩ := Prod.mk.inj h
    exact .inr ⟨e, rfl, rfl⟩
  rw [bind_ok hr] at h
  rcases ha : tryAdmit request s with ⟨o', u⟩
  rcases tryAdmit_ends ha with ⟨l, rfl, ht⟩ | ⟨e, rfl, rfl⟩
  · rw [bind_ok ha, bind_modify, pure_run] at h
    obtain ⟨rfl, rfl⟩ := Prod.mk.inj h
    exact .inl ⟨l, u, rfl, ht, hready, rfl⟩
  · rw [bind_error ha] at h
    obtain ⟨rfl, rfl⟩ := Prod.mk.inj h
    exact .inr ⟨e, rfl, rfl⟩

/-- The repository after a publication, or after a commit that threw. -/
def moved (s : Runtime) (r : RepositoryId) (repository : Repository) : Runtime :=
  { s with heap := Function.update s.heap r repository }

/-- What `publishReplacement` publishes. -/
def published (env : RuntimeEnv) (s : Runtime) (p : Replacement) (e : EngineId)
    (repository : Repository) : Runtime :=
  { moved s p.current repository with
    activeEngine := some e
    publicationEpoch := s.publicationEpoch + 1
    publishedAdmission := ⟨(s.heap p.current).sessionId, p.resultingRevision⟩
    publishedSearchIdentity := some
      ⟨(s.heap p.current).sessionId, p.resultingRevision, s.publicationEpoch + 1, env.fingerprint⟩
    lifecycle := .READY }

/-- Where it throws the revision is the old one, and where it returns it is the one that was
promised. -/
theorem publishReplacement_ends {p : Replacement} {e : EngineId} {failure : Option Throwable}
    {o : Except Throwable ProjectSnapshot} (hm : Measured s p)
    (h : publishReplacement env p e failure s = (o, t)) :
    (∃ x repository, o = .error x ∧ At (s.heap p.current).sessionId
      (s.heap p.current).logicalRevision repository ∧
      t = moved s p.current repository) ∨
    ∃ v repository, o = .ok v ∧ At (s.heap p.current).sessionId p.resultingRevision repository ∧
      s.repository = some p.current ∧ s.lifecycle = p.expectedLifecycle ∧
        t = published env s p e repository := by
  have hsame : s = moved s p.current (s.heap p.current) := by
    unfold moved
    rw [Function.update_eq_self]
  unfold publishReplacement at h
  rw [bind_get, ite_run] at h
  split at h
  -- refused before anything was looked at
  · obtain ⟨rfl, rfl⟩ := Prod.mk.inj h
    exact .inl ⟨_, s.heap p.current, rfl, ⟨rfl, rfl⟩, hsame⟩
  rename_i hchecks
  rw [not_or, not_or, not_not, not_not, not_not] at hchecks
  obtain ⟨hlife, -, hrep⟩ := hchecks
  rcases hsn : snapshotOf p.current failure s with ⟨x | before, u⟩
  -- the snapshot failed
  · rw [bind_error hsn] at h
    obtain ⟨rfl, -⟩ := snapshotOf_ends hsn
    obtain ⟨rfl, rfl⟩ := Prod.mk.inj h
    exact .inl ⟨_, u.heap p.current, rfl, ⟨rfl, rfl⟩, hsame⟩
  rw [bind_ok hsn] at h
  obtain ⟨rfl, hbefore⟩ := snapshotOf_ends hsn
  obtain ⟨hsid, -⟩ := hbefore before rfl
  have hcommit := NativeProjectRepository.apply_revised (env.disk p.current)
    (u.heap p.current) hm.sound
  rcases hc : p.commit.apply (env.disk p.current) (u.heap p.current) with ⟨x | v, repository⟩
  -- the commit failed, so the revision is the old one
  · have hrun : ofRepository p.current (p.commit.apply (env.disk p.current)) u =
        (.error x, moved u p.current repository) := by
      unfold ofRepository
      rw [hc]
      rfl
    rw [hc] at hcommit
    rw [bind_error hrun] at h
    obtain ⟨rfl, rfl⟩ := Prod.mk.inj h
    exact .inl ⟨_, repository, rfl, hcommit, rfl⟩
  -- the commit is published
  · have hrun : ofRepository p.current (p.commit.apply (env.disk p.current)) u =
        (.ok v, moved u p.current repository) := by
      unfold ofRepository
      rw [hc]
      rfl
    rw [hc] at hcommit
    rw [bind_ok hrun, bind_modify, pure_run] at h
    obtain ⟨rfl, rfl⟩ := Prod.mk.inj h
    refine .inr ⟨v, repository, rfl, ?_, hrep, hlife, ?_⟩
    · rw [hm.revision]
      exact hcommit
    · unfold published
      rw [hsid]
      rfl

/-! ## What others find -/

/-- Leases that stay are relied on. -/
theorem leased_of_eq (hleases : t.leases = s.leases) (hholder : g'.holder = g.holder) :
    Leased g g' i s t := by
  refine ⟨?_, fun l _ => ?_, fun l _ => ?_, fun l hl _ => ?_⟩
  · rw [hleases]
  · rw [hholder]
  · rw [hleases]
  · rwa [hleases]

/-- Leases, repository and content stay. -/
theorem rely_of_same (hleases : t.leases = s.leases) (hrep : t.repository = s.repository)
    (hheap : ∀ r, Same (s.heap r) (t.heap r)) (hepoch : s.publicationEpoch ≤ t.publicationEpoch) :
    Rely g g j s t :=
  ⟨leased_of_eq hleases rfl, fun hl => ⟨hl, hrep⟩, fun _ hr => hrep.trans hr, hepoch,
    fun r _ _ => ⟨(hheap r).sessionId, (hheap r).logicalRevision⟩, fun _ _ r => hheap r⟩

/-- The holder of the exclusive lease may change the content: nobody else relies on it. -/
theorem rely_of_exclusive (hi : Exclusive g i s l) (hs : Shared g s) (hj : j ≠ i)
    (hleases : t.leases = s.leases)
    (hrep : t.repository = s.repository) (hepoch : s.publicationEpoch ≤ t.publicationEpoch)
    (hrevisions : t.publicationEpoch = s.publicationEpoch →
      ∀ r, (t.heap r).sessionId = (s.heap r).sessionId ∧
      (t.heap r).logicalRevision = (s.heap r).logicalRevision) : Rely g g j s t :=
  ⟨leased_of_eq hleases rfl, fun hl => ⟨hl, hrep⟩, fun _ hr => hrep.trans hr, hepoch, fun r _ he =>
    hrevisions he r,
    fun _ hl' => absurd (hi.unique hl' hs.leases).symm hj⟩

/-- The initialisation may set the repository: nobody else relies on there being none. -/
theorem rely_of_loads (hi : Loads g i s) (hj : j ≠ i) (hleases : t.leases = s.leases)
    (hheap : t.heap = s.heap)
    (hepoch : s.publicationEpoch ≤ t.publicationEpoch) : Rely g g j s t := by
  refine ⟨leased_of_eq hleases rfl, fun hl => ?_, fun r hr => ?_, hepoch, fun r _ _ => ?_,
    fun _ _ r => ?_⟩
  · rw [hi.1] at hl
    exact absurd (Option.some.inj hl).symm hj
  · rw [hi.2] at hr
    simp at hr
  · rw [hheap]
    exact ⟨rfl, rfl⟩
  · rw [hheap]
    exact .refl _

/-- A project that moves is at the revision it was moved to. -/
theorem moved_at {r : RepositoryId} {repository : Repository} {sessionId : JString} {revision : ℤ}
    (h : At sessionId revision repository) :
    ((moved s r repository).heap r).sessionId = sessionId ∧
    ((moved s r repository).heap r).logicalRevision = revision := by
  have hself : (moved s r repository).heap r = repository := Function.update_self _ _ _
  rw [hself]
  exact h

/-- A change of the content that keeps the revision. -/
theorem moved_revisions {r : RepositoryId} {repository : Repository}
    (h : At (s.heap r).sessionId (s.heap r).logicalRevision repository) (x : RepositoryId) :
    ((moved s r repository).heap x).sessionId = (s.heap x).sessionId ∧
      ((moved s r repository).heap x).logicalRevision = (s.heap x).logicalRevision := by
  by_cases hx : x = r
  · rw [hx]
    exact moved_at h
  · have hother : (moved s r repository).heap x = s.heap x := Function.update_of_ne hx _ _
    rw [hother]
    exact ⟨rfl, rfl⟩

/-- It keeps the shared invariant, -/
theorem moved_shared {r : RepositoryId} {repository : Repository} (hs : Shared g s)
    (h : At (s.heap r).sessionId (s.heap r).logicalRevision repository) :
    Shared g (moved s r repository) := by
  refine ⟨hs.leases, hs.jobs, fun hl x hx => ?_, hs.unstarted, hs.queued, hs.unloaded⟩
  obtain ⟨hsid, hrev⟩ := moved_revisions h x
  rw [hsid, hrev]
  exact hs.published hl x hx

/-- keeps the runtime current, -/
theorem moved_current {r : RepositoryId} {repository : Repository} (hs : Current env s)
    (h : At (s.heap r).sessionId (s.heap r).logicalRevision repository) :
    Current env (moved s r repository) := by
  intro k hk
  obtain ⟨hl, x, hx, rfl⟩ := hs k hk
  refine ⟨hl, x, hx, ?_⟩
  obtain ⟨hsid, hrev⟩ := moved_revisions h x
  unfold current
  rw [hsid, hrev]
  rfl

/-- and takes nothing back. -/
theorem moved_advances {r : RepositoryId} {repository : Repository} :
    Advances s (moved s r repository) :=
  ⟨le_rfl, fun h => h, fun _ h => .inr ⟨h, rfl, rfl, rfl⟩⟩

/-! ## Stacks of what comes next -/

/-- Frames that know nothing, and may wait. -/
def Frame.plain : Frame → Bool
  | .raise _ | .closeOwned _ _ | .quiesce _ => true
  | _ => false

/-- Plain frames are in order on any state. -/
theorem stackOk_plain {frames : List Frame} (h : ∀ x ∈ frames, x.plain = true) :
    StackOk g i s frames ∧ ∀ x ∈ frames, x.waits = true ∧ x.outer = false := by
  have hone : ∀ x : Frame, x.plain = true → FrameOk g i s x ∧ x.waits = true ∧ x.outer = false := by
    intro x hx
    cases x with
    | raise | closeOwned | quiesce => exact ⟨trivial, rfl, rfl⟩
    | _ => simp [Frame.plain] at hx
  induction frames with
  | nil => exact ⟨trivial, by simp⟩
  | cons x frames ih =>
    obtain ⟨hst, hall⟩ := ih fun y hy => h y (List.mem_cons_of_mem _ hy)
    obtain ⟨hx, hw, ho⟩ := hone x (h x List.mem_cons_self)
    refine ⟨stackOk_cons hx (fun y hy => (hall y hy).1) (fun ht => by simp [ho] at ht) hst,
      fun y hy => ?_⟩
    rcases List.mem_cons.1 hy with rfl | hy
    · exact ⟨hw, ho⟩
    · exact hall y hy

/-- A frame that knows nothing over such frames. -/
theorem stackOk_over {x : Frame} {frames : List Frame} (hx : FrameOk g i s x) (ho : x.outer = false)
    (h : ∀ y ∈ frames, y.plain = true) : StackOk g i s (x :: frames) ∧
    ∀ y ∈ x :: frames, y.outer = false := by
  obtain ⟨hst, hall⟩ := stackOk_plain (g := g) (i := i) (s := s) h
  refine ⟨stackOk_cons hx (fun y hy => (hall y hy).1) (fun ht => by simp [ho] at ht) hst,
    fun y hy => ?_⟩
  rcases List.mem_cons.1 hy with rfl | hy
  · exact ho
  · exact (hall y hy).2

/-- So is a close that is to be reported, -/
theorem stackOk_closed {e : Throwable} {reports : Bool} : StackOk g i s (Frame.closed e reports) ∧
    ∀ x ∈ Frame.closed e reports, x.outer = false := by
  unfold Frame.closed
  split
  · exact ⟨trivial, by simp⟩
  split
  · exact stackOk_over trivial rfl (by simp [Frame.plain])
  · exact stackOk_over trivial rfl (by simp)

/-- a clean-up, -/
theorem stackOk_cleanUp {engine : Option EngineId} : StackOk g i s (Frame.cleanUp engine) ∧
    ∀ x ∈ Frame.cleanUp engine, x.outer = false := by
  cases engine with
  | none => exact ⟨trivial, by simp [Frame.cleanUp]⟩
  | some e => exact stackOk_over trivial rfl (by simp [Frame.plain])

/-- a replacement that failed, -/
theorem stackOk_replacementFailed {e : Throwable} {frames : List Frame}
    (h : ∀ x ∈ frames, x.plain = true) :
    StackOk g i s (Frame.replacementFailed e frames) ∧ ∀ x ∈ Frame.replacementFailed e frames,
      x.outer = false := by
  have hplain : ∀ x ∈ frames ++ [Frame.raise e], x.plain = true := by
    intro x hx
    rcases List.mem_append.1 hx with hx | hx
    · exact h x hx
    · obtain rfl := List.mem_singleton.1 hx
      rfl
  unfold Frame.replacementFailed
  split
  · exact stackOk_over trivial rfl hplain
  · obtain ⟨hst, hall⟩ := stackOk_plain (g := g) (i := i) (s := s) hplain
    exact ⟨hst, fun x hx => (hall x hx).2⟩

/-- and a start that failed. -/
theorem stackOk_initializeFailed {e : Throwable} {frames : List Frame}
    (h : ∀ x ∈ frames, x.plain = true) :
    StackOk g i s (Frame.initializeFailed e frames) ∧ ∀ x ∈ Frame.initializeFailed e frames,
      x.outer = false := by
  refine stackOk_over (x := .initializationFailed) trivial rfl fun x hx => ?_
  rcases List.mem_append.1 hx with hx | hx
  · exact h x hx
  · split at hx
    · obtain rfl := List.mem_singleton.1 hx
      rfl
    · simp at hx

/-! ## Frames that close a lease -/

variable {c : Choice}

/-- What goes on goes on over calm work. -/
theorem Goes.calm (h : Goes env g i s f rest t frames) (hs : Shared g s) (hc : Calm t u) :
    Goes env g i s f rest u frames := by
  obtain ⟨hadv, hcur, g', hshared, hrely, hst⟩ := h
  exact ⟨hadv.trans hc.advances, fun ht hs => hc.current (hcur ht hs), g', hc.shared hshared,
    fun j hj => (hrely j hj).trans hc.rely hs.leases, hst.rely hshared.leases hc.rely⟩

/-- **A lease is closed in three steps: the close,** -/
theorem goes_close (hst : StackOk g i s (.close l :: rest)) (hs : Shared g s)
    (h : Frame.run env s (.close l) c = some (t, frames)) :
    Goes env g i s (.close l) rest t frames := by
  simp only [Frame.run] at h
  split at h
  · obtain ⟨r, hr, hrt⟩ := Option.map_eq_some_iff.1 h
    obtain ⟨rfl, rfl⟩ := Prod.mk.inj hrt
    have hown : Own g i s l := hst.1
    have hissued := (OperationCoordinator.act_stays hr).1
    exact goes_lease hst hs hr (by simp) (stackOk_one ⟨hown.1.trans_le hissued, hown.2⟩)
      fun _ _ _ => rfl
  · obtain ⟨rfl, rfl⟩ := Prod.mk.inj (Option.some.inj h)
    exact goes_calm hst hs (.refl s) trivial (by simp)

/-- **the removal,** -/
theorem goes_remove (hst : StackOk g i s (.remove l :: rest)) (hs : Shared g s)
    (h : Frame.run env s (.remove l) c = some (t, frames)) :
    Goes env g i s (.remove l) rest t frames := by
  obtain ⟨r, hr, hrt⟩ := Option.map_eq_some_iff.1 h
  obtain ⟨rfl, rfl⟩ := Prod.mk.inj hrt
  have hown : Own g i s l := hst.1
  have hissued := (OperationCoordinator.act_stays hr).1
  refine goes_lease hst hs hr (fun l' hl => ?_) (stackOk_one ⟨hown.1.trans_le hissued, hown.2⟩)
    fun _ _ _ => rfl
  obtain rfl := OperationCoordinator.Act.remove.inj hl
  rfl

/-- **and what follows the release.** -/
theorem goes_afterRelease (hst : StackOk g i s (.afterRelease l :: rest)) (hs : Shared g s)
    (h : Frame.run env s (.afterRelease l) c = some (t, frames)) :
    Goes env g i s (.afterRelease l) rest t frames := by
  obtain ⟨r, hr, h⟩ := Option.bind_eq_some_iff.1 h
  have hcalm := calms_operationCompleted { s with leases := r }
  -- the callback of the lease, after the coordinator dropped it
  have hgoes : ∀ {frames : List Frame}, StackOk g i { s with leases := r } frames →
      (∀ x ∈ frames, x.outer = false) →
      Goes env g i s (.afterRelease l) rest { s with leases := r } frames := by
    intro frames hframes hout
    exact goes_lease hst hs hr (by simp) hframes fun x hx ht => by simp [hout x hx] at ht
  rcases section_ends h with ⟨shuttingDown, ha, rfl⟩ | ⟨e, he, rfl⟩
  · rw [ha] at hcalm
    refine (hgoes ?_ ?_).calm hs hcalm
    · split
      · exact stackOk_one trivial
      · trivial
    · split <;> simp [Frame.outer]
  · rw [he] at hcalm
    exact (hgoes (stackOk_raise e) (by simp [Frame.outer])).calm hs hcalm

/-- `finishSnapshotCapture`, by the holder of the lease. -/
theorem goes_captured {next : Frame} (hst : StackOk g i s (f :: rest)) (hs : Shared g s)
    (hown : Own g i s l)
    (hnext : ∀ t, Own g i t l → FrameOk g i t next) (ho : next.outer = false)
    (h : Frame.section_ s (ofCoordinator (OperationCoordinator.finishSnapshotCapture l)) (fun _ =>
      [next]) = some (t, frames)) : Goes env g i s f rest t frames := by
  have hact : OperationCoordinator.act s.leases (.finishSnapshotCapture l) = some { s.leases with
      coordinator := (OperationCoordinator.finishSnapshotCapture l s.leases.coordinator).2 } :=
        if_pos hown.1
  have hissued := (OperationCoordinator.act_stays hact).1
  rcases section_ends h with ⟨a, ha, rfl⟩ | ⟨e, he, rfl⟩
  · obtain ⟨-, rfl⟩ := Prod.mk.inj ha
    exact goes_lease hst hs hact (by simp) (stackOk_one (hnext _ ⟨hown.1.trans_le hissued, hown.2⟩))
      (by simp [ho])
  · obtain ⟨-, rfl⟩ := Prod.mk.inj he
    exact goes_lease hst hs hact (by simp) (stackOk_raise e) (by simp [Frame.outer])

/-! ## Frames that begin -/

/-- **What follows an admission goes on with the lease.** -/
theorem goes_admitted {request : OperationRequest} {next : LeaseId → Frame}
    (hst : StackOk g i s (f :: rest)) (hs : Shared g s)
    (hout : f.outer = true)
    (hnext : ∀ l, Takes s t l request → FrameOk (g.take l (some i)) i t (next l) ∧
      (next l).outer = false)
    (h : Frame.section_ s (admitOperation request) (fun l => [next l, .close l]) = some (t, frames)) :
    Goes env g i s f rest t frames := by
  refine goes_admit hst hs h (fun l ht => ?_) hout
  obtain ⟨hok, ho⟩ := hnext l ht
  exact stackOk_cons hok (by simp [Frame.waits]) (by simp [ho]) (stackOk_one ht.own)

/-- **A rebuild starts with its lease.** -/
theorem goes_rebuild {change : Change} (hst : StackOk g i s (.rebuild change :: rest))
    (hs : Shared g s)
    (h : Frame.run env s (.rebuild change) c = some (t, frames)) :
    Goes env g i s (.rebuild change) rest t frames := by
  rcases section_ends h with ⟨l, ha, rfl⟩ | ⟨e, he, rfl⟩
  · rcases admitReloading_ends ha with ⟨l', u, hl, ht, hready, rfl⟩ | ⟨e, he, -⟩
    swap
    · simp at he
    obtain rfl := Except.ok.inj hl
    have hshared : Shared (g.take l (some i)) u := ht.shared hs (some i)
    have hu : u.lifecycle = .READY := by
      obtain ⟨-, -, rfl⟩ := ht
      exact hready
    have hrely : ∀ j, Rely g (g.take l (some i)) j s (reloading u) := fun j =>
      (ht.rely (some i)).trans (rely_of_same rfl rfl (fun _ => .refl _)
        (Int.le_of_lt (Int.lt_succ _))) hs.leases
    have hexclusive : Exclusive (g.take l (some i)) i (reloading u) l := by
      have hx := ht.exclusive (g := g) (i := i) rfl
      exact ⟨hx.holder, hx.active, hx.category⟩
    have hown : Own (g.take l (some i)) i (reloading u) l := ht.own
    have hepoch : s.publicationEpoch < (reloading u).publicationEpoch := by
      obtain ⟨-, -, rfl⟩ := ht
      exact Int.lt_succ _
    refine goes hst hs ⟨hshared.leases, hshared.jobs, fun _ =>
      hshared.published (.inl hu), hshared.unstarted, hshared.queued,
      hshared.unloaded⟩ (fun j _ => hrely j) (hrely i).toLeased ?_ (by simp [Frame.outer]) ?_ ?_
    · refine stackOk_cons hexclusive (by simp [Frame.waits]) (by simp [Frame.outer]) ?_
      exact stackOk_cons hexclusive (by simp [Frame.waits]) (by simp [Frame.outer]) (stackOk_one hown)
    · exact advances_of_lt hepoch fun hd => by simp [Down, hready] at hd
    · intro _ _ k hk
      simp [reloading] at hk
  · rcases admitReloading_ends he with ⟨l', u, hl, -⟩ | ⟨e', -, rfl⟩
    · simp at hl
    · exact goes_calm hst hs (.refl _) (stackOk_raise e) (by simp [Frame.outer])

/-- **A request to shut down is a step of the lifecycle.** -/
theorem goes_requestShutdown {policy : ShutdownPolicy}
    (hst : StackOk g i s (.requestShutdown policy :: rest)) (hs : Shared g s)
    (h : Frame.run env s (.requestShutdown policy) c = some (t, frames)) :
    Goes env g i s (.requestShutdown policy) rest t frames := by
  have htail : ∀ {g : Ghost} {u : Runtime} {registry : Bool},
    StackOk g i u [.accept, .reserved registry] := fun {g u registry} =>
    stackOk_cons trivial (by simp [Frame.waits]) (by simp [Frame.outer]) (stackOk_one trivial)
  rcases section_ends h with ⟨a, ha, rfl⟩ | ⟨e, he, rfl⟩
  · rcases reserve_ends ha with ⟨e, he, -⟩ | ⟨e, registry, hok, hc⟩ | ⟨registry, hok, hc⟩ |
      ⟨l, registry, v, hok, hc, ht⟩
    · simp at he
    · obtain rfl := Except.ok.inj hok
      refine goes_calm hst hs hc ?_ (by simp [Frame.outer])
      exact stackOk_cons trivial (by simp [Frame.waits]) (by simp [Frame.outer])
        (stackOk_one trivial)
    · obtain rfl := Except.ok.inj hok
      refine goes_calm hst hs hc ?_ (by simp [Frame.outer])
      have hnone : FrameOk g i t (.inspect policy none) := fun l hl => by simp at hl
      exact stackOk_cons hnone (by simp [Frame.waits]) (by simp [Frame.outer]) htail
    · obtain rfl := Except.ok.inj hok
      have hrely : ∀ j, Rely g (g.take l (some i)) j s t := fun j =>
        hc.rely.trans (ht.rely (some i)) hs.leases
      have hx : Exclusive (g.take l (some i)) i t l := ht.exclusive rfl
      have hsave : FrameOk (g.take l (some i)) i t (.inspect policy (some l)) := by
        intro l' hl'
        obtain rfl := Option.some.inj hl'
        exact hx
      refine goes hst hs (ht.shared (hc.shared hs) (some i)) (fun j _ => hrely j)
        (hrely i).toLeased ?_ (by simp [Frame.outer])
        (hc.advances.trans ht.advances) fun _ hcur => ht.current (hc.current hcur)
      refine stackOk_cons hsave (by simp [Frame.waits]) (by simp [Frame.outer]) ?_
      exact stackOk_cons ht.own (by simp [Frame.waits]) (by simp [Frame.rebuilds]) htail
  · rcases reserve_ends he with ⟨e', -, rfl⟩ | ⟨e', registry, hok, -⟩ | ⟨registry, hok, -⟩ |
      ⟨l, registry, v, hok, -⟩
    · exact goes_calm hst hs (.refl _) (stackOk_raise e) (by simp [Frame.outer])
    all_goals simp at hok

/-! ## Frames that stage -/

/-- An exclusive lease is an own one. -/
theorem Exclusive.own (h : Exclusive g i s l) (hs : OperationCoordinator.Inv s.leases) :
    Own g i s l := by
  refine ⟨hs.issued l h.active, fun j hj => ?_⟩
  rw [h.holder] at hj
  exact (Option.some.inj hj).symm

/-- **An edit looks at the project it works on,** -/
theorem goes_editing (hst : StackOk g i s (.editing l :: rest)) (hs : Shared g s)
    (h : Frame.run env s (.editing l) c = some (t, frames)) :
    Goes env g i s (.editing l) rest t frames := by
  simp only [Frame.run] at h
  cases hrep : s.repository with
  | none =>
    rw [hrep] at h
    obtain ⟨rfl, rfl⟩ := Prod.mk.inj (Option.some.inj h)
    exact goes_calm hst hs (.refl s) (stackOk_raise _) (by simp [Frame.outer])
  | some current =>
    rw [hrep] at h
    refine goes_section hst hs calms_snapshot h fun before hb _ => ⟨?_, by simp [Frame.outer]⟩
    obtain ⟨rfl, hrev⟩ := snapshot_ends hb
    exact stackOk_one ⟨⟨hst.1, hrep⟩, (hrev before rfl).2⟩

/-- **runs the caller's operation,** -/
theorem goes_operation {current : RepositoryId} {engine : Option EngineId}
    {before : ProjectSnapshot}
    (hst : StackOk g i s (.operation l current engine before :: rest)) (hs : Shared g s)
    (h : Frame.run env s (.operation l current engine before) c = some (t, frames)) :
    Goes env g i s (.operation l current engine before) rest t frames := by
  obtain ⟨hw, hrev⟩ : FrameOk g i s (.operation l current engine before) := hst.1
  cases c with
  | returns =>
    obtain ⟨rfl, rfl⟩ := Prod.mk.inj (Option.some.inj h)
    exact goes_calm hst hs (.refl s) trivial (by simp)
  | throws e =>
    obtain ⟨rfl, rfl⟩ := Prod.mk.inj (Option.some.inj h)
    exact goes_calm hst hs (.refl s) (stackOk_raise e) (by simp [Frame.outer])
  | commits edited =>
    obtain ⟨rfl, rfl⟩ := Prod.mk.inj (Option.some.inj h)
    refine goes_calm hst hs (.refl s) ?_ (by simp [Frame.outer])
    exact stackOk_cons ⟨hw, hrev⟩ (by simp [Frame.waits]) (by simp [Frame.outer])
      (stackOk_one (hw.toExclusive.own hs.leases))
  | captured | loads | opens => simp [Frame.run] at h

/-- What is staged is staged from the content as it is. -/
theorem goes_staged {α : Type} {current : RepositoryId} {m : NativeProjectRepository.Section α}
    {done : α → List Frame}
    (hst : StackOk g i s (f :: rest)) (hs : Shared g s) (hm : ∀ s, Untouched s (m s).2)
    (h : Frame.section_ s (ofRepository current m) done = some (t, frames))
    (hdone : ∀ a r, m (s.heap current) = (.ok a, r) → StackOk g i s (done a) ∧
      ∀ x ∈ done a, x.outer = false) : Goes env g i s f rest t frames := by
  refine goes_section hst hs (calms_ofRepository fun s => (hm s).same) h fun a ha hc => ?_
  rcases hr : m (s.heap current) with ⟨x, r⟩
  have hx : x = .ok a := by
    have hfst := (Prod.mk.inj ha).1
    rw [hr] at hfst
    exact hfst
  rw [hx] at hr
  obtain ⟨hstack, hout⟩ := hdone a r hr
  exact ⟨hstack.rely hs.leases hc.rely, fun x hx ht => by simp [hout x hx] at ht⟩

/-- **stages what it edited,** -/
theorem goes_stageEdit {current : RepositoryId} {engine : Option EngineId}
    {before : ProjectSnapshot} {edited : CodeData}
    (hst : StackOk g i s (.stageEdit l current engine before edited :: rest)) (hs : Shared g s)
    (h : Frame.run env s (.stageEdit l current engine before edited) c = some (t, frames)) :
    Goes env g i s (.stageEdit l current engine before edited) rest t frames := by
  obtain ⟨hw, hrev⟩ : FrameOk g i s (.stageEdit l current engine before edited) := hst.1
  refine goes_staged hst hs (fun _ => NativeProjectRepository.stageCodeData_untouched _ _) h
    fun candidate r _ => ?_
  by_cases heff : candidate.effective = true
  · rw [if_pos heff]
    exact ⟨stackOk_one ⟨hw, hrev, heff⟩, by simp [Frame.outer]⟩
  · rw [if_neg heff]
    exact ⟨trivial, by simp⟩

/-- **and prepares the engine's arguments.** -/
theorem goes_editArguments {current : RepositoryId} {engine : Option EngineId}
    {before : ProjectSnapshot} {candidate : CodeDataCandidate}
    (hst : StackOk g i s (.editArguments l current engine before candidate :: rest))
    (hs : Shared g s)
    (h : Frame.run env s (.editArguments l current engine before candidate) c = some (t, frames)) :
    Goes env g i s (.editArguments l current engine before candidate) rest t frames := by
  obtain ⟨hw, hrev, heff⟩ : FrameOk g i s (.editArguments l current engine before candidate) :=
    hst.1
  obtain ⟨rfl, rfl⟩ := Prod.mk.inj (Option.some.inj h)
  refine goes_calm hst hs (.refl s) (stackOk_one ⟨hw, trivial, ?_, .inl rfl⟩)
    (by simp [Frame.outer])
  have hstep : NativeProjectRepository.commitStep (s.heap current) (.codeData candidate) = 1 :=
    if_pos heff
  show before.revisions.logicalRevision + 1 = _
  rw [hrev, hstep]

/-- **A rebuild stages its change,** -/
theorem goes_stageRebuild {change : Change} (hst : StackOk g i s (.stageRebuild l change :: rest))
    (hs : Shared g s)
    (h : Frame.run env s (.stageRebuild l change) c = some (t, frames)) :
    Goes env g i s (.stageRebuild l change) rest t frames := by
  simp only [Frame.run] at h
  cases hrep : s.repository with
  | none =>
    rw [hrep] at h
    obtain ⟨rfl, rfl⟩ := Prod.mk.inj (Option.some.inj h)
    exact goes_calm hst hs (.refl s) (stackOk_raise _) (by simp [Frame.outer])
  | some current =>
    rw [hrep] at h
    have hw : Works g i s l current := ⟨hst.1, hrep⟩
    cases change with
    | reload discardUnsaved sid rev =>
      have hkeeps : ∀ s, Untouched s (NativeProjectRepository.prepareReload (env.disk current)
          discardUnsaved sid rev s).2 :=
        fun s => NativeProjectRepository.Keeps.untouched (NativeProjectRepository.keeps_prepareReload
          NativeProjectRepository.stable_untouched)
      refine goes_staged hst hs hkeeps h fun candidate r hr =>
        ⟨stackOk_one ⟨hw, trivial, ?_, .inr rfl⟩, by simp [Frame.outer]⟩
      show rev + 1 = (s.heap current).logicalRevision + 1
      rw [NativeProjectRepository.prepareReload_ok hr]
    | mappings mappings sid rev =>
      have hkeeps : ∀ s, Untouched s (NativeProjectRepository.stageMappingsPath (env.disk current)
          mappings sid rev s).2 :=
        fun s => NativeProjectRepository.Keeps.untouched (NativeProjectRepository.keeps_stageMappingsPath
          NativeProjectRepository.stable_untouched)
      refine goes_staged hst hs hkeeps h fun candidate r hr =>
        ⟨stackOk_one ⟨hw, ?_, ?_⟩, by simp [Frame.outer]⟩
      · exact (NativeProjectRepository.stageMappingsPath_ok hr).2.2
      · exact (NativeProjectRepository.stageMappingsPath_ok hr).1

/-- **measures what it will commit,** -/
theorem goes_measure {current : RepositoryId} {old : Option EngineId}
    {candidate : MappingCandidate} {rev : ℤ}
    (hst : StackOk g i s (.measure l current old candidate rev :: rest)) (hs : Shared g s)
    (h : Frame.run env s (.measure l current old candidate rev) c = some (t, frames)) :
    Goes env g i s (.measure l current old candidate rev) rest t frames := by
  obtain ⟨hw, hsound, hrev⟩ : FrameOk g i s (.measure l current old candidate rev) := hst.1
  obtain ⟨rfl, rfl⟩ := Prod.mk.inj (Option.some.inj h)
  refine goes_calm hst hs (.refl s) (stackOk_one ⟨hw, hsound, ?_, .inr rfl⟩) (by simp [Frame.outer])
  show rev + _ = _
  rw [hrev]
  rfl

/-! ## Frames that publish -/

/-- **creates an engine,** -/
theorem goes_create {p : Replacement} (hst : StackOk g i s (.create p :: rest)) (hs : Shared g s)
    (h : Frame.run env s (.create p) c = some (t, frames)) :
    Goes env g i s (.create p) rest t frames := by
  have hc : Calm s (create p.args s) := calm_create p.args s
  cases c with
  | returns =>
    obtain ⟨rfl, rfl⟩ := Prod.mk.inj (Option.some.inj h)
    have hknown : FrameOk g i (create p.args s) (.create p) := hst.1.rely hs.leases hc.rely
    exact goes_calm hst hs hc (stackOk_one hknown) (by simp [Frame.outer])
  | throws e =>
    obtain ⟨rfl, rfl⟩ := Prod.mk.inj (Option.some.inj h)
    obtain ⟨hstack, hout⟩ : StackOk g i s (Frame.replacementFailed e []) ∧
        ∀ x ∈ Frame.replacementFailed e [], x.outer = false := stackOk_replacementFailed (by simp)
    exact goes_calm hst hs (.refl s) hstack fun x hx ht => by simp [hout x hx] at ht
  | captured | commits | loads | opens => simp [Frame.run] at h

/-- **and loads it.** -/
theorem goes_load {p : Replacement} {e : EngineId} (hst : StackOk g i s (.load p e :: rest))
    (hs : Shared g s)
    (h : Frame.run env s (.load p e) c = some (t, frames)) :
    Goes env g i s (.load p e) rest t frames := by
  have hfailed : ∀ {failure : Throwable} {u : Runtime}, Calm s u →
      Goes env g i s (.load p e) rest u (Frame.replacementFailed failure [.closeOwned e true]) := by
    intro failure u hc
    obtain ⟨hstack, hout⟩ : StackOk g i u (Frame.replacementFailed failure [.closeOwned e true]) ∧
        ∀ x ∈ Frame.replacementFailed failure [.closeOwned e true], x.outer = false :=
      stackOk_replacementFailed (by simp [Frame.plain])
    exact goes_calm hst hs hc hstack fun x hx ht => by simp [hout x hx] at ht
  cases c with
  | loads args =>
    have hc : Calm s (loaded e args s) := calm_loaded e args s
    simp only [Frame.run] at h
    split at h
    · obtain ⟨rfl, rfl⟩ := Prod.mk.inj (Option.some.inj h)
      have hknown : FrameOk g i (loaded e args s) (.load p e) := hst.1.rely hs.leases hc.rely
      exact goes_calm hst hs hc (stackOk_one hknown) (by simp [Frame.outer])
    · obtain ⟨rfl, rfl⟩ := Prod.mk.inj (Option.some.inj h)
      exact hfailed hc
  | throws failure =>
    obtain ⟨rfl, rfl⟩ := Prod.mk.inj (Option.some.inj h)
    exact hfailed (.refl s)
  | returns | captured | commits | opens => simp [Frame.run] at h

/-- A publication keeps the shared invariant, -/
theorem published_shared {p : Replacement} {e : EngineId} {repository : Repository}
    (hs : Shared g s)
    (hrep : s.repository = some p.current)
    (h : At (s.heap p.current).sessionId p.resultingRevision repository) :
    Shared g (published env s p e repository) := by
  refine ⟨hs.leases, hs.jobs, fun _ r hr => ?_, hs.unstarted, hs.queued, hs.unloaded⟩
  obtain rfl : p.current = r := Option.some.inj (hrep.symm.trans hr)
  obtain ⟨hsid, hrev⟩ := moved_at (s := s) h
  show Admission.mk _ _ = ⟨((moved s p.current repository).heap p.current).sessionId,
    ((moved s p.current repository).heap p.current).logicalRevision⟩
  rw [hsid, hrev]

/-- and keeps the runtime current. -/
theorem published_current {p : Replacement} {e : EngineId} {repository : Repository}
    (hrep : s.repository = some p.current)
    (h : At (s.heap p.current).sessionId p.resultingRevision repository) :
    Current env (published env s p e repository) := by
  intro k hk
  obtain rfl := Option.some.inj hk
  obtain ⟨hsid, hrev⟩ := moved_at (s := s) h
  refine ⟨rfl, p.current, hrep, ?_⟩
  show _ = SearchIndexKey.mk ((moved s p.current repository).heap p.current).sessionId
    ((moved s p.current repository).heap p.current).logicalRevision _ _
  rw [hsid, hrev]
  rfl

/-- **What was measured is published.** -/
theorem goes_publish {p : Replacement} {e : EngineId} (hst : StackOk g i s (.publish p e :: rest))
    (hs : Shared g s)
    (h : Frame.run env s (.publish p e) c = some (t, frames)) :
    Goes env g i s (.publish p e) rest t frames := by
  obtain ⟨hw, hm⟩ : FrameOk g i s (.publish p e) := hst.1
  simp only [Frame.run] at h
  rcases hp : publishReplacement env p e c.fatal s with ⟨o, u⟩
  rw [hp] at h
  rcases publishReplacement_ends hm hp with ⟨x, repository, rfl, hat, rfl⟩ |
    ⟨v, repository, rfl, hat, hrep, hexpected, rfl⟩
  · -- the content may have changed, but not the revision
    obtain ⟨rfl, rfl⟩ := Prod.mk.inj (Option.some.inj h)
    obtain ⟨hstack, hout⟩ : StackOk g i (moved s p.current repository)
        (Frame.replacementFailed x [.closeOwned e true]) ∧
        ∀ y ∈ Frame.replacementFailed x [.closeOwned e true], y.outer = false :=
      stackOk_replacementFailed (by simp [Frame.plain])
    exact goes hst hs (moved_shared hs hat)
      (fun j hj => rely_of_exclusive hw.toExclusive hs hj rfl rfl le_rfl fun _ r =>
        moved_revisions hat r)
      (leased_of_eq rfl rfl) hstack (fun x hx ht => by simp [hout x hx] at ht) moved_advances
        fun _ hc => moved_current hc hat
  · obtain ⟨rfl, rfl⟩ := Prod.mk.inj (Option.some.inj h)
    have hepoch : s.publicationEpoch < s.publicationEpoch + 1 := Int.lt_succ _
    refine goes hst hs (published_shared hs hrep hat)
      (fun j hj => rely_of_exclusive hw.toExclusive hs hj rfl rfl hepoch.le fun he =>
        absurd he hepoch.ne')
      (leased_of_eq rfl rfl) ?_ ?_ (advances_of_lt hepoch fun hd => ?_) fun _ _ =>
        published_current hrep hat
    · split
      · exact stackOk_raise _
      · exact stackOk_one trivial
    · split <;> simp [Frame.outer]
    · rcases hm.lifecycle with hl | hl <;> simp [Down, hexpected, hl] at hd

/-- `publishedAdmission = admission(current.snapshot())`. -/
def admitted (env : RuntimeEnv) (s : Runtime) (r : RepositoryId) : Runtime :=
  { s with
    publishedSearchIdentity := some (current env s r)
    publishedAdmission := ⟨(s.heap r).sessionId, (s.heap r).logicalRevision⟩ }

/-- An admission of the project's own revisions is published. -/
theorem publishAdmission_run {r : RepositoryId} {p : ProjectSnapshot}
    (hsid : p.revisions.sessionId = (s.heap r).sessionId)
    (hrev : p.revisions.logicalRevision = (s.heap r).logicalRevision) :
    publishAdmission env p s = (.ok (), admitted env s r) := by
  unfold admitted current
  rw [← hsid, ← hrev]
  rfl

/-- It keeps the shared invariant, -/
theorem admitted_shared {r : RepositoryId} (hs : Shared g s) (hr : s.repository = some r) :
    Shared g (admitted env s r) := by
  refine ⟨hs.leases, hs.jobs, fun _ r' hr' => ?_, hs.unstarted, hs.queued, hs.unloaded⟩
  obtain rfl : r = r' := Option.some.inj (hr.symm.trans hr')
  rfl

/-- and keeps the runtime current. -/
theorem admitted_current {r : RepositoryId} (hready : s.lifecycle = .READY)
    (hr : s.repository = some r) : Current env (admitted env s r) := by
  intro k hk
  obtain rfl := Option.some.inj hk
  exact ⟨hready, r, hr, rfl⟩

/-- An identity is there only when the project is ready. -/
theorem Current.none (h : Current env s) (hl : s.lifecycle ≠ .READY) :
    s.publishedSearchIdentity = none := by
  cases hk : s.publishedSearchIdentity with
  | none => rfl
  | some k => exact absurd (h k hk).1 hl

/-- `lifecycle = READY`. -/
def ready (s : Runtime) : Runtime := { s with lifecycle := .READY }

/-- A rebuild that failed leaves the runtime as it was, or ready again. -/
theorem rebuildFailed_ends {failure : Option Throwable} {o : Except Throwable Unit}
    (h : rebuildFailed env failure s = (o, t)) :
    t = s ∨ s.lifecycle = .RELOADING ∧ (t = ready s ∨ ∃ r, s.repository = some r ∧
      t = admitted env (ready s) r) := by
  unfold rebuildFailed at h
  rw [bind_get, ite_run] at h
  split at h
  swap
  · exact .inl (Prod.mk.inj h).2.symm
  rename_i hlife
  refine .inr ⟨hlife, ?_⟩
  cases hrep : s.repository with
  | none =>
    rw [hrep] at h
    exact .inl (Prod.mk.inj h).2.symm
  | some r =>
    rw [hrep] at h
    change (snapshotOf r failure >>= publishAdmission env) (ready s) = (o, t) at h
    rcases hsn : snapshotOf r failure (ready s) with ⟨e | p, u⟩
    · have hu := (snapshotOf_ends hsn).1
      rw [bind_error hsn] at h
      exact .inl ((Prod.mk.inj h).2.symm.trans hu)
    · obtain ⟨hu, hp⟩ := snapshotOf_ends hsn
      obtain ⟨hsid, hrev⟩ := hp p rfl
      rw [bind_ok hsn, hu, publishAdmission_run hsid hrev] at h
      exact .inr ⟨r, rfl, (Prod.mk.inj h).2.symm⟩

/-- **So a failed rebuild goes on.** -/
theorem goes_rebuildFailed (hst : StackOk g i s (.rebuildFailed l :: rest)) (hs : Shared g s)
    (h : Frame.run env s (.rebuildFailed l) c = some (t, frames)) :
    Goes env g i s (.rebuildFailed l) rest t frames := by
  obtain ⟨o, ho⟩ : ∃ o, rebuildFailed env c.fatal s = (o, t) := by
    rcases section_ends h with ⟨a, ha, -⟩ | ⟨e, he, -⟩
    · exact ⟨_, ha⟩
    · exact ⟨_, he⟩
  have hframes : ∀ u, StackOk g i u frames ∧ ∀ x ∈ frames, x.outer = true →
      (Frame.rebuildFailed l).outer = true := by
    intro u
    rcases section_ends h with ⟨a, -, rfl⟩ | ⟨e, -, rfl⟩
    · exact ⟨trivial, by simp⟩
    · exact ⟨stackOk_raise e, by simp [Frame.outer]⟩
  -- the revision that was published last is published again
  have hback : s.lifecycle = .RELOADING → Shared g (ready s) := fun hlife =>
    ⟨hs.leases, hs.jobs, fun _ => hs.published (.inr hlife), hs.unstarted, hs.queued, hs.unloaded⟩
  rcases rebuildFailed_ends ho with rfl | ⟨hlife, rfl | ⟨r, hr, rfl⟩⟩
  · exact goes_calm hst hs (.refl _) (hframes _).1 (hframes t).2
  · refine goes hst hs (hback hlife) (fun j _ => rely_of_same rfl rfl (fun _ => .refl _) le_rfl)
      (leased_of_eq rfl rfl)
      (hframes _).1 (hframes s).2 ⟨le_rfl, fun hd => ?_, fun _ hready => ?_⟩ fun _ hc => ?_
    · simp [Down, hlife] at hd
    · simp [hlife] at hready
    · intro k hk
      rw [show (ready s).publishedSearchIdentity = none from hc.none (by simp [hlife])] at hk
      simp at hk
  · refine goes hst hs (admitted_shared (hback hlife) hr) (fun j _ =>
      rely_of_same rfl rfl (fun _ => .refl _) le_rfl)
      (leased_of_eq rfl rfl) (hframes _).1 (hframes s).2 ⟨le_rfl, fun hd => ?_, fun _ hready => ?_⟩
        fun _ _ => admitted_current rfl hr
    · simp [Down, hlife] at hd
    · simp [hlife] at hready

/-- **A save keeps its revision,** -/
theorem goes_saving {target : Option Path} {sid : JString} {rev : Option ℤ}
    (hst : StackOk g i s (.saving l target sid rev :: rest))
    (hs : Shared g s) (h : Frame.run env s (.saving l target sid rev) c = some (t, frames)) :
    Goes env g i s (.saving l target sid rev) rest t frames := by
  have hx : Exclusive g i s l := hst.1
  simp only [Frame.run] at h
  cases hrep : s.repository with
  | none =>
    rw [hrep] at h
    obtain ⟨rfl, rfl⟩ := Prod.mk.inj (Option.some.inj h)
    exact goes_calm hst hs (.refl s) (stackOk_raise _) (by simp [Frame.outer])
  | some current =>
    rw [hrep] at h
    dsimp only at h
    obtain ⟨hat, hreceipt⟩ := NativeProjectRepository.save_revised (env.disk current)
      (s.heap current) target sid rev
    rcases hr : NativeProjectRepository.save (env.disk current) target sid rev
      (s.heap current) with ⟨o, repository⟩
    rw [hr] at hat hreceipt
    have hrun : ofRepository current (NativeProjectRepository.save (env.disk current) target sid rev) s =
        (o, moved s current repository) := by
      unfold ofRepository
      rw [hr]
      rfl
    have hgoes : ∀ {frames : List Frame}, StackOk g i (moved s current repository) frames →
        (∀ x ∈ frames, x.outer = false) →
        Goes env g i s (.saving l target sid rev) rest (moved s current repository) frames := by
      intro frames hframes hout
      exact goes hst hs (moved_shared hs hat)
        (fun j hj => rely_of_exclusive hx hs hj rfl rfl le_rfl fun _ r => moved_revisions hat r)
        (leased_of_eq rfl rfl) hframes (fun x hx ht => by simp [hout x hx] at ht) moved_advances
          fun _ hc => moved_current hc hat
    rcases section_ends h with ⟨saved, ha, rfl⟩ | ⟨e, he, rfl⟩
    · obtain ⟨rfl, rfl⟩ := Prod.mk.inj (hrun.symm.trans ha)
      obtain ⟨hsid, hrev⟩ := hreceipt saved rfl
      obtain ⟨hsid', hrev'⟩ := moved_at (s := s) hat
      have hw : Works g i (moved s current repository) l current :=
        ⟨⟨hx.holder, hx.active, hx.category⟩, hrep⟩
      exact hgoes (stackOk_one ⟨hw, hsid.trans hsid'.symm, hrev.trans hrev'.symm⟩)
        (by simp [Frame.outer])
    · obtain ⟨rfl, rfl⟩ := Prod.mk.inj (hrun.symm.trans he)
      exact hgoes (stackOk_raise e) (by simp [Frame.outer])

/-- **and publishes it.** -/
theorem goes_publishSaved {current : RepositoryId} {saved : ProjectSnapshot}
    (hst : StackOk g i s (.publishSaved l current saved :: rest)) (hs : Shared g s)
    (h : Frame.run env s (.publishSaved l current saved) c = some (t, frames)) :
    Goes env g i s (.publishSaved l current saved) rest t frames := by
  obtain ⟨hw, hsid, hrev⟩ : FrameOk g i s (.publishSaved l current saved) := hst.1
  let v : Runtime := { s with publicationEpoch := s.publicationEpoch + 1 }
  have hv : Shared g v := ⟨hs.leases, hs.jobs, hs.published, hs.unstarted, hs.queued, hs.unloaded⟩
  have hrun : publishSaved env saved s = (.ok (), admitted env v current) := by
    unfold publishSaved
    rw [bind_modify]
    exact publishAdmission_run (s := v) hsid hrev
  have hlt : s.publicationEpoch < s.publicationEpoch + 1 := Int.lt_succ _
  simp only [Frame.run] at h
  rcases section_ends h with ⟨a, ha, rfl⟩ | ⟨e, he, rfl⟩
  · obtain ⟨-, rfl⟩ := Prod.mk.inj (hrun.symm.trans ha)
    refine goes hst hs (admitted_shared hv hw.current) (fun j _ =>
      rely_of_same rfl rfl (fun _ => .refl _) hlt.le)
      (leased_of_eq rfl rfl) trivial (by simp) (advances_of_lt hlt fun hd => hd) fun ht _ => ?_
    exact admitted_current (ht l current saved rfl) hw.current
  · exact absurd (Prod.mk.inj (hrun.symm.trans he)).1 (by simp)

/-- **An inspection for the shutdown goes on.** -/
theorem goes_inspect {policy : ShutdownPolicy} {lease : Option LeaseId}
    (hst : StackOk g i s (.inspect policy lease :: rest))
    (hs : Shared g s) (h : Frame.run env s (.inspect policy lease) c = some (t, frames)) :
    Goes env g i s (.inspect policy lease) rest t frames := by
  have hlease : FrameOk g i s (.inspect policy lease) := hst.1
  simp only [Frame.run] at h
  cases hrep : s.repository with
  | none =>
    rw [hrep] at h
    obtain ⟨rfl, rfl⟩ := Prod.mk.inj (Option.some.inj h)
    exact goes_calm hst hs (.refl s) (stackOk_raise _) (by simp [Frame.outer])
  | some current =>
    rw [hrep] at h
    refine goes_section hst hs calms_snapshot h fun snapshot ha _ => ?_
    obtain ⟨rfl, -⟩ := snapshot_ends ha
    split
    · exact ⟨stackOk_raise _, by simp [Frame.outer]⟩
    cases lease with
    | none => exact ⟨trivial, by simp⟩
    | some l =>
      dsimp only
      split
      · exact ⟨stackOk_raise _, by simp [Frame.outer]⟩
      · exact ⟨stackOk_one (hlease l rfl), by simp [Frame.outer]⟩

/-! ## Frames of the initialisation -/

/-- An initialization is started once, or nothing changes. -/
theorem initializeAsync_ends {accepted : Bool} {o : Except Throwable Unit}
    (h : initializeAsync accepted s = (o, t)) : t = s ∨
    s.initializationStarted = false ∧
      (s.lifecycle ≠ .LOADING ∧ t = { s with initializationStarted := true } ∨
      s.lifecycle = .LOADING ∧ (t = { s with initializationStarted := true, initializationTask := some .QUEUED } ∨
        t = { s with
          initializationStarted := true
          initializationTask := some .FINISHED
          lifecycle := .FAILED })) := by
  unfold initializeAsync at h
  rw [bind_get, ite_run] at h
  split at h
  · exact .inl (Prod.mk.inj h).2.symm
  rename_i hstarted
  refine .inr ⟨by simpa using hstarted, ?_⟩
  rw [bind_modify, ite_run] at h
  split at h
  · rename_i hloading
    exact .inl ⟨hloading, (Prod.mk.inj h).2.symm⟩
  · rename_i hloading
    refine .inr ⟨by simpa using hloading, ?_⟩
    rw [ite_run] at h
    split at h
    · exact .inl (Prod.mk.inj h).2.symm
    · exact .inr (Prod.mk.inj h).2.symm

/-- **So a start goes on,** -/
theorem goes_initializeAsync (hst : StackOk g i s (.initializeAsync :: rest)) (hs : Shared g s)
    (h : Frame.run env s .initializeAsync c = some (t, frames)) :
    Goes env g i s .initializeAsync rest t frames := by
  obtain ⟨accepted, h⟩ : ∃ accepted, Frame.section_ s (initializeAsync accepted) (fun _ =>
    []) = some (t, frames) := ⟨_, h⟩
  have hframes : ∀ u, StackOk g i u frames ∧ ∀ x ∈ frames, x.outer = true →
      Frame.initializeAsync.outer = true := by
    intro u
    rcases section_ends h with ⟨a, -, rfl⟩ | ⟨e, -, rfl⟩
    · exact ⟨trivial, by simp⟩
    · exact ⟨stackOk_raise e, by simp [Frame.outer]⟩
  obtain ⟨o, ho⟩ : ∃ o, initializeAsync accepted s = (o, t) := by
    rcases section_ends h with ⟨a, ha, -⟩ | ⟨e, he, -⟩
    · exact ⟨_, ha⟩
    · exact ⟨_, he⟩
  rcases initializeAsync_ends ho with rfl | ⟨hstarted, ⟨-, rfl⟩ | ⟨hloading, rfl | rfl⟩⟩
  · exact goes_calm hst hs (.refl _) (hframes _).1 (hframes t).2
  · refine goes hst hs ⟨hs.leases, hs.jobs,
      hs.published, by simp, fun hq => ⟨(hs.queued hq).1, rfl⟩, hs.unloaded⟩
      (fun j _ => rely_of_same rfl rfl (fun _ => .refl _) le_rfl) (leased_of_eq rfl rfl)
        (hframes _).1 (hframes s).2
      ⟨le_rfl, fun hd => hd, fun _ hr => .inr ⟨hr, rfl, rfl, rfl⟩⟩ fun _ hc => hc
  · refine goes hst hs ⟨hs.leases, hs.jobs,
      hs.published, by simp, fun _ => ⟨hs.unstarted hstarted, rfl⟩, hs.unloaded⟩
      (fun j _ => rely_of_same rfl rfl (fun _ => .refl _) le_rfl) (leased_of_eq rfl rfl) (hframes _).1
      (hframes s).2
      ⟨le_rfl, fun hd => hd, fun _ hr => .inr ⟨hr, rfl, rfl, rfl⟩⟩ fun _ hc => hc
  · refine goes hst hs ⟨hs.leases, hs.jobs, fun hl => ?_, by simp, by simp, hs.unloaded⟩
      (fun j _ => rely_of_same rfl rfl (fun _ => .refl _) le_rfl) (leased_of_eq rfl rfl) (hframes _).1
      (hframes s).2
      ⟨le_rfl, fun _ => .inl rfl, fun _ _ => .inl (.inl rfl)⟩ fun _ hc k hk => ?_
    · simp [Live] at hl
    · have hnone := hc.none (by simp [hloading])
      have hk' : k ∈ s.publishedSearchIdentity := hk
      simp [hnone] at hk'

/-- **and so does the task behind it.** -/
theorem goes_runTask (hst : StackOk g i s (.runTask :: rest)) (hs : Shared g s)
    (h : Frame.run env s .runTask c = some (t, frames)) :
    Goes env g i s .runTask rest t frames := by
  simp only [Frame.run] at h
  by_cases hq : s.initializationTask = some .QUEUED
  swap
  · have hrun : ProjectRuntime.runTask s = (.ok false, s) := by
      unfold ProjectRuntime.runTask
      rw [bind_get, ite_run, if_pos hq]
      rfl
    rcases section_ends h with ⟨a, ha, rfl⟩ | ⟨e, he, rfl⟩
    · obtain ⟨hgoes, rfl⟩ := Prod.mk.inj (hrun.symm.trans ha)
      obtain rfl := Except.ok.inj hgoes
      exact goes_calm hst hs (.refl _) trivial (by simp)
    · exact absurd (Prod.mk.inj (hrun.symm.trans he)).1 (by simp)
  have hrun : ProjectRuntime.runTask s = (.ok true, { s with initializationTask := some .RUNNING }) := by
    unfold ProjectRuntime.runTask
    rw [bind_get, ite_run, if_neg (by simp [hq])]
    rfl
  rcases section_ends h with ⟨a, ha, rfl⟩ | ⟨e, he, rfl⟩
  swap
  · exact absurd (Prod.mk.inj (hrun.symm.trans he)).1 (by simp)
  obtain ⟨hgoes, rfl⟩ := Prod.mk.inj (hrun.symm.trans ha)
  obtain rfl := Except.ok.inj hgoes
  obtain ⟨hloader, hstarted⟩ := hs.queued hq
  -- the thread is the loader from now on
  let g' : Ghost := { g with loader := some i }
  have hshared : Shared g' { s with initializationTask := some .RUNNING } :=
    ⟨hs.leases, hs.jobs, hs.published, fun hf => absurd (hf.symm.trans hstarted)
      (by simp), by simp, by simp [g']⟩
  have hloads : Loads g' i { s with initializationTask := some .RUNNING } :=
    ⟨rfl, hs.unloaded hloader⟩
  refine goes hst hs hshared (fun j _ => ?_) (leased_of_eq rfl rfl) ?_ (by simp [Frame.outer])
    ⟨le_rfl, fun hd => hd, fun _ hr => .inr ⟨hr, rfl, rfl, rfl⟩⟩ fun _ hc => hc
  · refine ⟨leased_of_eq rfl rfl, fun hl => ?_, fun _ hr => hr, le_rfl, fun _ _ _ => ⟨rfl, rfl⟩,
      fun _ _ _ => .refl _⟩
    simp [hloader] at hl
  · exact stackOk_cons hloads (by simp [Frame.waits]) (by simp [Frame.outer]) (stackOk_one trivial)

end ProjectRuntime

end Libjadx
