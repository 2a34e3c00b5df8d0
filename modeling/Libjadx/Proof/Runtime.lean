import Libjadx.Proof.Threads

/-!
# The sections of the runtime

* `Shared`: the invariant of the fields. While the project is ready the published admission is the
  repository's.
* `Calm`: what a section does that publishes nothing; `Calms` has a rule for each way to build a
  section.
* `Takes`: a lease was admitted to a thread, or to a job.
-/

namespace Libjadx

namespace ProjectRuntime

open Locked
open NativeProjectRepository (Same Untouched At)

variable {env : RuntimeEnv} {s t u : Runtime} {i j : ℕ} {g g' : Ghost} {l : LeaseId}

/-- The project is published, or a rebuild of it is under way. -/
def Live (s : Runtime) : Prop := s.lifecycle = .READY ∨ s.lifecycle = .RELOADING

/-- The project is gone for good. -/
def Down (s : Runtime) : Prop := s.lifecycle = .FAILED ∨ s.lifecycle = .SHUTTING_DOWN ∨
    s.lifecycle = .STOPPED

/-- The invariant of the part that all threads share. -/
structure Shared (g : Ghost) (s : Runtime) : Prop where
  leases : OperationCoordinator.Inv s.leases
  jobs : ∀ l ∈ s.jobs.leases, l < s.leases.coordinator.issued ∧ g.holder l = none
  published : Live s → ∀ r ∈ s.repository,
    s.publishedAdmission = ⟨(s.heap r).sessionId, (s.heap r).logicalRevision⟩
  unstarted : s.initializationStarted = false → g.loader = none
  queued : s.initializationTask = some .QUEUED → g.loader = none ∧ s.initializationStarted = true
  unloaded : g.loader = none → s.repository = none

/-- The identity of the project as it is. -/
def current (env : RuntimeEnv) (s : Runtime) (r : RepositoryId) : SearchIndexKey :=
  ⟨(s.heap r).sessionId, (s.heap r).logicalRevision, s.publicationEpoch, env.fingerprint⟩

/-- The published search identity is never stale. -/
def Current (env : RuntimeEnv) (s : Runtime) : Prop :=
  ∀ k ∈ s.publishedSearchIdentity, s.lifecycle = .READY ∧ ∃ r ∈ s.repository, k = current env s r

/-! ## Sections that publish nothing -/

/-- What a section outside the publication does: it may move the lifecycle on, and no more. -/
structure Calm (s t : Runtime) : Prop where
  active : t.leases.coordinator.active = s.leases.coordinator.active
  issued : t.leases.coordinator.issued = s.leases.coordinator.issued
  lease : t.leases.coordinator.lease = s.leases.coordinator.lease
  closes : t.leases.closing = s.leases.closing ∧ t.leases.leaving = s.leases.leaving ∧
    t.leases.released = s.leases.released
  heap : ∀ r, Same (s.heap r) (t.heap r)
  repository : t.repository = s.repository
  epoch : t.publicationEpoch = s.publicationEpoch
  admission : t.publishedAdmission = s.publishedAdmission
  live : Live t → t.lifecycle = s.lifecycle
  identity : ∀ k ∈ t.publishedSearchIdentity, k ∈ s.publishedSearchIdentity ∧
    (s.lifecycle = .READY → t.lifecycle = .READY)
  started : t.initializationStarted = false → s.initializationStarted = false
  task : t.initializationTask = some .QUEUED → s.initializationTask = some .QUEUED
  jobs : ∀ l ∈ t.jobs.leases, l ∈ s.jobs.leases
  down : Down s → Down t
  ready : s.lifecycle = .READY → t.lifecycle = .READY ∨ Down t
  engine : Live t → t.activeEngine = s.activeEngine

theorem Calm.refl (s : Runtime) : Calm s s :=
  ⟨rfl, rfl, rfl, ⟨rfl, rfl, rfl⟩, fun _ => .refl _, rfl, rfl, rfl, fun _ => rfl, fun _ h =>
    ⟨h, fun h => h⟩, fun h => h,
    fun h => h, fun _ h => h, fun h => h, .inl, fun _ => rfl⟩

/-- Fields that are not published. -/
theorem calm_of_eq (h : t = { s with
    cleanupInProgress := t.cleanupInProgress, shutdownReserved := t.shutdownReserved
    created := t.created, engine := t.engine }) : Calm s t := by
  rw [h]
  exact ⟨rfl, rfl, rfl, ⟨rfl, rfl, rfl⟩, fun _ => .refl _, rfl, rfl, rfl, fun _ => rfl, fun _ h =>
    ⟨h, fun h => h⟩, fun h => h,
    fun h => h, fun _ h => h, fun h => h, .inl, fun _ => rfl⟩

/-- Whether the lifecycle lives is all that counts. -/
theorem Live.congr (h : Live s) (he : t.lifecycle = s.lifecycle) : Live t := by
  unfold Live
  rw [he]
  exact h

theorem Calm.trans (h : Calm s t) (h' : Calm t u) : Calm s u where
  active := h'.active.trans h.active
  issued := h'.issued.trans h.issued
  lease := h'.lease.trans h.lease
  closes := ⟨h'.closes.1.trans h.closes.1, h'.closes.2.1.trans h.closes.2.1,
    h'.closes.2.2.trans h.closes.2.2⟩
  heap r := (h.heap r).trans (h'.heap r)
  repository := h'.repository.trans h.repository
  epoch := h'.epoch.trans h.epoch
  admission := h'.admission.trans h.admission
  live hu := (h'.live hu).trans (h.live (hu.congr (h'.live hu).symm))
  identity k hk := by
    obtain ⟨hkt, hready⟩ := h'.identity k hk
    obtain ⟨hks, hready'⟩ := h.identity k hkt
    exact ⟨hks, fun hs => hready (hready' hs)⟩
  started hu := h.started (h'.started hu)
  task hu := h.task (h'.task hu)
  jobs l hl := h.jobs l (h'.jobs l hl)
  down hs := h'.down (h.down hs)
  ready hs := by
    rcases h.ready hs with ht | ht
    · exact h'.ready ht
    · exact .inr (h'.down ht)
  engine hu := (h'.engine hu).trans (h.engine (hu.congr (h'.live hu).symm))

/-- What is calm is relied on, -/
theorem Calm.rely (h : Calm s t) : Rely g g i s t where
  issued := h.issued.ge
  holder _ _ := rfl
  request _ _ := by rw [h.lease]
  active l hl _ := by rwa [h.active]
  loader hl := ⟨hl, h.repository⟩
  repository _ hr := h.repository.trans hr
  epoch := h.epoch.ge
  revisions r _ _ := ⟨(h.heap r).sessionId, (h.heap r).logicalRevision⟩
  content _ _ r := h.heap r

/-- leaves the leases in order, -/
theorem Calm.leasesInv (h : Calm s t) (hs : OperationCoordinator.Inv s.leases) :
    OperationCoordinator.Inv t.leases where
  nodup := by rw [h.active]; exact hs.nodup
  issued := by rw [h.active, h.issued]; exact hs.issued
  compatible := by rw [h.active, h.lease]; exact hs.compatible
  once := by rw [h.closes.1, h.closes.2.1, h.closes.2.2]; exact hs.once
  closed := by rw [h.closes.1, h.closes.2.1, h.closes.2.2, h.lease, h.issued]; exact hs.closed
  left := by rw [h.closes.2.1, h.closes.2.2, h.active]; exact hs.left

/-- keeps the shared invariant, -/
theorem Calm.shared (h : Calm s t) (hs : Shared g s) : Shared g t where
  leases := h.leasesInv hs.leases
  jobs l hl := by
    rw [h.issued]
    exact hs.jobs l (h.jobs l hl)
  published hlive r hr := by
    rw [h.admission, (h.heap r).sessionId, (h.heap r).logicalRevision]
    exact hs.published (hlive.congr (h.live hlive).symm) r (h.repository ▸ hr)
  unstarted hst := hs.unstarted (h.started hst)
  queued hq := by
    obtain ⟨hloader, hstarted⟩ := hs.queued (h.task hq)
    refine ⟨hloader, ?_⟩
    by_contra hn
    rw [Bool.not_eq_true] at hn
    rw [h.started hn] at hstarted
    exact Bool.false_ne_true hstarted
  unloaded hl := h.repository.trans (hs.unloaded hl)

/-- and keeps the runtime current. -/
theorem Calm.current (h : Calm s t) (hs : Current env s) : Current env t := by
  intro k hk
  obtain ⟨hks, hready⟩ := h.identity k hk
  obtain ⟨hlife, r, hr, rfl⟩ := hs k hks
  refine ⟨hready hlife, r, h.repository ▸ hr, ?_⟩
  unfold ProjectRuntime.current
  rw [(h.heap r).sessionId, (h.heap r).logicalRevision, h.epoch]

/-! ## Publications -/

/-- The publication is the same. -/
structure Kept (s t : Runtime) : Prop where
  lifecycle : t.lifecycle = .READY
  engine : t.activeEngine = s.activeEngine
  admission : t.publishedAdmission = s.publishedAdmission
  repository : t.repository = s.repository

/-- The epoch names the publication: while it stays, what is published stays, or is gone for good.
-/
structure Advances (s t : Runtime) : Prop where
  epoch : s.publicationEpoch ≤ t.publicationEpoch
  down : Down s → Down t
  ready : t.publicationEpoch = s.publicationEpoch → s.lifecycle = .READY → Down t ∨ Kept s t

theorem Advances.refl (s : Runtime) : Advances s s :=
  ⟨le_rfl, fun h => h, fun _ h => .inr ⟨h, rfl, rfl, rfl⟩⟩

theorem Advances.trans (h : Advances s t) (h' : Advances t u) : Advances s u := by
  refine ⟨h.epoch.trans h'.epoch, fun hs => h'.down (h.down hs), fun he hs => ?_⟩
  have hst : t.publicationEpoch = s.publicationEpoch := le_antisymm (he ▸ h'.epoch) h.epoch
  rcases h.ready hst hs with ht | ht
  · exact .inl (h'.down ht)
  rcases h'.ready (he.trans hst.symm) ht.lifecycle with hu | hu
  · exact .inl hu
  · exact .inr ⟨hu.lifecycle, hu.engine.trans ht.engine, hu.admission.trans ht.admission,
      hu.repository.trans ht.repository⟩

/-- A publication has a new epoch. -/
theorem advances_of_lt (he : s.publicationEpoch < t.publicationEpoch) (hdown : Down s → Down t) :
    Advances s t :=
  ⟨he.le, hdown, fun heq => absurd heq he.ne'⟩

/-- What is calm takes nothing back. -/
theorem Calm.advances (h : Calm s t) : Advances s t := by
  refine ⟨h.epoch.ge, h.down, fun _ hs => (h.ready hs).symm.imp_right fun ht => ?_⟩
  exact ⟨ht, h.engine (.inl ht), h.admission, h.repository⟩

/-- The section publishes nothing, whatever it throws. -/
def Calms {α : Type} (m : Section α) : Prop := ∀ s, Calm s (m s).2

variable {α β : Type}

theorem calms_pure (a : α) : Calms (pure a : Section α) := fun s => .refl s

theorem calms_throw (e : Throwable) : Calms (throw e : Section α) := fun s => .refl s

theorem calms_get : Calms (get : Section Runtime) := fun s => .refl s

theorem calms_modify {f : Runtime → Runtime} (h : ∀ s, Calm s (f s)) :
    Calms (modify f : Section Unit) := h

/-- **Calm sections compose.** -/
theorem Calms.bind {m : Section α} {f : α → Section β} (hm : Calms m) (hf : ∀ a, Calms (f a)) :
    Calms (m >>= f) := by
  intro s
  rcases hr : m s with ⟨e | a, t⟩
  · have h := hm s
    rw [bind_error hr]
    rwa [hr] at h
  · have h := hm s
    rw [hr] at h
    rw [bind_ok hr]
    exact h.trans (hf a t)

theorem calms_get_bind {f : Runtime → Section β} (hf : ∀ s, Calm s (f s s).2) :
    Calms (get >>= f) := hf

theorem calms_ite {c : Prop} [Decidable c] {m m' : Section α} (h : Calms m) (h' : Calms m') :
    Calms (if c then m else m') := by
  split
  · exact h
  · exact h'

theorem calms_when {c : Bool} {m : Section Unit} (h : Calms m) : Calms (when c m) :=
  calms_ite h (calms_pure ())

/-- A call of a repository that only looks. -/
theorem calms_ofRepository {r : RepositoryId} {m : NativeProjectRepository.Section α}
    (h : ∀ s, Same s (m s).2) : Calms (ofRepository r m) := by
  intro s
  have hheap : ∀ x, Same (s.heap x) (Function.update s.heap r (m (s.heap r)).2 x) := by
    intro x
    by_cases hx : x = r
    · rw [hx, Function.update_self]
      exact h _
    · rw [Function.update_of_ne hx]
      exact .refl _
  exact ⟨rfl, rfl, rfl, ⟨rfl, rfl, rfl⟩, hheap, rfl, rfl, rfl, fun _ => rfl, fun _ h =>
    ⟨h, fun h => h⟩, fun h => h,
    fun h => h, fun _ h => h, fun h => h, .inl, fun _ => rfl⟩

/-- What is done to the jobs is calm. -/
theorem calms_ofRegistry {m : JobRegistry.Section α} : Calms (ofRegistry m) := fun _ =>
  ⟨rfl, rfl, rfl, ⟨rfl, rfl, rfl⟩, fun _ => .refl _, rfl, rfl, rfl, fun _ => rfl, fun _ h =>
    ⟨h, fun h => h⟩, fun h => h,
    fun h => h, fun _ h => h, fun h => h, .inl, fun _ => rfl⟩

/-- So is a snapshot of the project. -/
theorem calms_snapshot {r : RepositoryId} :
    Calms (ofRepository r NativeProjectRepository.snapshot) :=
  calms_ofRepository fun s => by
    rw [NativeProjectRepository.snapshot_state]
    exact .refl s

theorem calms_requireReady : Calms requireReady :=
  calms_get.bind fun _ => calms_ite (calms_throw _) (calms_ite (calms_throw _) (calms_pure _))

theorem calms_stop : Calms stop := by
  have hstop : Calms (ofCoordinator OperationCoordinator.stopAdmissions) := fun _ =>
    ⟨rfl, rfl, rfl, ⟨rfl, rfl, rfl⟩, fun _ => .refl _, rfl, rfl, rfl, fun _ => rfl, fun _ h =>
      ⟨h, fun h => h⟩, fun h => h,
      fun h => h, fun _ h => h, fun h => h, .inl, fun _ => rfl⟩
  exact hstop.bind fun _ => calms_ofRegistry

/-- The lifecycle goes down, and the identity goes. -/
theorem calm_down {lifecycle : Lifecycle} (h : lifecycle = .FAILED ∨ lifecycle = .SHUTTING_DOWN ∨
    lifecycle = .STOPPED)
    (s : Runtime) : Calm s { s with lifecycle := lifecycle, publishedSearchIdentity := none } := by
  have hlive : ¬Live { s with lifecycle := lifecycle, publishedSearchIdentity := none } := by
    rintro (hl | hl)
    all_goals
      change lifecycle = _ at hl
      simp [hl] at h
  exact ⟨rfl, rfl, rfl, ⟨rfl, rfl, rfl⟩, fun _ => .refl _, rfl, rfl, rfl, fun hl =>
    absurd hl hlive, by simp, fun h => h,
    fun h => h, fun _ h => h, fun _ => h, fun _ => .inr h, fun hl => absurd hl hlive⟩

/-- The engine is taken out only when the project is gone. -/
theorem calm_detach (h : Down s) : Calm s (detach s).2 := by
  have hlive : ¬Live s := by
    rintro (hl | hl) <;> simp [Down, hl] at h
  unfold detach
  rw [bind_get]
  cases detached s with
  | none => exact .refl s
  | some e =>
    exact ⟨rfl, rfl, rfl, ⟨rfl, rfl, rfl⟩, fun _ => .refl _, rfl, rfl, rfl, fun _ => rfl, fun _ h =>
      ⟨h, fun h => h⟩,
      fun h => h, fun h => h, fun _ h => h, fun h => h, .inl, fun hl => absurd hl hlive⟩

/-- Going down: the lifecycle first, then the stop, then what is done with the engine. -/
theorem calm_stopping {f : Runtime → Runtime} {m : Section β} (hf : Calm s (f s))
    (hdown : Down (f s))
    (hm : ∀ s, Down s → Calm s (m s).2) : Calm s ((do modify f; stop; m : Section β) s).2 := by
  rw [bind_modify]
  have hstop := calms_stop (f s)
  rcases hst : stop (f s) with ⟨e | ⟨⟩, u⟩
  · rw [hst] at hstop
    rw [bind_error hst]
    exact hf.trans hstop
  · rw [hst] at hstop
    rw [bind_ok hst]
    exact (hf.trans hstop).trans (hm u (hstop.down hdown))

/-- The failure of the runtime is calm. -/
theorem calms_fail : Calms fail := by
  refine fun s => calm_stopping ?_ ?_ fun _ h => calm_detach h
  · split
    · exact calm_down (.inl rfl) s
    · exact .refl s
  · split
    · exact .inl rfl
    · rename_i hl
      rw [not_and_or, not_not, not_not] at hl
      exact .inr hl

theorem calms_cancelTask : Calms (modify cancelTask) := by
  refine calms_modify fun s => ?_
  unfold cancelTask
  split
  · exact ⟨rfl, rfl, rfl, ⟨rfl, rfl, rfl⟩, fun _ => .refl _, rfl, rfl, rfl, fun _ => rfl, fun _ h =>
      ⟨h, fun h => h⟩,
      fun h => h, by simp, fun _ h => h, fun h => h, .inl, fun _ => rfl⟩
  · exact .refl s

/-- **So is the shutdown,** -/
theorem calms_shutDown : Calms shutDown := by
  refine calms_get_bind fun s => ?_
  rw [ite_run]
  split
  · exact .refl s
  refine calm_stopping ?_ ?_ fun u hu => ?_
  · split
    · exact calm_down (.inr (.inl rfl)) s
    · exact .refl s
  · split
    · exact .inr (.inl rfl)
    · rename_i hl
      rw [not_not] at hl
      exact .inr (.inl hl)
  · have hdet := calm_detach hu
    rcases hde : detach u with ⟨e | e, v⟩
    · rw [hde] at hdet
      rwa [bind_error hde]
    · rw [hde] at hdet
      rw [bind_ok hde]
      exact hdet.trans ((calms_cancelTask.bind fun _ => calms_pure _) v)

/-- and its end. -/
theorem calms_finishShutdownIfQuiescent : Calms finishShutdownIfQuiescent := by
  refine calms_modify fun s => ?_
  split
  · rename_i hq
    have hdown : s.lifecycle = .SHUTTING_DOWN := by
      simp only [quiescent, Bool.and_eq_true, decide_eq_true_eq] at hq
      exact hq.1.1.1.1
    exact ⟨rfl, rfl, rfl, ⟨rfl, rfl, rfl⟩, fun _ => .refl _, rfl, rfl, rfl,
      fun h => by simp [Live] at h,
      fun _ h => ⟨h, fun hr => by simp [hdown] at hr⟩, fun h => h, fun h => h, fun _ h => h,
        fun _ => .inr (.inr rfl),
      fun _ => .inr (.inr (.inr rfl)), fun h => by simp [Live] at h⟩
  · exact .refl s

/-- **Quiescence is calm,** -/
theorem calms_quiesce {cleanup : Bool} : Calms (quiesce cleanup) := by
  refine Calms.bind (calms_modify fun s => ?_) fun _ => calms_finishShutdownIfQuiescent
  split
  · exact calm_of_eq rfl
  · exact .refl s

/-- and so is the completion of an operation. -/
theorem calms_operationCompleted : Calms operationCompleted :=
  calms_get.bind fun _ => (calms_when calms_finishShutdownIfQuiescent).bind fun _ => calms_pure _

theorem calms_accept : Calms accept := by
  refine calms_get.bind fun s => calms_ite (calms_throw _) ?_
  refine Calms.bind (calms_modify fun s => calm_down (.inr (.inl rfl)) s) fun _ =>
    calms_stop.bind fun _ => ?_
  exact Calms.bind (calms_modify fun _ => calm_of_eq rfl) fun _ => calms_ofRegistry

theorem calms_unreserve {registry : Bool} : Calms (unreserve registry) :=
  Calms.bind (calms_modify fun _ => calm_of_eq rfl) fun _ => calms_when calms_ofRegistry

theorem calms_finishTask : Calms finishTask :=
  Calms.bind (calms_modify fun _ => ⟨rfl, rfl, rfl, ⟨rfl, rfl, rfl⟩, fun _ =>
    .refl _, rfl, rfl, rfl, fun _ => rfl,
    fun _ h => ⟨h, fun h => h⟩, fun h => h, by simp, fun _ h => h, fun h => h, .inl, fun _ => rfl⟩)
    fun _ => calms_finishShutdownIfQuiescent

theorem calms_isLoading : Calms isLoading := calms_get.bind fun _ => calms_pure _

theorem calms_initializationFailed : Calms initializationFailed := by
  refine calms_modify fun s => ?_
  split
  · rename_i hl
    exact ⟨rfl, rfl, rfl, ⟨rfl, rfl, rfl⟩, fun _ => .refl _, rfl, rfl, rfl,
      fun h => by simp [Live] at h,
      fun _ h => ⟨h, fun hr => by simp [hl] at hr⟩, fun h => h, fun h => h, fun _ h => h,
        fun _ => .inl rfl,
      fun _ => .inr (.inl rfl), fun h => by simp [Live] at h⟩
  · exact .refl s

theorem calms_sample : Calms sample := by
  refine calms_requireReady.bind fun _ => calms_get.bind fun s => ?_
  cases s.repository with
  | none => exact calms_throw _
  | some r => exact calms_pure _

theorem calms_recheck {r : RepositoryId} {epoch : ℤ} : Calms (recheck r epoch) :=
  calms_requireReady.bind fun _ => calms_get.bind fun _ => calms_pure _

theorem calms_submitJob {spec : JobSpec} : Calms (submitJob env spec) :=
  calms_requireReady.bind fun _ => calms_ofRegistry

theorem calms_captureSearchRead {expected : SearchIndexKey} :
    Calms (captureSearchRead expected) := by
  refine calms_requireReady.bind fun _ => calms_get.bind fun s => calms_ite (calms_throw _) ?_
  cases s.activeEngine with
  | none => exact calms_throw _
  | some e =>
    cases s.repository with
    | none => exact calms_throw _
    | some r => exact calms_snapshot.bind fun _ => calms_pure _

theorem calm_create (args : JadxArgs) (s : Runtime) : Calm s (create args s) := calm_of_eq rfl

theorem calm_loaded (e : EngineId) (args : JadxArgs) (s : Runtime) : Calm s (loaded e args s) :=
  calm_of_eq rfl

theorem calm_closeEngine (e : EngineId) (s : Runtime) : Calm s (closeEngine e s) := calm_of_eq rfl

/-! ## Admission -/

/-- A lease was admitted. -/
structure Takes (s t : Runtime) (l : LeaseId) (request : OperationRequest) : Prop where
  id : l = s.leases.coordinator.issued
  run : OperationCoordinator.tryAdmit request s.publishedAdmission s.leases.coordinator =
    (.ok l, OperationCoordinator.enter (Lease.make request s.publishedAdmission) s.leases.coordinator)
  state : t = { s with leases := { s.leases with
    coordinator := OperationCoordinator.enter (Lease.make request s.publishedAdmission)
      s.leases.coordinator } }

/-- The lease goes to a thread, or to a job. -/
def Ghost.take (g : Ghost) (l : LeaseId) (holder : Option ℕ) : Ghost :=
  { g with holder := Function.update g.holder l holder }

/-- A runtime that must be ready is, or says why not, and stays as it is. -/
theorem requireReady_cases (s : Runtime) :
    requireReady s = (.ok (), s) ∧ s.shutdownReserved = false ∧ s.lifecycle = .READY ∧
      s.repository ≠ none ∨ ∃ e, requireReady s = (.error e, s) := by
  unfold requireReady
  rw [bind_get, ite_run]
  split
  · exact .inr ⟨_, rfl⟩
  · rename_i hres
    rw [ite_run]
    split
    · exact .inr ⟨_, rfl⟩
    · rename_i hready
      rw [not_or, not_not] at hready
      exact .inl ⟨rfl, by simpa using hres, hready.1, hready.2⟩

/-- A lease is taken, or nothing changes. -/
theorem tryAdmit_ends {request : OperationRequest} {o : Except Throwable LeaseId}
    (h : tryAdmit request s = (o, t)) :
    (∃ l, o = .ok l ∧ Takes s t l request) ∨ ∃ e, o = .error e ∧ t = s := by
  have hrun : tryAdmit request s =
      ((OperationCoordinator.tryAdmit request s.publishedAdmission s.leases.coordinator).1,
          { s with leases := { s.leases with
        coordinator := (OperationCoordinator.tryAdmit request s.publishedAdmission
          s.leases.coordinator).2 } }) := rfl
  rw [hrun] at h
  rcases OperationCoordinator.tryAdmit_cases request s.publishedAdmission
    s.leases.coordinator with he | ⟨-, he⟩ | he
  · rw [he] at h
    obtain ⟨rfl, rfl⟩ := Prod.mk.inj h
    exact .inr ⟨_, rfl, rfl⟩
  · rw [he] at h
    obtain ⟨rfl, rfl⟩ := Prod.mk.inj h
    exact .inr ⟨_, rfl, rfl⟩
  · rw [he] at h
    obtain ⟨rfl, rfl⟩ := Prod.mk.inj h
    exact .inl ⟨_, rfl, rfl, he, rfl⟩

/-- **An operation is admitted to a ready runtime, or nothing changes.** -/
theorem admit_ends {request : OperationRequest} {o : Except Throwable LeaseId}
    (h : admitOperation request s = (o, t)) :
    (∃ l, o = .ok l ∧ Takes s t l request ∧ s.lifecycle = .READY ∧ s.repository ≠ none) ∨
    ∃ e, o = .error e ∧ t = s := by
  unfold admitOperation at h
  rcases requireReady_cases s with ⟨hr, -, hready, hrep⟩ | ⟨e, hr⟩
  · rw [bind_ok hr] at h
    rcases tryAdmit_ends h with ⟨l, rfl, ht⟩ | herr
    · exact .inl ⟨l, rfl, ht, hready, hrep⟩
    · exact .inr herr
  · rw [bind_error hr] at h
    obtain ⟨rfl, rfl⟩ := Prod.mk.inj h
    exact .inr ⟨e, rfl, rfl⟩

variable {request : OperationRequest}

/-- A lease that was taken is held, -/
theorem Takes.leased (h : Takes s t l request) (x : Option ℕ) : Leased g (g.take l x) i s t := by
  obtain ⟨rfl, -, rfl⟩ := h
  refine ⟨Nat.le_succ _, fun k hk => Function.update_of_ne (Nat.ne_of_lt hk) _ _, fun k hk => ?_,
    fun k hk _ => List.mem_append_left _ hk⟩
  exact congrArg Lease.request (Function.update_of_ne (Nat.ne_of_lt hk) _ _)

/-- which the others can rely on. -/
theorem Takes.rely (h : Takes s t l request) (x : Option ℕ) : Rely g (g.take l x) i s t := by
  have hleased : Leased g (g.take l x) i s t := h.leased x
  obtain ⟨rfl, -, rfl⟩ := h
  exact ⟨hleased, fun hl => ⟨hl, rfl⟩, fun _ hr => hr, le_rfl, fun _ _ _ => ⟨rfl, rfl⟩,
    fun _ _ _ => .refl _⟩

/-- It leaves the leases in order, -/
theorem Takes.leasesInv (h : Takes s t l request) (hs : OperationCoordinator.Inv s.leases) :
    OperationCoordinator.Inv t.leases := by
  have hinv := hs.tryAdmit request s.publishedAdmission
  obtain ⟨rfl, hrun, rfl⟩ := h
  rwa [hrun] at hinv

/-- and keeps the shared invariant. -/
theorem Takes.shared (h : Takes s t l request) (hs : Shared g s) (x : Option ℕ) :
    Shared (g.take l x) t := by
  have hleases := h.leasesInv hs.leases
  obtain ⟨rfl, hrun, rfl⟩ := h
  refine ⟨hleases, fun k hk => ?_, hs.published, hs.unstarted, hs.queued, hs.unloaded⟩
  obtain ⟨hlt, hnone⟩ := hs.jobs k hk
  refine ⟨Nat.lt_succ_of_lt hlt, ?_⟩
  exact (Function.update_of_ne (Nat.ne_of_lt hlt) _ _).trans hnone

/-- The thread that took it owns it, -/
theorem Takes.own (h : Takes s t l request) : Own (g.take l (some i)) i t l := by
  obtain ⟨rfl, -, rfl⟩ := h
  refine ⟨Nat.lt_succ_self _, fun j hj => ?_⟩
  have hself : (g.take s.leases.coordinator.issued (some i)).holder s.leases.coordinator.issued =
      some i :=
    Function.update_self _ _ _
  rw [hself] at hj
  exact (Option.some.inj hj).symm

/-- alone, if it is exclusive. -/
theorem Takes.exclusive (h : Takes s t l request) (hc : request.category = .PROJECT_EXCLUSIVE) :
    Exclusive (g.take l (some i)) i t l := by
  obtain ⟨rfl, -, rfl⟩ := h
  refine ⟨Function.update_self _ _ _, List.mem_append_right _ List.mem_cons_self, ?_⟩
  have hnew : (OperationCoordinator.enter (Lease.make request s.publishedAdmission)
      s.leases.coordinator).lease
      s.leases.coordinator.issued = Lease.make request s.publishedAdmission :=
        Function.update_self _ _ _
  rw [hnew]
  exact hc

/-- It takes nothing back, -/
theorem Takes.advances (h : Takes s t l request) : Advances s t := by
  obtain ⟨-, -, rfl⟩ := h
  exact ⟨le_rfl, fun h => h, fun _ h => .inr ⟨h, rfl, rfl, rfl⟩⟩

/-- and keeps the runtime current. -/
theorem Takes.current (h : Takes s t l request) (hs : Current env s) : Current env t := by
  obtain ⟨rfl, -, rfl⟩ := h
  exact hs

/-- **Reliances compose.** -/
theorem Rely.trans {g'' : Ghost} (h : Rely g g' i s t) (h' : Rely g' g'' i t u)
    (hs : OperationCoordinator.Inv s.leases) :
    Rely g g'' i s u where
  issued := h.issued.trans h'.issued
  holder l hl := (h'.holder l (hl.trans_le h.issued)).trans (h.holder l hl)
  request l hl := (h'.request l (hl.trans_le h.issued)).trans (h.request l hl)
  active l hl hg := by
    refine h'.active l (h.active l hl hg) ?_
    rw [h.holder l (hs.issued l hl)]
    exact hg
  loader hl := by
    obtain ⟨hl', hr⟩ := h.loader hl
    obtain ⟨hl'', hr'⟩ := h'.loader hl'
    exact ⟨hl'', hr'.trans hr⟩
  repository r hr := h'.repository r (h.repository r hr)
  epoch := h.epoch.trans h'.epoch
  revisions r hr he := by
    have hst : t.publicationEpoch = s.publicationEpoch := le_antisymm (he ▸ h'.epoch) h.epoch
    obtain ⟨hsid, hrev⟩ := h.revisions r hr hst
    obtain ⟨hsid', hrev'⟩ := h'.revisions r (h.repository r hr) (he.trans hst.symm)
    exact ⟨hsid'.trans hsid, hrev'.trans hrev⟩
  content l hl r := (h.content l hl r).trans (h'.content l (hl.leased hs h.toLeased) r)

/-- How the first section of `requestShutdown` ends. -/
theorem reserve_ends {policy : ShutdownPolicy}
    {o : Except Throwable (Except Throwable (Option LeaseId) × Bool)}
    (h : reserve policy s = (o, t)) :
    (∃ e, o = .error e ∧ t = s) ∨ (∃ e registry, o = .ok (.error e, registry) ∧ Calm s t) ∨
      (∃ registry, o = .ok (.ok none, registry) ∧ Calm s t) ∨
      ∃ l registry v, o = .ok (.ok (some l), registry) ∧ Calm s v ∧
        Takes v t l ⟨.PROJECT_EXCLUSIVE, str "shutdown-save"⟩ := by
  unfold reserve at h
  rcases requireReady_cases s with ⟨hr, -⟩ | ⟨e, hr⟩
  swap
  · rw [bind_error hr] at h
    obtain ⟨rfl, rfl⟩ := Prod.mk.inj h
    exact .inl ⟨e, rfl, rfl⟩
  rw [bind_ok hr, bind_modify] at h
  have hres : Calm s { s with shutdownReserved := true } := calm_of_eq rfl
  generalize ({ s with shutdownReserved := true } : Runtime) = v at h hres
  have hreg : Calm v (ofRegistry JobRegistry.reserveSubmissions v).2 := calms_ofRegistry v
  have hattempt : attempt (ofRegistry JobRegistry.reserveSubmissions) v =
      (.ok (ofRegistry JobRegistry.reserveSubmissions v).1,
        (ofRegistry JobRegistry.reserveSubmissions v).2) := rfl
  rw [bind_ok hattempt] at h
  generalize (ofRegistry JobRegistry.reserveSubmissions v).2 = w at h hreg
  cases hx : (ofRegistry JobRegistry.reserveSubmissions v).1 with
  | error e =>
    rw [hx] at h
    obtain ⟨rfl, rfl⟩ := Prod.mk.inj h
    exact .inr (.inl ⟨e, false, rfl, hres.trans hreg⟩)
  | ok x =>
    rw [hx] at h
    have hsave : attempt (saveLease policy) w = (.ok (saveLease policy w).1,
      (saveLease policy w).2) := rfl
    dsimp only at h
    rw [bind_ok hsave] at h
    obtain ⟨rfl, rfl⟩ := Prod.mk.inj h
    have hcalm := hres.trans hreg
    unfold saveLease
    rw [bind_get, ite_run]
    split
    · exact .inr (.inl ⟨_, true, rfl, hcalm⟩)
    rw [ite_run]
    split
    · rcases hl : tryAdmit ⟨.PROJECT_EXCLUSIVE, str "shutdown-save"⟩ w with ⟨o, y⟩
      rcases tryAdmit_ends hl with ⟨l, rfl, ht⟩ | ⟨e, rfl, rfl⟩
      · rw [bind_ok hl]
        exact .inr (.inr (.inr ⟨l, true, w, rfl, hcalm, ht⟩))
      · rw [bind_error hl]
        exact .inr (.inl ⟨e, true, rfl, hcalm⟩)
    · exact .inr (.inr (.inl ⟨true, rfl, hcalm⟩))

end ProjectRuntime

end Libjadx
