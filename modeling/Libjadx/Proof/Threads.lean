import Libjadx.Proof.Acts
import Libjadx.Proof.Coordinator
import Libjadx.Proof.Revisions
import Libjadx.Spec.System

/-!
# What a thread may rely on

* `FrameOk`: what a thread knows at a frame: the lease it holds, the revision it staged at, the
  epoch it sampled.
* `Rely`: what the steps of the other threads leave to a thread. Who holds the exclusive lease finds
  the repository as it left it.
* `Calm`: most sections publish nothing. They keep the invariant (`Shared`) and what any thread
  knows.
-/

namespace Libjadx

open Locked

namespace Scheduler

/-- The lease of the job that the dispatcher holds. -/
def Dispatch.lease : Dispatch → Option LeaseId
  | .capture _ lease | .start _ lease | .handOff _ lease => some lease
  | .closeCaptured _ lease _ | .closeCancelled _ lease | .closeRejected _ lease => some lease
  | _ => none

/-- Leases of the jobs that the dispatcher and the workers have. -/
def leases (s : Scheduler) : List LeaseId :=
  (Dispatch.lease s.dispatch).toList ++ s.workers.map Worker.lease

/-- A lease that is being closed is held. -/
theorem closing_leases {s : Scheduler} {l : LeaseId} (h : l ∈ s.closing) : l ∈ s.leases := by
  rcases List.mem_append.1 h with h | h
  · refine List.mem_append_left _ ?_
    cases hd : s.dispatch <;> rw [hd] at h <;> simp_all [Dispatch.closing, Dispatch.lease]
  · obtain ⟨w, hw, hl⟩ := List.mem_filterMap.1 h
    refine List.mem_append_right _ (List.mem_map.2 ⟨w, hw, ?_⟩)
    unfold Worker.closing at hl
    split at hl
    · exact Option.some.inj hl
    · simp at hl

/-- A worker's phase is no matter of its lease. -/
theorem setPhase_leases {s : Scheduler} {i : ℕ} {w : Worker} (hw : s.workers[i]? = some w)
    (phase : Phase) :
    (s.setPhase i w phase).leases = s.leases := by
  have hmap : (s.workers.set i { w with phase := phase }).map Worker.lease = s.workers.map
      Worker.lease := by
    obtain ⟨hi, rfl⟩ := List.getElem?_eq_some_iff.1 hw
    rw [List.map_set]
    have hlen : i < (s.workers.map Worker.lease).length := by rwa [List.length_map]
    have hself := List.set_getElem_self hlen
    simpa using hself
  unfold leases
  exact congrArg _ hmap

/-- The registry's threads get leases from the gate only. -/
theorem act_leases {env : JobEnv} {s t : Scheduler} {a : Act} {o : Except Throwable Unit}
    (h : act env s a = some (o, t)) :
    ∀ l ∈ t.leases, l ∈ s.leases ∨ a = .tryAdmit (.lease l) := by
  -- a section of the registry gives no lease out
  have hsection : ∀ {α : Type} {m : JobRegistry.Section α} {done : α → Scheduler → Scheduler}
      {failed : Scheduler → Scheduler},
      (∀ x r, ∀ l ∈ (done x { s with registry := r }).leases, l ∈ s.leases) →
      (∀ r, ∀ l ∈ (failed { s with registry := r }).leases, l ∈ s.leases) →
      s.section_ m done failed = (o, t) → ∀ l ∈ t.leases, l ∈ s.leases ∨
          a = .tryAdmit (.lease l) := by
    intro α m done failed hdone hfailed hr l hl
    unfold section_ at hr
    rcases hx : m s.registry with ⟨e | x, r⟩
    · rw [hx] at hr
      obtain ⟨-, rfl⟩ := Prod.mk.inj hr
      exact .inl (hfailed r l hl)
    · rw [hx] at hr
      obtain ⟨-, rfl⟩ := Prod.mk.inj hr
      exact .inl (hdone x r l hl)
  -- a dispatcher that lets its lease go, or keeps it, holds none besides
  have hidle : ∀ (d : Dispatch) (r : Registry), Dispatch.lease d = none ∨
      Dispatch.lease d = Dispatch.lease s.dispatch →
      ∀ l ∈ ({ registry := r, dispatch := d, workers := s.workers } : Scheduler).leases,
          l ∈ s.leases := by
    intro d r hd l hl
    rcases List.mem_append.1 hl with hl | hl
    · rcases hd with hd | hd
      · simp [hd] at hl
      · exact List.mem_append_left _ (by simpa [hd] using hl)
    · exact List.mem_append_right _ hl
  cases a with
  | call c =>
    simp only [act] at h
    split at h
    · exact hsection (fun _ _ _ hl => hl) (fun _ _ hl => hl) (Option.some.inj h)
    · simp at h
  | pump =>
    simp only [act] at h
    split at h
    · refine hsection (fun x r => ?_) (fun r => hidle _ r (.inl rfl)) (Option.some.inj h)
      cases x with
      | none => exact fun _ hl => hl
      | some id => exact hidle (.gate id) r (.inl rfl)
    · simp at h
  | tryAdmit answer =>
    simp only [act] at h
    split at h
    · rename_i id hd
      obtain ⟨-, rfl⟩ := Prod.mk.inj (Option.some.inj h)
      intro l hl
      cases answer with
      -- the only new lease is the gate's answer
      | lease l' =>
        rcases List.mem_append.1 hl with hl | hl
        · obtain rfl : l = l' := by simpa [goto, answered, Dispatch.lease] using hl
          exact .inr rfl
        · exact .inl (List.mem_append_right _ hl)
      | throws e =>
        refine .inl (hidle _ s.registry (.inl ?_) l hl)
        cases e <;> rfl
    · simp at h
  | requeue =>
    simp only [act] at h
    split at h
    · exact hsection (fun _ r => hidle _ r (.inl rfl)) (fun r => hidle _ r (.inl rfl))
        (Option.some.inj h)
    · simp at h
  | capture failure =>
    simp only [act] at h
    split at h
    · rename_i id lease hd
      obtain ⟨-, rfl⟩ := Prod.mk.inj (Option.some.inj h)
      intro l hl
      refine .inl (hidle _ s.registry (.inr ?_) l hl)
      rw [hd]
      cases failure <;> rfl
    · simp at h
  | start =>
    simp only [act] at h
    split at h
    · rename_i id lease hd
      refine hsection (fun x r => hidle _ r (.inr ?_)) (fun r => hidle _ r (.inl rfl))
        (Option.some.inj h)
      rw [hd]
      cases x <;> rfl
    · simp at h
  | close failure =>
    obtain ⟨v, hv, hvt⟩ := Option.map_eq_some_iff.1 h
    obtain ⟨-, rfl⟩ := Prod.mk.inj hvt
    intro l hl
    unfold closed at hv
    split at hv
    · obtain rfl := Option.some.inj hv
      exact .inl (hidle _ _ (.inl rfl) l hl)
    · obtain rfl := Option.some.inj hv
      exact .inl (hidle _ _ (.inl rfl) l hl)
    · split at hv
      · obtain rfl := Option.some.inj hv
        exact .inl (hidle _ _ (.inl rfl) l hl)
      · obtain rfl := Option.some.inj hv
        exact .inl (hidle _ _ (.inl rfl) l hl)
    · simp at hv
  | execute accepted =>
    simp only [act] at h
    split at h
    · rename_i id lease hd
      split at h
      · obtain ⟨-, rfl⟩ := Prod.mk.inj (Option.some.inj h)
        intro l hl
        -- the dispatcher's lease has gone to the worker
        rcases List.mem_append.1 hl with hl | hl
        · simp [Dispatch.lease] at hl
        · rw [List.map_append, List.mem_append] at hl
          rcases hl with hl | hl
          · exact .inl (List.mem_append_right _ hl)
          · obtain rfl : l = lease := by simpa using hl
            exact .inl (List.mem_append_left _ (by simp [hd, Dispatch.lease]))
      · obtain ⟨-, rfl⟩ := Prod.mk.inj (Option.some.inj h)
        intro l hl
        exact .inl (hidle _ s.registry (.inr (by rw [hd]; rfl)) l hl)
    · simp at h
  | fail =>
    simp only [act] at h
    split at h
    · exact hsection (fun _ r => hidle _ r (.inl rfl)) (fun r => hidle _ r (.inl rfl))
        (Option.some.inj h)
    · simp at h
  | run i | returns i result | release i failure =>
    obtain ⟨w, hw, h⟩ := worker_some h
    split at h
    · obtain ⟨-, rfl⟩ := Prod.mk.inj (Option.some.inj h)
      intro l hl
      rw [setPhase_leases hw] at hl
      exact .inl hl
    · simp at h
  | finish i =>
    obtain ⟨w, hw, h⟩ := worker_some h
    have herase : ∀ r, ∀ l ∈ ({ s with registry := r, workers := s.workers.eraseIdx i } :
        Scheduler).leases, l ∈ s.leases := by
      intro r l hl
      rcases List.mem_append.1 hl with hl | hl
      · exact List.mem_append_left _ hl
      · obtain ⟨w', hw', rfl⟩ := List.mem_map.1 hl
        exact List.mem_append_right _ (List.mem_map_of_mem (List.mem_of_mem_eraseIdx hw'))
    split at h
    · refine hsection (fun _ r => ?_) (fun r => ?_) (Option.some.inj h)
      · exact herase r
      · exact herase r
    · simp at h

end Scheduler

namespace OperationCoordinator

/-- What a step leaves of the leases there are. -/
theorem act_stays {a : Act} {r r' : Run} (h : act r a = some r') :
    r.coordinator.issued ≤ r'.coordinator.issued ∧
    (∀ l < r.coordinator.issued, (r'.coordinator.lease l).request = (r.coordinator.lease l).request) ∧
    ∀ l ∈ r.coordinator.active, a ≠ .remove l → l ∈ r'.coordinator.active := by
  have hedit : ∀ {id : LeaseId} {f : Lease → Lease} (l : LeaseId),
      (∀ x, (f x).request = x.request) →
      (Function.update r.coordinator.lease id (f (r.coordinator.lease id)) l).request =
        (r.coordinator.lease l).request := by
    intro id f l hf
    by_cases hl : l = id
    · rw [hl, Function.update_self, hf]
    · rw [Function.update_of_ne hl]
  cases a with
  | tryAdmit request admission =>
    obtain rfl := Option.some.inj h
    show _ ≤ (OperationCoordinator.tryAdmit request admission r.coordinator).2.issued ∧ _
    unfold OperationCoordinator.tryAdmit
    simp only [bind_get, ite_run, throw_run, bind_modify, pure_run]
    split
    · exact ⟨le_rfl, fun _ _ => rfl, fun _ hl _ => hl⟩
    split
    · exact ⟨le_rfl, fun _ _ => rfl, fun _ hl _ => hl⟩
    refine ⟨Nat.le_succ _, fun l hl => ?_, fun l hl _ => List.mem_append_left _ hl⟩
    exact congrArg Lease.request (Function.update_of_ne (Nat.ne_of_lt hl) _ _)
  | stopAdmissions =>
    obtain rfl := Option.some.inj h
    exact ⟨le_rfl, fun _ _ => rfl, fun _ hl _ => hl⟩
  | finishSnapshotCapture id =>
    simp only [act] at h
    split at h
    case isFalse => simp at h
    obtain rfl := Option.some.inj h
    show _ ≤ (OperationCoordinator.finishSnapshotCapture id r.coordinator).2.issued ∧ _
    unfold OperationCoordinator.finishSnapshotCapture
    rw [bind_get, ite_run]
    split
    · exact ⟨le_rfl, fun _ _ => rfl, fun _ hl _ => hl⟩
    · exact ⟨le_rfl, fun l _ => hedit (f := fun x => { x with capturing := false }) l fun _ => rfl,
        fun _ hl _ => hl⟩
  | close id =>
    simp only [act] at h
    split at h
    case isFalse => simp at h
    have hwin : winClose id r.coordinator = (.ok false, r.coordinator) ∨
        winClose id r.coordinator = (.ok true, { r.coordinator with
          lease := Function.update r.coordinator.lease id { r.coordinator.lease id with closed := true } }) := by
      unfold winClose
      rw [bind_get, ite_run]
      split
      · exact .inl rfl
      · exact .inr rfl
    rcases hwin with hwin | hwin
    all_goals
      rw [hwin] at h
      obtain rfl := Option.some.inj h
    · exact ⟨le_rfl, fun _ _ => rfl, fun _ hl _ => hl⟩
    · exact ⟨le_rfl, fun l _ => hedit (f := fun x => { x with closed := true }) l fun _ => rfl,
        fun _ hl _ => hl⟩
  | remove id =>
    simp only [act] at h
    split at h
    case isFalse => simp at h
    obtain rfl := Option.some.inj h
    refine ⟨le_rfl, fun _ _ => rfl, fun l hl hne => ?_⟩
    exact (List.mem_erase_of_ne fun he => hne (by rw [he])).2 hl
  | afterRelease id =>
    simp only [act] at h
    split at h
    case isFalse => simp at h
    obtain rfl := Option.some.inj h
    exact ⟨le_rfl, fun _ _ => rfl, fun _ hl _ => hl⟩

/-- Of the active leases one at most is exclusive, and it is alone but for analyses. -/
theorem Inv.exclusive {r : Run} (h : Inv r) {l l' : LeaseId} (hl : l ∈ r.coordinator.active)
    (hl' : l' ∈ r.coordinator.active)
    (hc : (r.coordinator.lease l).request.category = .PROJECT_EXCLUSIVE)
    (hc' : (r.coordinator.lease l').request.category.primary = true) : l = l' := by
  by_contra hne
  have hcomp := h.compatible l hl l' hl' hne
  unfold Lease.Compatible at hcomp
  rw [hc] at hcomp
  cases hcat : (r.coordinator.lease l').request.category <;> rw [hcat] at hcomp hc' <;>
    simp_all [Category.primary]

end OperationCoordinator

namespace ProjectRuntime

open NativeProjectRepository (Same Untouched)

variable {env : RuntimeEnv} {s t u : Runtime} {i j : ℕ}

/-! ## What a thread knows -/

/-- Who holds a lease, and who runs the initialisation; the leases of jobs are held by no thread. -/
structure Ghost where
  holder : LeaseId → Option ℕ
  loader : Option ℕ

variable {g g' : Ghost}

/-- The thread has the exclusive lease. -/
structure Exclusive (g : Ghost) (i : ℕ) (s : Runtime) (l : LeaseId) : Prop where
  holder : g.holder l = some i
  active : l ∈ s.leases.coordinator.active
  category : (s.leases.coordinator.lease l).request.category = .PROJECT_EXCLUSIVE

/-- The thread has the exclusive lease, and works on the project. -/
structure Works (g : Ghost) (i : ℕ) (s : Runtime) (l : LeaseId) (current : RepositoryId) :
    Prop extends
    Exclusive g i s l where
  current : s.repository = some current

/-- A lease that no other thread holds. -/
def Own (g : Ghost) (i : ℕ) (s : Runtime) (l : LeaseId) : Prop :=
  l < s.leases.coordinator.issued ∧ ∀ j ∈ g.holder l, j = i

/-- The initialisation did not publish yet. -/
def Loads (g : Ghost) (i : ℕ) (s : Runtime) : Prop := g.loader = some i ∧ s.repository = none

/-- The result of a staged rebuild is what its commit makes. -/
structure Measured (s : Runtime) (p : Replacement) : Prop where
  sound : NativeProjectRepository.Sound p.commit
  revision : p.resultingRevision =
    (s.heap p.current).logicalRevision + NativeProjectRepository.commitStep
      (s.heap p.current) p.commit
  lifecycle : p.expectedLifecycle = .READY ∨ p.expectedLifecycle = .RELOADING

/-- What a thread knows at a frame. -/
def FrameOk (g : Ghost) (i : ℕ) (s : Runtime) : Frame → Prop
  | .close l | .remove l | .afterRelease l | .callback l | .capture l => Own g i s l
  | .read _ current epoch => s.repository = some current ∧ epoch ≤ s.publicationEpoch
  | .recheck _ current epoch result => s.repository = some current ∧ epoch ≤ s.publicationEpoch ∧
      (epoch = s.publicationEpoch → result.sessionId = (s.heap current).sessionId ∧
        result.logicalRevision = (s.heap current).logicalRevision)
  | .editing l | .stageRebuild l _ | .rebuilding l | .rebuildFailed l
  | .saving l _ _ _ => Exclusive g i s l
  | .inspect _ lease => ∀ l ∈ lease, Exclusive g i s l
  | .operation l current _ before | .stageEdit l current _ before _ => Works g i s l current ∧
      before.revisions.logicalRevision = (s.heap current).logicalRevision
  | .editArguments l current _ before candidate => Works g i s l current ∧
      before.revisions.logicalRevision = (s.heap current).logicalRevision ∧
        candidate.effective = true
  | .measure l current _ candidate expectedRevision => Works g i s l current ∧
      NativeProjectRepository.Sound (.mappings candidate) ∧
        expectedRevision = (s.heap current).logicalRevision
  | .create p | .load p _ | .publish p _ => Works g i s p.lease p.current ∧ Measured s p
  | .publishSaved l current saved => Works g i s l current ∧
      saved.revisions.sessionId = (s.heap current).sessionId ∧
      saved.revisions.logicalRevision = (s.heap current).logicalRevision
  | .openProject | .loading _ _ | .createLocal _ _ | .stillLoading _ _ | .loadLocal _ _
  | .checkLocal _ _
  | .publishLocal _ _ => Loads g i s
  | _ => True

/-- The frames that may wait below another. -/
def Frame.waits : Frame → Bool
  | .raise _ | .close _ | .closeOwned _ _ | .quiesce _ | .callback _ | .rebuilding _ | .accept
  | .reserved _
  | .finishTask => true
  | _ => false

/-- The frames that are never inside the `try` block of a rebuild: they admit, or close the lease.
-/
def Frame.outer : Frame → Bool
  | .close _ | .remove _ | .afterRelease _ | .admitOperation _ | .admitTemporary _ | .edit
  | .rebuild _
  | .save _ _ _
  | .requestShutdown _ => true
  | _ => false

def Frame.rebuilds : Frame → Bool
  | .rebuilding _ => true
  | _ => false

/-- What a thread knows. -/
def StackOk (g : Ghost) (i : ℕ) (s : Runtime) : List Frame → Prop
  | [] => True
  | f :: rest => FrameOk g i s f ∧ (∀ h ∈ rest, h.waits = true) ∧
      (f.outer = true → ∀ h ∈ rest, h.rebuilds = false) ∧ StackOk g i s rest

/-! ## What others leave alone -/

/-- What a step leaves of the leases of a thread. -/
structure Leased (g g' : Ghost) (i : ℕ) (s t : Runtime) : Prop where
  issued : s.leases.coordinator.issued ≤ t.leases.coordinator.issued
  holder : ∀ l < s.leases.coordinator.issued, g'.holder l = g.holder l
  request : ∀ l < s.leases.coordinator.issued,
    (t.leases.coordinator.lease l).request = (s.leases.coordinator.lease l).request
  active : ∀ l ∈ s.leases.coordinator.active, g.holder l = some i → l ∈ t.leases.coordinator.active

/-- What the other threads leave to a thread. -/
structure Rely (g g' : Ghost) (i : ℕ) (s t : Runtime) : Prop extends Leased g g' i s t where
  loader : g.loader = some i → g'.loader = some i ∧ t.repository = s.repository
  repository : ∀ r, s.repository = some r → t.repository = some r
  epoch : s.publicationEpoch ≤ t.publicationEpoch
  revisions : ∀ r, s.repository = some r → t.publicationEpoch = s.publicationEpoch →
    (t.heap r).sessionId = (s.heap r).sessionId ∧
      (t.heap r).logicalRevision = (s.heap r).logicalRevision
  content : ∀ l, Exclusive g i s l → ∀ r, Same (s.heap r) (t.heap r)

variable {l : LeaseId}

/-- An own lease stays one while the others work. -/
theorem Own.leased (h : Own g i s l) (hr : Leased g g' j s t) : Own g' i t l :=
  ⟨h.1.trans_le hr.issued, by rw [hr.holder l h.1]; exact h.2⟩

/-- So does an exclusive one. -/
theorem Exclusive.leased (h : Exclusive g i s l) (hs : OperationCoordinator.Inv s.leases)
    (hr : Leased g g' i s t) :
    Exclusive g' i t l := by
  have hlt := hs.issued l h.active
  refine ⟨?_, hr.active l h.active h.holder, ?_⟩
  · rw [hr.holder l hlt]
    exact h.holder
  · rw [hr.request l hlt]
    exact h.category

/-- **Whoever works on the project finds it as it was.** -/
theorem Works.rely {current : RepositoryId} (h : Works g i s l current)
    (hs : OperationCoordinator.Inv s.leases)
    (hr : Rely g g' i s t) : Works g' i t l current ∧ Same (s.heap current) (t.heap current) :=
  ⟨⟨h.toExclusive.leased hs hr.toLeased, hr.repository _ h.current⟩, hr.content l h.toExclusive current⟩

/-- What a commit will add to the revision is the same for the same project. -/
theorem commitStep_same {a b : Repository} (h : Same a b) (c : RebuildCommit) :
    NativeProjectRepository.commitStep b c = NativeProjectRepository.commitStep a c := by
  cases c with
  | codeData c => rfl
  | reload c => rfl
  | mappings c =>
    unfold NativeProjectRepository.commitStep
    rw [h.mappingsPath]

/-- What was measured stays measured. -/
theorem Measured.same {p : Replacement} (h : Measured s p)
    (hsame : Same (s.heap p.current) (t.heap p.current)) : Measured t p := by
  refine ⟨h.sound, ?_, h.lifecycle⟩
  rw [hsame.logicalRevision, commitStep_same hsame]
  exact h.revision

/-- What a thread knows outlasts the steps of the others. -/
theorem FrameOk.rely {f : Frame} (h : FrameOk g i s f) (hs : OperationCoordinator.Inv s.leases)
    (hr : Rely g g' i s t) :
    FrameOk g' i t f := by
  have hworks : ∀ {l : LeaseId} {current : RepositoryId}, Works g i s l current →
      Works g' i t l current ∧ Same (s.heap current) (t.heap current) := fun h => h.rely hs hr
  cases f with
  | close l | remove l | afterRelease l | callback l | capture l => exact Own.leased h hr.toLeased
  | read r current epoch => exact ⟨hr.repository _ h.1, h.2.trans hr.epoch⟩
  | recheck r current epoch result =>
    obtain ⟨hcurrent, hle, hsame⟩ := h
    refine ⟨hr.repository _ hcurrent, hle.trans hr.epoch, fun he => ?_⟩
    -- the epoch did not move, so nothing was published
    have hepoch : s.publicationEpoch = t.publicationEpoch := le_antisymm hr.epoch (he ▸ hle)
    obtain ⟨hsid, hrev⟩ := hr.revisions current hcurrent hepoch.symm
    rw [hsid, hrev]
    exact hsame (he.trans hepoch.symm)
  | editing l | stageRebuild l change | rebuilding l | rebuildFailed l | saving l target sid rev =>
    exact Exclusive.leased h hs hr.toLeased
  | inspect policy lease => exact fun l hl => (h l hl).leased hs hr.toLeased
  | operation l current engine before | stageEdit l current engine before edited =>
    obtain ⟨hw, hrev⟩ := h
    obtain ⟨hw', hsame⟩ := hworks hw
    exact ⟨hw', hrev.trans hsame.logicalRevision.symm⟩
  | editArguments l current engine before candidate =>
    obtain ⟨hw, hrev, heff⟩ := h
    obtain ⟨hw', hsame⟩ := hworks hw
    exact ⟨hw', hrev.trans hsame.logicalRevision.symm, heff⟩
  | measure l current old candidate rev =>
    obtain ⟨hw, hsound, hrev⟩ := h
    obtain ⟨hw', hsame⟩ := hworks hw
    exact ⟨hw', hsound, hrev.trans hsame.logicalRevision.symm⟩
  | create p | load p e | publish p e =>
    obtain ⟨hw, hm⟩ := h
    obtain ⟨hw', hsame⟩ := hworks hw
    exact ⟨hw', hm.same hsame⟩
  | publishSaved l current saved =>
    obtain ⟨hw, hsid, hrev⟩ := h
    obtain ⟨hw', hsame⟩ := hworks hw
    exact ⟨hw', hsid.trans hsame.sessionId.symm, hrev.trans hsame.logicalRevision.symm⟩
  | openProject | loading r args | createLocal r args | stillLoading r e | loadLocal r e
  | checkLocal r e
  | publishLocal r e =>
    obtain ⟨hloader, hnone⟩ := h
    obtain ⟨hloader', hrep⟩ := hr.loader hloader
    exact ⟨hloader', hrep.trans hnone⟩
  | raise | closeInternal | shutdown | closeOwned | quiesce | reportFatalRebuild | readPublished
  | returned
  | admitOperation
  | admitTemporary | createTemporary | temporary | edit | rebuild | save | requestShutdown | accept
  | reserved
  | unreserve
  | initializeAsync | runTask | finishTask | initializationFailed | submitJob => trivial

/-- A frame that waits knows of leases only. -/
theorem FrameOk.leased {f : Frame} (h : FrameOk g i s f) (hf : f.waits = true)
    (hs : OperationCoordinator.Inv s.leases)
    (hr : Leased g g' i s t) : FrameOk g' i t f := by
  cases f with
  | close l | callback l => exact Own.leased h hr
  | rebuilding l => exact Exclusive.leased h hs hr
  | raise | closeOwned | quiesce | accept | reserved | finishTask => trivial
  | _ => simp [Frame.waits] at hf

/-- **A stack stays in order while the others work.** -/
theorem StackOk.rely {stack : List Frame} (h : StackOk g i s stack)
    (hs : OperationCoordinator.Inv s.leases)
    (hr : Rely g g' i s t) : StackOk g' i t stack := by
  induction stack with
  | nil => trivial
  | cons f rest ih => exact ⟨h.1.rely hs hr, h.2.1, h.2.2.1, ih h.2.2.2⟩

/-- Each frame of a stack is in order. -/
theorem StackOk.frame {stack : List Frame} (h : StackOk g i s stack) :
    ∀ f ∈ stack, FrameOk g i s f := by
  induction stack with
  | nil => simp
  | cons f rest ih =>
    intro x hx
    rcases List.mem_cons.1 hx with rfl | hx
    · exact h.1
    · exact ih h.2.2.2 x hx

/-- The frames below stay, and know of leases only. -/
theorem StackOk.replace {f : Frame} {rest frames : List Frame} (h : StackOk g i s (f :: rest))
    (hrest : ∀ x ∈ rest, FrameOk g' i t x) (hframes : StackOk g' i t frames)
    (hwaits : ∀ x ∈ frames, x.outer = true → f.outer = true) :
    StackOk g' i t (frames ++ rest) := by
  obtain ⟨-, hbelow, houter, hstack⟩ := h
  have hself : StackOk g' i t rest := by
    clear houter hframes
    induction rest with
    | nil => trivial
    | cons x rest ih =>
      obtain ⟨-, hb, ho, hst⟩ := hstack
      exact ⟨hrest x List.mem_cons_self, hb, ho,
        ih (fun y hy => hrest y (List.mem_cons_of_mem _ hy)) (fun y hy =>
          hbelow y (List.mem_cons_of_mem _ hy)) hst⟩
  induction frames with
  | nil => exact hself
  | cons x frames ih =>
    obtain ⟨hx, hb, ho, hst⟩ := hframes
    refine ⟨hx, fun y hy => ?_, fun hxo y hy => ?_, ih hst fun y hy =>
      hwaits y (List.mem_cons_of_mem _ hy)⟩
    · rcases List.mem_append.1 hy with hy | hy
      · exact hb y hy
      · exact hbelow y hy
    · rcases List.mem_append.1 hy with hy | hy
      · exact ho hxo y hy
      · exact houter (hwaits x List.mem_cons_self hxo) y hy

end ProjectRuntime

end Libjadx
