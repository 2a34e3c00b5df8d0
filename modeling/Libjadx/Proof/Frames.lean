import Libjadx.Proof.System

/-!
# The other frames

`Frame.run_goes`: every frame of a thread goes (`Goes`). What is here publishes nothing, except for
the initialisation, which publishes once.
-/

namespace Libjadx

namespace ProjectRuntime

open Locked
open NativeProjectRepository (Same Untouched At)

variable {env : RuntimeEnv} {s t u : Runtime} {i j : ℕ} {g g' : Ghost} {l : LeaseId} {f : Frame}
    {rest frames : List Frame}
  {c : Choice}

/-! ## Sections that are calm -/

/-- A calm section, whatever it returns. -/
theorem goes_plain {α : Type} {m : Section α} {done : α → List Frame}
    (hst : StackOk g i s (f :: rest)) (hs : Shared g s)
    (hm : Calms m) (h : Frame.section_ s m done = some (t, frames))
    (hdone : ∀ a t, StackOk g i t (done a) ∧ ∀ x ∈ done a, x.outer = false) :
    Goes env g i s f rest t frames :=
  goes_section hst hs hm h fun a _ _ =>
    ⟨(hdone a t).1, fun x hx ho => by simp [(hdone a t).2 x hx] at ho⟩

/-- A frame that returns. -/
theorem goes_returns (hst : StackOk g i s (f :: rest)) (hs : Shared g s) :
    Goes env g i s f rest s [] :=
  goes_calm hst hs (.refl s) trivial (by simp)

/-- An exception is raised with nothing changed. -/
theorem goes_raises (hst : StackOk g i s (f :: rest)) (hs : Shared g s) (e : Throwable) :
    Goes env g i s f rest s [.raise e] :=
  goes_calm hst hs (.refl s) (stackOk_raise e) (by simp [Frame.outer])

/-- `closeInternal()`: the lifecycle goes down, and the identity goes. -/
theorem goes_closeInternal (hst : StackOk g i s (.closeInternal :: rest)) (hs : Shared g s)
    (h : Frame.run env s .closeInternal c = some (t, frames)) :
    Goes env g i s .closeInternal rest t frames := by
  refine goes_plain hst hs calms_shutDown h fun a t => ?_
  cases a with
  | none => exact ⟨trivial, by simp⟩
  | some detached => exact ⟨stackOk_one trivial, by simp [Frame.outer]⟩

/-- The rest of a shutdown. -/
theorem goes_shutdown {detached : Option EngineId}
    (hst : StackOk g i s (.shutdown detached :: rest)) (hs : Shared g s)
    (h : Frame.run env s (.shutdown detached) c = some (t, frames)) :
    Goes env g i s (.shutdown detached) rest t frames := by
  refine goes_plain hst hs calms_ofRegistry h fun _ t => ?_
  cases detached with
  | none => exact ⟨stackOk_one trivial, by simp [Frame.outer]⟩
  | some e => exact stackOk_cleanUp

/-- The close of an engine that the thread owns. -/
theorem goes_closeOwned {e : EngineId} {reports : Bool}
    (hst : StackOk g i s (.closeOwned e reports :: rest)) (hs : Shared g s)
    (h : Frame.run env s (.closeOwned e reports) c = some (t, frames)) :
    Goes env g i s (.closeOwned e reports) rest t frames := by
  cases c with
  | throws failure =>
    obtain ⟨rfl, rfl⟩ := Prod.mk.inj (Option.some.inj h)
    obtain ⟨hstack, hout⟩ : StackOk g i (closeEngine e s) (Frame.closed failure reports) ∧
        ∀ x ∈ Frame.closed failure reports, x.outer = false := stackOk_closed
    exact goes_calm hst hs (calm_closeEngine e s) hstack fun x hx ho => by simp [hout x hx] at ho
  | returns | captured | commits | loads | opens =>
    obtain ⟨rfl, rfl⟩ := Prod.mk.inj (Option.some.inj h)
    exact goes_calm hst hs (calm_closeEngine e s) trivial (by simp)

/-- A thread that quiesces. -/
theorem goes_quiesce {cleanup : Bool} (hst : StackOk g i s (.quiesce cleanup :: rest))
    (hs : Shared g s)
    (h : Frame.run env s (.quiesce cleanup) c = some (t, frames)) :
    Goes env g i s (.quiesce cleanup) rest t frames := by
  simp only [Frame.run] at h
  exact goes_plain hst hs calms_quiesce h fun _ _ => ⟨trivial, by simp⟩

/-- A fatal rebuild takes the project down. -/
theorem goes_reportFatalRebuild (hst : StackOk g i s (.reportFatalRebuild :: rest))
    (hs : Shared g s)
    (h : Frame.run env s .reportFatalRebuild c = some (t, frames)) :
    Goes env g i s .reportFatalRebuild rest t frames :=
  goes_plain hst hs calms_fail h fun _ _ => stackOk_cleanUp

/-! ## Reads -/

/-- The first check passes of a project that is ready. -/
theorem sample_ok {current : RepositoryId} {epoch : ℤ} (h : sample s = (.ok (current, epoch), t)) :
    t = s ∧ s.lifecycle = .READY ∧ s.repository = some current ∧ epoch = s.publicationEpoch := by
  unfold sample at h
  rcases requireReady_cases s with ⟨hr, -, hready, -⟩ | ⟨e, hr⟩
  swap
  · rw [bind_error hr] at h
    cases (Prod.mk.inj h).1
  rw [bind_ok hr, bind_get] at h
  cases hrep : s.repository with
  | none =>
    rw [hrep] at h
    cases (Prod.mk.inj h).1
  | some r =>
    rw [hrep] at h
    obtain ⟨ho, rfl⟩ := Prod.mk.inj h
    obtain ⟨rfl, rfl⟩ := Prod.mk.inj (Except.ok.inj ho)
    exact ⟨rfl, hready, rfl, rfl⟩

/-- The second look finds the project ready, and the epoch as it was. -/
theorem recheck_true {current : RepositoryId} {epoch : ℤ}
    (h : recheck current epoch s = (.ok true, t)) :
    t = s ∧ s.lifecycle = .READY ∧ s.repository = some current ∧ s.publicationEpoch = epoch := by
  unfold recheck at h
  rcases requireReady_cases s with ⟨hr, -, hready, -⟩ | ⟨e, hr⟩
  swap
  · rw [bind_error hr] at h
    cases (Prod.mk.inj h).1
  rw [bind_ok hr, bind_get] at h
  obtain ⟨ho, rfl⟩ := Prod.mk.inj h
  have hsame := Except.ok.inj ho
  rw [Bool.and_eq_true, decide_eq_true_eq, decide_eq_true_eq] at hsame
  exact ⟨rfl, hready, hsame.1, hsame.2⟩

/-- The first check of a read. -/
theorem goes_readPublished {r : PublishedRead} (hst : StackOk g i s (.readPublished r :: rest))
    (hs : Shared g s)
    (h : Frame.run env s (.readPublished r) c = some (t, frames)) :
    Goes env g i s (.readPublished r) rest t frames := by
  refine goes_section hst hs calms_sample h fun a ha _ => ?_
  obtain ⟨current, epoch⟩ := a
  obtain ⟨rfl, -, hrep, rfl⟩ := sample_ok ha
  exact ⟨stackOk_one ⟨hrep, le_rfl⟩, by simp [Frame.outer]⟩

/-- The read itself. -/
theorem goes_read {r : PublishedRead} {current : RepositoryId} {epoch : ℤ}
    (hst : StackOk g i s (.read r current epoch :: rest))
    (hs : Shared g s) (h : Frame.run env s (.read r current epoch) c = some (t, frames)) :
    Goes env g i s (.read r current epoch) rest t frames := by
  obtain ⟨hrep, hle⟩ : FrameOk g i s (.read r current epoch) := hst.1
  obtain ⟨hstate, hresult⟩ := NativeProjectRepository.read_apply r (s.heap current)
  have hcalm : Calms (ofRepository current r.apply) := calms_ofRepository fun s => by
    rw [(NativeProjectRepository.read_apply r s).1]
    exact .refl s
  refine goes_section hst hs hcalm h fun a ha _ => ?_
  rw [ofRepository_untouched hstate] at ha
  obtain ⟨ho, rfl⟩ := Prod.mk.inj ha
  exact ⟨stackOk_one ⟨hrep, hle, fun _ => hresult a ho⟩, by simp [Frame.outer]⟩

/-- The second check of a read. -/
theorem goes_recheck {r : PublishedRead} {current : RepositoryId} {epoch : ℤ} {result : Published}
    (hst : StackOk g i s (.recheck r current epoch result :: rest)) (hs : Shared g s)
    (h : Frame.run env s (.recheck r current epoch result) c = some (t, frames)) :
    Goes env g i s (.recheck r current epoch result) rest t frames := by
  refine goes_plain hst hs calms_recheck h fun same _ => ?_
  cases same with
  | true => exact ⟨stackOk_one trivial, by simp [Frame.outer]⟩
  | false => exact ⟨stackOk_one trivial, by simp [Frame.outer]⟩

/-! ## Callbacks -/

/-- The callback of an operation. -/
theorem goes_callback (hst : StackOk g i s (.callback l :: rest)) (hs : Shared g s)
    (h : Frame.run env s (.callback l) c = some (t, frames)) :
    Goes env g i s (.callback l) rest t frames := by
  have hown : Own g i s l := hst.1
  cases c with
  | returns =>
    obtain ⟨rfl, rfl⟩ := Prod.mk.inj (Option.some.inj h)
    exact goes_returns hst hs
  | throws e =>
    obtain ⟨rfl, rfl⟩ := Prod.mk.inj (Option.some.inj h)
    exact goes_raises hst hs e
  | captured =>
    have hnext : ∀ t, Own g i t l → FrameOk g i t (.callback l) := fun _ hown => hown
    exact goes_captured hst hs hown hnext rfl h
  | commits | loads | opens => simp [Frame.run] at h

/-- The capture of a lease. -/
theorem goes_capture (hst : StackOk g i s (.capture l :: rest)) (hs : Shared g s)
    (h : Frame.run env s (.capture l) c = some (t, frames)) :
    Goes env g i s (.capture l) rest t frames := by
  have hown : Own g i s l := hst.1
  have hcaptured : Frame.section_ s (ofCoordinator (OperationCoordinator.finishSnapshotCapture l))
      (fun _ => [.createTemporary]) = some (t, frames) →
          Goes env g i s (.capture l) rest t frames :=
    goes_captured hst hs hown (fun _ _ => trivial) rfl
  cases c with
  | throws e =>
    obtain ⟨rfl, rfl⟩ := Prod.mk.inj (Option.some.inj h)
    exact goes_raises hst hs e
  | returns | captured | commits | loads | opens => exact hcaptured h

/-- A temporary engine is created, -/
theorem goes_createTemporary (hst : StackOk g i s (.createTemporary :: rest)) (hs : Shared g s)
    (h : Frame.run env s .createTemporary c = some (t, frames)) :
    Goes env g i s .createTemporary rest t frames := by
  cases c with
  | loads args =>
    obtain ⟨rfl, rfl⟩ := Prod.mk.inj (Option.some.inj h)
    obtain ⟨hstack, hout⟩ : StackOk g i (create args s) [.temporary, .closeOwned s.created false] ∧
        ∀ x ∈ [Frame.temporary, .closeOwned s.created false], x.outer = false :=
          stackOk_over trivial rfl (by simp [Frame.plain])
    exact goes_calm hst hs (calm_create args s) hstack fun x hx ho => by simp [hout x hx] at ho
  | throws e =>
    obtain ⟨rfl, rfl⟩ := Prod.mk.inj (Option.some.inj h)
    exact goes_raises hst hs e
  | returns | captured | commits | opens => simp [Frame.run] at h

/-- and used. -/
theorem goes_temporary (hst : StackOk g i s (.temporary :: rest)) (hs : Shared g s)
    (h : Frame.run env s .temporary c = some (t, frames)) :
    Goes env g i s .temporary rest t frames := by
  cases c with
  | throws e =>
    obtain ⟨rfl, rfl⟩ := Prod.mk.inj (Option.some.inj h)
    exact goes_raises hst hs e
  | returns | captured | commits | loads | opens =>
    obtain ⟨rfl, rfl⟩ := Prod.mk.inj (Option.some.inj h)
    exact goes_returns hst hs

/-! ## Frames that admit -/

/-- An operation is admitted, or refused. -/
theorem goes_admitOperation {request : OperationRequest}
    (hst : StackOk g i s (.admitOperation request :: rest)) (hs : Shared g s)
    (h : Frame.run env s (.admitOperation request) c = some (t, frames)) :
    Goes env g i s (.admitOperation request) rest t frames := by
  have hnext : ∀ l, Takes s t l request → FrameOk (g.take l (some i)) i t (.callback l) ∧
      (Frame.callback l).outer = false :=
    fun _ ht => ⟨ht.own, rfl⟩
  exact goes_admitted hst hs rfl hnext h

/-- A temporary analysis is admitted, or refused. -/
theorem goes_admitTemporary {key : JString} (hst : StackOk g i s (.admitTemporary key :: rest))
    (hs : Shared g s)
    (h : Frame.run env s (.admitTemporary key) c = some (t, frames)) :
    Goes env g i s (.admitTemporary key) rest t frames := by
  have hnext : ∀ l, Takes s t l ⟨.TEMPORARY_ANALYSIS, key⟩ → FrameOk (g.take l (some i)) i t
      (.capture l) ∧
      (Frame.capture l).outer = false := fun _ ht => ⟨ht.own, rfl⟩
  exact goes_admitted hst hs rfl hnext h

/-- An edit is admitted. -/
theorem goes_edit (hst : StackOk g i s (.edit :: rest)) (hs : Shared g s)
    (h : Frame.run env s .edit c = some (t, frames)) : Goes env g i s .edit rest t frames := by
  have hnext : ∀ l, Takes s t l ⟨.PROJECT_EXCLUSIVE, str "native-edit-batch"⟩ →
      FrameOk (g.take l (some i)) i t (.editing l) ∧ (Frame.editing l).outer = false := fun _ ht =>
        ⟨ht.exclusive rfl, rfl⟩
  exact goes_admitted hst hs rfl hnext h

/-- A save is admitted. -/
theorem goes_save {target : Option Path} {sid : JString} {rev : Option ℤ}
    (hst : StackOk g i s (.save target sid rev :: rest))
    (hs : Shared g s) (h : Frame.run env s (.save target sid rev) c = some (t, frames)) :
    Goes env g i s (.save target sid rev) rest t frames := by
  have hnext : ∀ l, Takes s t l ⟨.PROJECT_EXCLUSIVE, str "native-save"⟩ →
      FrameOk (g.take l (some i)) i t (.saving l target sid rev) ∧
          (Frame.saving l target sid rev).outer = false :=
    fun _ ht => ⟨ht.exclusive rfl, rfl⟩
  exact goes_admitted hst hs rfl hnext h

/-! ## The loader's frames -/

/-- What a failure of the initialisation leaves to do. -/
theorem goes_initializeFailed {e : Throwable} {engine : List Frame}
    (hst : StackOk g i s (f :: rest)) (hs : Shared g s)
    (hc : Calm s t) (hengine : ∀ x ∈ engine, x.plain = true) :
    Goes env g i s f rest t (Frame.initializeFailed e engine) := by
  obtain ⟨hstack, hout⟩ : StackOk g i t (Frame.initializeFailed e engine) ∧
      ∀ x ∈ Frame.initializeFailed e engine, x.outer = false := stackOk_initializeFailed hengine
  exact goes_calm hst hs hc hstack fun x hx ho => by simp [hout x hx] at ho

/-- What publishes nothing leaves the loading thread what it knows. -/
theorem Loads.calm (h : Loads g i s) (hc : Calm s t) : Loads g i t := ⟨h.1, hc.repository.trans h.2⟩

/-- The project is opened. -/
theorem goes_openProject (hst : StackOk g i s (.openProject :: rest)) (hs : Shared g s)
    (h : Frame.run env s .openProject c = some (t, frames)) :
    Goes env g i s .openProject rest t frames := by
  have hloads : Loads g i s := hst.1
  cases c with
  | throws e =>
    obtain ⟨rfl, rfl⟩ := Prod.mk.inj (Option.some.inj h)
    exact goes_initializeFailed hst hs (.refl s) (by simp)
  | opens repository =>
    cases repository with
    | none =>
      obtain ⟨rfl, rfl⟩ := Prod.mk.inj (Option.some.inj h)
      exact goes_calm hst hs (.refl s) (stackOk_one hloads) (by simp [Frame.outer])
    | some r =>
      simp only [Frame.run] at h
      have hc := calms_snapshot (r := r) s
      rcases ho : ofRepository r NativeProjectRepository.snapshot s with ⟨e | snapshot, u⟩
      · rw [ho] at h hc
        obtain ⟨rfl, rfl⟩ := Prod.mk.inj (Option.some.inj h)
        exact goes_initializeFailed hst hs hc (by simp)
      · rw [ho] at h hc
        dsimp only at h
        split at h
        · obtain ⟨rfl, rfl⟩ := Prod.mk.inj (Option.some.inj h)
          exact goes_initializeFailed hst hs hc (by simp)
        · obtain ⟨rfl, rfl⟩ := Prod.mk.inj (Option.some.inj h)
          exact goes_calm hst hs hc (stackOk_one (hloads.calm hc)) (by simp [Frame.outer])
  | returns | captured | commits | loads => simp [Frame.run] at h

/-- The thread looks whether it still loads, -/
theorem goes_loading {r : Option RepositoryId} {args : JadxArgs}
    (hst : StackOk g i s (.loading r args :: rest)) (hs : Shared g s)
    (h : Frame.run env s (.loading r args) c = some (t, frames)) :
    Goes env g i s (.loading r args) rest t frames := by
  have hloads : Loads g i s := hst.1
  simp only [Frame.run] at h
  refine goes_section hst hs calms_isLoading h fun loading _ hc => ?_
  cases loading with
  | true => exact ⟨stackOk_one (hloads.calm hc), by simp [Frame.outer]⟩
  | false => exact ⟨trivial, by simp⟩

/-- creates its engine, -/
theorem goes_createLocal {r : Option RepositoryId} {args : JadxArgs}
    (hst : StackOk g i s (.createLocal r args :: rest))
    (hs : Shared g s) (h : Frame.run env s (.createLocal r args) c = some (t, frames)) :
    Goes env g i s (.createLocal r args) rest t frames := by
  have hloads : Loads g i s := hst.1
  cases c with
  | returns =>
    obtain ⟨rfl, rfl⟩ := Prod.mk.inj (Option.some.inj h)
    exact goes_calm hst hs (calm_create args s) (stackOk_one (hloads.calm (calm_create args s)))
      (by simp [Frame.outer])
  | throws e =>
    obtain ⟨rfl, rfl⟩ := Prod.mk.inj (Option.some.inj h)
    exact goes_initializeFailed hst hs (.refl s) (by simp)
  | captured | commits | loads | opens => simp [Frame.run] at h

/-- looks again, -/
theorem goes_stillLoading {r : Option RepositoryId} {e : EngineId}
    (hst : StackOk g i s (.stillLoading r e :: rest))
    (hs : Shared g s) (h : Frame.run env s (.stillLoading r e) c = some (t, frames)) :
    Goes env g i s (.stillLoading r e) rest t frames := by
  have hloads : Loads g i s := hst.1
  simp only [Frame.run] at h
  refine goes_section hst hs calms_isLoading h fun loading _ hc => ?_
  cases loading with
  | true => exact ⟨stackOk_one (hloads.calm hc), by simp [Frame.outer]⟩
  | false => exact ⟨stackOk_one trivial, by simp [Frame.outer]⟩

/-- loads the engine, -/
theorem goes_loadLocal {r : Option RepositoryId} {e : EngineId}
    (hst : StackOk g i s (.loadLocal r e :: rest))
    (hs : Shared g s) (h : Frame.run env s (.loadLocal r e) c = some (t, frames)) :
    Goes env g i s (.loadLocal r e) rest t frames := by
  have hloads : Loads g i s := hst.1
  cases c with
  | loads args =>
    obtain ⟨rfl, rfl⟩ := Prod.mk.inj (Option.some.inj h)
    exact goes_calm hst hs (calm_loaded e args s) (stackOk_one (hloads.calm (calm_loaded e args s)))
      (by simp [Frame.outer])
  | throws failure =>
    obtain ⟨rfl, rfl⟩ := Prod.mk.inj (Option.some.inj h)
    exact goes_initializeFailed hst hs (.refl s) (by simp [Frame.plain])
  | returns | captured | commits | opens => simp [Frame.run] at h

/-- The check of the baselines publishes nothing. -/
theorem calms_checkAnalysisBaselines {r : RepositoryId} {disk : Disk} :
    Calms (ofRepository r (NativeProjectRepository.checkAnalysisBaselines disk)) :=
  calms_ofRepository fun _ => (NativeProjectRepository.Keeps.untouched
    (NativeProjectRepository.keeps_checkAnalysisBaselines NativeProjectRepository.stable_untouched)).same

/-- and checks that nothing has changed on disk. -/
theorem goes_checkLocal {r : Option RepositoryId} {e : EngineId}
    (hst : StackOk g i s (.checkLocal r e :: rest))
    (hs : Shared g s) (h : Frame.run env s (.checkLocal r e) c = some (t, frames)) :
    Goes env g i s (.checkLocal r e) rest t frames := by
  have hloads : Loads g i s := hst.1
  simp only [Frame.run] at h
  cases r with
  | none =>
    obtain ⟨rfl, rfl⟩ := Prod.mk.inj (Option.some.inj h)
    exact goes_calm hst hs (.refl s) (stackOk_one hloads) (by simp [Frame.outer])
  | some current =>
    dsimp only at h
    have hc : Calm s (ofRepository current
        (NativeProjectRepository.checkAnalysisBaselines (env.disk current)) s).2 :=
      calms_checkAnalysisBaselines s
    rcases ho : ofRepository current
      (NativeProjectRepository.checkAnalysisBaselines (env.disk current)) s with ⟨failure | ⟨⟩, u⟩
    · rw [ho] at h hc
      obtain ⟨rfl, rfl⟩ := Prod.mk.inj (Option.some.inj h)
      exact goes_initializeFailed hst hs hc (by simp [Frame.plain])
    · rw [ho] at h hc
      obtain ⟨rfl, rfl⟩ := Prod.mk.inj (Option.some.inj h)
      exact goes_calm hst hs hc (stackOk_one (hloads.calm hc)) (by simp [Frame.outer])

/-- What `initialize` hands over before it looks at the project. -/
def handedOver (s : Runtime) (loaded : Option RepositoryId) (e : EngineId) : Runtime :=
  { s with activeEngine := some e, repository := loaded }

/-- **How the loaded project is published**: not at all, where the project is not loading any more.
-/
theorem publishLoaded_ends {loaded : Option RepositoryId} {e : EngineId}
    {failure : Option Throwable}
    {o : Except Throwable Bool} (h : publishLoaded env loaded e failure s = (o, t)) :
    (o = .ok false ∧ t = s) ∨ s.lifecycle = .LOADING ∧
      ((o = .ok true ∧ loaded = none ∧ t = ready (handedOver s none e)) ∨
        (∃ r x, o = .error x ∧ loaded = some r ∧ t = handedOver s (some r) e) ∨
        ∃ r, o = .ok true ∧ loaded = some r ∧ t = ready
          (admitted env (handedOver s (some r) e) r)) := by
  unfold publishLoaded at h
  rw [bind_get, ite_run] at h
  split at h
  swap
  · obtain ⟨rfl, rfl⟩ := Prod.mk.inj h
    exact .inl ⟨rfl, rfl⟩
  rename_i hloading
  refine .inr ⟨hloading, ?_⟩
  rw [bind_modify] at h
  cases loaded with
  | none =>
    obtain ⟨rfl, rfl⟩ := Prod.mk.inj h
    exact .inl ⟨rfl, rfl, rfl⟩
  | some r =>
    change (do
      let p ← snapshotOf r failure
      publishAdmission env p
      modify ready
      pure true : Section Bool) (handedOver s (some r) e) = (o, t) at h
    rcases hsn : snapshotOf r failure (handedOver s (some r) e) with ⟨x | p, u⟩
    · have hu := (snapshotOf_ends hsn).1
      rw [bind_error hsn] at h
      obtain ⟨rfl, rfl⟩ := Prod.mk.inj h
      exact .inr (.inl ⟨r, x, rfl, rfl, hu⟩)
    · obtain ⟨hu, hp⟩ := snapshotOf_ends hsn
      obtain ⟨hsid, hrev⟩ := hp p rfl
      rw [bind_ok hsn, hu, bind_ok (publishAdmission_run hsid hrev), bind_modify] at h
      obtain ⟨rfl, rfl⟩ := Prod.mk.inj h
      exact .inr (.inr ⟨r, rfl, rfl, rfl⟩)

/-- The loading thread publishes, or closes what it owns. -/
theorem goes_publishLocal {r : Option RepositoryId} {e : EngineId}
    (hst : StackOk g i s (.publishLocal r e :: rest))
    (hs : Shared g s) (h : Frame.run env s (.publishLocal r e) c = some (t, frames)) :
    Goes env g i s (.publishLocal r e) rest t frames := by
  have hloads : Loads g i s := hst.1
  have hloader : g.loader ≠ none := by simp [hloads.1]
  -- what is handed over is handed over while the project is loading
  have hgoes : ∀ {u : Runtime} {frames : List Frame}, s.lifecycle = .LOADING → u.leases = s.leases →
      u.heap = s.heap →
      u.publicationEpoch = s.publicationEpoch → Shared g u → (Current env s → Current env u) →
        StackOk g i u frames →
      (∀ x ∈ frames, x.outer = false) → Goes env g i s (.publishLocal r e) rest u frames := by
    intro u frames hloading hleases hheap hepoch hshared hcur hframes hout
    refine goes hst hs hshared (fun j hj => rely_of_loads hloads hj hleases hheap hepoch.ge)
      (leased_of_eq hleases rfl) hframes
      (fun x hx ho => by simp [hout x hx] at ho) ⟨hepoch.ge, fun hd => ?_, fun _ hready => ?_⟩
        fun _ => hcur
    · simp [Down, hloading] at hd
    · simp [hloading] at hready
  have hunstarted := hs.unstarted
  have hqueued := hs.queued
  simp only [Frame.run] at h
  rcases hp : publishLoaded env r e c.fatal s with ⟨o, u⟩
  rw [hp] at h
  rcases publishLoaded_ends hp with ⟨rfl, rfl⟩ | ⟨hloading,
    ⟨rfl, rfl, rfl⟩ | ⟨r', x, rfl, rfl, rfl⟩ | ⟨r', rfl, rfl, rfl⟩⟩
  -- closed meanwhile: nothing is handed over
  · obtain ⟨rfl, rfl⟩ := Prod.mk.inj (Option.some.inj h)
    exact goes_calm hst hs (.refl _) (stackOk_one trivial) (by simp [Frame.outer])
  -- ready without a project
  · obtain ⟨rfl, rfl⟩ := Prod.mk.inj (Option.some.inj h)
    have hshared : Shared g (ready (handedOver s none e)) :=
      ⟨hs.leases, hs.jobs, fun _ r hr => (Option.not_mem_none r hr).elim, hunstarted, hqueued,
        fun hl => absurd hl hloader⟩
    refine hgoes hloading rfl rfl rfl hshared (fun hc k hk => ?_) trivial (by simp)
    have hk' : k ∈ s.publishedSearchIdentity := hk
    rw [hc.none (by simp [hloading])] at hk'
    cases hk'
  -- the admission failed, so the engine is closed again
  · obtain ⟨rfl, rfl⟩ := Prod.mk.inj (Option.some.inj h)
    obtain ⟨hstack, hout⟩ : StackOk g i (handedOver s (some r') e)
        (Frame.initializeFailed x [.closeOwned e false]) ∧
        ∀ y ∈ Frame.initializeFailed x [.closeOwned e false], y.outer = false :=
          stackOk_initializeFailed (by simp [Frame.plain])
    have hshared : Shared g (handedOver s (some r') e) := by
      refine ⟨hs.leases, hs.jobs, fun hlive => ?_, hunstarted, hqueued, fun hl => absurd hl hloader⟩
      have hlive' : Live s := hlive
      simp [Live, hloading] at hlive'
    refine hgoes hloading rfl rfl rfl hshared (fun hc k hk => ?_) hstack hout
    have hk' : k ∈ s.publishedSearchIdentity := hk
    rw [hc.none (by simp [hloading])] at hk'
    cases hk'
  -- ready, and admitted
  · obtain ⟨rfl, rfl⟩ := Prod.mk.inj (Option.some.inj h)
    have hshared : Shared g (ready (admitted env (handedOver s (some r') e) r')) := by
      refine ⟨hs.leases, hs.jobs, fun _ r hr => ?_, hunstarted, hqueued, fun hl =>
        absurd hl hloader⟩
      obtain rfl : r' = r := Option.some.inj hr
      rfl
    refine hgoes hloading rfl rfl rfl hshared (fun _ k hk => ?_) trivial (by simp)
    obtain rfl := Option.some.inj hk
    exact ⟨rfl, r', rfl, rfl⟩

/-! ## Every frame -/

/-- **Every step of a thread** keeps the invariant, and what all threads know. -/
theorem Frame.run_goes (hst : StackOk g i s (f :: rest)) (hs : Shared g s)
    (h : f.run env s c = some (t, frames)) : Goes env g i s f rest t frames := by
  cases f with
  | raise e => simp [Frame.run] at h
  | close l => exact goes_close hst hs h
  | remove l => exact goes_remove hst hs h
  | afterRelease l => exact goes_afterRelease hst hs h
  | closeInternal => exact goes_closeInternal hst hs h
  | shutdown detached => exact goes_shutdown hst hs h
  | closeOwned e reports => exact goes_closeOwned hst hs h
  | quiesce cleanup => exact goes_quiesce hst hs h
  | reportFatalRebuild => exact goes_reportFatalRebuild hst hs h
  | readPublished r => exact goes_readPublished hst hs h
  | read r current epoch => exact goes_read hst hs h
  | recheck r current epoch result => exact goes_recheck hst hs h
  | returned result | rebuilding l | reserved registry =>
    obtain ⟨rfl, rfl⟩ := Prod.mk.inj (Option.some.inj h)
    exact goes_returns hst hs
  | admitOperation request => exact goes_admitOperation hst hs h
  | callback l => exact goes_callback hst hs h
  | admitTemporary key => exact goes_admitTemporary hst hs h
  | capture l => exact goes_capture hst hs h
  | createTemporary => exact goes_createTemporary hst hs h
  | temporary => exact goes_temporary hst hs h
  | edit => exact goes_edit hst hs h
  | editing l => exact goes_editing hst hs h
  | operation l current engine before => exact goes_operation hst hs h
  | stageEdit l current engine before edited => exact goes_stageEdit hst hs h
  | editArguments l current engine before candidate => exact goes_editArguments hst hs h
  | rebuild change => exact goes_rebuild hst hs h
  | stageRebuild l change => exact goes_stageRebuild hst hs h
  | measure l current old candidate rev => exact goes_measure hst hs h
  | rebuildFailed l => exact goes_rebuildFailed hst hs h
  | create p => exact goes_create hst hs h
  | load p e => exact goes_load hst hs h
  | publish p e => exact goes_publish hst hs h
  | save target sid rev => exact goes_save hst hs h
  | saving l target sid rev => exact goes_saving hst hs h
  | publishSaved l current saved => exact goes_publishSaved hst hs h
  | requestShutdown policy => exact goes_requestShutdown hst hs h
  | inspect policy lease => exact goes_inspect hst hs h
  | accept =>
    simp only [Frame.run] at h
    exact goes_plain hst hs calms_accept h fun _ _ => ⟨trivial, by simp⟩
  | unreserve registry =>
    simp only [Frame.run] at h
    exact goes_plain hst hs calms_unreserve h fun _ _ => ⟨trivial, by simp⟩
  | initializeAsync => exact goes_initializeAsync hst hs h
  | runTask => exact goes_runTask hst hs h
  | finishTask =>
    simp only [Frame.run] at h
    exact goes_plain hst hs calms_finishTask h fun _ _ => ⟨trivial, by simp⟩
  | openProject => exact goes_openProject hst hs h
  | loading r args => exact goes_loading hst hs h
  | createLocal r args => exact goes_createLocal hst hs h
  | stillLoading r e => exact goes_stillLoading hst hs h
  | loadLocal r e => exact goes_loadLocal hst hs h
  | checkLocal r e => exact goes_checkLocal hst hs h
  | publishLocal r e => exact goes_publishLocal hst hs h
  | initializationFailed =>
    simp only [Frame.run] at h
    exact goes_plain hst hs calms_initializationFailed h fun _ _ => ⟨trivial, by simp⟩
  | submitJob spec =>
    simp only [Frame.run] at h
    exact goes_plain hst hs calms_submitJob h fun _ _ => ⟨trivial, by simp⟩

end ProjectRuntime

end Libjadx
