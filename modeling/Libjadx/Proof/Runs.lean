import Libjadx.Proof.Frames

/-!
# Runs of the runtime

* `System.Inv`: what every state of a run has, of the fields and of every thread.
* `identity_current`: the search identity is never stale, where every save comes back to a project
  that is ready.
-/

namespace Libjadx

namespace ProjectRuntime

open Locked
open NativeProjectRepository (Same Untouched At)

variable {env : RuntimeEnv} {s t u : Runtime} {i j : ℕ} {g g' : Ghost} {l : LeaseId} {f : Frame}
    {rest frames : List Frame}

/-! ## Exceptions -/

/-- A frame that waits takes an exception with what it knows. -/
theorem stackOk_catches {e : Throwable} (h : StackOk g i s (.raise e :: f :: rest)) :
    StackOk g i s (f.catches e ++ rest) := by
  obtain ⟨-, hwaits, -, hst⟩ := h
  have hf : FrameOk g i s f := hst.1
  have hplain : ∀ x : Frame, FrameOk g i s x → (x.outer = true → f.outer = true) →
      StackOk g i s ([x, .raise e] ++ rest) := by
    intro x hx ho
    refine hst.replace (fun y hy => hst.frame y (List.mem_cons_of_mem _ hy)) ?_ fun y hy hyo => ?_
    · exact stackOk_cons hx (by simp [Frame.waits]) (by simp [Frame.rebuilds]) (stackOk_raise e)
    · obtain rfl | hy := List.mem_cons.1 hy
      · exact ho hyo
      · obtain rfl := List.mem_singleton.1 hy
        cases hyo
  have hraise : StackOk g i s ([.raise e] ++ rest) :=
    hst.replace (fun y hy => hst.frame y (List.mem_cons_of_mem _ hy)) (stackOk_raise e) (by simp [Frame.outer])
  have hw := hwaits f List.mem_cons_self
  cases f with
  | raise | callback | accept => exact hraise
  | close l => exact hplain (.close l) hf fun _ => rfl
  | closeOwned engine reports => exact hplain (.closeOwned engine reports) trivial fun ho => by cases ho
  | quiesce cleanup =>
    cases cleanup with
    | true => exact hplain (.quiesce true) trivial fun ho => by cases ho
    | false => exact hraise
  | rebuilding l =>
    show StackOk g i s ((if e.isError then [.reportFatalRebuild, .raise e]
      else [.rebuildFailed l, .raise e]) ++ rest)
    split
    · exact hplain .reportFatalRebuild trivial fun ho => by cases ho
    · exact hplain (.rebuildFailed l) hf fun ho => by cases ho
  | reserved registry => exact hplain (.unreserve registry) trivial fun ho => by cases ho
  | finishTask =>
    have hdone : StackOk g i s ([.finishTask] ++ rest) :=
      hst.replace (fun y hy => hst.frame y (List.mem_cons_of_mem _ hy)) (stackOk_one trivial)
        (by simp [Frame.outer])
    exact hdone
  | _ => cases hw

/-! ## Jobs -/

/-- An admission that ends has taken its lease, or changed nothing. -/
theorem admitJob_ends {request : OperationRequest} {expected : Admission}
    {o : Except Throwable LeaseId}
    (h : admitJob request expected s = (o, t)) :
    (∃ l, o = .ok l ∧ Takes s t l request ∧ s.lifecycle = .READY ∧ s.publishedAdmission = expected) ∨
      ∃ e, o = .error e ∧ t = s := by
  unfold admitJob at h
  rw [bind_get, ite_run] at h
  split at h
  · obtain ⟨rfl, rfl⟩ := Prod.mk.inj h
    exact .inr ⟨_, rfl, rfl⟩
  rcases requireReady_cases s with ⟨hr, -, hready, -⟩ | ⟨e, hr⟩
  swap
  · rw [bind_error hr] at h
    obtain ⟨rfl, rfl⟩ := Prod.mk.inj h
    exact .inr ⟨e, rfl, rfl⟩
  rw [bind_ok hr, ite_run] at h
  split at h
  · obtain ⟨rfl, rfl⟩ := Prod.mk.inj h
    exact .inr ⟨_, rfl, rfl⟩
  · rename_i hexpected
    rcases tryAdmit_ends h with ⟨l, rfl, ht⟩ | ⟨e, rfl, rfl⟩
    · exact .inl ⟨l, rfl, ht, hready, not_not.1 hexpected⟩
    · exact .inr ⟨e, rfl, rfl⟩

/-- A step of the registry's threads that brings no lease is calm. -/
theorem calm_answer {a : Libjadx.Act} (h : System.answer env s a = some t)
    (ha : ∀ l, a ≠ .tryAdmit (.lease l)) : Calm s t := by
  obtain ⟨p, hp, rfl⟩ := Option.map_eq_some_iff.1 h
  have hleases := Scheduler.act_leases (o := p.1) (t := p.2) hp
  exact ⟨rfl, rfl, rfl, ⟨rfl, rfl, rfl⟩, fun _ => .refl _, rfl, rfl, rfl, fun _ => rfl, fun _ h =>
    ⟨h, fun h => h⟩, fun h => h,
    fun h => h, fun l hl => (hleases l hl).resolve_right (ha l), fun h => h, .inl, fun _ => rfl⟩

/-- The lease of a job that was admitted goes to the dispatcher. -/
theorem answer_shared {request : OperationRequest} (hs : Shared g s) (ht : Takes s u l request)
    (h : System.answer env u (.tryAdmit (.lease l)) = some t) : Shared (g.take l none) t := by
  obtain ⟨p, hp, rfl⟩ := Option.map_eq_some_iff.1 h
  have hu := ht.shared hs none
  have hleases := Scheduler.act_leases (o := p.1) (t := p.2) hp
  refine ⟨hu.leases, fun k hk => ?_, hu.published, hu.unstarted, hu.queued, hu.unloaded⟩
  rcases hleases k hk with hk | hk
  · exact hu.jobs k hk
  · obtain rfl : l = k := Answer.lease.inj (Act.tryAdmit.inj hk)
    obtain ⟨hid, -, rfl⟩ := ht
    refine ⟨?_, Function.update_self _ _ _⟩
    exact hid ▸ Nat.lt_succ_self _

/-- A captured read touches neither jobs nor leases. -/
theorem captureSearchRead_fields (expected : SearchIndexKey) (r : Runtime) :
    (captureSearchRead expected r).2.jobs = r.jobs ∧
    (captureSearchRead expected r).2.leases = r.leases := by
  unfold captureSearchRead
  rcases requireReady_cases r with ⟨hready, -⟩ | ⟨e, hready⟩
  swap
  · rw [bind_error hready]
    exact ⟨rfl, rfl⟩
  rw [bind_ok hready, bind_get, ite_run]
  split
  · exact ⟨rfl, rfl⟩
  cases r.activeEngine with
  | none => exact ⟨rfl, rfl⟩
  | some engine =>
    cases r.repository with
    | none => exact ⟨rfl, rfl⟩
    | some current =>
      show ((ofRepository current NativeProjectRepository.snapshot >>= fun p =>
        pure p.revisions : Section RevisionState) r).2.jobs =
        r.jobs ∧ ((ofRepository current NativeProjectRepository.snapshot >>= fun p =>
          pure p.revisions : Section RevisionState)
          r).2.leases = r.leases
      rcases hp : ofRepository current NativeProjectRepository.snapshot r with ⟨e | p, u⟩
      · rw [bind_error hp]
        obtain ⟨-, rfl⟩ := Prod.mk.inj hp
        exact ⟨rfl, rfl⟩
      · rw [bind_ok hp]
        obtain ⟨-, rfl⟩ := Prod.mk.inj hp
        exact ⟨rfl, rfl⟩

end ProjectRuntime

namespace System

open ProjectRuntime

variable {env : RuntimeEnv} {s t : System}

/-- What every state of a run has. -/
def Inv (s : System) : Prop := ∃ g, Shared g s.runtime ∧ ∀ i, StackOk g i s.runtime (s.threads i)

/-- A step that no thread takes. -/
theorem Inv.calm (h : Inv s) {r : Runtime} (hc : Calm s.runtime r) :
    Inv { s with runtime := r } := by
  obtain ⟨g, hs, hst⟩ := h
  exact ⟨g, hc.shared hs, fun i => (hst i).rely hs.leases hc.rely⟩

/-- A thread gets a new stack. -/
theorem Inv.stack (h : Inv s) {i : ℕ} {stack : List Frame}
    (hstack : ∀ g, Shared g s.runtime → StackOk g i s.runtime (s.threads i) →
      StackOk g i s.runtime stack) :
    Inv { s with threads := Function.update s.threads i stack } := by
  obtain ⟨g, hs, hst⟩ := h
  refine ⟨g, hs, fun j => ?_⟩
  by_cases hj : j = i
  · subst hj
    show StackOk g j s.runtime (Function.update s.threads j stack j)
    rw [Function.update_self]
    exact hstack g hs (hst j)
  · show StackOk g j s.runtime (Function.update s.threads i stack j)
    rw [Function.update_of_ne hj]
    exact hst j

/-- How a thread steps. -/
inductive Stepped (env : RuntimeEnv) (s t : System) (i : ℕ) (c : Choice) : Prop
  | ends (e : Throwable) (hstack : s.threads i = [.raise e])
    (ht : t = { s with threads := Function.update s.threads i [] })
  | unwinds (e : Throwable) (f : Frame) (rest : List Frame) (hstack : s.threads i = .raise e :: f :: rest)
      (ht : t = { s with threads := Function.update s.threads i (f.catches e ++ rest) })
  | runs (f : Frame) (rest frames : List Frame) (r : Runtime) (hstack : s.threads i = f :: rest)
      (hrun : f.run env s.runtime c = some (r, frames))
        (ht : t = ⟨r, Function.update s.threads i (frames ++ rest)⟩)

/-- **What a step of a thread does, by the frame on its stack.** -/
theorem stepped {i : ℕ} {c : Choice} (h : act env s (.step i c) = some t) :
    Stepped env s t i c := by
  simp only [act] at h
  rcases hstack : s.threads i with - | ⟨f, rest⟩
  · rw [hstack] at h
    cases h
  rw [hstack] at h
  have hrun : (f.run env s.runtime c).map (fun p =>
      (⟨p.1, Function.update s.threads i (p.2 ++ rest)⟩ : System)) = some t →
      Stepped env s t i c := by
    intro h
    obtain ⟨⟨r, frames⟩, hr, rfl⟩ := Option.map_eq_some_iff.1 h
    exact .runs f rest frames r hstack hr rfl
  cases f with
  | raise e =>
    cases rest with
    | nil => exact .ends e hstack (Option.some.inj h).symm
    | cons f rest => exact .unwinds e f rest hstack (Option.some.inj h).symm
  | _ => exact hrun h

/-- A frame that a thread may start with is in order by itself. -/
theorem entry_ok {g : Ghost} {i : ℕ} {r : Runtime} {f : Frame} (h : f.entry = true) :
    StackOk g i r [f] := by
  cases f <;> first | exact stackOk_one trivial | cases h

/-- How the system steps. -/
inductive Acted (env : RuntimeEnv) (s t : System) : Act → Prop
  | begins (i : ℕ) (f : Frame) (hidle : s.threads i = []) (hentry : f.entry = true)
      (ht : t = { s with threads := Function.update s.threads i [f] }) : Acted env s t (.begin i f)
  | steps (i : ℕ) (c : Choice) (h : Stepped env s t i c) : Acted env s t (.step i c)
  | closes (i : ℕ) (l : LeaseId) (hidle : s.threads i = []) (hclosing : l ∈ s.runtime.jobs.closing)
      (ht : t = { s with threads := Function.update s.threads i [.close l] }) :
        Acted env s t (.closeJob i l)
  | admits (id : JobId) (l : LeaseId) (u r : Runtime) (hgate : s.runtime.jobs.dispatch = .gate id)
      (htakes : Takes s.runtime u l (s.runtime.jobs.registry.job id).spec.operation)
        (hready : s.runtime.lifecycle = .READY)
      (hadmission : s.runtime.publishedAdmission = (s.runtime.jobs.registry.job id).spec.admission)
      (hr : answer env u (.tryAdmit (.lease l)) = some r) (ht : t = { s with runtime := r }) :
        Acted env s t .admitJob
  /-- The registry steps, after a section that publishes nothing. -/
  | answers (a : Act) (b : Libjadx.Act) (u r : Runtime) (hcalm : Calm s.runtime u)
      (hjobs : u.jobs = s.runtime.jobs)
      (hleases : u.leases = s.runtime.leases) (hb : ∀ l, b ≠ .tryAdmit (.lease l))
        (hr : answer env u b = some r)
      (hstep : ∀ i c, a ≠ .step i c) (hfree : b = .capture none ∨ (∃ e, b = .capture (some e)) ∨
        (∃ e, b = .tryAdmit (.throws e)) ∨ free s.runtime b = true)
      (ht : t = { s with runtime := r }) : Acted env s t a
  | identifies (r : RepositoryId) (generation : ℤ) (computed : Option JString)
      (ht : t = { s with runtime := (ofRepository r
        (NativeProjectRepository.fingerprinted generation computed) s.runtime).2 }) :
      Acted env s t (.fingerprinted r generation computed)

/-- **What an act does.** -/
theorem acted {a : Act} (h : act env s a = some t) : Acted env s t a := by
  cases a with
  | begin i f =>
    simp only [act] at h
    split at h
    case isFalse => cases h
    rename_i hentry
    exact .begins i f hentry.1 hentry.2 (Option.some.inj h).symm
  | step i c => exact .steps i c (stepped h)
  | closeJob i l =>
    simp only [act] at h
    split at h
    case isFalse => cases h
    rename_i hclosing
    exact .closes i l hclosing.1 hclosing.2 (Option.some.inj h).symm
  | admitJob =>
    simp only [act] at h
    split at h
    case h_2 => cases h
    rename_i id hgate
    rcases hj : ProjectRuntime.admitJob (s.runtime.jobs.registry.job id).spec.operation
      (s.runtime.jobs.registry.job id).spec.admission s.runtime with ⟨e | l, u⟩
    · rw [hj] at h
      obtain ⟨r, hr, rfl⟩ := Option.map_eq_some_iff.1 h
      -- an admission that fails changes nothing
      rcases admitJob_ends hj with ⟨l, hl, -⟩ | ⟨e', -, rfl⟩
      · cases hl
      · exact .answers _ _ _ r (.refl _) rfl rfl (by simp) hr (by simp)
          (.inr (.inr (.inl ⟨e, rfl⟩))) rfl
    · rw [hj] at h
      obtain ⟨r, hr, rfl⟩ := Option.map_eq_some_iff.1 h
      -- one that succeeds has taken its lease
      rcases admitJob_ends hj with ⟨l', hl, htakes, hready, hadmission⟩ | ⟨e', he, -⟩
      swap
      · cases he
      obtain rfl := Except.ok.inj hl
      exact .admits id l u r hgate htakes hready hadmission hr rfl
  | captureSearch expected =>
    simp only [act] at h
    split at h
    case h_2 => cases h
    -- a capture only looks
    have hc : Calm s.runtime (captureSearchRead expected s.runtime).2 :=
      calms_captureSearchRead s.runtime
    obtain ⟨hjobs, hleases⟩ := captureSearchRead_fields expected s.runtime
    rcases hx : captureSearchRead expected s.runtime with ⟨e | x, u⟩
    · rw [hx] at h hc hjobs hleases
      obtain ⟨r, hr, rfl⟩ := Option.map_eq_some_iff.1 h
      exact .answers _ _ u r hc hjobs hleases (by simp) hr (by simp) (.inr (.inl ⟨e, rfl⟩)) rfl
    · rw [hx] at h hc hjobs hleases
      obtain ⟨r, hr, rfl⟩ := Option.map_eq_some_iff.1 h
      exact .answers _ _ u r hc hjobs hleases (by simp) hr (by simp) (.inl rfl) rfl
  | jobs a =>
    simp only [act] at h
    split at h
    case isFalse => cases h
    rename_i hfree
    obtain ⟨r, hr, rfl⟩ := Option.map_eq_some_iff.1 h
    refine .answers _ a _ r (.refl _) rfl rfl ?_ hr (by simp) (.inr (.inr (.inr hfree))) rfl
    rintro l rfl
    cases hfree
  | fingerprinted r generation computed => exact .identifies r generation computed (Option.some.inj h).symm

/-- **What a run keeps.** -/
theorem Inv.step {a : Act} (h : Inv s) (hact : act env s a = some t) : Inv t := by
  cases acted hact with
  | begins i f hidle hentry ht =>
    subst ht
    exact h.stack fun _ _ _ => entry_ok hentry
  | steps i c hstep =>
    cases hstep with
    | ends e hstack ht =>
      subst ht
      exact h.stack fun _ _ _ => trivial
    | unwinds e f rest hstack ht =>
      subst ht
      refine h.stack fun g _ hst => ?_
      rw [hstack] at hst
      exact stackOk_catches hst
    -- the thread that runs has a new stack, and every other one can rely on what it did
    | runs f rest frames r hstack hrun ht =>
      subst ht
      obtain ⟨g, hs, hst⟩ := h
      obtain ⟨-, -, g', hs', hrely, hst'⟩ := Frame.run_goes (hstack ▸ hst i) hs hrun
      refine ⟨g', hs', fun j => ?_⟩
      by_cases hj : j = i
      · subst hj
        show StackOk g' j r (Function.update s.threads j (frames ++ rest) j)
        rw [Function.update_self]
        exact hst'
      · show StackOk g' j r (Function.update s.threads i (frames ++ rest) j)
        rw [Function.update_of_ne hj]
        exact (hst j).rely hs.leases (hrely j hj)
  | closes i l hidle hclosing ht =>
    subst ht
    refine h.stack fun g hs _ => stackOk_one ?_
    -- a worker's lease has no holder among the threads
    obtain ⟨hissued, hholder⟩ := hs.jobs l (Scheduler.closing_leases hclosing)
    exact ⟨hissued, fun j hj => by rw [hholder] at hj; cases hj⟩
  | admits id l u r hgate htakes hready hadmission hr ht =>
    subst ht
    obtain ⟨g, hs, hst⟩ := h
    -- the new lease is held by no thread
    refine ⟨g.take l none, answer_shared hs htakes hr, fun i => ?_⟩
    obtain ⟨p, -, hp⟩ := Option.map_eq_some_iff.1 hr
    have hrely : Rely g (g.take l none) i s.runtime u := htakes.rely none
    have hsame : Rely (g.take l none) (g.take l none) i u r :=
      hp ▸ rely_of_same rfl rfl (fun _ => .refl _) le_rfl
    exact (hst i).rely hs.leases (hrely.trans hsame hs.leases)
  | answers a b u r hcalm hjobs hleases hb hr hstep hfree ht =>
    subst ht
    exact h.calm (hcalm.trans (calm_answer hr hb))
  | identifies r generation computed ht =>
    subst ht
    exact h.calm (calms_ofRepository (fun _ => NativeProjectRepository.fingerprinted_same generation
      computed) s.runtime)

/-- The invariant holds of a fresh runtime. -/
theorem inv_fresh {start : Runtime} (h : Fresh start) : Inv ⟨start, fun _ => []⟩ := by
  obtain ⟨lease, hleases⟩ := h.leases
  obtain ⟨job, subscription, hjobs⟩ := h.jobs
  refine ⟨⟨fun _ => none, none⟩, ⟨?_, fun l hl => ?_, fun hlive => ?_, fun _ => rfl, fun hq => ?_,
    fun _ => h.repository⟩,
    fun _ => trivial⟩
  · rw [hleases]
    exact OperationCoordinator.start_inv lease
  · rw [hjobs] at hl
    cases hl
  · simp [Live, h.lifecycle] at hlive
  · rw [h.initializationTask] at hq
    cases hq

variable {ok : System → Act → Prop}

/-- **So every reachable system has it.** -/
theorem inv_reachable (h : Reachable env ok s) : Inv s := by
  obtain ⟨start, hfresh, hrun⟩ := h
  induction hrun with
  | refl => exact inv_fresh hfresh
  | tail _ hstep ih =>
    obtain ⟨a, -, hact⟩ := hstep
    exact ih.step hact

/-! ## The search identity -/

/-- A save comes back to a project that is ready. -/
def savesReady (s : System) : Act → Bool
  | .step i _ => match s.threads i with
    | .publishSaved _ _ _ :: _ => s.runtime.lifecycle = .READY
    | _ => true
  | _ => true

/-- The same, of the frame that runs. -/
theorem savesReady_iff {i : ℕ} {c : Choice} {f : Frame} {rest : List Frame}
    (h : s.threads i = f :: rest) :
    savesReady s (.step i c) = true ↔ Timely s.runtime f := by
  cases f with
  | publishSaved l r p =>
    simp only [savesReady, h, decide_eq_true_eq]
    constructor
    · intro hready _ _ _ _
      exact hready
    · intro htimely
      exact htimely l r p rfl
  | _ => simp [savesReady, h, Timely]

/-- **A step keeps the runtime current, if a save comes back to a project that is ready.** -/
theorem current_step {a : Act} (hinv : Inv s) (hc : Current env s.runtime)
    (hready : savesReady s a = true)
    (hact : act env s a = some t) : Current env t.runtime := by
  cases acted hact with
  | begins i f hidle hentry ht | closes i l hidle hclosing ht =>
    subst ht
    exact hc
  | steps i c hstep =>
    cases hstep with
    | ends e hstack ht | unwinds e f rest hstack ht =>
      subst ht
      exact hc
    | runs f rest frames r hstack hrun ht =>
      subst ht
      obtain ⟨g, hs, hst⟩ := hinv
      exact (Frame.run_goes (hstack ▸ hst i) hs hrun).2.1 ((savesReady_iff hstack).1 hready) hc
  | admits id l u r hgate htakes _ hadmission hr ht =>
    subst ht
    obtain ⟨p, -, rfl⟩ := Option.map_eq_some_iff.1 hr
    exact htakes.current hc
  | answers a b u r hcalm hjobs hleases hb hr hstep hfree ht =>
    subst ht
    exact (hcalm.trans (calm_answer hr hb)).current hc
  | identifies r generation computed ht =>
    subst ht
    exact (calms_ofRepository (fun _ => NativeProjectRepository.fingerprinted_same generation
      computed) s.runtime).current hc

/-- **So every system that such steps reach is current.** -/
theorem current_reachable (h : Reachable env (fun s a => savesReady s a) s) :
    Current env s.runtime := by
  obtain ⟨start, hfresh, hrun⟩ := h
  suffices hboth : Inv s ∧ Current env s.runtime from hboth.2
  induction hrun with
  | refl =>
    refine ⟨inv_fresh hfresh, fun k hk => ?_⟩
    have hnone : start.publishedSearchIdentity = none := hfresh.publishedSearchIdentity
    simp [hnone] at hk
  | tail _ hstep ih =>
    obtain ⟨a, hready, hact⟩ := hstep
    exact ⟨ih.1.step hact, current_step ih.1 ih.2 hready hact⟩

/-- A save that comes back too late writes an identity. -/
theorem not_current_of_late {a : Act} (hlate : savesReady s a = false)
    (hact : act env s a = some t) :
    ¬ Current env t.runtime := by
  cases a with
  | step i c =>
    have hlate' : ¬ savesReady s (.step i c) = true := by simp [hlate]
    cases stepped hact with
    | ends e hstack ht | unwinds e f rest hstack ht => simp [savesReady, hstack] at hlate
    | runs f rest frames r hstack hrun ht =>
      subst ht
      rw [savesReady_iff hstack] at hlate'
      unfold Timely at hlate'
      push Not at hlate'
      obtain ⟨l, current, saved, rfl, hlife⟩ := hlate'
      obtain ⟨rfl, -⟩ := Prod.mk.inj (Option.some.inj hrun)
      intro hc
      exact hlife (hc _ rfl).1
  | _ => simp [savesReady] at hlate

/-- **The published search identity is never stale** in a run whose saves come back to a project
that is ready, and a save that comes back later is where it gets stale. -/
theorem identity_current (h : Reachable env (fun s a => savesReady s a) s) :
    Current env s.runtime ∧ ∀ a t, act env s a = some t →
      (Current env t.runtime ↔ savesReady s a = true) := by
  refine ⟨current_reachable h, fun a t hact => ⟨fun hc => ?_, fun hready => ?_⟩⟩
  · by_contra hlate
    exact not_current_of_late (Bool.not_eq_true _ ▸ hlate) hact hc
  · exact current_step (inv_reachable h) (current_reachable h) hready hact

/-! A save of a raw project, and an `Error` of another thread. -/

/-- Steps that all meet `ok`. -/
def perform (env : RuntimeEnv) (ok : System → Act → Bool) : List Act → System → Option System
  | [], s => some s
  | a :: acts, s => if ok s a then (act env s a).bind (perform env ok acts) else none

/-- A list of acts that can be performed is a run. -/
theorem perform_run {ok : System → Act → Bool} {acts : List Act}
    (h : perform env ok acts s = some t) :
    Relation.ReflTransGen (Step env fun s a => ok s a) s t := by
  induction acts generalizing s with
  | nil => exact Option.some.inj h ▸ .refl
  | cons a acts ih =>
    rw [perform] at h
    split at h
    case isFalse => cases h
    rename_i hok
    obtain ⟨u, hact, hrest⟩ := Option.bind_eq_some_iff.1 h
    exact .head ⟨a, hok, hact⟩ (ih hrest)

namespace OneProject

def world : RuntimeEnv where
  disk := fun _ => { NativeProjectRepository.unreadableDisk with fingerprint := fun _ _ => .ok (some []) }
  jobs := Scheduler.OneJob.smallEnv
  inputPaths := [[1]]
  fingerprint := []

def start : Runtime where
  lifecycle := .LOADING
  activeEngine := none
  repository := none
  publicationEpoch := 0
  publishedAdmission := ⟨str "initializing", 0⟩
  publishedSearchIdentity := none
  initializationStarted := false
  initializationTask := none
  cleanupInProgress := 0
  shutdownReserved := false
  leases := OperationCoordinator.start fun _ => Lease.make ⟨.CLASS_READ, []⟩ ⟨[], 0⟩
  jobs := Scheduler.OneJob.start
  heap := NativeProjectRepository.rawProject
  created := 0
  engine := fun _ => ⟨⟨[], none, ⟨[], []⟩⟩, 0⟩

theorem start_fresh : Fresh start := by
  refine ⟨rfl, rfl, rfl, rfl, rfl, rfl, rfl, rfl, rfl, rfl, ⟨_, rfl⟩, ⟨_, _, rfl⟩, fun _ => rfl,
    fun _ => ?_, rfl⟩
  exact ⟨rfl, ⟨rfl, rfl⟩, rfl, rfl, rfl, rfl, rfl⟩

/-- Thread 0 initialises the project. -/
def initialises : List Act :=
  [.begin 0 .initializeAsync, .step 0 .returns, .begin 0 .runTask, .step 0 .returns, .step 0
    (.opens (some 0)), .step 0 .returns,
    .step 0 .returns, .step 0 .returns, .step 0 (.loads ⟨[[1]], none, ⟨[], []⟩⟩), .step 0 .returns,
      .step 0 .returns,
    .step 0 .returns]

/-- Thread 1 saves it, up to the last section. -/
def saves : List Act := initialises ++ [.begin 1 (.save (some [2]) [] none), .step 1 .returns,
    .step 1 .returns]

/-- Before that section thread 2 reports an `Error`. -/
def savesLate : List Act := saves ++ [.begin 2 .reportFatalRebuild, .step 2 .returns]

theorem saves_run :
    (perform world savesReady (saves ++ [.step 1 .returns]) ⟨start, fun _ => []⟩).isSome = true := by
  decide +kernel

theorem savesLate_run :
    (perform world (fun _ _ => true) savesLate ⟨start, fun _ => []⟩).isSome = true := by
  decide +kernel

theorem reachable {ok : System → Act → Bool} {acts : List Act}
    (h : (perform world ok acts ⟨start, fun _ => []⟩).isSome = true) :
    Reachable world (fun s a => ok s a) ((perform world ok acts ⟨start, fun _ => []⟩).get h) :=
  ⟨start, start_fresh, perform_run (Option.some_get h).symm⟩

end OneProject

/-- The save comes back after the `Error`: the project has failed, and an identity is published. -/
theorem identity_stale : ¬ ∀ (env : RuntimeEnv) (s : System), Reachable env (fun _ _ => True) s →
    Current env s.runtime := by
  intro hall
  let s := (perform OneProject.world (fun _ _ => true) OneProject.savesLate ⟨OneProject.start, fun _ => []⟩).get
    OneProject.savesLate_run
  let t := (act OneProject.world s (.step 1 .returns)).get (by decide +kernel)
  have hact : act OneProject.world s (.step 1 .returns) = some t := (Option.some_get _).symm
  have hlate : savesReady s (.step 1 .returns) = false := by decide +kernel
  obtain ⟨start, hfresh, hrun⟩ := OneProject.reachable OneProject.savesLate_run
  have hrun' : Relation.ReflTransGen (Step OneProject.world fun _ _ => True) ⟨start,
      fun _ => []⟩ s := by
    refine Relation.ReflTransGen.mono (fun u v hstep => ?_) _ _ hrun
    obtain ⟨a, -, ha⟩ := hstep
    exact ⟨a, trivial, ha⟩
  exact not_current_of_late hlate hact
    (hall OneProject.world t ⟨start, hfresh, hrun'.tail ⟨_, trivial, hact⟩⟩)

/-- The save comes back to a project that is ready. -/
theorem identity_current_saved : ∃ s : System, s.runtime.publishedSearchIdentity.isSome = true ∧
    s.runtime.publicationEpoch = 1 ∧
    Current OneProject.world s.runtime := by
  have h := OneProject.reachable OneProject.saves_run
  refine ⟨_, ?_, ?_, (identity_current h).1⟩
  · decide +kernel
  · decide +kernel

end System

end Libjadx
