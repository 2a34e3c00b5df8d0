import Libjadx.Proof.Registry
import Libjadx.Spec.Scheduler

/-!
# Runs of the scheduler

* `Scheduler.Inv`: the ledger is in order, and every thread's place agrees with the record of the
  job it holds; no job is held twice.
* `Inv.act`: every step keeps it, and is a sequence of moves of the ledger.
* `job_log`, `accounts_balanced`: the event grammar and the accounts, over every run.
-/

namespace Libjadx

open JobRegistry Locked Ledger

/-- The job the dispatcher holds. -/
def Dispatch.job : Dispatch → Option JobId
  | .idle => none
  | .gate id | .busy id | .capture id _ | .start id _ | .handOff id _ | .closeCaptured id _ _
  | .closeCancelled id _ | .closeRejected id _ | .failure id _ _ => some id

/-- A held job, `dispatching` or executing. -/
def JobRecord.Held (dispatching : Bool) (r : JobRecord) : Prop :=
  r.Holds ∧ r.dispatching = dispatching

/-- What the dispatcher relies on. -/
def Dispatch.Claims (refused : Prop) (r : JobRecord) : Dispatch → Prop
  | .idle => True
  | .gate _ | .busy _ | .capture _ _ | .start _ _ => r.Held true
  | .closeCaptured _ _ e => r.Held true ∧ (e = .serviceShuttingDown → refused)
  | .closeCancelled _ _ => r.Held true ∧ r.token.isSome = true
  | .handOff _ _ | .closeRejected _ _ => r.Held false
  | .failure _ e cancelled => r.Holds ∧ (e = some .serviceShuttingDown → refused) ∧
      (cancelled = true → refused ∨ r.token.isSome = true)

/-- A result that a worker carries is within its limit. -/
def Phase.Fits (limits : JobLimits) : Phase → Prop
  | .closing (.ok result) | .finishing (.ok result) =>
    utf8Length result.json ≤ limits.maxResultBytes
  | _ => True

/-- A step after which a shutdown may be blamed though the registry is open. -/
def Act.refuses : Act → Prop
  | .tryAdmit (.throws .serviceShuttingDown) => True
  | .capture (some .serviceShuttingDown) => True
  | .close (some .serviceShuttingDown) => True
  | _ => False

namespace Scheduler

variable {env : JobEnv} {refused : Prop} {s t : Scheduler} {a : Act} {o : Except Throwable Unit}

/-- The invariant of the scheduler: the registry's, and what dispatcher and workers claim of their
jobs. -/
structure Inv (env : JobEnv) (refused : Prop) (s : Scheduler) : Prop where
  ledger : s.registry.ledger.Inv env env.limits.maxRetained
  dispatch : ∀ id ∈ s.dispatch.job, id < s.registry.created ∧
    s.dispatch.Claims refused (s.registry.job id)
  workers : ∀ w ∈ s.workers, w.id < s.registry.created ∧ (s.registry.job w.id).Held false ∧
    w.phase.Fits env.limits
  nodup : (s.workers.map Worker.id).Nodup
  apart : ∀ id ∈ s.dispatch.job, ∀ w ∈ s.workers, w.id ≠ id

/-! ## What other threads leave -/

/-- A job that is held stays held while others work. -/
theorem held_evolves {owned closed fault : Prop} {r r' : JobRecord} {b : Bool}
    (h : Evolves owned closed fault r r')
    (ho : ¬ owned) (hh : r.Held b) : r'.Held b := by
  obtain ⟨h1, h2⟩ := h.held ho hh.1
  exact ⟨h1, h2.trans hh.2⟩

/-- So does what the dispatcher claims. -/
theorem claims_evolves {owned closed fault : Prop} {r r' : JobRecord} {d : Dispatch}
    (h : Evolves owned closed fault r r') (ho : ¬ owned) (hc : d.Claims refused r) :
    d.Claims refused r' := by
  have htok : r.token.isSome = true → r'.token.isSome = true :=
    fun ht => by rw [h.token ht]; exact ht
  cases d with
  | idle => trivial
  | gate | busy | capture | start => exact held_evolves (b := true) h ho hc
  | handOff | closeRejected => exact held_evolves (b := false) h ho hc
  | closeCaptured => exact ⟨held_evolves h ho hc.1, hc.2⟩
  | closeCancelled => exact ⟨held_evolves h ho hc.1, htok hc.2⟩
  | failure => exact ⟨(h.held ho hc.1).1, hc.2.1, fun h' => (hc.2.2 h').imp_right htok⟩

variable {owner : Option JobId} {u : Registry}

/-- A worker that did not act finds its job as it was. -/
theorem Inv.worker (h : Inv env refused s) (hu : Since env owner refused s.registry.ledger u)
    {w : Worker}
    (hw : w ∈ s.workers) (ho : owner ≠ some w.id) :
    w.id < u.created ∧ (u.job w.id).Held false ∧ w.phase.Fits env.limits := by
  obtain ⟨hid, hh, hf⟩ := h.workers w hw
  exact ⟨hu.lt hid, held_evolves (Moves.evolves h.ledger hu.moves hid) ho hh, hf⟩

/-- So does a dispatcher. -/
theorem Inv.dispatcher (h : Inv env refused s) (hu : Since env owner refused s.registry.ledger u)
    {id : JobId}
    (hd : id ∈ s.dispatch.job) (ho : owner ≠ some id) :
    id < u.created ∧ s.dispatch.Claims refused (u.job id) := by
  obtain ⟨hid, hc⟩ := h.dispatch id hd
  exact ⟨hu.lt hid, claims_evolves (Moves.evolves h.ledger hu.moves hid) ho hc⟩

/-- A section of a caller. -/
theorem Inv.caller (h : Inv env refused s) (hu : Since env none refused s.registry.ledger u) :
    Inv env refused { s with registry := u } where
  ledger := hu.inv
  dispatch id hd := h.dispatcher hu hd (by simp)
  workers w hw := h.worker hu hw (by simp)
  nodup := h.nodup
  apart := h.apart

/-- A section of the dispatcher, for the job it holds. -/
theorem Inv.dispatched (h : Inv env refused s) {id : JobId} (hid : id ∈ s.dispatch.job)
    (hu : Since env (some id) refused s.registry.ledger u) {d : Dispatch} (hd : ∀ x ∈ d.job, x = id)
    (hc : d.Claims refused (u.job id)) :
    Inv env refused { s with registry := u, dispatch := d } where
  ledger := hu.inv
  dispatch x hx := by
    obtain rfl := hd x hx
    exact ⟨hu.lt (h.dispatch x hid).1, hc⟩
  workers w hw := h.worker hu hw fun he => h.apart id hid w hw (Option.some.inj he).symm
  nodup := h.nodup
  apart x hx w hw := by
    obtain rfl := hd x hx
    exact h.apart x hid w hw

/-- Between two sections of the dispatcher. -/
theorem Inv.goto (h : Inv env refused s) {id : JobId} (hid : id ∈ s.dispatch.job) {d : Dispatch}
    (hd : ∀ x ∈ d.job, x = id) (hc : d.Claims refused (s.registry.job id)) :
    Inv env refused (s.goto d) :=
  h.dispatched hid ⟨.refl, h.ledger⟩ hd hc

/-- The dispatcher may always give up its job. -/
theorem Inv.idle (h : Inv env refused s) : Inv env refused (s.goto .idle) :=
  ⟨h.ledger, by simp [Scheduler.goto, Dispatch.job], h.workers, h.nodup, by simp [Scheduler.goto, Dispatch.job]⟩

/-- A worker between two sections. -/
theorem Inv.setPhase (h : Inv env refused s) {i : ℕ} {w : Worker} (hw : s.workers[i]? = some w)
    (phase : Phase)
    (hf : phase.Fits env.limits) : Inv env refused (s.setPhase i w phase) := by
  have hmem : w ∈ s.workers := List.mem_of_getElem? hw
  have hmap : (s.workers.set i { w with phase := phase }).map Worker.id = s.workers.map Worker.id := by
    obtain ⟨hi, rfl⟩ := List.getElem?_eq_some_iff.1 hw
    rw [List.map_set]
    have hi' : i < (s.workers.map Worker.id).length := by rwa [List.length_map]
    have hself : s.workers[i].id = (s.workers.map Worker.id)[i] := (List.getElem_map _).symm
    show (s.workers.map Worker.id).set i s.workers[i].id = _
    rw [hself, List.set_getElem_self]
  have hcases : ∀ x ∈ s.workers.set i { w with phase := phase }, x ∈ s.workers ∨
      x = { w with phase := phase } :=
    fun x hx => (List.mem_or_eq_of_mem_set hx)
  refine ⟨h.ledger, h.dispatch, fun x hx => ?_, ?_, fun id hid x hx => ?_⟩
  · rcases hcases x hx with hx | rfl
    · exact h.workers x hx
    · obtain ⟨h1, h2, -⟩ := h.workers w hmem
      exact ⟨h1, h2, hf⟩
  · show ((s.workers.set i _).map Worker.id).Nodup
    rw [hmap]
    exact h.nodup
  · rcases hcases x hx with hx | rfl
    · exact h.apart id hid x hx
    · exact h.apart id hid w hmem

/-! ## One step -/

/-- **How a section ends, by what it may throw.** -/
theorem section_outcome {α : Type} {m : Section α} {done : α → Scheduler → Scheduler}
    {failed : Scheduler → Scheduler}
    {I E : Registry → Prop} {Q : α → Registry → Prop} (hm : Triple (· = eventTooLarge) I m Q E)
    (hs : I s.registry)
    (he : section_ s m done failed = (o, t)) (ho : o ≠ .error eventTooLarge) :
    (∃ a u, Q a u ∧ t = done a { s with registry := u }) ∨ ∃ u, E u ∧ t = failed
    { s with registry := u } := by
  unfold section_ at he
  rcases hr : m s.registry with ⟨e | a, u⟩
  · rw [hr] at he
    obtain ⟨rfl, rfl⟩ := Prod.mk.inj he
    have := hm.error hs hr
    exact .inr ⟨u, this.resolve_left fun h => ho (by rw [h]), rfl⟩
  · rw [hr] at he
    obtain ⟨rfl, rfl⟩ := Prod.mk.inj he
    exact .inl ⟨a, u, hm.ok hs hr, rfl⟩

theorem void_reckons {α : Type} {l : Ledger} {m : Section α} (hm : Reckons env owner refused l m) :
    Reckons env owner refused l (void m) := hm.bind fun _ => reckons_pure ()

/-- **A call reckons.** -/
theorem call_reckons {c : Call} (hc : c.known s.registry = true) :
    Reckons env none refused s.registry.ledger (call env c) := by
  have hlt : ∀ {id : JobId}, decide (id < s.registry.created) = true →
      id < s.registry.ledger.created :=
    fun h => of_decide_eq_true h
  cases c with
  | reserveSubmissions => exact reserveSubmissions_reckons
  | releaseSubmissionReservation => exact releaseSubmissionReservation_reckons
  | stopSubmissions => exact stopSubmissions_reckons
  | submit spec => exact void_reckons (submit_reckons spec)
  | snapshot id => exact void_reckons (snapshot_reckons id)
  | cancel id => exact void_reckons (cancel_reckons id)
  | tick => exact tick_reckons
  | subscribe id lastEventId => exact void_reckons (subscribe_reckons id lastEventId)
  | closeSubscription id sub => exact closeSubscription_reckons (hlt ((Bool.and_eq_true _ _).mp hc).1) sub
  | next sub => exact void_reckons (next_reckons sub)
  | shutdown => exact shutdown_reckons
  | progress id completed total stage => exact progress_reckons (hlt hc) completed total stage
  | diagnostic id message => exact diagnostic_reckons (hlt hc) message

/-- A job that is held by a worker is executing. -/
theorem held_executing {r : JobRecord} (h : r.Held false) : r.Executing :=
  h.1.2.resolve_left (by rw [h.2]; simp)

/-- A job that is dispatching is held by the dispatcher. -/
theorem holds_of_dispatching {id : JobId} {r : JobRecord} (hok : RecordOk id r)
    (hd : r.dispatching = true) : r.Held true :=
  ⟨⟨by rw [JobRecord.terminal, hok.dispatching hd]; rfl, .inl hd⟩, hd⟩

/-- The dispatcher starts to hold the head of the queue. -/
theorem Inv.pumped (h : Inv env refused s) {id : JobId}
    (hu : Since env none refused s.registry.ledger u) (hid : id < u.created)
    (hd : (u.job id).dispatching = true) :
    Inv env refused { s with registry := u, dispatch := .gate id } where
  ledger := hu.inv
  dispatch x hx := by
    obtain rfl : id = x := Option.some.inj hx
    exact ⟨hid, holds_of_dispatching (hu.inv.ok id hid) hd⟩
  workers w hw := h.worker hu hw (by simp)
  nodup := h.nodup
  apart x hx w hw := by
    obtain rfl : id = x := Option.some.inj hx
    -- a worker's job does not dispatch
    rintro rfl
    have := (h.worker hu hw (by simp)).2.1.2
    rw [hd] at this
    simp at this

/-- What a step does: the invariant, and the moves of one section. -/
def Advances (env : JobEnv) (refused : Prop) (s t : Scheduler) : Prop :=
  Inv env refused t ∧ ∃ owner, Moves env owner refused s.registry.ledger t.registry.ledger

/-- What leaves the registry alone advances. -/
theorem Inv.stay (h : Inv env refused t) (ht : t.registry = s.registry) :
    Advances env refused s t :=
  ⟨h, none, by rw [ht]; exact .refl⟩

/-- **The gate's answer advances.** -/
theorem Inv.admitted (h : Inv env refused s) {id : JobId} (hd : s.dispatch = .gate id)
    (answer : Answer)
    (hq : (Act.tryAdmit answer).refuses → refused) :
    Advances env refused s (s.goto (answered id answer)) := by
  have hid : id ∈ s.dispatch.job := by rw [hd]; rfl
  have hheld : (s.registry.job id).Held true := by
    have := (h.dispatch id hid).2
    rw [hd] at this
    exact this
  refine Inv.stay (h.goto hid (fun x hx => ?_) ?_) rfl
  · unfold answered at hx
    split at hx <;> exact (Option.some.inj hx).symm
  · unfold answered
    split
    · exact hheld
    · exact hheld
    · exact hheld
    · exact ⟨hheld.1, by simp, fun _ => .inl (hq trivial)⟩
    · rename_i failure _ _ hne
      exact ⟨hheld.1, fun he => absurd (Option.some.inj he) hne, by simp⟩

/-- A step of the dispatcher between two sections. -/
theorem Inv.forward (h : Inv env refused s) {id : JobId} (hid : id ∈ s.dispatch.job) {d : Dispatch}
    (hd : ∀ x ∈ d.job, x = id) (hc : d.Claims refused (s.registry.job id)) :
    Advances env refused s (s.goto d) :=
  (h.goto hid hd hc).stay rfl

/-- **The end of a worker advances.** -/
theorem Inv.closed (h : Inv env refused s) {failure : Option Throwable}
    (hq : (Act.close failure).refuses → refused)
    (hc : s.closed failure = some t) : Advances env refused s t := by
  unfold Scheduler.closed at hc
  split at hc
  · rename_i id lease e hd
    obtain rfl := Option.some.inj hc
    have hid : id ∈ s.dispatch.job := by rw [hd]; rfl
    have hcl := (h.dispatch id hid).2
    rw [hd] at hcl
    exact h.forward hid (fun x hx => (Option.some.inj hx).symm)
      ⟨hcl.1.1, fun he => hcl.2 (Option.some.inj he), by simp⟩
  · rename_i id lease hd
    obtain rfl := Option.some.inj hc
    have hid : id ∈ s.dispatch.job := by rw [hd]; rfl
    have hcl := (h.dispatch id hid).2
    rw [hd] at hcl
    refine h.forward hid (fun x hx => (Option.some.inj hx).symm) ⟨hcl.1.1, fun he => ?_,
      fun _ => .inr hcl.2⟩
    subst he
    exact hq trivial
  · rename_i id lease hd
    have hid : id ∈ s.dispatch.job := by rw [hd]; rfl
    have hcl := (h.dispatch id hid).2
    rw [hd] at hcl
    split at hc
    · -- the registry is stopped: the request is a shutdown's
      rename_i hstop
      obtain rfl := Option.some.inj hc
      have hst : s.registry.stopped = true := (Bool.and_eq_true _ _ |>.mp hstop).1
      have hu : Since env (some id) refused s.registry.ledger
          (s.registry.update id fun r => r.request .SHUTDOWN) :=
        Since.request ⟨.refl, h.ledger⟩ (h.dispatch id hid).1 _ fun _ => .inr (.inl hst)
      refine ⟨h.dispatched hid hu (fun x hx => (Option.some.inj hx).symm) ⟨?_, by simp, fun _ => .inr ?_⟩,
        some id, hu.moves⟩
      · rw [update_job_self]
        exact hcl.1
      · rw [update_job_self]
        exact JobRecord.isSome_request _ _
    · obtain rfl := Option.some.inj hc
      exact h.forward hid (fun x hx => (Option.some.inj hx).symm) ⟨hcl.1, by simp, by simp⟩
  · simp at hc

/-- A result that was validated fits. -/
theorem validateResult_fits (result : Except Throwable (Option JobResult)) :
    (Phase.closing (validateResult env result)).Fits env.limits := by
  unfold validateResult
  split
  · trivial
  · trivial
  · split
    · trivial
    · split
      · rename_i hle _
        exact Nat.le_of_not_lt hle
      · trivial

/-- It still fits when the close failed. -/
theorem settled_fits {outcome : Except Throwable JobResult}
    (h : (Phase.closing outcome).Fits env.limits)
    (failure : Option Throwable) : (Phase.finishing (settled outcome failure)).Fits env.limits := by
  cases failure with
  | none => cases outcome with
    | ok r => exact h
    | error e' => trivial
  | some e => cases outcome with
    | ok r => trivial
    | error e' => trivial

/-- A worker that is done leaves; nobody else holds its job. -/
theorem Inv.finished (h : Inv env refused s) {i : ℕ} {w : Worker} (hw : s.workers[i]? = some w)
    (hu : Since env (some w.id) refused s.registry.ledger u) :
    Inv env refused { s with registry := u, workers := s.workers.eraseIdx i } := by
  obtain ⟨hi, hwi⟩ := List.getElem?_eq_some_iff.1 hw
  have hmem : w ∈ s.workers := List.mem_of_getElem? hw
  have hperm : s.workers.Perm (w :: s.workers.eraseIdx i) := by
    rw [← hwi]
    exact (List.getElem_cons_eraseIdx_perm hi).symm
  have hnd : (w.id :: (s.workers.eraseIdx i).map Worker.id).Nodup :=
    (hperm.map Worker.id).nodup_iff.1 h.nodup
  rw [List.nodup_cons] at hnd
  have hsub : ∀ x ∈ s.workers.eraseIdx i, x ∈ s.workers := fun x hx => List.mem_of_mem_eraseIdx hx
  refine ⟨hu.inv, fun id hid => ?_, fun x hx => ?_, hnd.2, fun id hid x hx =>
    h.apart id hid x (hsub x hx)⟩
  · exact h.dispatcher hu hid fun he => h.apart id hid w hmem (Option.some.inj he)
  · exact h.worker hu (hsub x hx) fun he => hnd.1 (Option.some.inj he ▸ List.mem_map_of_mem hx)

/-- **Every step keeps the invariant**, and is a sequence of moves. -/
theorem Inv.act (h : Inv env refused s) (ha : act env s a = some (o, t)) (ho : o ≠ .error eventTooLarge)
    (hq : a.refuses → refused) : Advances env refused s t := by
  cases a with
  -- a call owns no job
  | call c =>
    simp only [Scheduler.act] at ha
    split at ha
    · rename_i hc
      rcases section_outcome (call_reckons hc) ⟨.refl, h.ledger⟩ (Option.some.inj ha) ho with
        ⟨_, u, hu, rfl⟩ | ⟨u, hu, rfl⟩
      · exact ⟨h.caller hu, none, hu.moves⟩
      · exact ⟨h.caller hu, none, hu.moves⟩
    · simp at ha
  -- the head of the queue becomes the dispatcher's
  | pump =>
    simp only [Scheduler.act] at ha
    split at ha
    · rcases section_outcome pump_triple ⟨.refl, h.ledger⟩ (Option.some.inj ha) ho with
        ⟨head, u, ⟨hu, hhead⟩, rfl⟩ | ⟨u, hu, rfl⟩
      · cases head with
        | none => exact ⟨h.caller hu, none, hu.moves⟩
        | some id => exact ⟨h.pumped hu (hhead id rfl).1 (hhead id rfl).2, none, hu.moves⟩
      · exact ⟨(h.caller hu).idle, none, hu.moves⟩
    · simp at ha
  | tryAdmit answer =>
    simp only [Scheduler.act] at ha
    split at ha
    · obtain ⟨-, rfl⟩ := Prod.mk.inj (Option.some.inj ha)
      exact h.admitted ‹_› answer hq
    · simp at ha
  -- the dispatcher gives its job back
  | requeue =>
    simp only [Scheduler.act] at ha
    split at ha
    · rename_i id hd
      have hid : id ∈ s.dispatch.job := by rw [hd]; rfl
      obtain ⟨hlt, hc⟩ := h.dispatch id hid
      rw [hd] at hc
      rcases section_outcome (requeueBlocked_reckons (s := s.registry) hlt hc.2 h.ledger rfl) rfl
        (Option.some.inj ha) ho with ⟨_, u, hu, rfl⟩ | ⟨u, hu, rfl⟩
      · exact ⟨h.dispatched hid hu (by simp [Dispatch.job]) trivial, some id, hu.moves⟩
      · exact hu.elim
    · simp at ha
  -- only the failure of a service that is shutting down needs an excuse
  | capture failure =>
    simp only [Scheduler.act] at ha
    split at ha
    · rename_i id lease hd
      obtain ⟨-, rfl⟩ := Prod.mk.inj (Option.some.inj ha)
      have hid : id ∈ s.dispatch.job := by rw [hd]; rfl
      have hc := (h.dispatch id hid).2
      rw [hd] at hc
      cases failure with
      | none => exact h.forward hid (fun x hx => (Option.some.inj hx).symm) hc
      | some e =>
        exact h.forward hid (fun x hx => (Option.some.inj hx).symm)
          ⟨hc, fun he => by subst he; exact hq trivial⟩
    · simp at ha
  -- a job that was cancelled is still dispatching, any other one is executing
  | start =>
    simp only [Scheduler.act] at ha
    split at ha
    · rename_i id lease hd
      have hid : id ∈ s.dispatch.job := by rw [hd]; rfl
      obtain ⟨hlt, hc⟩ := h.dispatch id hid
      rw [hd] at hc
      rcases section_outcome (startAdmitted_runs (s := s.registry) hlt hc.2 h.ledger rfl) rfl
        (Option.some.inj ha) ho with ⟨cancelled, u, ⟨hu, hcl⟩, rfl⟩ | ⟨u, hu, rfl⟩
      · have hok := hu.inv.ok id (hu.lt hlt)
        cases cancelled with
        | true =>
          rw [if_pos rfl] at hcl
          exact ⟨h.dispatched hid hu (fun x hx => (Option.some.inj hx).symm)
            ⟨holds_of_dispatching hok hcl.1, hcl.2⟩, some id, hu.moves⟩
        | false =>
          rw [if_neg (by simp)] at hcl
          refine ⟨h.dispatched hid hu (fun x hx => (Option.some.inj hx).symm) ⟨⟨?_, .inr hcl.1⟩, hcl.2⟩,
            some id, hu.moves⟩
          rcases hcl.1 with hx | hx
          · rw [JobRecord.terminal, hx]; rfl
          · rw [JobRecord.terminal, hx]; rfl
      · exact hu.elim
    · simp at ha
  | close failure =>
    simp only [Scheduler.act, Option.map_eq_some_iff] at ha
    obtain ⟨t', hc, ht⟩ := ha
    obtain ⟨-, rfl⟩ := Prod.mk.inj ht
    exact h.closed hq hc
  -- the dispatcher's claim becomes the worker's
  | execute accepted =>
    simp only [Scheduler.act] at ha
    split at ha
    · rename_i id lease hd
      have hid : id ∈ s.dispatch.job := by rw [hd]; rfl
      obtain ⟨hlt, hc⟩ := h.dispatch id hid
      rw [hd] at hc
      split at ha
      · obtain ⟨-, rfl⟩ := Prod.mk.inj (Option.some.inj ha)
        refine ⟨⟨h.ledger, by simp [Dispatch.job], fun w hw => ?_, ?_, by simp [Dispatch.job]⟩,
          none, .refl⟩
        · rcases List.mem_append.1 hw with hw | hw
          · exact h.workers w hw
          · rw [List.mem_singleton.1 hw]
            exact ⟨hlt, hc, trivial⟩
        · rw [List.map_append]
          refine List.nodup_append.2 ⟨h.nodup, List.nodup_singleton _, fun x hx y hy => ?_⟩
          obtain ⟨w, hw, rfl⟩ := List.mem_map.1 hx
          rw [List.mem_singleton.1 hy]
          exact h.apart id hid w hw
      · obtain ⟨-, rfl⟩ := Prod.mk.inj (Option.some.inj ha)
        exact h.forward hid (fun x hx => (Option.some.inj hx).symm) hc
    · simp at ha
  | fail =>
    simp only [Scheduler.act] at ha
    split at ha
    · rename_i id failure cancelled hd
      have hid : id ∈ s.dispatch.job := by rw [hd]; rfl
      obtain ⟨hlt, hc⟩ := h.dispatch id hid
      rw [hd] at hc
      rcases section_outcome (finishDispatchFailure_reckons (s := s.registry) hlt hc.1 h.ledger rfl
        hc.2.1 hc.2.2) rfl
        (Option.some.inj ha) ho with ⟨_, u, hu, rfl⟩ | ⟨u, hu, rfl⟩
      · exact ⟨h.dispatched hid hu (by simp [Dispatch.job]) trivial, some id, hu.moves⟩
      · exact hu.elim
    · simp at ha
  | run i =>
    simp only [Scheduler.act] at ha
    split at ha
    · rename_i w hw
      split at ha
      · obtain ⟨-, rfl⟩ := Prod.mk.inj (Option.some.inj ha)
        exact (h.setPhase hw .running trivial).stay rfl
      · simp at ha
    · simp at ha
  | returns i result =>
    simp only [Scheduler.act] at ha
    split at ha
    · rename_i w hw
      split at ha
      · obtain ⟨-, rfl⟩ := Prod.mk.inj (Option.some.inj ha)
        exact (h.setPhase hw _ (validateResult_fits result)).stay rfl
      · simp at ha
    · simp at ha
  | release i failure =>
    simp only [Scheduler.act] at ha
    split at ha
    · rename_i w hw
      split at ha
      · rename_i outcome hp
        obtain ⟨-, rfl⟩ := Prod.mk.inj (Option.some.inj ha)
        have hf := (h.workers w (List.mem_of_getElem? hw)).2.2
        rw [hp] at hf
        exact (h.setPhase hw _ (settled_fits hf failure)).stay rfl
      · simp at ha
    · simp at ha
  -- what the worker holds was validated, so it fits
  | finish i =>
    simp only [Scheduler.act] at ha
    split at ha
    · rename_i w hw
      split at ha
      · rename_i outcome hp
        obtain ⟨hlt, hheld, hf⟩ := h.workers w (List.mem_of_getElem? hw)
        rw [hp] at hf
        have hfits : ∀ result, outcome = .ok result →
            utf8Length result.json ≤ env.limits.maxResultBytes :=
          fun result hr => by subst hr; exact hf
        rcases section_outcome (finish_reckons (s := s.registry) hlt (held_executing hheld) h.ledger
          hfits rfl) rfl
          (Option.some.inj ha) ho with ⟨_, u, hu, rfl⟩ | ⟨u, hu, rfl⟩
        · exact ⟨h.finished hw hu, some w.id, hu.moves⟩
        · exact hu.elim
      · simp at ha
    · simp at ha

/-! ## Whole runs -/

/-- Take the steps one after the other. -/
def perform (env : JobEnv) : List Act → Scheduler → Option Scheduler
  | [], s => some s
  | a :: rest, s => match act env s a with
    | some (.ok (), t) => perform env rest t
    | _ => none

/-- A list of acts that can be performed is a run. -/
theorem perform_run {env : JobEnv} :
    ∀ {acts : List Act} {s t : Scheduler}, perform env acts s = some t →
    Relation.ReflTransGen (Step env) s t := by
  intro acts
  induction acts with
  | nil => intro s t h; obtain rfl := Option.some.inj h; exact .refl
  | cons a acts ih =>
    intro s t h
    simp only [perform] at h
    split at h
    · exact .head ⟨a, _, ‹_›, by simp⟩ (ih h)
    · simp at h

/-- The invariant holds at the start. -/
theorem inv_empty (job : JobId → JobRecord) (subscription : SubscriptionId → Subscription) :
    Inv env refused ⟨empty job subscription, .idle, []⟩ := by
  refine ⟨?_, by simp [Dispatch.job], by simp, by simp, by simp⟩
  refine ⟨by simp [empty, Registry.ledger], ?_, ?_, ?_, ?_, by simp [empty, Registry.ledger],
    ?_, ?_, ?_, ?_, ?_, ?_, ?_⟩ <;>
    simp [empty, Registry.ledger, Ledger.total]

/-- **So every reachable scheduler has it.** -/
theorem Reachable.inv (h : Reachable env s) : Inv env True s := by
  obtain ⟨job, subscription, hrun⟩ := h
  induction hrun with
  | refl => exact inv_empty job subscription
  | tail _ hstep ih =>
    obtain ⟨a, o, ha, ho⟩ := hstep
    exact (ih.act ha ho fun _ => trivial).1

/-- A later registry: the jobs there are exist still, and are later states of themselves. -/
structure Later (s t : Registry) : Prop where
  created : s.created ≤ t.created
  stopped : s.stopped = true → t.stopped = true
  job : ∀ id < s.created, Evolves True (s.stopped = true) True (s.job id) (t.job id)

theorem Later.refl (s : Registry) : Later s s := ⟨le_refl _, fun h => h, fun _ _ => .refl _ _ _ _⟩

theorem Later.trans {s t u : Registry} (h : Later s t) (h' : Later t u) : Later s u where
  created := h.created.trans h'.created
  stopped hs := h'.stopped (h.stopped hs)
  job id hid := (h.job id hid).trans h.stopped (fun h => h) (h'.job id (hid.trans_le h.created))

/-- What moves the ledger makes it later. -/
theorem later_of_moves {s t : Registry} (h : s.ledger.Inv env env.limits.maxRetained)
    (hm : Moves env owner refused s.ledger t.ledger) : Later s t where
  created := hm.created_le
  stopped := hm.stopped
  job id hid := by
    have hev := Moves.evolves h hm hid
    exact ⟨hev.log, hev.ended, hev.token, hev.unstarted, fun hn => absurd trivial hn, fun _ =>
      .inr trivial⟩

/-- **A run makes it later, and keeps the invariant.** -/
theorem run_later (h : Inv env True s) (hrun : Relation.ReflTransGen (Step env) s t) :
    Later s.registry t.registry ∧ Inv env True t := by
  induction hrun with
  | refl => exact ⟨.refl _, h⟩
  | tail _ hstep ih =>
    obtain ⟨hl, hinv⟩ := ih
    obtain ⟨a, o, ha, ho⟩ := hstep
    obtain ⟨hinv', owner, hm⟩ := hinv.act ha ho fun _ => trivial
    exact ⟨hl.trans (later_of_moves hinv.ledger hm), hinv'⟩

namespace OneJob

/-! A run with one job. -/

def smallLimits : JobLimits where
  maxQueued := 2
  maxRunning := 1
  maxRetained := 1
  maxResultBytes := 16
  maxTotalResultBytes := 16
  maxDiagnostics := 1
  maxDiagnosticBytes := 64
  maxEventsPerJob := 4
  maxEventBytes := 1024
  maxSubscribersPerJob := 1
  maxGlobalSubscribers := 1
  maxFramesPerSubscriber := 4
  terminalTtl := 1000
  heartbeatInterval := 1000
  positive := by decide
  ints := by decide

def smallEnv : JobEnv where
  limits := smallLimits
  ticker := fun n => Int64.ofNat n
  clock := fun n => n
  writeValueAsString := fun _ => []
  isObject := fun _ => true

def someSpec : JobSpec where
  type := str "search"
  operation := ⟨.CLASS_READ, []⟩
  admission := ⟨[], 0⟩
  sourceSnapshotId := str "s"
  deadline := none
  capture := false
  named := by decide
  deadline_positive := by simp
  captured := by simp

def noJob : JobRecord where
  spec := someSpec
  createdAt := 0
  deadlineAt := none
  deadlineNanos := none
  token := none
  events := []
  subscribers := []
  diagnostics := []
  state := .QUEUED
  progress := queuedProgress
  startedAt := none
  completedAt := none
  completedNanos := none
  completedOrder := 0
  resultJson := none
  completeness := none
  error := none
  nextSequence := 0
  dispatching := false
  log := []
  cause := none

def start : Scheduler := ⟨empty (fun _ => noJob) (fun _ => ⟨[], [], true, false, false, false⟩),
    .idle, []⟩

/-- Up to the section that finishes the job. -/
def oneJob : List Act :=
  [.call (.submit someSpec), .pump, .tryAdmit (.lease 0), .capture none, .start, .execute true, .run 0,
    .returns 0 (.ok (some ⟨str "{}", .COMPLETE⟩)), .release 0 none]

theorem runs : (perform smallEnv oneJob start).isSome = true := by decide +kernel

theorem ends : (perform smallEnv (oneJob ++ [.finish 0]) start).isSome = true := by decide +kernel

theorem reachable {acts : List Act} (h : (perform smallEnv acts start).isSome = true) :
    Reachable smallEnv ((perform smallEnv acts start).get h) :=
  ⟨_, _, perform_run (Option.some_get h).symm⟩

end OneJob

/-- **The log of every job, and its end.** -/
theorem job_log (h : Reachable env s) {id : JobId} (hid : id < s.registry.created) :
    (s.registry.job id).LogOk id ∧
      ∀ t, Relation.ReflTransGen (Step env) s t → (s.registry.job id).log <+:
        (t.registry.job id).log ∧
        ((s.registry.job id).terminal = true → (s.registry.job id).SameEnd (t.registry.job id)) := by
  have hinv := h.inv
  refine ⟨logOk_of_recordOk (hinv.ledger.ok id hid), fun t hrun => ?_⟩
  have hev := (run_later hinv hrun).1.job id hid
  exact ⟨hev.log, hev.ended⟩

/-- A job that ran to its end. -/
theorem job_log_one : ∃ s, perform OneJob.smallEnv
    (OneJob.oneJob ++ [.finish 0]) OneJob.start = some s ∧
    (s.registry.job 0).state = .SUCCEEDED ∧ (s.registry.job 0).LogOk 0 ∧
    ∀ t, Relation.ReflTransGen (Step OneJob.smallEnv) s t →
      (s.registry.job 0).log <+: (t.registry.job 0).log ∧
        ((s.registry.job 0).terminal = true → (s.registry.job 0).SameEnd (t.registry.job 0)) :=
  ⟨_, (Option.some_get OneJob.ends).symm,
    by decide +kernel, job_log (OneJob.reachable OneJob.ends) (by decide +kernel)⟩

/-- **The accounts of every registry.** Where a worker is about to finish with a result, room for it
is made without a failure, and the registry keeps its job. -/
theorem accounts_balanced (h : Reachable env s) :
    s.registry.ledger.Balanced env ∧
      ∀ w ∈ s.workers, ∀ result, w.phase = .finishing (.ok result) →
        let released := { s.registry with runningSlots := s.registry.runningSlots - 1 }
        ∃ t, reclaimResultRoomLocked env (utf8Length result.json) released = (.ok (), t) ∧
          w.id ∈ t.records := by
  have hinv := h.inv
  refine ⟨hinv.ledger.balanced, fun w hw result hp => ?_⟩
  obtain ⟨hid, hheld, hf⟩ := hinv.workers w hw
  rw [hp] at hf
  have hin : utf8Length result.json ≤ env.limits.maxTotalResultBytes :=
    hf.trans env.limits.positive.2.2.2.2.1
  obtain ⟨t, hr, hsheds, -⟩ := reclaimResultRoomLocked_run (k := s.registry.runningSlots)
    (s := { s.registry with runningSlots := s.registry.runningSlots - 1 }) hin hinv.ledger
  refine ⟨t, hr, ?_⟩
  have hnone : (s.registry.job w.id).completedNanos = none := by
    have hc : (s.registry.job w.id).completedNanos.isSome = _ := (hinv.ledger.ok w.id hid).completed
    rw [← Option.not_isSome_iff_eq_none, hc, show (s.registry.ledger.job w.id).terminal =
      false from hheld.1.1]
    simp
  exact (hsheds.keeps hnone).2.1.2 (hinv.ledger.live w.id hid hheld.1.1)

/-- A worker about to finish with a result. -/
theorem accounts_balanced_one : ∃ s, perform OneJob.smallEnv OneJob.oneJob OneJob.start = some s ∧
    s.workers.length = 1 ∧ s.registry.runningSlots = 1 ∧
      s.registry.ledger.Balanced OneJob.smallEnv ∧
    ∀ w ∈ s.workers, ∀ result, w.phase = .finishing (.ok result) →
      ∃ t, reclaimResultRoomLocked OneJob.smallEnv (utf8Length result.json)
        { s.registry with runningSlots := s.registry.runningSlots - 1 } = (.ok (), t) ∧
        w.id ∈ t.records :=
  ⟨_, (Option.some_get OneJob.runs).symm, by decide +kernel, by decide +kernel,
    accounts_balanced (OneJob.reachable OneJob.runs)⟩

end Scheduler

end Libjadx
