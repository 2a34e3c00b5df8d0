import Libjadx.Proof.Signals

/-!
# Reports of progress, and the end of a job

`Context.progress` writes the record and uses up a sequence number before the event is measured, and
the event at the end of the job embeds the progress again. A report is atomic exactly where it is
refused before or its event fits; a task that ends leaves its job terminal, with its event and the
signal for its slot, exactly where that event fits.
-/

namespace Libjadx

open JobRegistry Locked Registry

variable {env : JobEnv} {s t u : Registry} {id : JobId} {r r' : JobRecord}

/-! ## One report -/

/-- A valid report that does not move backwards, and whose event does not fit. -/
def Oversized (env : JobEnv) (s : Registry) (id : JobId) (completed : ℤ) (total : Option ℤ)
    (stage : Option JString) : Prop :=
  ∃ p, JobProgress.make completed total (bounded stage 128) = .ok p ∧
    (s.job id).progress.completed ≤ completed ∧
    env.limits.maxEventBytes <
      utf8Length ({ s.job id with progress := p }.eventText env id .progress (env.clock s.instants))

/-- The report is in the record, with its event. -/
structure Reported (env : JobEnv) (completed : ℤ) (total : Option ℤ) (stage : Option JString)
    (r r' : JobRecord) : Prop where
  completed : r'.progress.completed = completed
  total : r'.progress.total = total
  stage : r'.progress.stage = bounded stage 128
  event : ∃ e : JobEvent, e.type = .progress ∧ e.sequence = r.nextSequence + 1 ∧
    r'.log = r.log ++ [e] ∧
    r'.events = retain env e r.events
  nextSequence : r'.nextSequence = r.nextSequence + 1

/-- Nothing of the report is in the record. -/
structure Unreported (r r' : JobRecord) : Prop where
  progress : r'.progress = r.progress
  log : r'.log = r.log
  events : r'.events = r.events
  nextSequence : r'.nextSequence = r.nextSequence

/-- All of a report or nothing, where it throws. -/
def Atomic (env : JobEnv) (completed : ℤ) (total : Option ℤ) (stage : Option JString)
    (o : Except Throwable Unit)
    (r r' : JobRecord) : Prop :=
  o = .ok () ∧ Reported env completed total stage r r' ∨ (∃ e, o = .error e) ∧ Unreported r r'

/-- A progress that is made holds what was reported. -/
theorem make_some {completed : ℤ} {total : Option ℤ} {stage : JString} {p : JobProgress}
    (h : JobProgress.make completed total stage = .ok p) :
    p.completed = completed ∧ p.total = total ∧ p.stage = stage := by
  unfold JobProgress.make at h
  split at h
  · split at h
    · obtain rfl := Except.ok.inj h
      exact ⟨rfl, rfl, rfl⟩
    · cases h
  · cases h

/-- **A report is atomic exactly where its event fits.** -/
theorem progress_iff (hx : (s.job id).Executing) (completed : ℤ) (total : Option ℤ)
    (stage : Option JString) :
    Atomic env completed total stage (progress env id completed total stage s).1 (s.job id)
      ((progress env id completed total stage s).2.job id) ↔
      ¬ Oversized env s id completed total stage := by
  unfold progress
  cases hmake : JobProgress.make completed total (bounded stage 128) with
  | error e =>
    have hfits : ¬ Oversized env s id completed total stage := by
      rintro ⟨p, hp, -⟩
      rw [hmake] at hp
      cases hp
    exact iff_of_true (.inr ⟨⟨e, rfl⟩, rfl, rfl, rfl, rfl⟩) hfits
  | ok p =>
    dsimp only
    have hstate : ¬ ((s.job id).state ≠ .RUNNING ∧ (s.job id).state ≠ .CANCELLING) := by
      rintro ⟨hrun, hcancel⟩
      exact hx.elim hrun hcancel
    rw [bind_get, if_neg hstate]
    by_cases hback : completed < (s.job id).progress.completed
    · have hfits : ¬ Oversized env s id completed total stage := by
        rintro ⟨p, -, hle, -⟩
        omega
      rw [if_pos hback]
      exact iff_of_true (.inr ⟨⟨_, rfl⟩, rfl, rfl, rfl, rfl⟩) hfits
    · rw [if_neg hback]
      unfold edit
      rw [bind_modify, emitLocked_eq, update_job_self]
      obtain ⟨hcompleted, htotal, hstage⟩ := make_some hmake
      split
      · rename_i hlarge
        have hover : Oversized env s id completed total stage := ⟨p, hmake, not_lt.1 hback, hlarge⟩
        refine iff_of_false ?_ (not_not_intro hover)
        -- the sequence number is used up, whatever the record had
        rintro (⟨hok, -⟩ | ⟨-, hsame⟩)
        · cases hok
        · have hnext := hsame.nextSequence
          simp [emitLost, Registry.update] at hnext
      · rename_i hsmall
        refine iff_of_true (.inl ⟨rfl, ?_⟩) ?_
        · have hjob : (((s.update id fun r => { r with progress := p }).emitFits env id
            .progress).job id) =
              ({ s.job id with progress := p }.emitted env id .progress (env.clock s.instants)) := by
            simp [emitFits, Registry.update]
          rw [hjob]
          exact ⟨hcompleted, htotal, hstage, ⟨_, rfl, rfl, rfl, rfl⟩, rfl⟩
        · rintro ⟨q, hq, -, hlarge⟩
          obtain rfl : p = q := by
            rw [hmake] at hq
            exact Except.ok.inj hq
          exact hsmall hlarge

/-! ## The end of a job -/

/-- The event of the section of `execute`, and the state it leaves the job in. -/
def ending (s : Registry) (id : JobId) (outcome : Except Throwable JobResult) :
    EventType × JobState :=
  match outcome with
  | .error failure =>
    if failure = .cancellation ∧ (s.job id).isCancellationRequested then (.cancelled, .CANCELLED)
      else (.failed, .FAILED)
  | .ok _ => if (s.job id).isCancellationRequested || s.stopped then (.cancelled, .CANCELLED)
      else (.completed, .SUCCEEDED)

/-- The last event of a record fits. -/
def LastFits (env : JobEnv) (id : JobId) (type : EventType) (last : JobState) (now : ℤ)
    (r : JobRecord) : Prop :=
  utf8Length (env.writeValueAsString ⟨id, r.nextSequence + 1, type, now, last, r.progress⟩) ≤
    env.limits.maxEventBytes

/-- The event at the end of the job fits. The clock is read for `completedAt` before. -/
def EndFits (env : JobEnv) (s : Registry) (id : JobId) (outcome : Except Throwable JobResult) :
    Prop :=
  LastFits env id (ending s id outcome).1 (ending s id outcome).2
    (env.clock (s.instants + 1)) (s.job id)

/-- The record of a job after its last event. -/
structure Closed (type : EventType) (last : JobState) (r r' : JobRecord) : Prop where
  state : r'.state = last
  event : ∃ e : JobEvent, e.type = type ∧ e.state = last ∧ r'.log = r.log ++ [e]

/-- What a section that ends a job comes to: it closes the record where the event fits, and throws
where not. -/
def Closes (fits : Prop) (type : EventType) (last : JobState) (id : JobId) (r : JobRecord)
    (run : Except Throwable Unit × Registry) : Prop :=
  (fits ∧ run.1 = .ok () ∧ Closed type last r (run.2.job id)) ∨ ¬ fits ∧
    run.1 = .error eventTooLarge

/-- What follows the emission keeps the log and the state. -/
theorem Closes.then {fits : Prop} {type : EventType} {last : JobState} {m : Section Unit}
    {g : Registry → Registry}
    (h : Closes fits type last id r (m s))
    (hg : ∀ t : Registry, ((g t).job id).state = (t.job id).state ∧
      ((g t).job id).log = (t.job id).log) :
    Closes fits type last id r ((m >>= fun _ => modify g) s) := by
  rcases hm : m s with ⟨e | a, t⟩
  · rw [hm] at h
    obtain ⟨-, hok, -⟩ | ⟨hlarge, herror⟩ := h
    · cases hok
    · rw [bind_error hm]
      exact .inr ⟨hlarge, herror⟩
  · rw [hm] at h
    obtain ⟨hfits, -, hclosed⟩ | ⟨-, herror⟩ := h
    · obtain ⟨e, htype, hstate, hlog⟩ := hclosed.event
      rw [bind_ok hm]
      exact .inl ⟨hfits, rfl, (hg t).1.trans hclosed.state, e, htype, hstate, (hg t).2.trans hlog⟩
    · cases herror

/-- A record is closed on the log that it had. -/
theorem Closes.log {fits : Prop} {type : EventType} {last : JobState}
    {run : Except Throwable Unit × Registry}
    (h : Closes fits type last id r run) (hlog : r.log = r'.log) :
    Closes fits type last id r' run :=
  h.imp_left fun ⟨hfits, hok, hclosed⟩ => ⟨hfits, hok, hclosed.state, hlog ▸ hclosed.event⟩

/-- Retention takes from no job its state or its events. -/
theorem enforceRetention_record (t : Registry) :
    ((enforceRetention env t).job id).state = (t.job id).state ∧
    ((enforceRetention env t).job id).log = (t.job id).log := by
  unfold enforceRetention
  split
  · exact ⟨rfl, rfl⟩
  · split
    · exact ⟨rfl, rfl⟩
    · rename_i oldest _
      rw [removeRetained_told]
      exact update_rel t oldest (fun r => { r with subscribers := [], events := [] })
        (fun r r' => r.state = r'.state ∧ r.log = r'.log) ⟨rfl, rfl⟩ (fun _ => ⟨rfl, rfl⟩) id

/-- The last event, emitted from a record that the section has marked. -/
theorem emit_closes {type : EventType} {last : JobState} {now : ℤ}
    (hstate : (u.job id).state = last)
    (hseq : (u.job id).nextSequence = r.nextSequence) (hprogress : (u.job id).progress = r.progress)
    (hlog : (u.job id).log = r.log) (hnow : env.clock u.instants = now) :
    Closes (LastFits env id type last now r) type last id r (emitLocked env id type u) := by
  have htext : (u.job id).eventText env id type (env.clock u.instants) =
      env.writeValueAsString ⟨id, r.nextSequence + 1, type, now, last, r.progress⟩ := by
    unfold JobRecord.eventText
    rw [hstate, hseq, hprogress, hnow]
  rw [emitLocked_eq, htext]
  split
  · exact .inr ⟨not_le.2 ‹_›, rfl⟩
  · have hjob : (u.emitFits env id type).job id = (u.job id).emitted env id type
        (env.clock u.instants) :=
      Function.update_self ..
    refine .inl ⟨not_lt.1 ‹_›, rfl, ?_⟩
    rw [hjob]
    refine ⟨hstate, (u.job id).nextEvent env id type (env.clock u.instants), rfl, hstate, ?_⟩
    show (u.job id).log ++ _ = _
    rw [hlog]
    rfl

/-- A cancelled job closes its log, unless the last event does not fit. -/
theorem finishCancelledLocked_closes (hlive : (s.job id).terminal = false) :
    Closes (LastFits env id .cancelled .CANCELLED (env.clock (s.instants + 1)) (s.job id))
      .cancelled .CANCELLED id
      (s.job id) (finishCancelledLocked env id s) := by
  unfold finishCancelledLocked edit
  rw [bind_get, if_neg (by simp [hlive]), bind_modify, bind_ok (markCompletedLocked_run id _)]
  refine Closes.then (emit_closes ?_ ?_ ?_ ?_ rfl) fun t => enforceRetention_record t
  all_goals simp [Registry.update, JobRecord.completed]

/-- So does a failed one. -/
theorem finishFailedLocked_closes (failure : Option Throwable) (message : String)
    (hlive : (s.job id).terminal = false) :
    Closes (LastFits env id .failed .FAILED (env.clock (s.instants + 1)) (s.job id)) .failed .FAILED
      id (s.job id)
      (finishFailedLocked env id failure message s) := by
  unfold finishFailedLocked edit
  rw [bind_get, if_neg (by simp [hlive]), bind_modify, bind_ok (markCompletedLocked_run id _),
    bind_modify]
  refine Closes.then (emit_closes ?_ ?_ ?_ ?_ rfl) fun t => enforceRetention_record t
  all_goals
    rw [update_job_self]
    unfold addDiagnostic
    split <;> simp [Registry.update, JobRecord.completed]

theorem reclaimResultRoom_instants (incoming n : ℕ) (s : Registry) :
    (reclaimResultRoom env incoming n s).2.instants = s.instants := by
  induction n generalizing s with
  | zero =>
    unfold reclaimResultRoom
    rw [bind_get, ite_run]
    split <;> rfl
  | succ n ih =>
    unfold reclaimResultRoom
    rw [bind_get, ite_run]
    split
    · cases oldestCompleted true s.records s.job with
      | none => rfl
      | some oldest =>
        have hdrop : (removeRetained oldest s).instants = s.instants := by
          rw [removeRetained_told]
          rfl
        exact (ih _).trans hdrop
    · rfl

/-- A success, of a job that no room is made of. -/
theorem succeed_closes {result : JobResult}
    (hroom : ∃ t, reclaimResultRoomLocked env (utf8Length result.json) s = (.ok (), t) ∧
    t.job id = s.job id) : Closes (LastFits env id .completed .SUCCEEDED
      (env.clock (s.instants + 1)) (s.job id))
      .completed .SUCCEEDED id (s.job id) (succeed env id result s) := by
  obtain ⟨t, hrun, hjob⟩ := hroom
  have hinstants : t.instants = s.instants := by
    have hrun' : reclaimResultRoom env (utf8Length result.json) s.records.length s = (.ok (), t) :=
      hrun
    have hsame : (reclaimResultRoom env (utf8Length result.json) s.records.length s).2.instants =
        s.instants :=
      reclaimResultRoom_instants _ _ _
    rwa [hrun'] at hsame
  unfold succeed edit
  rw [bind_ok hrun, bind_modify, bind_modify, bind_modify, bind_ok (markCompletedLocked_run id _)]
  refine emit_closes ?_ ?_ ?_ ?_ ?_
  · simp [Registry.update, JobRecord.completed]
  · simp [Registry.update, JobRecord.completed, hjob]
  · simp [Registry.update, JobRecord.completed, hjob]
  · simp [Registry.update, JobRecord.completed, hjob]
  · simp [Registry.update, hinstants]

/-- **The section of `execute`** closes the job where its last event fits, and throws where not. -/
theorem finish_closes {outcome : Except Throwable JobResult} (hlive : (s.job id).terminal = false)
    (hroom : ∀ result, outcome = .ok result → ∃ t, reclaimResultRoomLocked env (utf8Length result.json)
      { s with runningSlots := s.runningSlots - 1 } = (.ok (), t) ∧ t.job id = s.job id) :
    Closes (EndFits env s id outcome) (ending s id outcome).1 (ending s id outcome).2 id (s.job id)
      (finish env id outcome s) := by
  let released : Registry := { s with runningSlots := s.runningSlots - 1 }
  have hreleased : (released.job id).terminal = false := hlive
  unfold finish
  rw [bind_modify]
  refine Closes.then ?_ fun t => enforceRetention_record t
  unfold conclude EndFits ending
  rw [bind_get]
  cases outcome with
  | error failure =>
    dsimp only
    rw [ite_run]
    split
    · exact finishCancelledLocked_closes hreleased
    · exact finishFailedLocked_closes _ _ hreleased
  | ok result =>
    dsimp only
    rw [ite_run]
    split
    · unfold edit
      rw [bind_modify]
      have hlive' : ((released.update id fun r => r.request .SHUTDOWN).job id).terminal = false := by
        rw [update_job_self]
        exact hlive
      have hend := fun e : JobEnv => @finishCancelledLocked_closes e _ _ hlive'
      simp only [update_job_self] at hend
      exact (hend env).log rfl
    · exact succeed_closes (hroom result rfl)

/-! ## Runs -/

namespace Signals

/-- The scheduler makes a step of its own, or none. -/
theorem act_scheduler {s t : Signals} {a : Act} {o : Except Throwable Unit}
    (h : act env s a = some (o, t)) :
    t.scheduler = s.scheduler ∨ ∃ b, Scheduler.act env s.scheduler b = some (o, t.scheduler) := by
  have hrun : ∀ {u v : Signals} {b : Libjadx.Act}, run env u b = some (o, v) →
      ∃ c, Scheduler.act env u.scheduler c = some (o, v.scheduler) := by
    intro u v b hb
    obtain ⟨w, hw, rfl⟩ := run_some hb
    exact ⟨b, hw⟩
  cases a with
  | thread b =>
    simp only [act] at h
    split at h
    · cases h
    · exact .inr (hrun h)
  | dispatch b returns =>
    simp only [act] at h
    split at h
    · split at h
      · cases h
      · obtain ⟨⟨o', u⟩, hu, hut⟩ := Option.map_eq_some_iff.1 h
        obtain ⟨rfl, rfl⟩ := Prod.mk.inj hut
        have hsched := hrun hu
        exact .inr hsched
    · cases h
  | tryAdmit failure =>
    simp only [act] at h
    split at h
    · rename_i id _ _
      obtain ⟨⟨answer, u⟩, hu, hut⟩ := Option.bind_eq_some_iff.1 h
      -- the gate asks the coordinator, and leaves the scheduler alone
      have hsame : u.scheduler = s.scheduler := by
        unfold gate at hu
        split at hu
        · obtain ⟨-, rfl⟩ := Prod.mk.inj (Option.some.inj hu)
          rfl
        · split at hu
          · split at hu
            · cases hu
            · obtain ⟨-, rfl⟩ := Prod.mk.inj (Option.some.inj hu)
              rfl
          · dsimp only at hu
            split at hu
            · obtain ⟨-, rfl⟩ := Prod.mk.inj (Option.some.inj hu)
              rfl
            · obtain ⟨-, rfl⟩ := Prod.mk.inj (Option.some.inj hu)
              split <;> rfl
      rw [← hsame]
      exact .inr (hrun hut)
    · cases h
  | shutDown =>
    simp only [act] at h
    obtain ⟨⟨o', u⟩, hu, hut⟩ := Option.map_eq_some_iff.1 h
    obtain ⟨rfl, rfl⟩ := Prod.mk.inj hut
    have hsched := hrun hu
    exact .inr hsched
  | reload request admission =>
    simp only [act] at h
    split at h
    · cases h
    · split at h <;> obtain ⟨-, rfl⟩ := Prod.mk.inj (Option.some.inj h) <;> exact .inl rfl
  -- the leases are the coordinator's
  | lease b =>
    refine .inl ?_
    cases b with
    | close id =>
      simp only [act] at h
      split at h
      · cases h
      · obtain ⟨u, -, hut⟩ := Option.map_eq_some_iff.1 h
        obtain ⟨-, rfl⟩ := Prod.mk.inj hut
        rfl
    | _ =>
      simp only [act] at h
      obtain ⟨u, -, hut⟩ := Option.map_eq_some_iff.1 h
      obtain ⟨-, rfl⟩ := Prod.mk.inj hut
      rfl
  | execute accepted =>
    simp only [act] at h
    split at h
    · split at h
      · obtain ⟨-, rfl⟩ := Prod.mk.inj (Option.some.inj h)
        exact .inl rfl
      · split at h
        · obtain ⟨-, rfl⟩ := Prod.mk.inj (Option.some.inj h)
          exact .inl rfl
        · cases h
    · cases h
  | signal | reloaded =>
    obtain ⟨-, rfl⟩ := Prod.mk.inj (Option.some.inj h)
    exact .inl rfl
  | setPending | unschedule | begin | clearPending | check | clear | recheck =>
    simp only [act] at h
    split at h
    · obtain ⟨-, rfl⟩ := Prod.mk.inj (Option.some.inj h)
      exact .inl rfl
    · cases h
  | compareAndSet =>
    simp only [act] at h
    split at h
    · obtain ⟨-, rfl⟩ := Prod.mk.inj (Option.some.inj h)
      refine .inl ?_
      split <;> rfl
    · cases h

/-- The scheduler of a run that loses no event has run so, too. -/
theorem Reachable.scheduler {s : Signals} (h : Reachable env True s) :
    Scheduler.Reachable env s.scheduler := by
  obtain ⟨job, subscription, lease, hrun⟩ := h
  refine ⟨job, subscription, ?_⟩
  induction hrun with
  | refl => exact .refl
  | tail _ hstep ih =>
    obtain ⟨a, o, ha, ho⟩ := hstep
    obtain hsame | ⟨b, hb⟩ := act_scheduler ha
    · rw [hsame]
      exact ih
    · exact ih.tail ⟨b, o, hb, ho trivial⟩

/-- The job of a worker is over, its last event is emitted, and the worker goes on to signal. -/
structure Concluded (id : JobId) (s t : Signals) : Prop where
  terminal : (t.scheduler.registry.job id).terminal = true
  event : ∃ e : JobEvent, e.terminal = true ∧
    (t.scheduler.registry.job id).log = (s.scheduler.registry.job id).log ++ [e]
  signal : t.owed = s.owed + 1

/-- However a body ends, its job is terminal. -/
theorem ending_terminal (s : Registry) (id : JobId) (outcome : Except Throwable JobResult) :
    (ending s id outcome).2.terminal = true := by
  unfold ending
  cases outcome with
  | error failure => dsimp only; split <;> rfl
  | ok result => dsimp only; split <;> rfl

/-- **A worker whose body ended concludes its job as the section says.** -/
theorem concluded_iff {s t : Signals} {i : ℕ} {w : Worker} {outcome : Except Throwable JobResult}
    {o : Except Throwable Unit} (h : Reachable env True s) (hw : s.scheduler.workers[i]? = some w)
    (hp : w.phase = .finishing outcome) (ha : act env s (.thread (.finish i)) = some (o, t)) :
    Concluded w.id s t ↔ EndFits env s.scheduler.registry w.id outcome := by
  have hinv := h.scheduler.inv
  obtain ⟨hid, hheld, hf⟩ := hinv.workers w (List.mem_of_getElem? hw)
  have hlive : (s.scheduler.registry.job w.id).terminal = false := hheld.1.1
  have hroom : ∀ result, outcome = .ok result → ∃ u, reclaimResultRoomLocked env
      (utf8Length result.json)
      { s.scheduler.registry with runningSlots := s.scheduler.registry.runningSlots - 1 } =
        (.ok (), u) ∧
        u.job w.id = s.scheduler.registry.job w.id := by
    intro result hresult
    rw [hp, hresult] at hf
    have hin : utf8Length result.json ≤ env.limits.maxTotalResultBytes :=
      hf.trans env.limits.positive.2.2.2.2.1
    obtain ⟨u, hu, hsheds, -⟩ :=
      reclaimResultRoomLocked_run (k := s.scheduler.registry.runningSlots)
      (s := { s.scheduler.registry with runningSlots := s.scheduler.registry.runningSlots - 1 })
        hin hinv.ledger
    have hnone : (s.scheduler.registry.job w.id).completedNanos = none := by
      have hc : (s.scheduler.registry.job w.id).completedNanos.isSome = _ :=
        (hinv.ledger.ok w.id hid).completed
      rw [← Option.not_isSome_iff_eq_none, hc,
        show (s.scheduler.registry.ledger.job w.id).terminal = false from hlive]
      simp
    exact ⟨u, hu, (hsheds.keeps hnone).1⟩
  have hcloses := finish_closes hlive hroom
  have hrun : run env s (.finish i) = some (o, t) := ha
  obtain ⟨u, hu, rfl⟩ := run_some hrun
  simp only [Scheduler.act, hw, hp, Scheduler.section_] at hu
  rcases hm : finish env w.id outcome s.scheduler.registry with ⟨e | x, v⟩
  · rw [hm] at hu hcloses
    obtain ⟨rfl, rfl⟩ := Prod.mk.inj (Option.some.inj hu)
    obtain ⟨-, hok, -⟩ | ⟨hlarge, -⟩ := hcloses
    · cases hok
    · refine iff_of_false (fun hc => ?_) hlarge
      have hsignal := hc.signal
      simp [signals] at hsignal
  · rw [hm] at hu hcloses
    obtain ⟨rfl, rfl⟩ := Prod.mk.inj (Option.some.inj hu)
    obtain ⟨hfits, -, hclosed⟩ | ⟨-, herror⟩ := hcloses
    · refine iff_of_true ⟨?_, ?_, ?_⟩ hfits
      · show (v.job w.id).state.terminal = true
        rw [hclosed.state]
        exact ending_terminal _ _ _
      · obtain ⟨e, -, hstate, hlog⟩ := hclosed.event
        refine ⟨e, ?_, hlog⟩
        show e.state.terminal = true
        rw [hstate]
        exact ending_terminal _ _ _
      · simp [signals]
    · cases herror

end Signals

/-- **When progress is atomic, and strands no job.** A report of an executing job is atomic exactly
where it is not oversized; in a run that lost no event, the section at the end of a task leaves the
job terminal, with its event and its signal, exactly where that event fits. -/
theorem progress_atomic_iff (env : JobEnv) :
    (∀ (s : Registry) (id : JobId) (completed : ℤ) (total : Option ℤ) (stage : Option JString),
      (s.job id).Executing →
      (Atomic env completed total stage (progress env id completed total stage s).1 (s.job id)
        ((progress env id completed total stage s).2.job id) ↔
        ¬ Oversized env s id completed total stage)) ∧
    ∀ s : Signals, Signals.Reachable env True s →
      ∀ i w outcome o t, s.scheduler.workers[i]? = some w →
      w.phase = .finishing outcome → Signals.act env s (.thread (.finish i)) = some (o, t) →
      (Signals.Concluded w.id s t ↔ EndFits env s.scheduler.registry w.id outcome) :=
  ⟨fun _ _ completed total stage hx => progress_iff hx completed total stage,
    fun _ hs _ _ _ _ _ hw hp ha => Signals.concluded_iff hs hw hp ha⟩

namespace LongStage

open Scheduler

/-- A job is submitted and runs. -/
def acts : List Act := .call (.submit OneJob.someSpec) :: LongProgress.started

theorem runs : (perform LongProgress.jsonEnv acts OneJob.start).isSome = true := by decide +kernel

/-- The job runs. -/
def running : Scheduler := (perform LongProgress.jsonEnv acts OneJob.start).get runs

theorem running_reachable : Reachable LongProgress.jsonEnv running :=
  ⟨_, _, perform_run (Option.some_get runs).symm⟩

theorem executing : (running.registry.job 0).Executing := by decide +kernel

/-- Each of the control characters takes six bytes in JSON. -/
def controls : JString := List.replicate 128 1

/-- What the report comes to. -/
def report : Except Throwable Unit × Registry :=
  progress LongProgress.jsonEnv 0 LongProgress.maxLong (some LongProgress.maxLong)
    (some controls) running.registry

theorem lost : report.1.toOption = none ∧
    (report.2.job 0).nextSequence ≠ (running.registry.job 0).nextSequence := by
  decide +kernel

end LongStage

/-- A report that does not fit is in the record without an event. -/
theorem progress_not_atomic : ¬ ∀ (env : JobEnv) (s : Scheduler), Scheduler.Reachable env s →
    ∀ (id : JobId) (completed : ℤ)
    (total : Option ℤ) (stage : Option JString) (run : Except Throwable Unit × Registry),
    (s.registry.job id).Executing → run = progress env id completed total stage s.registry →
    Atomic env completed total stage run.1 (s.registry.job id) (run.2.job id) := by
  intro hall
  have hatomic := hall Scheduler.LongProgress.jsonEnv LongStage.running LongStage.running_reachable 0
    Scheduler.LongProgress.maxLong (some Scheduler.LongProgress.maxLong) (some LongStage.controls)
      LongStage.report
    LongStage.executing rfl
  rcases hatomic with ⟨hok, -⟩ | ⟨-, hsame⟩
  · have hnone := LongStage.lost.1
    rw [hok] at hnone
    cases hnone
  · exact LongStage.lost.2 hsame.nextSequence

/-- A short stage is reported. -/
theorem progress_atomic_short : Atomic Scheduler.LongProgress.jsonEnv 1 (some 2) (some (str "half"))
    (progress Scheduler.LongProgress.jsonEnv 0 1 (some 2)
      (some (str "half")) LongStage.running.registry).1
    (LongStage.running.registry.job 0)
    ((progress Scheduler.LongProgress.jsonEnv 0 1 (some 2)
      (some (str "half")) LongStage.running.registry).2.job 0) := by
  refine ((progress_atomic_iff Scheduler.LongProgress.jsonEnv).1 LongStage.running.registry 0 1 (some 2)
    (some (str "half")) LongStage.executing).2 ?_
  rintro ⟨p, hp, -, hlarge⟩
  obtain rfl : p = ⟨1, some 2, str "half", by decide⟩ := by
    have hmake : JobProgress.make 1 (some 2) (bounded (some (str "half")) 128) = .ok
        ⟨1, some 2, str "half", by decide⟩ := by
      decide +kernel
    rw [hmake] at hp
    exact (Except.ok.inj hp).symm
  exact absurd hlarge (by decide +kernel)

end Libjadx
