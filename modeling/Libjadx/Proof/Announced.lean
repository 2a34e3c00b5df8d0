import Libjadx.Proof.Touch

/-!
# Announcements of cancellation

`cancel` and `tick` emit `job.cancel_requested` with the first request only; `shutdown` emits it for
every unfinished job, asked before or not. So the announcements of a job are at most one, by the
step that sets its token, in every run whose shutdown finds no unfinished job that was asked
(`announced_once`).
-/

namespace Libjadx

open JobRegistry Locked Registry

variable {env : JobEnv} {al : Allows} {s s₀ t u : Registry} {id : JobId} {r r' : JobRecord}

/-- The announcements in the log. -/
def JobRecord.announced (r : JobRecord) : ℕ := r.log.countP fun e => e.type = .cancel_requested

/-- An event counts if it is an announcement. -/
theorem announced_emitted (type : EventType) (now : ℤ) (r : JobRecord) :
    (r.emitted env id type now).announced = r.announced + if type = .cancel_requested then 1
    else 0 := by
  unfold JobRecord.announced JobRecord.emitted
  rw [List.countP_append, List.countP_singleton]
  simp

/-- At most one announcement, and none before the token is set. -/
def JobRecord.Once (r : JobRecord) : Prop := r.announced ≤ if r.token.isSome then 1 else 0

/-- A section that announces first requests only. -/
structure Allows.First (al : Allows) : Prop where
  emits : ∀ id, ¬ al.emits id .cancel_requested
  again : ¬ al.again

/-- One edit announces only with the request that sets the token. -/
theorem Touch.announced (hal : al.First) (h : Touch env al id r r') : r'.announced = r.announced ∧
    (r.token.isSome = true → r'.token.isSome = true) ∨
      r'.announced = r.announced + 1 ∧ r.token = none ∧ r'.token.isSome = true := by
  cases h with
  | silent hs =>
    refine .inl ⟨?_, fun ht => hs.token ▸ ht⟩
    unfold JobRecord.announced
    rw [hs.log]
  | request reason => exact .inl ⟨rfl, fun _ => r.isSome_request reason⟩
  | note text _ =>
    obtain ⟨d, hd⟩ := addDiagnostic_eq env text r
    rw [hd]
    exact .inl ⟨rfl, fun ht => ht⟩
  | progress p _ => exact .inl ⟨rfl, fun ht => ht⟩
  | emit type now htype =>
    refine .inl ⟨?_, fun ht => ht⟩
    have hne : type ≠ .cancel_requested := by
      rintro rfl
      exact hal.emits id htype
    rw [announced_emitted, if_neg hne, Nat.add_zero]
  | announce reason now hnone hs =>
    refine .inr ⟨?_, hnone, ?_⟩
    · rw [announced_emitted, if_pos rfl]
      unfold JobRecord.announced
      rw [hs.log]
      rfl
    · show Option.isSome _ = true
      exact (congrArg Option.isSome hs.token).trans (r.isSome_request reason)
  | again reason now hagain _ => exact absurd hagain hal.again

/-- Over a section: an announcement is the first, by the section that sets the token. -/
theorem Touches.announced (hal : al.First) (h : Touches env al id r r') :
    r'.announced = r.announced ∧
    (r.token.isSome = true → r'.token.isSome = true) ∨
      r'.announced = r.announced + 1 ∧ r.token = none ∧ r'.token.isSome = true := by
  induction h with
  | refl => exact .inl ⟨rfl, fun h => h⟩
  | tail _ hstep ih =>
    obtain ⟨hsame, htoken⟩ | ⟨hmore, hnone, hset⟩ := hstep.announced hal
    · rw [hsame]
      exact ih.imp (fun h => ⟨h.1, fun ht => htoken (h.2 ht)⟩) fun h => ⟨h.1, h.2.1, htoken h.2.2⟩
    · obtain ⟨hsame, htoken⟩ | ⟨-, -, hset'⟩ := ih
      · refine .inr ⟨by rw [hmore, hsame], ?_, hset⟩
        rw [← Option.not_isSome_iff_eq_none] at hnone ⊢
        exact fun ht => hnone (htoken ht)
      · rw [hnone] at hset'
        cases hset'

/-- A section that announces with its first request keeps the announcement single. -/
theorem JobRecord.Once.touches (hr : r.Once) (hal : al.First) (h : Touches env al id r r') :
    r'.Once := by
  unfold JobRecord.Once at *
  obtain ⟨hsame, htoken⟩ | ⟨hmore, hnone, hset⟩ := h.announced hal
  · rw [hsame]
    refine hr.trans ?_
    split
    · rw [if_pos (htoken ‹_›)]
    · exact Nat.zero_le _
  · rw [hmore, if_pos hset]
    rw [hnone] at hr
    have hzero : r.announced ≤ 0 := hr
    omega

/-! ## Shutdown -/

/-- The other jobs are as they were, and the one is over. -/
structure Ended (x : JobId) (s t : Registry) : Prop where
  finished : (t.job x).terminal = true
  token : ∀ y, y ≠ x → (t.job y).token = (s.job y).token
  state : ∀ y, y ≠ x → (t.job y).state = (s.job y).state

/-- A change that leaves tokens and states. -/
theorem Ended.same {x : JobId} (h : Ended x s t) (htoken : ∀ y, (u.job y).token = (t.job y).token)
    (hstate : ∀ y, (u.job y).state = (t.job y).state) : Ended x s u := by
  refine ⟨?_, fun y hy => (htoken y).trans (h.token y hy), fun y hy =>
    (hstate y).trans (h.state y hy)⟩
  unfold JobRecord.terminal
  rw [hstate]
  exact h.finished

/-- One record is changed, with its token and state. -/
theorem Ended.update {x : JobId} {f : JobRecord → JobRecord} (h : Ended x s t) (id : JobId)
    (hf : ∀ r : JobRecord, (f r).token = r.token ∧ (f r).state = r.state) :
    Ended x s (t.update id f) := by
  have hjob : ∀ y, ((t.update id f).job y).token = (t.job y).token ∧
      ((t.update id f).job y).state = (t.job y).state :=
    fun y => update_rel t id f (fun r r' => r.token = r'.token ∧ r.state = r'.state) (hf _)
      (fun _ => ⟨rfl, rfl⟩) y
  exact h.same (fun y => (hjob y).1) fun y => (hjob y).2

/-- Dropping a retained job ends no other job's life. -/
theorem Ended.drop {x : JobId} (h : Ended x s t) (id : JobId) :
    Ended x s (removeRetained id t) := by
  rw [removeRetained_told]
  have hcleared : Ended x s (t.update id fun r => { r with subscribers := [], events := [] }) :=
    h.update id fun _ => ⟨rfl, rfl⟩
  exact hcleared.same (fun _ => rfl) fun _ => rfl

/-- Completing a job may drop retained ones, nothing else. -/
theorem markCompletedLocked_ended (x id : JobId) (s : Registry) :
    Keeps (fun _ => False) (Ended x s) (markCompletedLocked env id) := by
  intro t ht
  refine Ended.update (t := { t with
    instants := t.instants + 1, ticks := t.ticks + 1, completionSequence :=
      t.completionSequence + 1 })
    (ht.same (fun _ => rfl) fun _ => rfl) id (f := fun r => { r with
      completedAt := some (env.clock t.instants), completedNanos := some (env.ticker t.ticks),
      completedOrder := t.completionSequence + 1 }) fun _ => ⟨rfl, rfl⟩

/-- So may the retention that a later section enforces. -/
theorem enforceRetention_ended (x : JobId) (s : Registry) :
    Keeps (fun _ => False) (Ended x s) (modify (enforceRetention env) : Section Unit) := by
  refine triple_modify fun t ht => ?_
  unfold enforceRetention
  split
  · exact ht
  · split
    · exact ht
    · exact ht.drop _

/-- Cancelling a queued job leaves the token and the state of every other one. -/
theorem finishCancelledLocked_ended (x : JobId)
    (h : ∀ y, y ≠ x → (t.job y).token = (s.job y).token ∧
    (t.job y).state = (s.job y).state) : Triple (fun _ => False) (fun v => v = t)
      (finishCancelledLocked env x)
      (fun _ => Ended x s) (Ended x s) := by
  refine triple_at_get (triple_ite (fun hover => triple_pure fun v hv => ?_) fun _ =>
    triple_at_modify ?_)
  · subst hv
    exact ⟨hover, fun y hy => (h y hy).1, fun y hy => (h y hy).2⟩
  · have hend : Ended x s (t.update x fun r => { r with state := .CANCELLED }) := by
      refine ⟨?_, fun y hy => ?_, fun y hy => ?_⟩
      · rw [update_job_self]
        rfl
      · rw [update_job_of_ne hy]
        exact (h y hy).1
      · rw [update_job_of_ne hy]
        exact (h y hy).2
    refine Triple.weaken ?_ (fun v (hv : v = _) => hv ▸ hend) (fun _ _ h => h) fun _ h => h
    refine (markCompletedLocked_ended x x s).bind fun _ => Triple.bind (R := fun _ => Ended x s)
      (fun v hv => ?_)
      fun _ => enforceRetention_ended x s
    have hemit : Ended x s (v.update x fun r => r.emitted env x .cancelled (env.clock v.instants)) :=
      hv.update x fun _ => ⟨rfl, rfl⟩
    obtain hrun | hrun := emitLocked_run env x .cancelled v <;> rw [hrun]
    · exact hemit.same (fun _ => rfl) fun _ => rfl
    · have hlost : Ended x s (v.update x fun r => { r with nextSequence := r.nextSequence + 1 }) :=
        hv.update x fun _ => ⟨rfl, rfl⟩
      exact .inr (hlost.same (fun _ => rfl) fun _ => rfl)

/-- So does the shutdown of a queued job. -/
theorem shutdownQueued_ended (x : JobId) (s : Registry) :
    Triple (fun _ => False) (fun t => t = s) (shutdownQueued env x)
    (fun _ => Ended x s) (Ended x s) := by
  refine triple_at_modify (triple_at_modify (finishCancelledLocked_ended x fun y hy => ?_))
  rw [update_job_of_ne hy]
  exact ⟨rfl, rfl⟩

/-- What the first loop of `shutdown` leaves: who is still asked for nothing, or is over. -/
theorem shutdownQueued_loop (hal : al.Ordinary) (l : List JobId) : Triple (fun _ => False)
    (fun t => Touched env al s₀ t ∧ ∀ id ∈ s₀.records, (t.job id).terminal = true ∨
      (t.job id).token = none ∨ id ∈ l)
    (forEach l (shutdownQueued env))
    (fun _ t => Touched env al s₀ t ∧ ∀ id ∈ s₀.records, (t.job id).terminal = true ∨
      (t.job id).token = none)
    (Touched env al s₀) := by
  induction l with
  | nil =>
    refine triple_pure fun t ht => ⟨ht.1, fun id hid => ?_⟩
    exact (ht.2 id hid).imp_right fun h => h.resolve_right (List.not_mem_nil)
  | cons x l ih =>
    refine Triple.bind (R := fun _ t => Touched env al s₀ t ∧ ∀ id ∈ s₀.records,
      (t.job id).terminal = true ∨
      (t.job id).token = none ∨ id ∈ l) (fun t ht => ?_) fun _ => ih
    have htouch := shutdownQueued_touches hal x s₀ t ht.1
    have hended : Triple (fun _ => False) (fun u => u = t) (shutdownQueued env x) (fun _ =>
        Ended x t) (Ended x t) :=
      shutdownQueued_ended x t
    have hend := hended t rfl
    rcases hm : shutdownQueued env x t with ⟨e | a, v⟩
    · rw [hm] at htouch
      exact htouch
    · rw [hm] at htouch hend
      refine ⟨htouch, fun id hid => ?_⟩
      by_cases hx : id = x
      · exact .inl (hx ▸ hend.finished)
      · unfold JobRecord.terminal
        rw [hend.token id hx, hend.state id hx]
        exact (ht.2 id hid).imp_right fun h => h.imp_right fun h =>
          (List.mem_cons.1 h).resolve_left hx

/-- The second loop announces to each job once. -/
theorem shutdownActive_loop {l : List JobId} (hnodup : l.Nodup) : Triple (fun _ => False)
    (fun t => Touched env al s₀ t ∧ ∀ id ∈ l, (t.job id).terminal = true ∨ (t.job id).token = none)
    (forEach l (shutdownActive env)) (fun _ => Touched env al s₀) (Touched env al s₀) := by
  induction l with
  | nil => exact triple_pure fun t ht => ht.1
  | cons x l ih =>
    rw [List.nodup_cons] at hnodup
    refine Triple.bind (R := fun _ t => Touched env al s₀ t ∧ ∀ id ∈ l, (t.job id).terminal = true ∨
      (t.job id).token = none) (fun t ht => ?_) fun _ => ih hnodup.2
    have hasks : (t.job x).terminal = false → al.again ∨ (t.job x).token = none := by
      intro hlive
      exact .inr ((ht.2 x List.mem_cons_self).resolve_left (by simp [hlive]))
    have htouch := shutdownActive_triple ht.1 hasks t rfl
    have hothers : ∀ y, y ≠ x → ((shutdownActive env x t).2.job y) = t.job y := by
      intro y hy
      unfold shutdownActive edit
      rw [bind_get]
      cases (t.job x).terminal with
      | true => rfl
      | false =>
        rw [Bool.not_false, when_true, bind_modify, bind_modify]
        obtain hrun | hrun := emitLocked_run env x .cancel_requested
          ((t.update x fun r => r.request .SHUTDOWN).update x JobRecord.cancelling) <;> rw [hrun]
        · simp [emitFits, Registry.update, Function.update_of_ne hy]
        · simp [emitLost, Registry.update, Function.update_of_ne hy]
    rcases hm : shutdownActive env x t with ⟨e | a, v⟩
    · rw [hm] at htouch
      exact htouch
    · rw [hm] at htouch hothers
      refine ⟨htouch, fun id hid => ?_⟩
      rw [hothers id fun hx => hnodup.1 (hx ▸ hid)]
      exact ht.2 id (List.mem_cons_of_mem _ hid)

/-- A shutdown that finds no unfinished job that was asked announces to each for the first time. -/
theorem shutdown_first (hal : al.Ordinary) (hnodup : s.records.Nodup)
    (hasked : s.shutdownDone = false →
    ∀ id ∈ s.records, (s.job id).terminal = false → id ∉ s.queue → (s.job id).token = none) :
    Triple (fun _ => False) (fun t => t = s) (shutdown env) (fun _ => Touched env al s)
      (Touched env al s) := by
  refine triple_at_get (triple_when (fun hdone => ?_) fun _ t ht => ht ▸ .refl _)
  have hdone' : s.shutdownDone = false := by simpa using hdone
  refine triple_at_modify ?_
  refine Triple.bind (R := fun _ t => Touched env al s t ∧ ∀ id ∈ s.records,
    (t.job id).terminal = true ∨
    (t.job id).token = none) ((shutdownQueued_loop hal s.queue).weaken (fun t ht => ?_)
      (fun _ _ h => h) fun _ h => h)
    fun _ => ?_
  · subst ht
    refine ⟨(Touched.refl s).same rfl (List.Sublist.refl _) rfl, fun id hid => ?_⟩
    by_cases hover : (s.job id).terminal = true
    · exact .inl hover
    · by_cases hq : id ∈ s.queue
      · exact .inr (.inr hq)
      · exact .inr (.inl (hasked hdone' id hid (by simpa using hover) hq))
  · refine triple_get fun t ht => ?_
    refine Triple.bind (R := fun _ => Touched env al s)
      ((shutdownActive_loop (hnodup.sublist ht.1.records)).weaken (fun v hv => ?_) (fun _ _ h => h)
        fun _ h => h)
      fun _ => ?_
    · subst hv
      exact ⟨ht.1, fun id hid => ht.2 id (ht.1.records.subset hid)⟩
    · refine triple_get_keep fun u _ => triple_forEach fun x _ => triple_get_keep fun v _ =>
        triple_forEach fun sub _ => ?_
      exact triple_modify fun w hw => hw.same rfl (List.Sublist.refl _) rfl

/-! ## Runs -/

namespace Scheduler

variable {s t : Scheduler} {a : Act} {o : Except Throwable Unit}

/-- A shutdown finds no unfinished job out of the queue that was asked to stop. -/
def Unasked (s : Scheduler) (a : Act) : Prop :=
  a = .call .shutdown → s.registry.shutdownDone = false →
  ∀ id ∈ s.registry.records, (s.registry.job id).terminal = false → id ∉ s.registry.queue →
    (s.registry.job id).token = none

/-- Any step but such a shutdown, whether its events fit or not. -/
def UnaskedStep (env : JobEnv) (s t : Scheduler) : Prop :=
  ∃ a o, act env s a = some (o, t) ∧ Unasked s a

/-- Some section announces first requests only, and does what the act does. -/
theorem touched_first (h : act env s a = some (o, t)) (hasked : Unasked s a)
    (hnodup : s.registry.records.Nodup) :
    ∃ al : Allows, al.First ∧ (Touched env al s.registry t.registry ∨
      Enrolled env al s.registry t.registry) := by
  by_cases hshut : a = .call .shutdown
  · subst hshut
    refine ⟨{ Act.allows env s (.call .shutdown) with again := False },
      ⟨fun id h => h.1 rfl, fun h => h⟩, .inl ?_⟩
    have hal := allows_ordinary env s (.call .shutdown)
    have hfirst : ∀ al : Allows, al.Ordinary → Triple (fun _ => False) (fun t => t = s.registry)
        (JobRegistry.shutdown env) (fun _ => Touched env al s.registry)
            (Touched env al s.registry) :=
      fun al h => shutdown_first h hnodup (hasked rfl)
    have hrun := hfirst { Act.allows env s (.call .shutdown) with again := False }
      ⟨hal.ends, hal.messages⟩ s.registry rfl
    have hr : s.section_ (JobRegistry.shutdown env) (fun _ s => s) id = (o, t) := Option.some.inj h
    unfold section_ at hr
    rcases hm : JobRegistry.shutdown env s.registry with ⟨e | x, u⟩
    · rw [hm] at hr hrun
      obtain ⟨-, rfl⟩ := Prod.mk.inj hr
      exact hrun.resolve_left id
    · rw [hm] at hr hrun
      obtain ⟨-, rfl⟩ := Prod.mk.inj hr
      exact hrun
  · exact ⟨a.allows env s, ⟨fun id h => h.1 rfl, hshut⟩, (touched h).imp_right And.right⟩

/-- What every run keeps. -/
structure Announced (s : Registry) : Prop where
  nodup : s.records.Nodup
  created : ∀ id ∈ s.records, id < s.created
  once : ∀ id < s.created, (s.job id).Once

/-- An edit of any section keeps every announcement single. -/
theorem Announced.touched {r u : Registry} (h : Announced r) (hal : al.First)
    (ht : Touched env al r u) : Announced u := by
  refine ⟨h.nodup.sublist ht.records, fun id hid => ?_, fun id hid => ?_⟩
  · rw [ht.created]
    exact h.created id (ht.records.subset hid)
  · rw [ht.created] at hid
    exact (h.once id hid).touches hal (ht.job id)

/-- A new job was never announced. -/
theorem Announced.enroll {u : Registry} {r : JobRecord} (h : Announced u) (hr : r.Born) :
    Announced (enroll r u) := by
  refine ⟨?_, fun id hid => ?_, fun id hid => ?_⟩
  · refine h.nodup.append (List.nodup_singleton _) (List.disjoint_singleton.2 fun hmem => ?_)
    exact absurd (h.created _ hmem) (lt_irrefl _)
  · show id < u.created + 1
    rcases List.mem_append.1 hid with hid | hid
    · exact (h.created id hid).trans (Nat.lt_succ_self _)
    · rw [List.mem_singleton.1 hid]
      exact Nat.lt_succ_self _
  · by_cases hnew : id = u.created
    · have hjob : (JobRegistry.enroll r u).job id = r := by
        rw [hnew]
        exact Function.update_self ..
      rw [hjob]
      have hzero : r.announced = 0 := by
        unfold JobRecord.announced
        rw [hr.log]
        rfl
      exact hzero.le.trans (Nat.zero_le _)
    · have hjob : (JobRegistry.enroll r u).job id = u.job id := Function.update_of_ne hnew _ _
      rw [hjob]
      have hlt : id < u.created + 1 := hid
      exact h.once id (by omega)

/-- **A step keeps it.** -/
theorem Announced.step (h : Announced s.registry) (hs : UnaskedStep env s t) :
    Announced t.registry := by
  obtain ⟨a, o, ha, hasked⟩ := hs
  obtain ⟨al, hal, ht | ⟨u, r, hu, hr, ht⟩⟩ := touched_first ha hasked h.nodup
  · exact h.touched hal ht
  · exact ((h.touched hal hu).enroll hr).touched hal ht

/-- **Over a run** in which no stop announces a job that was asked before. -/
theorem announced_kept {job : JobId → JobRecord} {subscription : SubscriptionId → Subscription}
    (hrun : Relation.ReflTransGen (UnaskedStep env) ⟨empty job subscription, .idle, []⟩ s) :
    Announced s.registry := by
  induction hrun with
  | refl => exact ⟨List.nodup_nil, nofun, nofun⟩
  | tail _ hstep ih => exact ih.step hstep

/-- How often a job was announced; a job that does not exist was not. -/
def announcements (s : Registry) (id : JobId) : ℕ :=
  if id < s.created then (s.job id).announced else 0

/-- A job without a token gets one; a job that does not exist has none. -/
def SetsToken (s t : Registry) (id : JobId) : Prop :=
  (id < s.created → (s.job id).token = none) ∧ (t.job id).token.isSome = true

/-- What the run keeps, as the count of the events in the log. -/
theorem announcements_le {r : Registry} (h : Announced r) (id : JobId) :
    announcements r id ≤ 1 := by
  unfold announcements
  split
  · refine (h.once id ‹_›).trans ?_
    split <;> omega
  · omega

/-- An announcement is in a step that sets the token. -/
theorem announces_first (h : Announced s.registry) (hs : UnaskedStep env s t) {id : JobId}
    (hmore : announcements s.registry id < announcements t.registry id) :
    SetsToken s.registry t.registry id := by
  have hone := announcements_le (h.step hs) id
  have hexists : id < t.registry.created := by
    by_contra hno
    unfold announcements at hmore
    rw [if_neg hno] at hmore
    omega
  have htoken : (t.registry.job id).token.isSome = true := by
    by_contra hno
    have hzero := (h.step hs).once id hexists
    unfold JobRecord.Once at hzero
    rw [if_neg hno] at hzero
    unfold announcements at hmore
    rw [if_pos hexists] at hmore
    omega
  refine ⟨fun hold => ?_, htoken⟩
  obtain ⟨a, o, ha, hasked⟩ := hs
  unfold announcements at hmore
  rw [if_pos hold, if_pos hexists] at hmore
  obtain ⟨al, hal, htouches⟩ : ∃ al : Allows, al.First ∧ Touches env al id (s.registry.job id)
      (t.registry.job id) := by
    obtain ⟨al, hal, ht | ⟨u, r, hu, hr, ht⟩⟩ := touched_first ha hasked h.nodup
    · exact ⟨al, hal, ht.job id⟩
    · have hne : id ≠ u.created := by
        rw [hu.created]
        exact hold.ne
      have hjob : (JobRegistry.enroll r u).job id = u.job id := Function.update_of_ne hne _ _
      exact ⟨al, hal, (hu.job id).trans (hjob ▸ ht.job id)⟩
  obtain ⟨hsame, -⟩ | ⟨-, hnone, -⟩ := htouches.announced hal
  · omega
  · exact hnone

/-- **An announcement is the first.** In every run whose shutdown finds no job it asks again, a job
is announced at most once, and by the step that sets its token. -/
theorem announced_once (env : JobEnv) (job : JobId → JobRecord)
    (subscription : SubscriptionId → Subscription) (s : Scheduler)
    (hrun : Relation.ReflTransGen (UnaskedStep env) ⟨empty job subscription, .idle, []⟩ s) :
    (∀ id, announcements s.registry id ≤ 1) ∧ ∀ t, UnaskedStep env s t → ∀ id,
      announcements s.registry id < announcements t.registry id →
        SetsToken s.registry t.registry id :=
  ⟨announcements_le (announced_kept hrun), fun _ hs _ => announces_first (announced_kept hrun) hs⟩

namespace Twice

/-- A running job is cancelled, and then the registry is shut down. -/
def acts : List Act :=
  [.call (.submit OneJob.someSpec), .pump, .tryAdmit (.lease 0), .capture none, .start,
    .execute true, .run 0,
    .call (.cancel 0), .call .shutdown]

theorem runs : (perform OneJob.smallEnv acts OneJob.start).isSome = true := by decide +kernel

end Twice

/-- A job that was asked to stop is announced again by the shutdown. -/
theorem announced_twice : ¬ ∀ env s, Reachable env s → ∀ id, announcements s.registry id ≤ 1 := by
  intro hall
  have hs := hall OneJob.smallEnv _ (OneJob.reachable Twice.runs) 0
  exact absurd hs (by decide +kernel)

/-- A job that the dispatcher holds is cancelled. -/
theorem announced_once_cancelled : ∃ s, perform OneJob.smallEnv
      [.call (.submit OneJob.someSpec), .pump, .tryAdmit (.lease 0), .call (.cancel 0)]
      OneJob.start = some s ∧
    announcements s.registry 0 = 1 ∧ announcements s.registry 0 ≤ 1 := by
  let s₁ := (perform OneJob.smallEnv [.call (.submit OneJob.someSpec)] OneJob.start).get
    (by decide +kernel)
  let s₂ := (perform OneJob.smallEnv [.pump] s₁).get (by decide +kernel)
  let s₃ := (perform OneJob.smallEnv [.tryAdmit (.lease 0)] s₂).get (by decide +kernel)
  let s₄ := (perform OneJob.smallEnv [.call (.cancel 0)] s₃).get (by decide +kernel)
  have h₁ : UnaskedStep OneJob.smallEnv OneJob.start s₁ :=
    ⟨.call (.submit OneJob.someSpec), .ok (), rfl, nofun⟩
  have h₂ : UnaskedStep OneJob.smallEnv s₁ s₂ := ⟨.pump, .ok (), rfl, nofun⟩
  have h₃ : UnaskedStep OneJob.smallEnv s₂ s₃ := ⟨.tryAdmit (.lease 0), .ok (), rfl, nofun⟩
  have h₄ : UnaskedStep OneJob.smallEnv s₃ s₄ := ⟨.call (.cancel 0), .ok (), rfl, nofun⟩
  have hrun : Relation.ReflTransGen (UnaskedStep OneJob.smallEnv) OneJob.start s₄ :=
    .head h₁ (.head h₂ (.head h₃ (.single h₄)))
  refine ⟨s₄, rfl, by decide +kernel, (announced_once OneJob.smallEnv _ _ s₄ hrun).1 0⟩

end Scheduler

end Libjadx
