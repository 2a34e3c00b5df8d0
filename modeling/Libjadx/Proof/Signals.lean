import Libjadx.Proof.Acts
import Libjadx.Proof.Coordinator
import Libjadx.Proof.Stream
import Libjadx.Spec.Signals

/-!
# No lost wake-up

* `Steady`: a section after which no `signal` follows leaves the queue and the slots as they were,
  or the registry stopped.
* `Signals.Inv`: where there is work for the dispatcher, it is awake, or a flag or a thread will
  wake it.
* `wake_up_kept`: in a quiet state nothing waits but for a lease that is in progress.
* `wake_up_lost`: a section that throws for an event too large never comes to its `signal`.
-/

namespace Libjadx

open JobRegistry Locked

variable {env : JobEnv}

/-- Nothing new to dispatch. -/
structure Steady (s t : Registry) : Prop where
  stopped : s.stopped = true → t.stopped = true
  same : t.stopped = true ∨ t.queue = s.queue ∧ t.runningSlots = s.runningSlots

theorem Steady.refl (s : Registry) : Steady s s := ⟨fun h => h, .inr ⟨rfl, rfl⟩⟩

/-- An edit that retires nothing is steady. -/
theorem Edited.steady {lenient : Prop} {s t : Registry} (h : Edited env lenient False s t) :
    Steady s t :=
  ⟨h.slots.2, .inr ⟨h.queue, h.slots.1⟩⟩

namespace Scheduler

variable {s t : Scheduler} {a : Act} {o : Except Throwable Unit}

/-- Where a section throws in a run that loses no event, the job is not asked to stop, and none
ends. -/
theorem call_steady {c : Call} (h : act env s (.call c) = some (o, t))
    (ho : o ≠ .error eventTooLarge)
    (hsig : Signals.signals s (.call c) o t = false) : Steady s.registry t.registry := by
  have hunfit : ∀ e, o = .error e → ¬ Unfit False e := by
    rintro e rfl ⟨rfl, -⟩
    exact ho rfl
  simp only [act] at h
  split at h
  case isFalse => simp at h
  have hr := Option.some.inj h
  have hedits : Act.retires (.call c) = False → (∀ spec, c ≠ .submit spec) →
      (∀ id last, c ≠ .subscribe id last) →
      (∀ sub, c ≠ .next sub) → Steady s.registry t.registry := by
    intro hret h1 h2 h3
    have hed : Edits env False (Act.retires (.call c)) (call env c) := call_edits c h1 h2 h3
    rw [hret] at hed
    exact (section_edits hed (fun _ _ => rfl) (fun _ => rfl) hr hunfit).steady
  cases c with
  | submit spec =>
    rw [call, void_outcome] at hr
    obtain ⟨x, u, -, hu, rfl, rfl⟩ | ⟨e, u, -, hu, rfl, rfl⟩ :=
      section_ends (submit_triple spec s.registry) hr hunfit
    · simp [Signals.signals] at hsig
    · exact (hu.resolve_right fun h => h.1).steady
  | cancel id =>
    rw [call, void_outcome] at hr
    obtain ⟨x, u, -, hu, rfl, rfl⟩ | ⟨e, u, -, hu, rfl, rfl⟩ :=
      section_ends (cancel_triple id s.registry) hr hunfit
    · refine (hu.resolve_right fun ha => ?_).steady
      simp only [Signals.signals] at hsig
      rw [asks, hsig] at ha
      exact absurd ha (by simp)
    · exact (hu.resolve_right fun h => h).steady
  | tick =>
    obtain ⟨x, u, -, hu, rfl, rfl⟩ | ⟨e, u, -, hu, rfl, rfl⟩ :=
      section_ends (tick_triple s.registry) hr hunfit
    · have hq : u.queue = s.registry.queue := by simpa [Signals.signals] using hsig
      exact ⟨hu.slots.2, .inr ⟨hq, hu.slots.1⟩⟩
    · exact (hu.resolve_right fun h => h).steady
  | shutdown =>
    obtain ⟨x, u, -, hu, rfl, rfl⟩ | ⟨e, u, -, hu, rfl, rfl⟩ :=
      section_ends (shutdown_stops s.registry) hr hunfit
    · rcases hu with rfl | hu
      · exact .refl _
      · exact ⟨fun _ => hu, .inl hu⟩
    · exact ⟨fun _ => hu, .inl hu⟩
  | subscribe id last =>
    rw [call, void_outcome] at hr
    obtain ⟨x, u, -, ⟨v, hv, hx⟩, rfl, rfl⟩ | ⟨e, u, -, hu, rfl, rfl⟩ :=
      section_ends (subscribe_triple id last s.registry) hr hunfit
    · have hst := hv.steady
      rw [show u = _ from hx.eq]
      exact ⟨hst.stopped, hst.same⟩
    · exact hu.steady
  | next sub =>
    obtain ⟨rfl, rfl⟩ := Prod.mk.inj hr
    exact ⟨fun h => h, .inr ⟨rfl, rfl⟩⟩
  | reserveSubmissions | releaseSubmissionReservation | stopSubmissions | snapshot |
      closeSubscription | progress
  | diagnostic => exact hedits rfl (by simp) (by simp) (by simp)

/-- A purge does not fail. -/
theorem purgeExpiredLocked_ok (httl : env.limits.terminalTtl < 2 ^ 63) (s : Registry) :
    ∃ u, purgeExpiredLocked env s = (.ok (), u) := by
  unfold purgeExpiredLocked
  rw [bind_ok (nanoTime_run s), bind_get]
  dsimp only
  split
  · exact ⟨_, rfl⟩
  · have hnanos : ∀ u, toNanos env.limits.terminalTtl u = (.ok (Int64.ofNat env.limits.terminalTtl),
        u) := fun u => by
      rw [toNanos, if_pos httl, pure_run]
    rw [bind_ok (hnanos _), forEach_modify]
    exact ⟨_, rfl⟩

/-- The head of `pump` does not throw where the time to live is a `long` of nanoseconds. -/
theorem pump_ok (httl : env.limits.terminalTtl < 2 ^ 63) (s : Registry) :
    ∃ x u, JobRegistry.pump env s = (.ok x, u) := by
  obtain ⟨u, hu⟩ := purgeExpiredLocked_ok httl s
  unfold JobRegistry.pump
  rw [bind_ok hu, bind_get, ite_run]
  split
  · exact ⟨_, _, rfl⟩
  · cases u.queue with
    | nil => exact ⟨_, _, rfl⟩
    | cons id rest => exact ⟨_, _, rfl⟩

/-- The sections that hold a job throw for nothing else than an event. -/
theorem held_ok (h : Inv env True s) (ha : act env s a = some (o, t))
    (ho : o ≠ .error eventTooLarge)
    (hk : a = .requeue ∨ a = .start ∨ a = .fail ∨ ∃ i, a = .finish i) : o = .ok () := by
  have hends : ∀ {α : Type} {m : Section α} {Q : α → Registry → Prop} {done : α → Scheduler → Scheduler}
      {failed : Scheduler → Scheduler}, Runs s.registry m Q → s.section_ m done failed = (o, t) →
          o = .ok () := by
    intro α m Q done failed hm hr
    unfold section_ at hr
    rcases hx : m s.registry with ⟨e | x, u⟩
    · rw [hx] at hr
      obtain ⟨rfl, rfl⟩ := Prod.mk.inj hr
      exact absurd ((hm.error rfl hx).resolve_right fun h => h) fun he => ho (by rw [he])
    · rw [hx] at hr
      exact (Prod.mk.inj hr).1.symm
  rcases hk with rfl | rfl | rfl | ⟨i, rfl⟩
  · simp only [act] at ha
    split at ha
    case h_2 => simp at ha
    rename_i id hd
    obtain ⟨hlt, hc⟩ := h.dispatch id (by rw [hd]; rfl)
    rw [hd] at hc
    exact hends (@requeueBlocked_reckons env True _ id hlt hc.2 h.ledger s.registry rfl)
      (Option.some.inj ha)
  · simp only [act] at ha
    split at ha
    case h_2 => simp at ha
    rename_i id lease hd
    obtain ⟨hlt, hc⟩ := h.dispatch id (by rw [hd]; rfl)
    rw [hd] at hc
    exact hends (@startAdmitted_runs env True _ id hlt hc.2 h.ledger s.registry rfl)
      (Option.some.inj ha)
  · simp only [act] at ha
    split at ha
    case h_2 => simp at ha
    rename_i id failure cancelled hd
    obtain ⟨hlt, hc⟩ := h.dispatch id (by rw [hd]; rfl)
    rw [hd] at hc
    exact hends (@finishDispatchFailure_reckons env True _ id hlt hc.1 h.ledger s.registry rfl
      failure cancelled hc.2.1
      hc.2.2) (Option.some.inj ha)
  · obtain ⟨w, hw, ha⟩ := worker_some ha
    split at ha
    case h_2 => simp at ha
    rename_i outcome hp
    obtain ⟨hlt, hheld, hf⟩ := h.workers w (List.mem_of_getElem? hw)
    rw [hp] at hf
    have hfits : ∀ result, outcome = .ok result →
        utf8Length result.json ≤ env.limits.maxResultBytes :=
      fun result hr => by subst hr; exact hf
    exact hends (@finish_reckons env True _ w.id hlt (held_executing hheld) h.ledger outcome hfits
      s.registry rfl)
      (Option.some.inj ha)

end Scheduler

namespace Signals

variable {s t : Signals} {o : Except Throwable Unit}

/-! ## The invariant -/

/-- The head of the queue waits for a lease. -/
def Held (s : Signals) : Prop :=
  ∃ id rest l, s.scheduler.registry.queue = id :: rest ∧ s.refused = some (id, l) ∧ s.InProgress l

/-- There is no work for the dispatcher. -/
def Dull (env : JobEnv) (s : Signals) : Prop :=
  s.scheduler.registry.stopped = true ∨ s.scheduler.registry.queue = [] ∨
    env.limits.maxRunning ≤ s.scheduler.registry.runningSlots ∨ Held s

/-- The dispatcher is about to look at the queue, or a flag or a thread will make it. -/
def Awake (s : Signals) : Prop :=
  s.dispatchPending = true ∨ 0 < s.owed ∨ 0 < s.won ∨ 0 < s.tasks ∨ s.loop = .top ∨ s.loop = .pump

/-- The places of the task that hold `dispatchScheduled`. -/
def Loop.owns : Loop → ℕ
  | .off | .recheck => 0
  | .top | .pump | .check | .clear => 1

/-- The invariant of the signals. -/
structure Inv (env : JobEnv) (s : Signals) : Prop where
  scheduler : Scheduler.Inv env True s.scheduler
  leases : OperationCoordinator.Inv s.leases
  reload : ∀ l ∈ s.reloading, l ∈ s.leases.coordinator.active ∧ l ∉ s.leases.closing
  /-- One thread has `dispatchScheduled` at most. -/
  owner : s.dispatchScheduled.toNat = s.won + s.rejected + s.tasks + Loop.owns s.loop
  down : s.shuttingDown = true → s.scheduler.registry.stopped = true
  rejected : 0 < s.rejected → s.scheduler.registry.stopped = true
  idle : s.loop ≠ .pump → s.scheduler.dispatch = .idle
  pending : s.dispatchPending = true → s.scheduler.registry.stopped = true ∨
    s.dispatchScheduled = true ∨ 0 < s.owed ∨
    0 < s.marked ∨ s.loop = .recheck
  awake : Dull env s ∨ Awake s
  /-- A lease that the gate refused a job for is in progress until the job is put back, or has
  signalled. -/
  busy : ∀ id, s.scheduler.dispatch = .busy id → s.scheduler.registry.stopped = true ∨
    (∃ l, s.refused = some (id, l) ∧ s.InProgress l) ∨ s.dispatchPending = true ∨ 0 < s.owed

/-- It holds at the start. -/
theorem start_inv (job : JobId → JobRecord) (subscription : SubscriptionId → Subscription)
    (lease : LeaseId → Lease) :
    Inv env (start job subscription lease) where
  scheduler := Scheduler.inv_empty job subscription
  leases := OperationCoordinator.start_inv lease
  reload := by simp [start]
  owner := rfl
  down := by simp [start]
  rejected := by simp [start]
  idle _ := rfl
  pending := by simp [start]
  awake := .inl (.inr (.inl rfl))
  busy := by simp [start]

/-- Nothing new to dispatch, and the leases are in progress still. -/
theorem Dull.steady (h : Dull env s) (hreg : Steady s.scheduler.registry t.scheduler.registry)
    (hr : t.refused = s.refused) (hp : ∀ l, s.InProgress l → t.InProgress l) : Dull env t := by
  rcases hreg.same with hstop | ⟨hq, hslots⟩
  · exact .inl hstop
  rcases h with h | h | h | ⟨id, rest, l, hqueue, href, hl⟩
  · exact .inl (hreg.stopped h)
  · exact .inr (.inl (hq.trans h))
  · exact .inr (.inr (.inl (hslots ▸ h)))
  · exact .inr (.inr (.inr ⟨id, rest, l, hq.trans hqueue, hr.trans href, hp l hl⟩))

end Signals

namespace Scheduler

variable {s t : Scheduler} {a : Act} {o : Except Throwable Unit}

/-- The other threads do not move the dispatcher. -/
theorem act_dispatch (ha : act env s a = some (o, t)) (hd : a.dispatcher = false) :
    t.dispatch = s.dispatch := by
  have hsection : ∀ {α : Type} {m : Section α} {done : α → Scheduler →
      Scheduler} {failed : Scheduler → Scheduler},
      (∀ x u, (done x u).dispatch = u.dispatch) → (∀ u, (failed u).dispatch = u.dispatch) →
      s.section_ m done failed = (o, t) → t.dispatch = s.dispatch := by
    intro α m done failed hdone hfailed hr
    unfold section_ at hr
    rcases hx : m s.registry with ⟨e | x, u⟩
    · rw [hx] at hr
      obtain ⟨-, rfl⟩ := Prod.mk.inj hr
      exact hfailed _
    · rw [hx] at hr
      obtain ⟨-, rfl⟩ := Prod.mk.inj hr
      exact hdone _ _
  cases a with
  | call c =>
    simp only [act] at ha
    split at ha
    · exact hsection (fun _ _ => rfl) (fun _ => rfl) (Option.some.inj ha)
    · simp at ha
  | finish i =>
    obtain ⟨w, hw, ha⟩ := worker_some ha
    split at ha
    · refine hsection ?_ ?_ (Option.some.inj ha)
      · exact fun _ _ => rfl
      · exact fun _ => rfl
    · simp at ha
  | run i | returns i result | release i failure =>
    obtain ⟨w, hw, ha⟩ := worker_some ha
    split at ha
    · obtain ⟨-, rfl⟩ := Prod.mk.inj (Option.some.inj ha)
      rfl
    · simp at ha
  | pump | tryAdmit | requeue | capture | start | close | execute | fail =>
      simp [Act.dispatcher] at hd

/-- A stopped registry stays stopped. -/
theorem act_stopped (ha : act env s a = some (o, t)) (ho : o ≠ .error eventTooLarge)
    (hs : s.registry.stopped = true) :
    t.registry.stopped = true := by
  have hunfit : ∀ e, o = .error e → ¬ Unfit False e := by
    rintro e rfl ⟨rfl, -⟩
    exact ho rfl
  have hh := happens ha hunfit
  generalize t.registry = r at hh ⊢
  cases hh with
  | edited _ _ he => exact he.slots.2 hs
  | freed _ he => exact he.slots.2 hs
  | submitted hsub =>
    obtain ⟨u, r, hu, hopen, -, -, -⟩ := hsub
    exact absurd (hu.slots.2 hs) (by simp [hopen])
  | taken htaken =>
    obtain ⟨u, rest, hu, hopen, -, -, -⟩ := htaken
    exact absurd (hu.slots.2 hs) (by simp [hopen])
  | putBack k _ _ => exact hs
  | subscribed hu hsub =>
    rw [hsub.eq]
    exact hu.slots.2 hs
  | polled sub => exact hs

/-- After a step of a caller or a worker a signal follows, or there is nothing new to dispatch. -/
theorem thread_steady (h : Inv env True s) (ha : act env s a = some (o, t))
    (ho : o ≠ .error eventTooLarge)
    (hd : a.dispatcher = false) : Signals.signals s a o t = true ∨
    Steady s.registry t.registry := by
  cases a with
  | call c =>
    cases hsig : Signals.signals s (.call c) o t with
    | true => exact .inl rfl
    | false => exact .inr (call_steady ha ho hsig)
  | finish i =>
    obtain rfl := held_ok h ha ho (.inr (.inr (.inr ⟨i, rfl⟩)))
    exact .inl rfl
  | run i | returns i result | release i failure =>
    obtain ⟨w, hw, ha⟩ := worker_some ha
    split at ha
    · obtain ⟨-, rfl⟩ := Prod.mk.inj (Option.some.inj ha)
      exact .inr (.refl _)
    · simp at ha
  | pump | tryAdmit | requeue | capture | start | close | execute | fail =>
      simp [Act.dispatcher] at hd

end Scheduler

namespace Signals

variable {s t : Signals} {o : Except Throwable Unit}

/-! ## Steps -/

/-- What `run` makes of a step of the scheduler. -/
theorem run_some {a : Libjadx.Act} (h : run env s a = some (o, t)) :
    ∃ u, Scheduler.act env s.scheduler a = some (o, u) ∧
    t = { s with scheduler := u, owed := s.owed + if signals s.scheduler a o u then 1 else 0 } := by
  obtain ⟨⟨o', u⟩, hu, hut⟩ := Option.map_eq_some_iff.1 h
  obtain ⟨rfl, rfl⟩ := Prod.mk.inj hut
  exact ⟨u, hu, rfl⟩

/-- A step of the scheduler keeps what does not depend on the dispatcher's place. -/
theorem Inv.run {a : Libjadx.Act} {u : Scheduler} {n : ℕ} {loop : Loop} (h : Inv env s)
    (ha : Scheduler.act env s.scheduler a = some (o, u)) (ho : o ≠ .error eventTooLarge)
    (howns : Loop.owns loop = Loop.owns s.loop) (hrecheck : s.loop = .recheck → loop = .recheck)
    (hidle : loop ≠ .pump → u.dispatch = .idle)
    (hawake : Dull env { s with scheduler := u, owed := s.owed + n, loop := loop } ∨
      Awake { s with scheduler := u, owed := s.owed + n, loop := loop })
    (hbusy : ∀ id, u.dispatch = .busy id → u.registry.stopped = true ∨
      (∃ l, s.refused = some (id, l) ∧ s.InProgress l) ∨
      s.dispatchPending = true ∨ 0 < s.owed + n) :
    Inv env { s with scheduler := u, owed := s.owed + n, loop := loop } where
  scheduler := (h.scheduler.act ha ho fun _ => trivial).1
  leases := h.leases
  reload := h.reload
  owner := h.owner.trans (by rw [howns])
  down hd := Scheduler.act_stopped ha ho (h.down hd)
  rejected hr := Scheduler.act_stopped ha ho (h.rejected hr)
  idle := hidle
  pending hp := by
    rcases h.pending hp with h | h | h | h | h
    · exact .inl (Scheduler.act_stopped ha ho h)
    · exact .inr (.inl h)
    · exact .inr (.inr (.inl (Nat.lt_add_right n h)))
    · exact .inr (.inr (.inr (.inl h)))
    · exact .inr (.inr (.inr (.inr (hrecheck h))))
  awake := hawake
  busy := hbusy

/-- What is awake stays awake while workers run. -/
theorem Awake.run {u : Scheduler} {n : ℕ} (h : Awake s) :
    Awake { s with scheduler := u, owed := s.owed + n } :=
  h.imp_right fun h => h.imp_left fun h => Nat.lt_add_right n h

/-- A section of a caller or of a worker. -/
theorem Inv.thread {a : Libjadx.Act} (h : Inv env s) (ha : act env s (.thread a) = some (o, t))
    (ho : o ≠ .error eventTooLarge) : Inv env t := by
  simp only [act] at ha
  split at ha
  · simp at ha
  rename_i hd
  have hd : a.dispatcher = false := by simpa using hd
  obtain ⟨u, hu, rfl⟩ := run_some ha
  have hdispatch := Scheduler.act_dispatch hu hd
  refine h.run hu ho rfl (fun h => h) (fun hl => hdispatch.trans (h.idle hl)) ?_ fun id hid => ?_
  · rcases Scheduler.thread_steady h.scheduler hu ho hd with hsig | hst
    · rw [hsig]
      exact .inr (.inr (.inl (Nat.succ_pos _)))
    · exact h.awake.imp (fun hdull => hdull.steady hst rfl fun _ hl => hl) Awake.run
  · rw [hdispatch] at hid
    rcases h.busy id hid with h | h | h | h
    · exact .inl (Scheduler.act_stopped hu ho h)
    · exact .inr (.inl h)
    · exact .inr (.inr (.inl h))
    · exact .inr (.inr (.inr (Nat.lt_add_right _ h)))

/-- The head of `pump`. -/
theorem Inv.pump (h : Inv env s) (httl : env.limits.terminalTtl < 2 ^ 63) (hl : s.loop = .pump)
    {u : Scheduler}
    (hu : Scheduler.act env s.scheduler .pump = some (o, u)) (returns : Bool)
    (ho : o ≠ .error eventTooLarge) :
    Inv env { s with scheduler := u, owed := s.owed + 0, loop := after .pump returns o u } := by
  have hact := hu
  simp only [Scheduler.act] at hu
  split at hu
  case h_2 => simp at hu
  rename_i hidle
  obtain ⟨x, r, hx⟩ := Scheduler.pump_ok httl s.scheduler.registry
  have hpumped : Pumped env False s.scheduler.registry x r :=
    (pump_triple_edits s.scheduler.registry).ok rfl hx
  have hr := Option.some.inj hu
  unfold Scheduler.section_ at hr
  rw [hx] at hr
  cases x with
  | none =>
    obtain ⟨rfl, rfl⟩ := Prod.mk.inj hr
    have hloop : after .pump returns (.ok ()) { s.scheduler with registry := r } = .check := by
      simp only [after, hidle]
    dsimp only at hloop ⊢
    rw [hloop]
    refine h.run hact ho (by rw [hl]; rfl) (by simp [hl]) (fun _ => hidle) (.inl ?_)
      fun id hid => ?_
    · rcases hpumped.2 with hstop | hfull | hq
      · exact .inl hstop
      · exact .inr (.inr (.inl hfull))
      · exact .inr (.inl hq)
    · have hid' : s.scheduler.dispatch = .busy id := hid
      rw [hidle] at hid'
      simp at hid'
  | some id =>
    obtain ⟨rfl, rfl⟩ := Prod.mk.inj hr
    refine h.run hact ho (by rw [hl]; rfl) (by simp [hl]) (fun hne => absurd rfl hne) (.inr ?_)
      fun x hx => ?_
    · exact .inr (.inr (.inr (.inr (.inr rfl))))
    · simp [Scheduler.goto] at hx

/-- The gate refused the job for now. -/
theorem Inv.requeue (h : Inv env s) (hl : s.loop = .pump) {u : Scheduler}
    (hu : Scheduler.act env s.scheduler .requeue = some (o, u)) (ho : o ≠ .error eventTooLarge)
    (returns : Bool) {n : ℕ}
    (hn : n = if signals s.scheduler .requeue o u then 1 else 0) :
    Inv env { s with scheduler := u, owed := s.owed + n, loop := after .requeue returns o u } := by
  subst hn
  obtain rfl := Scheduler.held_ok h.scheduler hu ho (.inl rfl)
  have hidle : u.dispatch = .idle := by
    simp only [Scheduler.act] at hu
    split at hu
    case h_2 => simp at hu
    obtain hr := Option.some.inj hu
    unfold Scheduler.section_ at hr
    split at hr <;> obtain ⟨-, rfl⟩ := Prod.mk.inj hr <;> rfl
  have hloop : after .requeue returns (.ok ()) u = .check := rfl
  rw [hloop]
  refine h.run hu ho (by rw [hl]; rfl) (by simp [hl]) (fun _ => hidle) ?_ fun id hid => ?_
  swap
  · rw [hidle] at hid
    simp at hid
  have hunfit : ∀ e, (.ok () : Except Throwable Unit) = .error e → ¬ Unfit False e := by simp
  have hh := Scheduler.happens hu hunfit
  generalize hreg : u.registry = r at hh
  cases hh with
  | edited _ hf _ => exact absurd trivial hf
  | freed _ he =>
    have he : Edited env False False
        { s.scheduler.registry with runningSlots := s.scheduler.registry.runningSlots - 1 } r := he
    have hq : r.queue = s.scheduler.registry.queue := he.queue
    have hsig : signals s.scheduler .requeue (.ok ()) u = true := by simp [signals, hreg, hq]
    rw [hsig]
    exact .inr (.inr (.inl (Nat.succ_pos _)))
  | putBack k hd hp =>
    rcases h.busy _ hd with hstop | ⟨l, href, hl⟩ | hpend | howed
    · exact .inl (.inl (Scheduler.act_stopped hu ho hstop))
    · exact .inl (.inr (.inr (.inr ⟨_, _, l, congrArg Registry.queue hreg, href, hl⟩)))
    · exact .inr (.inl hpend)
    · exact .inr (.inr (.inl (Nat.lt_add_right _ howed)))

/-- The other steps of `pump`: the loop goes on, or a signal follows. -/
theorem Inv.pumping {a : Libjadx.Act} (h : Inv env s) (hl : s.loop = .pump) {u : Scheduler}
    (hu : Scheduler.act env s.scheduler a = some (o, u)) (ho : o ≠ .error eventTooLarge)
    {returns : Bool} {n : ℕ}
    (hn : n = if signals s.scheduler a o u then 1 else 0)
    (hstopping : returns = true → s.scheduler.dispatch.stopping = true)
    (ha : (∃ e, a = .capture e) ∨ a = .start ∨ (∃ e, a = .close e) ∨ (∃ b, a = .execute b) ∨
      a = .fail) :
    Inv env { s with scheduler := u, owed := s.owed + n, loop := after a returns o u } := by
  -- outside `fail` the dispatcher is at no place where `pump` returns
  have hstay : a ≠ .fail → returns = false := by
    intro hne
    cases hret : returns with
    | false => rfl
    | true =>
      have hst := hstopping hret
      exfalso
      cases hd : s.scheduler.dispatch <;> rw [hd] at hst <;> try simp [Dispatch.stopping] at hst
      rcases ha with ⟨e, rfl⟩ | rfl | ⟨e, rfl⟩ | ⟨b, rfl⟩ | rfl <;>
        simp [Scheduler.act, Scheduler.closed, hd] at hu hne
  -- none of these ends where the dispatcher is refused a lease
  have hbusy : ∀ id, u.dispatch ≠ .busy id := by
    intro id
    rcases ha with ⟨e, rfl⟩ | rfl | ⟨e, rfl⟩ | ⟨b, rfl⟩ | rfl
    · simp only [Scheduler.act] at hu
      split at hu
      · obtain ⟨-, rfl⟩ := Prod.mk.inj (Option.some.inj hu)
        cases e <;> simp [Scheduler.goto]
      · simp at hu
    · simp only [Scheduler.act] at hu
      split at hu
      · have hr := Option.some.inj hu
        unfold Scheduler.section_ at hr
        split at hr <;> obtain ⟨-, rfl⟩ := Prod.mk.inj hr
        · simp only [Scheduler.goto]
          split <;> simp
        · simp [Scheduler.goto]
      · simp at hu
    · obtain ⟨v, hv, hvu⟩ := Option.map_eq_some_iff.1 hu
      obtain ⟨-, rfl⟩ := Prod.mk.inj hvu
      unfold Scheduler.closed at hv
      split at hv
      · obtain rfl := Option.some.inj hv; simp [Scheduler.goto]
      · obtain rfl := Option.some.inj hv; simp [Scheduler.goto]
      · split at hv <;> obtain rfl := Option.some.inj hv <;> simp [Scheduler.goto]
      · simp at hv
    · simp only [Scheduler.act] at hu
      split at hu
      · split at hu <;> obtain ⟨-, rfl⟩ := Prod.mk.inj (Option.some.inj hu) <;>
          simp [Scheduler.goto]
      · simp at hu
    · simp only [Scheduler.act] at hu
      split at hu
      · have hr := Option.some.inj hu
        unfold Scheduler.section_ at hr
        split at hr <;> obtain ⟨-, rfl⟩ := Prod.mk.inj hr <;> simp [Scheduler.goto]
      · simp at hu
  -- none of them throws but for an event that does not fit
  have hok : o = .ok () := by
    rcases ha with ⟨e, rfl⟩ | rfl | ⟨e, rfl⟩ | ⟨b, rfl⟩ | rfl
    · simp only [Scheduler.act] at hu
      split at hu
      · exact (Prod.mk.inj (Option.some.inj hu)).1.symm
      · simp at hu
    · exact Scheduler.held_ok h.scheduler hu ho (.inr (.inl rfl))
    · obtain ⟨v, hv, hvu⟩ := Option.map_eq_some_iff.1 hu
      exact (Prod.mk.inj hvu).1.symm
    · simp only [Scheduler.act] at hu
      split at hu
      · split at hu <;> exact (Prod.mk.inj (Option.some.inj hu)).1.symm
      · simp at hu
    · exact Scheduler.held_ok h.scheduler hu ho (.inr (.inr (.inl rfl)))
  subst hok
  -- after `fail` the dispatcher is idle, and `pump` may return
  by_cases hfail : a = .fail
  · subst hfail
    have hidle : u.dispatch = .idle := by
      simp only [Scheduler.act] at hu
      split at hu
      · have hr := Option.some.inj hu
        unfold Scheduler.section_ at hr
        split at hr <;> obtain ⟨-, rfl⟩ := Prod.mk.inj hr <;> rfl
      · simp at hu
    subst hn
    refine h.run hu ho ?_ (by simp [hl]) (fun _ => hidle) (.inr (.inr (.inl (Nat.succ_pos _))))
      fun id hid => absurd hid (hbusy id)
    rw [hl]
    cases returns <;> rfl
  · obtain rfl := hstay hfail
    have hloop : after a false (.ok ()) u = .pump := by
      rcases ha with ⟨e, rfl⟩ | rfl | ⟨e, rfl⟩ | ⟨b, rfl⟩ | rfl <;> rfl
    rw [hloop]
    refine h.run hu ho (by rw [hl]) (by simp [hl]) (fun hne => absurd rfl hne) (.inr ?_)
      fun id hid => absurd hid (hbusy id)
    exact .inr (.inr (.inr (.inr (.inr rfl))))

/-- A step of `pump`. -/
theorem Inv.dispatch {a : Libjadx.Act} {returns : Bool} (h : Inv env s)
    (httl : env.limits.terminalTtl < 2 ^ 63)
    (ha : act env s (.dispatch a returns) = some (o, t)) (ho : o ≠ .error eventTooLarge) :
    Inv env t := by
  simp only [act] at ha
  split at ha
  case isFalse => simp at ha
  rename_i hc
  obtain ⟨hl, hd, hstopping⟩ := hc
  split at ha
  · simp at ha
  obtain ⟨⟨o', v⟩, hv, hvt⟩ := Option.map_eq_some_iff.1 ha
  obtain ⟨rfl, rfl⟩ := Prod.mk.inj hvt
  obtain ⟨u, hu, rfl⟩ := run_some hv
  cases a with
  | pump =>
    have hsig : (if signals s.scheduler .pump o' u then 1 else 0) = 0 := by
      cases o' <;> rfl
    rw [hsig]
    exact h.pump httl hl hu returns ho
  | requeue => exact h.requeue hl hu ho returns rfl
  | capture e => exact h.pumping hl hu ho rfl hstopping (.inl ⟨e, rfl⟩)
  | start => exact h.pumping hl hu ho rfl hstopping (.inr (.inl rfl))
  | close e => exact h.pumping hl hu ho rfl hstopping (.inr (.inr (.inl ⟨e, rfl⟩)))
  | execute b => exact h.pumping hl hu ho rfl hstopping (.inr (.inr (.inr (.inl ⟨b, rfl⟩))))
  | fail => exact h.pumping hl hu ho rfl hstopping (.inr (.inr (.inr (.inr rfl))))
  | tryAdmit | call | run | returns | release | finish => simp_all [Act.dispatcher]

/-! ## The gate -/

/-- Who refuses a request does so alone. -/
theorem blocker_some {request : OperationRequest} {admission : Admission} {c : Coordinator}
    (h : OperationCoordinator.compatible request admission c = false) :
    ∃ l ∈ c.active, OperationCoordinator.blocker request admission c = some l := by
  have hfind : (OperationCoordinator.blocker request admission c).isSome = true := by
    unfold OperationCoordinator.blocker
    rw [List.find?_isSome]
    unfold OperationCoordinator.compatible at h
    split at h
    · rename_i htemp
      rw [Bool.and_eq_true, List.any_eq_true] at htemp
      obtain ⟨hcat, l, hl, hexist⟩ := htemp
      refine ⟨l, hl, ?_⟩
      unfold OperationCoordinator.compatible
      rw [if_pos (by rw [hcat]; simpa using hexist)]
      rfl
    · rw [List.all_eq_false] at h
      obtain ⟨l, hl, hnot⟩ := h
      refine ⟨l, hl, ?_⟩
      have hnot : OperationCoordinator.compatibleWith request admission (c.lease l) = false :=
        by simpa using hnot
      unfold OperationCoordinator.compatible
      split
      · rfl
      · rw [List.all_cons, hnot]
        rfl
  obtain ⟨l, hl⟩ := Option.isSome_iff_exists.1 hfind
  exact ⟨l, List.mem_of_find?_eq_some hl, hl⟩

/-- The gate answers a job: what it was refused for is in progress. -/
theorem gate_some {id : JobId} {failure : Option Throwable} {answer : Answer} (h : Inv env s)
    (hg : gate s id failure = some (answer, t)) :
    ∃ leases refused, t = { s with leases := leases, refused := refused } ∧
      OperationCoordinator.Inv leases ∧
      (∀ l ∈ s.reloading, l ∈ leases.coordinator.active ∧ l ∉ leases.closing) ∧
      ((Scheduler.answered id answer) = .busy id → ∃ l, refused = some (id, l) ∧
          l ∈ leases.coordinator.active) := by
  unfold gate at hg
  split at hg
  · rename_i l hl
    obtain ⟨rfl, rfl⟩ := Prod.mk.inj (Option.some.inj hg)
    exact ⟨s.leases, some (id, l), rfl, h.leases, h.reload, fun _ => ⟨l, rfl, (h.reload l hl).1⟩⟩
  rename_i hnone
  have hreload : ∀ {leases : OperationCoordinator.Run}, ∀ l ∈ s.reloading,
      l ∈ leases.coordinator.active ∧ l ∉ leases.closing := by
    intro leases l hl
    rw [hnone] at hl
    simp at hl
  split at hg
  · rename_i e
    split at hg
    · simp at hg
    rename_i hne
    obtain ⟨rfl, rfl⟩ := Prod.mk.inj (Option.some.inj hg)
    refine ⟨s.leases, s.refused, rfl, h.leases, hreload, fun hbusy => ?_⟩
    cases e <;> simp [Scheduler.answered] at hbusy hne
  dsimp only at hg
  rcases OperationCoordinator.tryAdmit_cases (s.scheduler.registry.job id).spec.operation
    (s.scheduler.registry.job id).spec.admission
    s.leases.coordinator with he | ⟨hc, he⟩ | he
  · rw [he] at hg
    obtain ⟨rfl, rfl⟩ := Prod.mk.inj (Option.some.inj hg)
    exact ⟨s.leases, s.refused, rfl, h.leases, hreload,
      fun hbusy => by simp [Scheduler.answered] at hbusy⟩
  · obtain ⟨l, hl, hblock⟩ := blocker_some hc
    rw [he, hblock] at hg
    obtain ⟨rfl, rfl⟩ := Prod.mk.inj (Option.some.inj hg)
    exact ⟨s.leases, some (id, l), rfl, h.leases, hreload, fun _ => ⟨l, rfl, hl⟩⟩
  · rw [he] at hg
    obtain ⟨rfl, rfl⟩ := Prod.mk.inj (Option.some.inj hg)
    have hleases := h.leases.tryAdmit (s.scheduler.registry.job id).spec.operation
      (s.scheduler.registry.job id).spec.admission
    rw [he] at hleases
    exact ⟨_, s.refused, rfl, hleases, hreload, fun hbusy => by simp [Scheduler.answered] at hbusy⟩

/-- **An answer of the gate keeps the invariant.** -/
theorem Inv.tryAdmit {failure : Option Throwable} (h : Inv env s)
    (ha : act env s (.tryAdmit failure) = some (o, t)) : Inv env t := by
  simp only [act] at ha
  split at ha
  case h_2 => simp at ha
  rename_i id hl hd
  obtain ⟨⟨answer, v⟩, hg, hrun⟩ := Option.bind_eq_some_iff.1 ha
  obtain ⟨leases, refused, rfl, hleases, hreload, hrefused⟩ := gate_some h hg
  obtain ⟨u, hu, rfl⟩ := run_some hrun
  have hact := hu
  simp only [Scheduler.act] at hu
  rw [hd] at hu
  obtain ⟨rfl, rfl⟩ := Prod.mk.inj (Option.some.inj hu)
  refine ⟨(h.scheduler.act hact (by simp) fun _ => trivial).1, hleases, hreload, h.owner,
    h.down, h.rejected,
    fun hne => absurd hl hne, h.pending, .inr (.inr (.inr (.inr (.inr (.inr hl))))), fun x hx => ?_⟩
  have hx' : Scheduler.answered id answer = .busy x := hx
  have hxid : x = id := by
    cases answer with
    | lease l => simp [Scheduler.answered] at hx'
    | throws e => cases e <;> simp [Scheduler.answered] at hx' <;> exact hx'.symm
  subst hxid
  obtain ⟨l, href, hactive⟩ := hrefused hx'
  exact .inr (.inl ⟨l, href, .inl hactive⟩)

/-! ## Leases -/

/-- A lease stays in progress until its callback runs, and in use until it is closed. -/
theorem lease_stays {a : OperationCoordinator.Act} {r r' : OperationCoordinator.Run}
    (h : OperationCoordinator.act r a = some r')
    {l : LeaseId} (hafter : a ≠ .afterRelease l) :
    (l ∈ r.coordinator.active ∨ l ∈ r.leaving → l ∈ r'.coordinator.active ∨ l ∈ r'.leaving) ∧
      (a ≠ .close l → l ∈ r.coordinator.active ∧ l ∉ r.closing → l ∈ r'.coordinator.active ∧
        l ∉ r'.closing) := by
  cases a with
  | tryAdmit request admission =>
    obtain rfl := Option.some.inj h
    have hactive : l ∈ r.coordinator.active →
        l ∈ (OperationCoordinator.tryAdmit request admission r.coordinator).2.active := by
      intro hl
      rcases OperationCoordinator.tryAdmit_cases request admission r.coordinator with he | ⟨-, he⟩ |
        he <;> rw [he]
      · exact hl
      · exact hl
      · exact List.mem_append_left _ hl
    exact ⟨Or.imp_left hactive, fun _ hl => ⟨hactive hl.1, hl.2⟩⟩
  | stopAdmissions =>
    obtain rfl := Option.some.inj h
    exact ⟨fun hl => hl, fun _ hl => hl⟩
  | finishSnapshotCapture id =>
    simp only [OperationCoordinator.act] at h
    split at h
    case isFalse => simp at h
    obtain rfl := Option.some.inj h
    have hactive : (OperationCoordinator.finishSnapshotCapture id r.coordinator).2.active =
        r.coordinator.active := by
      unfold OperationCoordinator.finishSnapshotCapture
      rw [bind_get, ite_run]
      split <;> rfl
    exact ⟨by rw [hactive]; exact fun hl => hl, fun _ => by rw [hactive]; exact fun hl => hl⟩
  | close id =>
    simp only [OperationCoordinator.act] at h
    split at h
    case isFalse => simp at h
    have hactive : (OperationCoordinator.winClose id r.coordinator).2.active =
        r.coordinator.active := by
      unfold OperationCoordinator.winClose
      rw [bind_get, ite_run]
      split <;> rfl
    split at h
    · rename_i c hc
      rw [hc] at hactive
      obtain rfl := Option.some.inj h
      refine ⟨by rw [hactive]; exact fun hl => hl, fun hne hl => ⟨by rw [hactive]; exact hl.1, fun hin => ?_⟩⟩
      rcases List.mem_append.1 hin with hin | hin
      · exact hl.2 hin
      · exact hne (by rw [List.mem_singleton.1 hin])
    · rename_i c _ hc
      rw [hc] at hactive
      obtain rfl := Option.some.inj h
      exact ⟨by rw [hactive]; exact fun hl => hl, fun _ => by rw [hactive]; exact fun hl => hl⟩
  | remove id =>
    simp only [OperationCoordinator.act] at h
    split at h
    case isFalse => simp at h
    rename_i hid
    obtain rfl := Option.some.inj h
    refine ⟨fun hl => ?_, fun _ hl => ⟨?_, fun hin => hl.2 (List.mem_of_mem_erase hin)⟩⟩
    · by_cases hli : l = id
      · exact .inr (List.mem_append_right _ (by simp [hli]))
      · exact hl.imp (fun hl => (List.mem_erase_of_ne hli).2 hl) fun hl => List.mem_append_left _ hl
    · have hli : l ≠ id := fun he => hl.2 (he ▸ hid)
      exact (List.mem_erase_of_ne hli).2 hl.1
  | afterRelease id =>
    simp only [OperationCoordinator.act] at h
    split at h
    case isFalse => simp at h
    obtain rfl := Option.some.inj h
    have hli : l ≠ id := fun he => hafter (by rw [he])
    exact ⟨fun hl => hl.imp_right fun hl => (List.mem_erase_of_ne hli).2 hl, fun _ hl => hl⟩

/-- The leases moved, and a signal may follow. -/
theorem Inv.leases' {r : OperationCoordinator.Run} {n : ℕ} (h : Inv env s)
    (hr : OperationCoordinator.Inv r)
    (hreload : ∀ l ∈ s.reloading, l ∈ r.coordinator.active ∧ l ∉ r.closing)
    (hprog : s.scheduler.registry.stopped = true ∨ 0 < n ∨
      ∀ l, s.InProgress l → l ∈ r.coordinator.active ∨ l ∈ r.leaving) :
    Inv env { s with leases := r, owed := s.owed + n } where
  scheduler := h.scheduler
  leases := hr
  reload := hreload
  owner := h.owner
  down := h.down
  rejected := h.rejected
  idle := h.idle
  pending hp := (h.pending hp).imp_right fun h => h.imp_right fun h => h.imp_left fun h =>
    Nat.lt_add_right n h
  awake := by
    rcases hprog with hstop | hn | hprog
    · exact .inl (.inl hstop)
    · exact .inr (.inr (.inl (Nat.add_pos_right _ hn)))
    · exact h.awake.imp (fun hd => hd.steady (.refl _) rfl hprog) fun h => h.imp_right fun h =>
        h.imp_left fun h =>
        Nat.lt_add_right n h
  busy id hid := by
    rcases hprog with hstop | hn | hprog
    · exact .inl hstop
    · exact .inr (.inr (.inr (Nat.add_pos_right _ hn)))
    · rcases h.busy id hid with h | ⟨l, href, hl⟩ | h | h
      · exact .inl h
      · exact .inr (.inl ⟨l, href, hprog l hl⟩)
      · exact .inr (.inr (.inl h))
      · exact .inr (.inr (.inr (Nat.lt_add_right n h)))

/-- **So does a step of a lease,** -/
theorem Inv.lease {a : OperationCoordinator.Act} (h : Inv env s)
    (ha : act env s (.lease a) = some (o, t)) : Inv env t := by
  have hplain : ∀ {r}, OperationCoordinator.act s.leases a = some r → (∀ l, a ≠ .afterRelease l) →
      (∀ l ∈ s.reloading, a ≠ .close l) → Inv env { s with leases := r, owed := s.owed + 0 } := by
    intro r hr hafter hclose
    refine h.leases' (h.leases.act hr) (fun l hl => (lease_stays hr (hafter l)).2 (hclose l hl)
      (h.reload l hl))
      (.inr (.inr fun l hl => (lease_stays hr (hafter l)).1 hl))
  cases a with
  | close id =>
    simp only [act] at ha
    split at ha
    · simp at ha
    rename_i hne
    obtain ⟨r, hr, hrt⟩ := Option.map_eq_some_iff.1 ha
    obtain ⟨-, rfl⟩ := Prod.mk.inj hrt
    refine hplain hr (by simp) fun l hl he => hne ?_
    rw [Option.mem_def.1 hl, OperationCoordinator.Act.close.inj he]
  | afterRelease id =>
    obtain ⟨r, hr, hrt⟩ := Option.map_eq_some_iff.1 ha
    obtain ⟨-, rfl⟩ := Prod.mk.inj hrt
    have hsame : r.coordinator = s.leases.coordinator ∧ r.closing = s.leases.closing := by
      simp only [OperationCoordinator.act] at hr
      split at hr
      · obtain rfl := Option.some.inj hr
        exact ⟨rfl, rfl⟩
      · simp at hr
    refine h.leases' (h.leases.act hr) (by rw [hsame.1, hsame.2]; exact h.reload) ?_
    cases hdown : s.shuttingDown with
    | true => exact .inl (h.down hdown)
    | false => exact .inr (.inl Nat.one_pos)
  | tryAdmit | stopAdmissions | finishSnapshotCapture | remove =>
    simp only [act] at ha
    obtain ⟨r, hr, hrt⟩ := Option.map_eq_some_iff.1 ha
    obtain ⟨-, rfl⟩ := Prod.mk.inj hrt
    exact hplain hr (by simp) (by simp)

/-- A rebuild begins. -/
theorem Inv.reloads {request : OperationRequest} {admission : Admission} (h : Inv env s)
    (ha : act env s (.reload request admission) = some (o, t)) : Inv env t := by
  simp only [act] at ha
  split at ha
  · simp at ha
  rcases OperationCoordinator.tryAdmit_cases request admission s.leases.coordinator with he |
    ⟨-, he⟩ | he
  · rw [he] at ha
    obtain ⟨-, rfl⟩ := Prod.mk.inj (Option.some.inj ha)
    exact h
  · rw [he] at ha
    obtain ⟨-, rfl⟩ := Prod.mk.inj (Option.some.inj ha)
    exact h
  · have hleases := h.leases.tryAdmit request admission
    rw [he] at ha hleases
    obtain ⟨-, rfl⟩ := Prod.mk.inj (Option.some.inj ha)
    have hmem : ∀ {l}, l ∈ s.leases.coordinator.active →
        l ∈ (OperationCoordinator.enter (Lease.make request admission) s.leases.coordinator).active :=
      fun hl => List.mem_append_left _ hl
    refine ⟨h.scheduler, hleases, fun l hl => ?_, h.owner, h.down, h.rejected, h.idle, h.pending,
      ?_, fun id hid => ?_⟩
    · obtain rfl := Option.some.inj hl
      refine ⟨List.mem_append_right _ List.mem_cons_self, fun hin => ?_⟩
      have hlt := (h.leases.closed _ (List.mem_append_left _ (List.mem_append_left _ hin))).2
      exact absurd hlt (lt_irrefl _)
    · exact h.awake.imp_left fun hd => hd.steady (.refl _) rfl fun l hl => hl.imp_left hmem
    · rcases h.busy id hid with h | ⟨l, href, hl⟩ | h | h
      · exact .inl h
      · exact .inr (.inl ⟨l, href, hl.imp_left hmem⟩)
      · exact .inr (.inr (.inl h))
      · exact .inr (.inr (.inr h))

/-! ## Flags -/

/-- Only flags and places change. -/
theorem Inv.flags (h : Inv env s) {pending scheduled : Bool} {loop : Loop}
    {tasks owed marked won rejected : ℕ}
    (howner : scheduled.toNat = won + rejected + tasks + Loop.owns loop)
    (hrejected : 0 < rejected → s.scheduler.registry.stopped = true)
    (hidle : loop ≠ .pump → s.scheduler.dispatch = .idle)
    (hpending : pending = true → s.scheduler.registry.stopped = true ∨ scheduled = true ∨ 0 < owed ∨
      0 < marked ∨
      loop = .recheck)
    (hawake : Awake s → s.scheduler.registry.stopped = true ∨ pending = true ∨ 0 < owed ∨
      0 < won ∨ 0 < tasks ∨
      loop = .top ∨ loop = .pump)
    (hbusy : s.dispatchPending = true ∨ 0 < s.owed → s.loop = .pump → pending = true ∨ 0 < owed) :
    Inv env ⟨s.scheduler, s.leases, s.reloading, s.shuttingDown, pending, scheduled, loop, tasks,
      owed, marked, won,
      rejected, s.refused⟩ where
  scheduler := h.scheduler
  leases := h.leases
  reload := h.reload
  owner := howner
  down := h.down
  rejected := hrejected
  idle := hidle
  pending := hpending
  awake := by
    rcases h.awake with hdull | hawake'
    · exact .inl hdull
    · exact (hawake hawake').imp .inl fun h => h
  busy id hid := by
    have hloop : s.loop = .pump := by
      by_contra hne
      have hid' : s.scheduler.dispatch = .busy id := hid
      rw [h.idle hne] at hid'
      simp at hid'
    rcases h.busy id hid with h | h | h
    · exact .inl h
    · exact .inr (.inl h)
    · exact .inr (.inr (hbusy h hloop))

/-- **and the shutdown.** -/
theorem Inv.shutDown (h : Inv env s) (ha : act env s .shutDown = some (o, t))
    (ho : o ≠ .error eventTooLarge) : Inv env t := by
  simp only [act] at ha
  obtain ⟨⟨o', v⟩, hv, hvt⟩ := Option.map_eq_some_iff.1 ha
  obtain ⟨rfl, rfl⟩ := Prod.mk.inj hvt
  have hthread : act env s (.thread (.call .stopSubmissions)) = some (o', v) := hv
  have hinv := h.thread hthread ho
  have hstop : v.scheduler.registry.stopped = true := by
    obtain ⟨u, hu, rfl⟩ := run_some hv
    simp only [Scheduler.act, Call.known, if_true] at hu
    obtain ⟨-, rfl⟩ := Prod.mk.inj (Option.some.inj hu)
    rfl
  exact ⟨hinv.scheduler, hinv.leases,
    by simp, hinv.owner, fun _ => hstop, hinv.rejected, hinv.idle, hinv.pending,
    .inl (.inl hstop), fun _ _ => .inl hstop⟩

/-- One step of any thread. -/
theorem Inv.act {a : Signals.Act} (h : Inv env s) (httl : env.limits.terminalTtl < 2 ^ 63)
    (ha : Signals.act env s a = some (o, t)) (ho : o ≠ .error eventTooLarge) : Inv env t := by
  have howner := h.owner
  have hpend := h.pending
  have hidle := h.idle
  cases a with
  | thread a => exact h.thread ha ho
  | dispatch a returns => exact h.dispatch httl ha ho
  | tryAdmit failure => exact h.tryAdmit ha
  | lease a => exact h.lease ha
  | reload request admission => exact h.reloads ha
  | shutDown => exact h.shutDown ha ho
  | reloaded =>
    obtain ⟨-, rfl⟩ := Prod.mk.inj (Option.some.inj ha)
    exact ⟨h.scheduler, h.leases,
      by simp, h.owner, h.down, h.rejected, h.idle, h.pending, h.awake, h.busy⟩
  -- a signal that is owed is what keeps the registry awake
  | signal =>
    obtain ⟨-, rfl⟩ := Prod.mk.inj (Option.some.inj ha)
    exact h.flags howner h.rejected hidle (fun _ => .inr (.inr (.inl (Nat.succ_pos _))))
      (fun _ => .inr (.inr (.inl (Nat.succ_pos _)))) fun _ _ => .inr (Nat.succ_pos _)
  | setPending =>
    simp only [Signals.act] at ha
    split at ha
    case isFalse => simp at ha
    obtain ⟨-, rfl⟩ := Prod.mk.inj (Option.some.inj ha)
    exact h.flags howner h.rejected hidle (fun _ => .inr (.inr (.inr (.inl (Nat.succ_pos _)))))
      (fun _ => .inr (.inl rfl)) fun _ _ => .inl rfl
  -- who wins owes the executor a task; who loses leaves the signal to the owner
  | compareAndSet =>
    simp only [Signals.act] at ha
    split at ha
    case isFalse => simp at ha
    obtain ⟨-, rfl⟩ := Prod.mk.inj (Option.some.inj ha)
    cases hsch : s.dispatchScheduled with
    | true =>
      rw [hsch] at howner
      exact h.flags howner h.rejected hidle (fun _ => .inr (.inl rfl)) (fun ha => .inr ha)
        fun hb _ => hb
    | false =>
      rw [hsch] at howner
      have hzero : s.won + s.rejected + s.tasks + Loop.owns s.loop = 0 := howner.symm
      refine h.flags ?_ h.rejected hidle (fun _ => .inr (.inl rfl)) (fun _ => ?_) fun hb _ => hb
      · show 1 = s.won + 1 + s.rejected + s.tasks + Loop.owns s.loop
        omega
      · exact .inr (.inr (.inr (.inl (Nat.succ_pos _))))
  -- the winner hands its task over, or the executor has been stopped
  | execute accepted =>
    simp only [Signals.act] at ha
    split at ha
    case isFalse => simp at ha
    rename_i hwon
    split at ha
    · obtain ⟨-, rfl⟩ := Prod.mk.inj (Option.some.inj ha)
      refine h.flags ?_ h.rejected hidle hpend (fun _ => ?_) fun hb _ => hb
      · rw [howner]
        omega
      · exact .inr (.inr (.inr (.inr (.inl (Nat.succ_pos _)))))
    · split at ha
      case isFalse => simp at ha
      rename_i hstop
      obtain ⟨-, rfl⟩ := Prod.mk.inj (Option.some.inj ha)
      refine h.flags ?_ (fun _ => hstop) hidle hpend (fun _ => .inl hstop) fun hb _ => hb
      rw [howner]
      omega
  -- the flag is taken back for a task that was rejected: the service is stopped
  | unschedule =>
    simp only [Signals.act] at ha
    split at ha
    case isFalse => simp at ha
    rename_i hrej
    have hstop := h.rejected hrej
    obtain ⟨-, rfl⟩ := Prod.mk.inj (Option.some.inj ha)
    have hle : s.dispatchScheduled.toNat ≤ 1 := Bool.toNat_le _
    refine h.flags ?_ (fun _ => hstop) hidle (fun _ => .inl hstop) (fun _ => .inl hstop)
      fun hb _ => hb
    show 0 = s.won + (s.rejected - 1) + s.tasks + Loop.owns s.loop
    omega
  -- the task becomes the loop
  | begin =>
    simp only [Signals.act] at ha
    split at ha
    case isFalse => simp at ha
    rename_i hc
    obtain ⟨-, rfl⟩ := Prod.mk.inj (Option.some.inj ha)
    rw [hc.2] at howner
    have hoff := hidle (by rw [hc.2]; simp)
    refine h.flags ?_ h.rejected (fun _ => hoff) (fun hp => (hpend hp).imp_right fun h => ?_)
      (fun _ => .inr (.inr (.inr (.inr (.inr (.inl rfl)))))) fun hb _ => hb
    · rw [howner]
      show s.won + s.rejected + s.tasks + 0 = s.won + s.rejected + (s.tasks - 1) + 1
      omega
    · rw [hc.2] at h
      simpa using h
  | clearPending =>
    simp only [Signals.act] at ha
    split at ha
    case isFalse => simp at ha
    rename_i hl
    obtain ⟨-, rfl⟩ := Prod.mk.inj (Option.some.inj ha)
    rw [hl] at howner
    refine h.flags howner h.rejected (fun hne => absurd rfl hne) (by simp)
      (fun _ => .inr (.inr (.inr (.inr (.inr (.inr rfl)))))) fun _ hp => ?_
    rw [hl] at hp
    simp at hp
  -- with a signal the loop goes round, without one it is to leave
  | check =>
    simp only [Signals.act] at ha
    split at ha
    case isFalse => simp at ha
    rename_i hl
    obtain ⟨-, rfl⟩ := Prod.mk.inj (Option.some.inj ha)
    have hoff := hidle (by rw [hl]; simp)
    rw [hl] at howner
    cases hp : s.dispatchPending with
    | true =>
      refine h.flags howner h.rejected (fun _ => hoff) (fun _ => .inr (.inl ?_)) (fun _ =>
        .inr (.inl rfl)) fun _ _ => .inl rfl
      -- the loop itself is counted among the owners
      have hone : 1 ≤ s.dispatchScheduled.toNat := by
        rw [howner]
        exact Nat.le_add_left _ _
      cases hs : s.dispatchScheduled with
      | true => rfl
      | false => rw [hs] at hone; simp at hone
    | false =>
      refine h.flags howner h.rejected (fun _ => hoff) (by simp) (fun ha => .inr ?_) fun hb hpump =>
        ?_
      · rcases ha with ha | ha | ha | ha | ha | ha
        · rw [hp] at ha; simp at ha
        · exact .inr (.inl ha)
        · exact .inr (.inr (.inl ha))
        · exact .inr (.inr (.inr (.inl ha)))
        · rw [hl] at ha; simp at ha
        · rw [hl] at ha; simp at ha
      · rw [hl] at hpump
        simp at hpump
  -- the loop was the only owner
  | clear =>
    simp only [Signals.act] at ha
    split at ha
    case isFalse => simp at ha
    rename_i hl
    obtain ⟨-, rfl⟩ := Prod.mk.inj (Option.some.inj ha)
    have hoff := hidle (by rw [hl]; simp)
    rw [hl] at howner
    have hle : s.dispatchScheduled.toNat ≤ 1 := Bool.toNat_le _
    have hone : s.dispatchScheduled.toNat = s.won + s.rejected + s.tasks + 1 := howner
    refine h.flags ?_ h.rejected (fun _ => hoff) (fun _ => .inr (.inr (.inr (.inr rfl)))) (fun ha =>
      .inr ?_) fun hb hpump => ?_
    · show 0 = s.won + s.rejected + s.tasks + 0
      omega
    · rcases ha with ha | ha | ha | ha | ha | ha
      · exact .inl ha
      · exact .inr (.inl ha)
      · exact .inr (.inr (.inl ha))
      · exact .inr (.inr (.inr (.inl ha)))
      · rw [hl] at ha; simp at ha
      · rw [hl] at ha; simp at ha
    · rw [hl] at hpump
      simp at hpump
  -- the loop gives its ownership up, and signals if one came in between
  | recheck =>
    simp only [Signals.act] at ha
    split at ha
    case isFalse => simp at ha
    rename_i hl
    obtain ⟨-, rfl⟩ := Prod.mk.inj (Option.some.inj ha)
    have hoff := hidle (by rw [hl]; simp)
    rw [hl] at howner
    refine h.flags howner h.rejected (fun _ => hoff) (fun hp => ?_) (fun ha => .inr ?_)
      fun hb hpump => ?_
    · rw [hp]
      exact .inr (.inr (.inl (Nat.succ_pos _)))
    · rcases ha with ha | ha | ha | ha | ha | ha
      · exact .inl ha
      · exact .inr (.inl (Nat.lt_add_right _ ha))
      · exact .inr (.inr (.inl ha))
      · exact .inr (.inr (.inr (.inl ha)))
      · rw [hl] at ha; simp at ha
      · rw [hl] at ha; simp at ha
    · rw [hl] at hpump
      simp at hpump

/-! ## No lost wake-up -/

/-- A run that loses no event keeps the invariant. -/
theorem Reachable.inv (h : Reachable env True s) (httl : env.limits.terminalTtl < 2 ^ 63) :
    Inv env s := by
  obtain ⟨job, subscription, lease, hrun⟩ := h
  induction hrun with
  | refl => exact start_inv job subscription lease
  | tail _ hstep ih =>
    obtain ⟨a, o, ha, ho⟩ := hstep
    exact ih.act httl ha (ho trivial)

/-- In a quiet state no flag is left that would wake the dispatcher. -/
theorem Quiet.pending (hq : Quiet s) (h : Inv env s)
    (hstop : s.scheduler.registry.stopped = false) :
    s.dispatchPending = false := by
  cases hp : s.dispatchPending with
  | false => rfl
  | true =>
    rcases h.pending hp with h | h | h | h | h
    · simp [hstop] at h
    · simp [hq.scheduled] at h
    · simp [hq.owed] at h
    · simp [hq.marked] at h
    · simp [hq.off] at h

/-- Nothing wakes the dispatcher in a quiet state. -/
theorem Quiet.not_awake (hq : Quiet s) (h : Inv env s)
    (hstop : s.scheduler.registry.stopped = false) : ¬ Awake s := by
  have howner := h.owner
  rw [hq.scheduled] at howner
  have hwon : s.won = 0 ∧ s.tasks = 0 := by
    have hzero : 0 = s.won + s.rejected + s.tasks + Loop.owns s.loop := howner
    omega
  have howed := hq.owed
  rintro (ha | ha | ha | ha | ha | ha)
  · simp [hq.pending h hstop] at ha
  · omega
  · omega
  · omega
  · simp [hq.off] at ha
  · simp [hq.off] at ha

/-- **No lost wake-up.** In a quiet state of a registry that did not stop, nothing waits but for a
slot in use, or for a lease that is in progress and whose end signals. -/
theorem wake_up_kept (h : Reachable env True s) (httl : env.limits.terminalTtl < 2 ^ 63)
    (hq : Quiet s)
    (hstop : s.scheduler.registry.stopped = false) : Settled env s ∧ s.dispatchPending = false := by
  have hinv := h.inv httl
  refine ⟨?_, hq.pending hinv hstop⟩
  rcases hinv.awake.resolve_right (hq.not_awake hinv hstop) with hs | hs | hs |
    ⟨id, rest, l, hqueue, href, hl⟩
  · simp [hstop] at hs
  · exact .inl hs
  · have hle := hinv.scheduler.ledger.slots_le
    exact .inr (.inl (le_antisymm hle hs))
  · refine .inr (.inr ⟨id, rest, l, hqueue, href, hl, fun o t ha => ?_⟩)
    have hup : s.shuttingDown = false := by
      cases hdown : s.shuttingDown with
      | false => rfl
      | true => simpa [hstop] using hinv.down hdown
    obtain ⟨r, -, hrt⟩ := Option.map_eq_some_iff.1 ha
    obtain ⟨-, rfl⟩ := Prod.mk.inj hrt
    simp [hup]

namespace LostSignal

def start : Signals :=
  Signals.start (fun _ => Scheduler.OneJob.noJob) (fun _ => ⟨[], [], true, false, false, false⟩)
    OperationCoordinator.TwoLeases.noLease

/-- Run the acts. Where `fit` is set no act may throw. -/
def perform (env : JobEnv) (fit : Bool) : List Signals.Act → Signals → Option Signals
  | [], s => some s
  | a :: rest, s => match Signals.act env s a with
    | some (.ok _, t) => perform env fit rest t
    | some (.error _, t) => if fit then none else perform env fit rest t
    | none => none

/-- A list of acts that can be performed is a run. -/
theorem perform_run {env : JobEnv} {fit : Bool} {P : Prop} (hfit : P → fit = true) :
    ∀ {acts : List Signals.Act}
    {s t : Signals}, perform env fit acts s = some t → Relation.ReflTransGen (Step env P) s t := by
  intro acts
  induction acts with
  | nil =>
    intro s t h
    obtain rfl := Option.some.inj h
    exact .refl
  | cons a rest ih =>
    intro s t h
    rw [perform] at h
    split at h
    · exact .head ⟨a, _, ‹_›, fun _ => by simp⟩ (ih h)
    · split at h
      · simp at h
      · exact .head ⟨a, _, ‹_›, fun hp => absurd (hfit hp) ‹_›⟩ (ih h)
    · simp at h

/-- So the state at its end is reachable. -/
theorem perform_reachable {env : JobEnv} {fit : Bool} {P : Prop} {acts : List Signals.Act}
    {s : Signals}
    (hfit : P → fit = true) (h : perform env fit acts start = some s) : Reachable env P s :=
  ⟨_, _, _, perform_run hfit h⟩

def submit : Signals.Act := .thread (.call (.submit Scheduler.OneJob.someSpec))

/-- A signal, and the dispatcher's thread up to `pump`. -/
def wake : List Signals.Act := [.setPending, .compareAndSet, .execute true, .begin, .clearPending]

/-- After `pump`. -/
def sleep : List Signals.Act := [.check, .clear, .recheck]

/-- A job that is refused for the lease of an edit. -/
def held : List Signals.Act :=
  [.lease (.tryAdmit ⟨.PROJECT_EXCLUSIVE, str "edit"⟩ ⟨[], 0⟩), submit] ++ wake ++
    [.dispatch .pump false, .tryAdmit none, .dispatch .requeue false] ++ sleep

/-- The first of two jobs is handed over, the second waits for its slot. -/
def twoJobs : List Signals.Act :=
  [submit, .setPending, submit] ++ wake ++
    [.dispatch .pump false, .tryAdmit none, .dispatch (.capture none) false, .dispatch .start false,
      .dispatch (.execute true) false, .dispatch .pump false, .compareAndSet] ++ sleep

/-- It reports a progress whose event is too large, and returns. The signal of its lease comes while
the slot is in use, the section of `execute` throws. -/
def oversized : List Signals.Act :=
  [.thread (.run 0), .thread (.call (.progress 0 Scheduler.LongProgress.maxLong
      (some Scheduler.LongProgress.maxLong)
      (some (List.replicate 128 1)))), .thread (.returns 0 (.ok (some ⟨str "{}", .COMPLETE⟩))),
    .lease (.close 0), .lease (.remove 0), .lease (.afterRelease 0), .thread (.release 0 none)] ++
    wake ++ [.dispatch .pump false] ++ sleep ++ [.thread (.finish 0)]

/-- After the lost event nothing is signalled any more. -/
theorem lost : ∃ s, perform Scheduler.LongProgress.jsonEnv false
    (twoJobs ++ oversized) start = some s ∧ s.loop = .off ∧
    s.dispatchScheduled = false ∧ s.owed = 0 ∧ s.marked = 0 ∧ s.dispatchPending = false ∧
    s.scheduler.registry.stopped = false ∧ s.scheduler.registry.queue = [1] ∧
      s.scheduler.registry.runningSlots = 0 ∧
    s.refused = none := by
  have h : (perform Scheduler.LongProgress.jsonEnv false (twoJobs ++ oversized) start).any (fun s =>
      s.loop = .off ∧ s.dispatchScheduled = false ∧ s.owed = 0 ∧ s.marked = 0 ∧
        s.dispatchPending = false ∧
      s.scheduler.registry.stopped = false ∧ s.scheduler.registry.queue = [1] ∧
      s.scheduler.registry.runningSlots = 0 ∧ s.refused = none) = true := by decide +kernel
  obtain ⟨s, hs, hp⟩ := (Option.any_eq_true _ _).1 h
  exact ⟨s, hs, by simpa using hp⟩

/-- Without it, the second job waits for a lease alone. -/
theorem waits : ∃ s, perform Scheduler.LongProgress.jsonEnv true held start = some s ∧
    s.loop = .off ∧
    s.dispatchScheduled = false ∧ s.owed = 0 ∧ s.marked = 0 ∧ s.scheduler.registry.stopped = false ∧
    s.scheduler.registry.queue = [0] ∧ s.refused = some (0, 0) := by
  have h : (perform Scheduler.LongProgress.jsonEnv true held start).any (fun s =>
      s.loop = .off ∧ s.dispatchScheduled = false ∧ s.owed = 0 ∧ s.marked = 0 ∧
        s.scheduler.registry.stopped = false ∧
      s.scheduler.registry.queue = [0] ∧ s.refused = some (0, 0)) = true := by decide +kernel
  obtain ⟨s, hs, hp⟩ := (Option.any_eq_true _ _).1 h
  exact ⟨s, hs, by simpa using hp⟩

end LostSignal

/-- The slot of a job whose last event did not fit is free, and nothing says so. -/
theorem wake_up_lost : ¬ ∀ (env : JobEnv) (s : Signals), Reachable env False s → Quiet s →
    s.dispatchPending = false →
    s.scheduler.registry.stopped = false → Settled env s := by
  intro hall
  obtain ⟨s, hs, hoff, hscheduled, howed, hmarked, hpending, hopen, hqueue, hslots, hrefused⟩ :=
    LostSignal.lost
  have hreach := LostSignal.perform_reachable (P := False) (by simp) hs
  rcases hall _ s hreach ⟨hoff, hscheduled, howed, hmarked⟩ hpending hopen with h | h |
    ⟨id, rest, l, -, href, -, -⟩
  · simp [hqueue] at h
  · rw [hslots] at h
    exact absurd h (by decide)
  · simp [hrefused] at href

/-- A job that waits for a lease. -/
theorem wake_up_kept_held : ∃ s, Reachable Scheduler.LongProgress.jsonEnv True s ∧
    s.scheduler.registry.queue = [0] ∧
    s.refused = some (0, 0) ∧ Quiet s ∧ Settled Scheduler.LongProgress.jsonEnv s ∧
      s.dispatchPending = false := by
  obtain ⟨s, hs, hoff, hscheduled, howed, hmarked, hopen, hqueue, hrefused⟩ := LostSignal.waits
  have hreach := LostSignal.perform_reachable (P := True) (by simp) hs
  have hquiet : Quiet s := ⟨hoff, hscheduled, howed, hmarked⟩
  exact ⟨s, hreach, hqueue, hrefused, hquiet, wake_up_kept hreach (by decide) hquiet hopen⟩

end Signals

end Libjadx
