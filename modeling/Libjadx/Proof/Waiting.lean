import Libjadx.Proof.Acts

/-!
# The bound of the waiting queue

`submit` refuses a job when the queue is full, but the dispatcher holds the head of the queue
outside it. Every waiting job is in the queue, whatever the run loses; the queue keeps its bound as
long as there is room whenever the dispatcher puts a job back, and is exceeded where there is none.
-/

namespace Libjadx

open JobRegistry Locked

variable {env : JobEnv} {lenient retires : Prop} {s t u : Registry} {id : JobId}

namespace Registry

/-- The jobs that wait. -/
def waiting (s : Registry) : List JobId :=
  (List.range s.created).filter fun id => (s.job id).Waiting

/-- Every waiting job is in the queue. -/
def AllQueued (s : Registry) : Prop := ∀ id < s.created, (s.job id).Waiting → id ∈ s.queue

/-- What waits is there. -/
theorem mem_waiting : id ∈ s.waiting ↔ id < s.created ∧ (s.job id).Waiting := by
  unfold waiting
  rw [List.mem_filter, List.mem_range, decide_eq_true_iff]

/-- No more jobs wait than the queue holds. -/
theorem AllQueued.waiting_le (h : s.AllQueued) : s.waiting.length ≤ s.queue.length := by
  have hnodup : s.waiting.Nodup := List.nodup_range.filter _
  have hsub : s.waiting ⊆ s.queue := by
    intro id hid
    obtain ⟨hlt, hw⟩ := mem_waiting.1 hid
    exact h id hlt hw
  exact (List.subperm_of_subset hnodup hsub).length_le

/-- One record changed, and did not start to wait. -/
theorem AllQueued.update {f : JobRecord → JobRecord} (h : s.AllQueued)
    (hf : (f (s.job id)).Waiting → (s.job id).Waiting) : (s.update id f).AllQueued := by
  intro x hx hw
  refine h x hx ?_
  by_cases hxi : x = id
  · subst hxi
    rw [update_job_self] at hw
    exact hf hw
  · rwa [update_job_of_ne hxi] at hw

/-- A registry with the same queue, and no more waiting jobs. -/
theorem AllQueued.keep (h : s.AllQueued) (hc : t.created = s.created) (hq : t.queue = s.queue)
    (hw : ∀ id, (t.job id).Waiting → (s.job id).Waiting) : t.AllQueued := by
  intro id hid hwait
  rw [hq]
  exact h id (hc ▸ hid) (hw id hwait)

end Registry

open Registry

/-- One edit takes nothing out of the queue that waits, and puts nothing in. -/
theorem Edit.queued (h : Edit env lenient retires s t) :
    t.queue.length ≤ s.queue.length ∧ (s.AllQueued → t.AllQueued) := by
  cases h with
  | same t hsame =>
    exact ⟨by rw [hsame.queue], fun h => h.keep hsame.created hsame.queue fun id hw => hsame.job ▸ hw⟩
  | record id f hf => exact ⟨le_refl _, fun h => h.update hf.waiting⟩
  | emit id type => exact ⟨le_refl _, fun h =>
      AllQueued.keep (h.update (f := fun r => r.emitted env id type
      (env.clock s.instants)) fun hw => hw) rfl rfl fun _ hw => hw⟩
  | lose id _ => exact ⟨le_refl _, fun h => AllQueued.keep (h.update (f := fun r => { r with
      nextSequence := r.nextSequence + 1 }) fun hw => hw) rfl rfl fun _ hw => hw⟩
  | drop id =>
    rw [removeRetained_told]
    exact ⟨le_refl _, fun h => AllQueued.keep (h.update (f := fun r => { r with
      subscribers := [], events := [] }) fun hw => hw) rfl rfl fun _ hw => hw⟩
  | retire id f _ hf hnot =>
    refine ⟨List.length_erase_le, fun h x hx hw => ?_⟩
    have hxi : x ≠ id := by
      rintro rfl
      have hjob : (s.update x f).job x = f (s.job x) := update_job_self s f
      exact hnot (hjob ▸ hw)
    have hin : x ∈ s.queue := h.update hf.waiting x hx hw
    exact (List.mem_erase_of_ne hxi).2 hin
  | close id sub =>
    exact ⟨le_refl _, fun h => AllQueued.keep (h.update (f := fun r => { r with
      subscribers := r.subscribers.erase sub }) fun hw => hw) rfl rfl fun _ hw => hw⟩
  | forceClose sub => exact ⟨le_refl _, fun h => h.keep rfl rfl fun _ hw => hw⟩

/-- An edit does not lengthen the queue. -/
theorem Edited.queued (h : Edited env lenient retires s t) :
    t.queue.length ≤ s.queue.length ∧ (s.AllQueued → t.AllQueued) := by
  induction h with
  | refl => exact ⟨le_refl _, fun h => h⟩
  | tail _ hstep ih => exact ⟨hstep.queued.1.trans ih.1, fun h => hstep.queued.2 (ih.2 h)⟩

namespace Scheduler

/-- There is room in the queue if `requeueBlocked` is about to put its job back. -/
def RoomToPutBack (env : JobEnv) (s : Scheduler) (a : Act) : Prop :=
  ∀ id, a = .requeue → s.dispatch = .busy id → putsBack env id s.registry = true →
    s.registry.queue.length < env.limits.maxQueued

/-- The queue is within its bound, and holds all that wait. -/
structure WithinBound (env : JobEnv) (s : Registry) : Prop where
  length : s.queue.length ≤ env.limits.maxQueued
  queued : s.AllQueued

/-- **So an edit keeps the bound.** -/
theorem WithinBound.edited (h : WithinBound env s) (he : Edited env lenient retires s t) :
    WithinBound env t :=
  ⟨he.queued.1.trans h.length, he.queued.2 h.queued⟩

/-- What one act leaves of the waiting jobs. -/
theorem AllQueued.happens {s : Scheduler} {a : Act} {t : Registry} (h : s.registry.AllQueued)
    (hh : Happens env lenient s a t) : t.AllQueued := by
  cases hh with
  | edited _ _ he => exact he.queued.2 h
  | freed _ he =>
    have hs : AllQueued { s.registry with runningSlots := s.registry.runningSlots - 1 } := h
    exact he.queued.2 hs
  | submitted hsub =>
    obtain ⟨u, r, hu, -, -, hr, ht⟩ := hsub
    refine ht.queued.2 fun id hid hw => ?_
    show id ∈ u.queue ++ [u.created]
    by_cases hid' : id = u.created
    · exact List.mem_append_right _ (by simp [hid'])
    · have hlt : id < u.created := by
        have : id < u.created + 1 := hid
        omega
      refine List.mem_append_left _ (hu.queued.2 h id hlt ?_)
      rwa [show (enroll r u).job id = u.job id from Function.update_of_ne hid' _ _] at hw
  | @taken id _ htaken =>
    obtain ⟨u, rest, hu, -, -, hq, rfl⟩ := htaken
    intro x hx hw
    have hne : x ≠ id := by
      rintro rfl
      exact absurd hw.2 (by simp [Registry.taken, Registry.update])
    rw [show (u.taken id rest).job x = u.job x from Function.update_of_ne hne _ _] at hw
    have hin := hu.queued.2 h x hx hw
    rw [hq] at hin
    exact (List.mem_cons.1 hin).resolve_left hne
  | @putBack id k hd hp =>
    intro x hx hw
    by_cases hxi : x = id
    · exact List.mem_cons.2 (.inl hxi)
    · rw [show (s.registry.putBack id k).job x = s.registry.job x from Function.update_of_ne
        hxi _ _] at hw
      exact List.mem_cons_of_mem _ (h x hx hw)
  | subscribed hu hsub =>
    rw [hsub.eq]
    exact AllQueued.keep ((hu.queued.2 h).update (f := fun r => { r with
      subscribers := r.subscribers ++ [_] }) fun hw => hw) rfl rfl fun _ hw => hw
  | polled sub => exact h.keep rfl rfl fun _ hw => hw

/-- What one act leaves of a queue within its bound. -/
theorem WithinBound.happens {s : Scheduler} {a : Act} {t : Registry}
    (h : WithinBound env s.registry)
    (hh : Happens env lenient s a t) (hroom : RoomToPutBack env s a) : WithinBound env t := by
  refine ⟨?_, AllQueued.happens h.queued hh⟩
  cases hh with
  | edited _ _ he => exact he.queued.1.trans h.length
  | freed _ he =>
    have hs : WithinBound env { s.registry with runningSlots := s.registry.runningSlots - 1 } :=
      ⟨h.length, h.queued⟩
    exact (hs.edited he).length
  | submitted hsub =>
    obtain ⟨u, r, hu, -, hlen, hr, ht⟩ := hsub
    have hroomy : (enroll r u).queue.length ≤ env.limits.maxQueued := by
      show (u.queue ++ [u.created]).length ≤ _
      rw [List.length_append, List.length_singleton]
      exact hlen
    exact ht.queued.1.trans hroomy
  | @taken id _ htaken =>
    obtain ⟨u, rest, hu, -, -, hq, rfl⟩ := htaken
    have hlen := (h.edited hu).length
    rw [hq, List.length_cons] at hlen
    show rest.length ≤ _
    omega
  | @putBack id k hd hp => exact hroom id rfl hd hp
  | subscribed hu hsub =>
    rw [hsub.eq]
    exact (h.edited hu).length
  | polled sub => exact h.length

/-- A step at which there is room for a job that is put back. -/
def RoomyStep (env : JobEnv) (s t : Scheduler) : Prop :=
  ∃ a o, act env s a = some (o, t) ∧ RoomToPutBack env s a

/-- **The waiting queue keeps its bound in every run that has room for what it puts back.** -/
theorem waiting_bounded {job : JobId → JobRecord} {subscription : SubscriptionId → Subscription}
    {s : Scheduler}
    (hrun : Relation.ReflTransGen (RoomyStep env) ⟨empty job subscription, .idle, []⟩ s) :
    s.registry.waiting.length ≤ env.limits.maxQueued := by
  have hbound : WithinBound env s.registry := by
    induction hrun with
    | refl => exact ⟨Nat.zero_le _, fun id hid => absurd hid (Nat.not_lt_zero id)⟩
    | tail _ hstep ih =>
      obtain ⟨a, o, ha, hroom⟩ := hstep
      have hh : Happens env True _ a _ := happens ha fun e _ h => h.2 trivial
      exact ih.happens hh hroom
  exact hbound.queued.waiting_le.trans hbound.length

namespace Refill

/-! A run in which the queue is filled while the dispatcher holds its head. -/

def tightLimits : JobLimits :=
  { OneJob.smallLimits with maxQueued := 1, positive := by decide, ints := by decide }

def tightEnv : JobEnv := { OneJob.smallEnv with limits := tightLimits }

def acts : List Act :=
  [.call (.submit OneJob.someSpec), .pump, .call (.submit OneJob.someSpec),
    .tryAdmit (.throws .projectBusy), .requeue]

theorem runs : (perform tightEnv acts OneJob.start).isSome = true := by decide +kernel

end Refill

/-- Two jobs wait where one may. -/
theorem waiting_not_bounded : ¬ ∀ (env : JobEnv) (s : Scheduler), Reachable env s →
    s.registry.waiting.length ≤ env.limits.maxQueued := by
  intro hall
  have hs := hall Refill.tightEnv ((perform Refill.tightEnv Refill.acts OneJob.start).get Refill.runs)
    ⟨_, _, perform_run (Option.some_get _).symm⟩
  exact absurd hs (by decide +kernel)

/-- A job that is refused and put back where there is room. -/
theorem waiting_bounded_one : ∃ s, perform OneJob.smallEnv
      [.call (.submit OneJob.someSpec), .pump, .tryAdmit (.throws .projectBusy), .requeue]
      OneJob.start = some s ∧
    s.registry.waiting = [0] ∧ s.registry.waiting.length ≤ 2 := by
  let s₁ := (perform OneJob.smallEnv [.call (.submit OneJob.someSpec)] OneJob.start).get
    (by decide +kernel)
  let s₂ := (perform OneJob.smallEnv [.pump] s₁).get (by decide +kernel)
  let s₃ := (perform OneJob.smallEnv [.tryAdmit (.throws .projectBusy)] s₂).get (by decide +kernel)
  let s₄ := (perform OneJob.smallEnv [.requeue] s₃).get (by decide +kernel)
  have h₁ : RoomyStep OneJob.smallEnv OneJob.start s₁ :=
    ⟨.call (.submit OneJob.someSpec), .ok (), rfl, fun _ ha => by simp at ha⟩
  have h₂ : RoomyStep OneJob.smallEnv s₁ s₂ := ⟨.pump, .ok (), rfl, fun _ ha => by simp at ha⟩
  have h₃ : RoomyStep OneJob.smallEnv s₂ s₃ :=
    ⟨.tryAdmit (.throws .projectBusy), .ok (), rfl, fun _ ha => by simp at ha⟩
  have h₄ : RoomyStep OneJob.smallEnv s₃ s₄ := by
    have hroom : s₃.registry.queue.length < OneJob.smallEnv.limits.maxQueued := by decide +kernel
    exact ⟨.requeue, .ok (), rfl, fun _ _ _ _ => hroom⟩
  exact ⟨s₄, rfl, by decide +kernel,
    waiting_bounded (((Relation.ReflTransGen.single h₁).tail h₂).tail h₃ |>.tail h₄)⟩

end Scheduler

end Libjadx
