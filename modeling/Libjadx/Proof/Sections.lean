import Libjadx.Proof.Registry

/-!
# What any critical section does

The accounts and the event grammar rest on events that fit their limit. This module is about all
runs: `Edit` is one elementary thing that happens to a registry inside a section, with the event
lost where it does not fit (`lenient`), and with waiting jobs ended where the section may do so
(`retires`). Every section is a sequence of edits, whatever it throws; `submit`, `pump`,
`requeueBlocked`, `subscribe` and `next` make one special step besides.
-/

namespace Libjadx

open JobRegistry Locked

/-- A record that is edited without an event; it does not start to wait. -/
structure Mild (r r' : JobRecord) : Prop where
  log : r'.log = r.log
  events : r'.events = r.events
  nextSequence : r'.nextSequence = r.nextSequence
  subscribers : r'.subscribers = r.subscribers
  waiting : r'.Waiting → r.Waiting

theorem Mild.refl (r : JobRecord) : Mild r r := ⟨rfl, rfl, rfl, rfl, fun h => h⟩

/-- The event that a record emits next. -/
def JobRecord.nextEvent (env : JobEnv) (id : JobId) (type : EventType) (now : ℤ) (r : JobRecord) :
    JobEvent :=
  ⟨id, r.nextSequence + 1, type, now, r.state,
    env.writeValueAsString ⟨id, r.nextSequence + 1, type, now, r.state, r.progress⟩⟩

namespace Registry

/-- Only counters, readings and flags differ. -/
structure Same (s t : Registry) : Prop where
  created : t.created = s.created
  job : t.job = s.job
  opened : t.opened = s.opened
  subscription : t.subscription = s.subscription
  records : t.records = s.records
  queue : t.queue = s.queue
  runningSlots : t.runningSlots = s.runningSlots
  stopped : s.stopped = true → t.stopped = true

/-- The subscriptions after each of `subs` was given the same. -/
def told (subs : List SubscriptionId) (f : Subscription → Subscription)
    (subscription : SubscriptionId → Subscription) : SubscriptionId → Subscription :=
  subs.foldl (fun g sub => Function.update g sub (f (g sub))) subscription

/-- What is told to subscriptions changes their own fields alone. -/
theorem foldl_told (f : Subscription → Subscription) (subs : List SubscriptionId) :
    ∀ s : Registry, subs.foldl (fun s x => s.updateSubscription x f) s =
      { s with subscription := told subs f s.subscription } := by
  induction subs with
  | nil => intro s; rfl
  | cons x subs ih => intro s; exact ih (s.updateSubscription x f)

/-- A completed job is dropped, with its events; its subscriptions are closed. -/
theorem removeRetained_told (id : JobId) (s : Registry) : removeRetained id s =
    { s.update id (fun r => { r with subscribers := [], events := [] }) with
      subscription := told (s.job id).subscribers Subscription.forceClose s.subscription
      records := s.records.erase id
      retainedResultBytes := s.retainedResultBytes - (s.job id).resultBytes
      globalSubscribers := s.globalSubscribers - (s.job id).subscribers.length } := by
  unfold removeRetained
  dsimp only
  rw [foldl_told]
  rfl

/-- An update leaves the other jobs alone. -/
theorem update_job_of_ne {s : Registry} {id x : JobId} {f : JobRecord → JobRecord} (h : x ≠ id) :
    (s.update id f).job x = s.job x := Function.update_of_ne h _ _

/-- What holds between the changed record and the old, and between equal ones, holds of every
record. -/
theorem update_rel (s : Registry) (id : JobId) (f : JobRecord → JobRecord)
    (P : JobRecord → JobRecord → Prop)
    (hid : P (f (s.job id)) (s.job id)) (hsame : ∀ r, P r r) (x : JobId) : P ((s.update id f).job x)
    (s.job x) := by
  by_cases hx : x = id
  · subst hx
    rwa [update_job_self]
  · rw [update_job_of_ne hx]
    exact hsame _

/-- An event that fits. -/
def emitFits (env : JobEnv) (id : JobId) (type : EventType) (s : Registry) : Registry :=
  { s with
    job := Function.update s.job id ((s.job id).emitted env id type (env.clock s.instants))
    instants := s.instants + 1
    subscription := told (s.job id).subscribers (Subscription.offer env.limits.maxFramesPerSubscriber
      ((s.job id).nextEvent env id type (env.clock s.instants))) s.subscription }

/-- An event that does not: its sequence number is used up. -/
def emitLost (id : JobId) (s : Registry) : Registry :=
  { s.update id fun r => { r with nextSequence := r.nextSequence + 1 } with instants := s.instants + 1 }

end Registry

open Registry

variable {env : JobEnv} {lenient retires : Prop}

/-- One elementary thing that happens to a registry. -/
inductive Edit (env : JobEnv) (lenient retires : Prop) (s : Registry) : Registry → Prop
  | same (t : Registry) : s.Same t → Edit env lenient retires s t
  | record (id : JobId) (f : JobRecord → JobRecord) : Mild (s.job id) (f (s.job id)) →
      Edit env lenient retires s (s.update id f)
  | emit (id : JobId) (type : EventType) : Edit env lenient retires s (s.emitFits env id type)
  | lose (id : JobId) : lenient → Edit env lenient retires s (s.emitLost id)
  | drop (id : JobId) : Edit env lenient retires s (removeRetained id s)
  /-- A waiting job leaves the queue, and does not wait any more. -/
  | retire (id : JobId) (f : JobRecord → JobRecord) : retires → Mild (s.job id) (f (s.job id)) →
      ¬ (f (s.job id)).Waiting →
      Edit env lenient retires s { s.update id f with queue := s.queue.erase id }
  | close (id : JobId) (sub : SubscriptionId) : Edit env lenient retires s
      ((s.update id fun r => { r with subscribers := r.subscribers.erase sub }).updateSubscription sub
        Subscription.forceClose)
  | forceClose (sub : SubscriptionId) : Edit env lenient retires s
      (s.updateSubscription sub Subscription.forceClose)

/-- What happens to a registry over a section. -/
def Edited (env : JobEnv) (lenient retires : Prop) : Registry → Registry → Prop :=
  Relation.ReflTransGen (Edit env lenient retires)

/-- A section that does not end waiting jobs is one that may. -/
theorem Edited.retiring {s t : Registry} (h : Edited env lenient False s t) :
    Edited env lenient True s t := by
  refine Relation.ReflTransGen.mono (fun u v huv => ?_) _ _ h
  cases huv with
  | same _ hs => exact .same _ hs
  | record id f hf => exact .record id f hf
  | emit id type => exact .emit id type
  | lose id hl => exact .lose id hl
  | drop id => exact .drop id
  | retire id f hr => exact hr.elim
  | close id sub => exact .close id sub
  | forceClose sub => exact .forceClose sub

/-- An event that does not fit is not accounted for, unless the run is lenient. -/
def Unfit (lenient : Prop) (e : Throwable) : Prop := e = eventTooLarge ∧ ¬ lenient

/-- A section all of whose outcomes are edits. -/
def Edits (env : JobEnv) (lenient retires : Prop) {α : Type} (m : Section α) : Prop :=
  ∀ s₀, Keeps (Unfit lenient) (Edited env lenient retires s₀) m

variable {s s₀ t : Registry} {id : JobId}

/-! ## Readings -/

/-- What leaves the registry the same edits nothing. -/
theorem edits_same {g : Registry → Registry} (hg : ∀ s : Registry, s.Same (g s)) :
    Edits env lenient retires (modify g) :=
  fun _ => triple_modify fun s hs => hs.tail (.same _ (hg s))

theorem edits_pure {α : Type} (a : α) : Edits env lenient retires (pure a) := fun _ => keeps_pure

theorem edits_throw {α : Type} (e : Throwable) : Edits env lenient retires (throw e : Section α) :=
  fun _ => keeps_throw

/-- **Edits compose.** -/
theorem Edits.bind {α β : Type} {m : Section α} {f : α → Section β}
    (hm : Edits env lenient retires m)
    (hf : ∀ a, Edits env lenient retires (f a)) : Edits env lenient retires (m >>= f) :=
  fun s₀ => (hm s₀).bind fun a => hf a s₀

theorem edits_get {α : Type} {f : Registry → Section α}
    (hf : ∀ s, Edits env lenient retires (f s)) :
    Edits env lenient retires (get >>= f) := fun s₀ => triple_get_keep fun s _ => hf s s₀

theorem edits_ite {α : Type} {c : Prop} [Decidable c] {m m' : Section α}
    (h : c → Edits env lenient retires m)
    (h' : ¬ c → Edits env lenient retires m') : Edits env lenient retires
    (if c then m else m') := by
  split
  · exact h ‹_›
  · exact h' ‹_›

theorem edits_when {c : Bool} {m : Section Unit} (h : Edits env lenient retires m) :
    Edits env lenient retires (when c m) :=
  fun s₀ => keeps_when (h s₀)

theorem edits_forEach {l : List JobId} {body : JobId → Section Unit}
    (h : ∀ x, Edits env lenient retires (body x)) : Edits env lenient retires (forEach l body) :=
  fun s₀ => triple_forEach fun x _ => h x s₀

theorem nanoTime_edits : Edits env lenient retires (nanoTime env) := by
  refine edits_get fun s => (edits_same fun t => ?_).bind fun _ => edits_pure _
  exact ⟨rfl, rfl, rfl, rfl, rfl, rfl, rfl, fun h => h⟩

theorem instant_edits : Edits env lenient retires (instant env) := by
  refine edits_get fun s => (edits_same fun t => ?_).bind fun _ => edits_pure _
  exact ⟨rfl, rfl, rfl, rfl, rfl, rfl, rfl, fun h => h⟩

theorem toNanos_edits (d : ℕ) : Edits env lenient retires (toNanos d) :=
  edits_ite (fun _ => edits_pure _) fun _ => edits_throw _

theorem expired_edits (id : JobId) : Edits env lenient retires (expired env id) := by
  refine edits_get fun s => ?_
  cases (s.job id).deadlineNanos with
  | none => exact edits_pure _
  | some deadline => exact nanoTime_edits.bind fun _ => edits_pure _

theorem findLocked_edits (id : JobId) : Edits env lenient retires (findLocked id) :=
  edits_get fun _ => edits_ite (fun _ => edits_pure _) fun _ => edits_throw _

/-! ## Records -/

theorem edits_edit {f : JobRecord → JobRecord} (hf : ∀ r, Mild r (f r)) :
    Edits env lenient retires (edit id f) :=
  fun _ => triple_modify fun s hs => hs.tail (.record id f (hf (s.job id)))

theorem mild_request (reason : Reason) (r : JobRecord) : Mild r (r.request reason) :=
  ⟨rfl, rfl, rfl, rfl, fun h => h⟩

theorem mild_addDiagnostic (text : JString) (r : JobRecord) :
    Mild r (addDiagnostic env text r) := by
  obtain ⟨d, hd⟩ := addDiagnostic_eq env text r
  rw [hd]
  exact ⟨rfl, rfl, rfl, rfl, fun h => h⟩

theorem mild_cancelling (r : JobRecord) : Mild r r.cancelling := by
  unfold JobRecord.cancelling
  split
  · exact ⟨rfl, rfl, rfl, rfl, fun h => absurd h.1 (by simp)⟩
  · exact .refl r

/-! ## Retention -/

/-- **A purge edits.** -/
theorem purgeExpiredLocked_edits : Edits env lenient retires (purgeExpiredLocked env) := by
  refine nanoTime_edits.bind fun now => edits_get fun s => ?_
  refine edits_ite (fun _ => edits_pure _) fun _ => (toNanos_edits _).bind fun ttl => ?_
  exact edits_forEach fun x _ => triple_modify fun t ht => ht.tail (.drop x)

/-- So does retention, -/
theorem enforceRetention_edits : Edits env lenient retires (modify (enforceRetention env)) := by
  refine fun s₀ => triple_modify fun s hs => ?_
  unfold enforceRetention
  split
  · exact hs
  · split
    · exact hs
    · exact hs.tail (.drop _)

/-- and the search for room. -/
theorem reclaimResultRoom_edits (incoming n : ℕ) :
    Edits env lenient retires (reclaimResultRoom env incoming n) := by
  induction n with
  | zero => exact edits_get fun _ => edits_ite (fun _ => edits_throw _) fun _ => edits_pure _
  | succ n ih =>
    refine edits_get fun s => edits_ite (fun _ => ?_) fun _ => edits_pure _
    cases oldestCompleted true s.records s.job with
    | none => exact edits_throw _
    | some oldest =>
      have hdrop : Edits env lenient retires (modify (removeRetained oldest)) :=
        fun _ => triple_modify fun t ht => ht.tail (.drop oldest)
      exact hdrop.bind fun _ => ih

/-! ## Events -/

/-- The JSON of the event that a record emits next. -/
def JobRecord.eventText (env : JobEnv) (id : JobId) (type : EventType) (now : ℤ) (r : JobRecord) :
    JString :=
  env.writeValueAsString ⟨id, r.nextSequence + 1, type, now, r.state, r.progress⟩

/-- An emission appends an event that fits; for another it throws, and has used up a sequence
number. -/
theorem emitLocked_eq (env : JobEnv) (id : JobId) (type : EventType) (s : Registry) :
    emitLocked env id type s =
      if env.limits.maxEventBytes < utf8Length
        ((s.job id).eventText env id type (env.clock s.instants)) then
        (.error eventTooLarge, s.emitLost id)
      else (.ok (), s.emitFits env id type) := by
  unfold emitLocked edit
  rw [bind_modify, bind_ok (instant_run _), bind_get, ite_run]
  have htext : env.writeValueAsString (eventData id ((s.update id fun r => { r with
      nextSequence := r.nextSequence + 1 }).job id) type (env.clock s.instants)) =
      (s.job id).eventText env id type (env.clock s.instants) := by
    rw [update_job_self]
    rfl
  refine if_congr (by rw [← htext]; rfl) rfl ?_
  rw [bind_modify, forEach_modify, foldl_told]
  simp [Registry.emitFits, Registry.update, Function.update_self, Function.update_idem, JobRecord.emitted,
    JobRecord.nextEvent, eventData]

/-- **An event is emitted where it fits, and lost where it does not.** -/
theorem emitLocked_run (env : JobEnv) (id : JobId) (type : EventType) (s : Registry) :
    emitLocked env id type s = (.ok (), s.emitFits env id type) ∨
      emitLocked env id type s = (.error eventTooLarge, s.emitLost id) := by
  rw [emitLocked_eq]
  split
  · exact .inr rfl
  · exact .inl rfl

/-- **An event edits.** -/
theorem emitLocked_edits (id : JobId) (type : EventType) :
    Edits env lenient retires (emitLocked env id type) := by
  intro s₀ s hs
  obtain hr | hr := emitLocked_run env id type s
  · rw [hr]
    exact hs.tail (.emit id type)
  · rw [hr]
    by_cases hl : lenient
    · exact .inr (hs.tail (.lose id hl))
    · exact .inl ⟨rfl, hl⟩

/-- So does the completion of a job. -/
theorem markCompletedLocked_edits (id : JobId) :
    Edits env lenient retires (markCompletedLocked env id) := by
  refine instant_edits.bind fun at_ => nanoTime_edits.bind fun nanos => ?_
  have hcount : Edits env lenient retires (modify fun s =>
      { s with completionSequence := s.completionSequence + 1 }) :=
    edits_same fun t => ⟨rfl, rfl, rfl, rfl, rfl, rfl, rfl, fun h => h⟩
  exact hcount.bind fun _ => edits_get fun s => edits_edit fun r => ⟨rfl, rfl, rfl, rfl, fun h => h⟩

/-! ## Endings -/

/-- A cancellation, where what led to it is an edit once the job is `CANCELLED`. -/
theorem finishCancelledLocked_triple {I : Registry → Prop}
    (hover : ∀ s, I s → (s.job id).terminal = true → Edited env lenient retires s₀ s)
    (hends : ∀ s, I s → (s.job id).terminal = false →
      Edited env lenient retires s₀ (s.update id fun r => { r with state := .CANCELLED })) :
    Triple (Unfit lenient) I (finishCancelledLocked env id) (fun _ => Edited env lenient retires s₀)
      (Edited env lenient retires s₀) := by
  refine triple_get fun s hs => triple_ite (fun ht => triple_pure fun t hst => hst ▸ hover s hs ht)
    fun ht => ?_
  have hend : Triple (Unfit lenient) (fun t => t = s) (edit id fun r =>
      { r with state := .CANCELLED })
      (fun _ => Edited env lenient retires s₀) (Edited env lenient retires s₀) :=
    triple_modify fun t hst => hst ▸ hends s hs (by simpa using ht)
  refine hend.bind fun _ => Triple.bind (markCompletedLocked_edits id s₀) fun _ => ?_
  exact Triple.bind (emitLocked_edits id .cancelled s₀) fun _ => enforceRetention_edits s₀

/-- A job that ends was changed mildly. -/
theorem mild_ended {r : JobRecord} {state : JobState} (h : state ≠ .QUEUED) :
    Mild r { r with state := state } :=
  ⟨rfl, rfl, rfl, rfl, fun hw => absurd hw.1 h⟩

/-- **A cancelled job is an edit,** -/
theorem finishCancelledLocked_edits (id : JobId) :
    Edits env lenient retires (finishCancelledLocked env id) :=
  fun _ => finishCancelledLocked_triple (fun _ hs _ => hs) fun _ hs _ =>
    hs.tail (.record id _ (mild_ended (by simp)))

/-- A failure, where what led to it is an edit once the job is `FAILED`. -/
theorem finishFailedLocked_triple {I : Registry → Prop} (failure : Option Throwable)
    (message : String)
    (hover : ∀ s, I s → (s.job id).terminal = true → Edited env lenient retires s₀ s)
    (hends : ∀ s, I s → (s.job id).terminal = false →
      Edited env lenient retires s₀ (s.update id fun r => { r with state := .FAILED })) :
    Triple (Unfit lenient) I (finishFailedLocked env id failure message)
      (fun _ => Edited env lenient retires s₀)
      (Edited env lenient retires s₀) := by
  refine triple_get fun s hs => triple_ite (fun ht => triple_pure fun t hst => hst ▸ hover s hs ht)
    fun ht => ?_
  have hend : Triple (Unfit lenient) (fun t => t = s) (edit id fun r => { r with state := .FAILED })
      (fun _ => Edited env lenient retires s₀) (Edited env lenient retires s₀) :=
    triple_modify fun t hst => hst ▸ hends s hs (by simpa using ht)
  have hnote : Edits env lenient retires (edit id fun r => addDiagnostic env (str message) { r with
      error := some (jobError failure message), cause := failure }) := by
    refine edits_edit fun r => ?_
    have hd := @mild_addDiagnostic env (str message) { r with
      error := some (jobError failure message), cause := failure }
    exact ⟨hd.log, hd.events, hd.nextSequence, hd.subscribers, hd.waiting⟩
  refine hend.bind fun _ => Triple.bind (markCompletedLocked_edits id s₀) fun _ =>
    Triple.bind (hnote s₀) fun _ => ?_
  exact Triple.bind (emitLocked_edits id .failed s₀) fun _ => enforceRetention_edits s₀

/-- **and so is a failed one.** -/
theorem finishFailedLocked_edits (id : JobId) (failure : Option Throwable) (message : String) :
    Edits env lenient retires (finishFailedLocked env id failure message) :=
  fun _ => finishFailedLocked_triple failure message (fun _ hs _ => hs)
    fun _ hs _ => hs.tail (.record id _ (mild_ended (by simp)))

/-! ## What throws -/

/-- A section that throws only for an event that does not fit. -/
def OnlyUnfit (lenient : Prop) {α : Type} (m : Section α) : Prop :=
  ¬ lenient → Triple (Unfit lenient) (fun _ => True) m (fun _ _ => True) fun _ => False

/-- Sections that fail for an unfit event alone compose. -/
theorem OnlyUnfit.bind {α β : Type} {m : Section α} {f : α → Section β} (hm : OnlyUnfit lenient m)
    (hf : ∀ a, OnlyUnfit lenient (f a)) : OnlyUnfit lenient (m >>= f) :=
  fun hl => Triple.bind (hm hl) fun a => hf a hl

theorem onlyUnfit_modify {g : Registry → Registry} : OnlyUnfit lenient (modify g) :=
  fun _ => triple_modify fun _ _ => trivial

theorem onlyUnfit_pure {α : Type} (a : α) : OnlyUnfit lenient (pure a) :=
  fun _ => triple_pure fun _ _ => trivial

theorem onlyUnfit_get {α : Type} {f : Registry → Section α} (hf : ∀ s, OnlyUnfit lenient (f s)) :
    OnlyUnfit lenient (get >>= f) := fun hl => triple_get_keep fun s _ => hf s hl

theorem onlyUnfit_when {c : Bool} {m : Section Unit} (h : OnlyUnfit lenient m) :
    OnlyUnfit lenient (when c m) :=
  fun hl => triple_when (fun _ => h hl) fun _ _ _ => trivial

/-- An emission fails for an unfit event alone, -/
theorem emitLocked_only (id : JobId) (type : EventType) :
    OnlyUnfit lenient (emitLocked env id type) := by
  intro hl s _
  obtain hr | hr := emitLocked_run env id type s <;> rw [hr]
  · trivial
  · exact .inl ⟨rfl, hl⟩

/-- the completion for nothing, -/
theorem markCompletedLocked_only (id : JobId) : OnlyUnfit lenient (markCompletedLocked env id) := by
  refine OnlyUnfit.bind (fun _ s _ => ?_) fun _ => OnlyUnfit.bind (fun _ s _ => ?_) fun _ =>
    onlyUnfit_modify.bind fun _ => onlyUnfit_get fun _ => onlyUnfit_modify
  · rw [instant_run]
    trivial
  · rw [nanoTime_run]
    trivial

/-- and the end of a cancelled job for its event. -/
theorem finishCancelledLocked_only (id : JobId) :
    OnlyUnfit lenient (finishCancelledLocked env id) := by
  refine onlyUnfit_get fun s => ?_
  split
  · exact onlyUnfit_pure _
  · exact onlyUnfit_modify.bind fun _ => (markCompletedLocked_only id).bind fun _ =>
      (emitLocked_only id _).bind fun _ => onlyUnfit_modify

/-! ## The callers' sections -/

theorem reserveSubmissions_edits : Edits env lenient retires reserveSubmissions :=
  edits_get fun _ => edits_ite (fun _ => edits_throw _) fun _ =>
    edits_same fun _ => ⟨rfl, rfl, rfl, rfl, rfl, rfl, rfl, fun h => h⟩

theorem releaseSubmissionReservation_edits :
    Edits env lenient retires releaseSubmissionReservation :=
  edits_same fun _ => ⟨rfl, rfl, rfl, rfl, rfl, rfl, rfl, fun h => h⟩

theorem stopSubmissions_edits : Edits env lenient retires stopSubmissions :=
  edits_same fun _ => ⟨rfl, rfl, rfl, rfl, rfl, rfl, rfl, fun _ => rfl⟩

theorem snapshot_edits (id : JobId) : Edits env lenient retires (snapshot env id) :=
  purgeExpiredLocked_edits.bind fun _ => (findLocked_edits id).bind fun _ => edits_pure _

/-- A job that is asked to stop ends at once where it waits. -/
theorem cancelRequested_edits (id : JobId) : Edits env lenient True (cancelRequested env id) := by
  refine (edits_edit mild_cancelling).bind fun _ => (emitLocked_edits id _).bind fun _ => ?_
  intro s₀
  refine triple_get fun s hs => triple_when (fun hw => triple_at_modify ?_) fun _ t ht => ht ▸ hs
  have hq : (s.job id).state = .QUEUED := by
    simp only [Bool.and_eq_true, decide_eq_true_eq] at hw
    exact hw.1
  refine finishCancelledLocked_triple (fun t ht hover => ?_) fun t ht _ => ?_
  · subst ht
    exact absurd hover (by simp [JobRecord.terminal, hq, JobState.terminal])
  · subst ht
    exact hs.tail (.retire id (fun r => { r with state := .CANCELLED }) trivial (mild_ended (by simp))
      fun h => absurd h.1 (by simp))

theorem cancelRequested_only (id : JobId) : OnlyUnfit lenient (cancelRequested env id) :=
  onlyUnfit_modify.bind fun _ => (emitLocked_only id _).bind fun _ => onlyUnfit_get fun _ =>
    onlyUnfit_when (onlyUnfit_modify.bind fun _ => finishCancelledLocked_only id)

/-- **A cancellation edits, and may retire the job.** -/
theorem cancel_edits (id : JobId) : Edits env lenient True (cancel env id) := by
  refine purgeExpiredLocked_edits.bind fun _ => (findLocked_edits id).bind fun r => ?_
  refine Edits.bind (edits_when ?_) fun _ => edits_get fun _ => edits_pure _
  exact (edits_edit (mild_request _)).bind fun _ => cancelRequested_edits id

theorem tickRecord_edits (id : JobId) : Edits env lenient True (tickRecord env id) := by
  refine edits_get fun s => edits_when ((expired_edits id).bind fun expired => edits_when ?_)
  refine Edits.bind (edits_edit fun r => ?_) fun _ => cancelRequested_edits id
  have hd := @mild_addDiagnostic env (str "Job deadline expired") (r.request .DEADLINE)
  exact ⟨hd.log, hd.events, hd.nextSequence, hd.subscribers, hd.waiting⟩

/-- **So does a tick.** -/
theorem tick_edits : Edits env lenient True (tick env) :=
  purgeExpiredLocked_edits.bind fun _ => edits_get fun _ => edits_forEach tickRecord_edits

theorem tickRecord_only (id : JobId) : OnlyUnfit lenient (tickRecord env id) := by
  refine onlyUnfit_get fun s => onlyUnfit_when (OnlyUnfit.bind (fun _ t _ => ?_) fun expired =>
    onlyUnfit_when ?_)
  · obtain ⟨b, k, hb⟩ := expired_run env id t
    rw [hb]
    trivial
  · exact onlyUnfit_modify.bind fun _ => cancelRequested_only id

/-- Where `tick` throws for another reason than an event, no job was asked to stop. -/
theorem tick_triple (s : Registry) : Triple (Unfit lenient) (fun t => t = s) (tick env)
    (fun _ => Edited env lenient True s) (fun t => Edited env lenient False s t ∨ lenient) := by
  refine Triple.bind (R := fun _ => Edited env lenient False s) ?_ fun _ =>
    triple_get_keep fun u _ => ?_
  · exact (purgeExpiredLocked_edits s).weaken (fun t ht => ht ▸ .refl) (fun _ _ h => h)
      fun _ h => .inl h
  · by_cases hl : lenient
    · exact (edits_forEach tickRecord_edits s).weaken (fun t ht => ht.retiring) (fun _ _ h => h)
        fun _ _ => .inr hl
    · have honly : Triple (Unfit lenient) (fun _ => True) (forEach u.records (tickRecord env))
        (fun _ _ => True)
          fun _ => False := triple_forEach fun x _ => tickRecord_only x hl
      exact ((edits_forEach tickRecord_edits s).and honly).weaken (fun t ht =>
        ⟨ht.retiring, trivial⟩)
        (fun _ _ h => h.1) fun _ h => h.2.elim

/-- A purge asks no job to stop. -/
theorem purgeExpiredLocked_asks (s : Registry) : Keeps (Unfit lenient)
    (fun t => ∀ x, (t.job x).token = (s.job x).token ∧ (t.job x).state = (s.job x).state)
    (purgeExpiredLocked env) := by
  refine Triple.bind (R := fun _ t => ∀ x, (t.job x).token = (s.job x).token ∧
    (t.job x).state = (s.job x).state)
    (fun t ht => ?_) fun now => triple_get_keep fun t _ =>
      triple_ite (fun _ => triple_pure fun _ h => h) fun _ => ?_
  · rw [nanoTime_run]
    exact ht
  · refine Triple.bind (toNanos_triple (fun _ h => h) _) fun ttl => triple_forEach fun x _ => ?_
    refine triple_modify fun u hu y => ?_
    rw [removeRetained_told]
    exact update_rel u x (fun r => { r with subscribers := [], events := [] })
      (fun r r' => r'.token = (s.job y).token ∧ r'.state = (s.job y).state →
        r.token = (s.job y).token ∧ r.state = (s.job y).state) (fun h => h) (fun _ h => h) y (hu y)

/-- `cancel` asks the job to stop: it is not over, and the request is the first. -/
def asks (id : JobId) (s : Registry) : Bool := !(s.job id).terminal && (s.job id).token.isNone

/-- A cancellation edits, or asks the job to stop. -/
theorem cancel_triple (id : JobId) (s : Registry) :
    Triple (Unfit lenient) (fun t => t = s) (cancel env id)
    (fun _ t => Edited env lenient False s t ∨ asks id s = true)
    (fun t => Edited env lenient False s t ∨ lenient) := by
  refine Triple.bind (R := fun _ t => Edited env lenient False s t ∧ asks id t = asks id s)
    ?_ fun _ => ?_
  · refine ((purgeExpiredLocked_edits s).and (purgeExpiredLocked_asks s)).weaken
      (fun t ht => by subst ht; exact ⟨.refl, fun _ => ⟨rfl, rfl⟩⟩) (fun _ t ht => ⟨ht.1, ?_⟩)
        fun _ h => .inl h.1
    unfold asks JobRecord.terminal
    rw [(ht.2 id).1, (ht.2 id).2]
  refine Triple.bind (R := fun r t => (Edited env lenient False s t ∧ asks id t = asks id s) ∧
    r = t.job id) ?_ fun r => ?_
  · exact triple_get fun u hu =>
      triple_ite (fun _ => triple_pure fun t ht => by subst ht; exact ⟨hu, rfl⟩)
      fun _ => triple_throw fun t ht => .inr (.inl (ht ▸ hu.1))
  refine Triple.bind (R := fun _ t => Edited env lenient False s t ∨ asks id s = true) ?_ fun _ =>
    triple_get_keep fun _ _ => triple_pure fun _ h => h
  refine triple_when (fun hc => ?_) fun _ t ht => .inl ht.1.1
  intro t ht
  obtain ⟨⟨-, ha⟩, rfl⟩ := ht
  rcases hm : (edit id (fun r => r.request .USER) >>= fun _ => cancelRequested env id) t with ⟨e | a, v⟩
  · by_cases hl : lenient
    · exact .inr (.inr hl)
    · have honly : OnlyUnfit lenient (edit id (fun r => r.request .USER) >>= fun _ =>
          cancelRequested env id) :=
        onlyUnfit_modify.bind fun _ => cancelRequested_only id
      exact .inl (((honly hl).error trivial hm).resolve_right fun h => h)
  · exact .inr (ha ▸ hc)

/-- The end of a subscription edits. -/
theorem closeSubscription_edits (id : JobId) (sub : SubscriptionId) :
    Edits env lenient retires (closeSubscription id sub) := by
  intro s₀
  refine triple_get fun s hs => ?_
  by_cases hsub : sub ∈ (s.job id).subscribers
  · rw [decide_eq_true hsub, when_true]
    let left : Registry := { s.update id (fun r => { r with subscribers := r.subscribers.erase sub }) with
      globalSubscribers := s.globalSubscribers - 1 }
    refine Triple.bind (R := fun _ t => t = left) (triple_at_modify (triple_modify fun t ht =>
      ht ▸ rfl)) fun _ => ?_
    refine triple_modify fun t ht => ?_
    subst ht
    exact (hs.tail (.close id sub)).tail (.same _ ⟨rfl, rfl, rfl, rfl, rfl, rfl, rfl, fun h => h⟩)
  · rw [decide_eq_false hsub, when_false]
    exact triple_modify fun t ht => by subst ht; exact hs.tail (.forceClose sub)

/-- **A report of progress edits,** -/
theorem progress_edits (id : JobId) (completed : ℤ) (total : Option ℤ) (stage : Option JString) :
    Edits env lenient retires (progress env id completed total stage) := by
  unfold progress
  cases JobProgress.make completed total (bounded stage 128) with
  | error e => exact edits_throw e
  | ok p =>
    have hset : Edits env lenient retires (edit id fun r => { r with progress := p }) :=
      edits_edit fun r => ⟨rfl, rfl, rfl, rfl, fun h => h⟩
    refine edits_get fun s => edits_ite (fun _ => edits_pure _) fun _ =>
      edits_ite (fun _ => edits_throw _) fun _ => ?_
    exact hset.bind fun _ => emitLocked_edits id _

/-- **and so does a diagnostic.** -/
theorem diagnostic_edits (id : JobId) (message : Option JString) :
    Edits env lenient retires (diagnostic env id message) := edits_edit fun r =>
      mild_addDiagnostic _ r

/-! ## Shutdown -/

/-- A queued job is retired by the shutdown. -/
theorem shutdownQueued_edits (id : JobId) : Edits env lenient True (shutdownQueued env id) := by
  intro s₀
  refine fun s hs => ?_
  have hrun : Triple (Unfit lenient) (fun t => t = s) (shutdownQueued env id)
      (fun _ => Edited env lenient True s₀) (Edited env lenient True s₀) := by
    refine triple_at_modify (triple_at_modify (finishCancelledLocked_triple (fun t ht hover => ?_)
      fun t ht _ => ?_))
    · subst ht
      rw [update_job_self] at hover
      refine hs.tail (.retire id (fun r => r.request .SHUTDOWN) trivial (mild_request _ _) fun h => ?_)
      have hterm : ((s.job id).request .SHUTDOWN).terminal = true := hover
      rw [JobRecord.terminal, h.1] at hterm
      exact absurd hterm (by decide)
    · subst ht
      have hedit := hs.tail (.retire id (fun r =>
        { r.request .SHUTDOWN with state := .CANCELLED }) trivial
        ⟨rfl, rfl, rfl, rfl, fun h => absurd h.1 (by simp)⟩ fun h => absurd h.1 (by simp))
      show Relation.ReflTransGen _ _ _
      simpa [Registry.update, Function.update_idem] using hedit
  exact hrun s rfl

/-- An active one is told. -/
theorem shutdownActive_edits (id : JobId) : Edits env lenient retires (shutdownActive env id) := by
  refine edits_get fun s => edits_when ?_
  refine (edits_edit (mild_request _)).bind fun _ => (edits_edit mild_cancelling).bind fun _ => ?_
  exact emitLocked_edits id _

/-- What `shutdown` does once the registry is stopped. -/
theorem shutdownLoops_edits (queue : List JobId) :
    Edits env lenient True (forEach queue (shutdownQueued env) >>= fun _ =>
    get >>= fun s => forEach s.records (shutdownActive env) >>= fun _ => get >>= fun s =>
      forEach s.records fun id =>
      get >>= fun s => forEach (s.job id).subscribers fun sub =>
        modify fun s => s.updateSubscription sub Subscription.forceClose) := by
  refine (edits_forEach shutdownQueued_edits).bind fun _ => edits_get fun t => ?_
  refine (edits_forEach shutdownActive_edits).bind fun _ => edits_get fun u => ?_
  refine edits_forEach fun x => edits_get fun v s₀ => triple_forEach fun sub _ => ?_
  exact triple_modify fun w hw => hw.tail (.forceClose sub)

/-- **The shutdown edits.** -/
theorem shutdown_edits : Edits env lenient True (shutdown env) := by
  refine edits_get fun s => edits_when ?_
  have hstop : Edits env lenient True (modify fun s =>
      { s with shutdownDone := true, stopped := true }) :=
    edits_same fun t => ⟨rfl, rfl, rfl, rfl, rfl, rfl, rfl, fun _ => rfl⟩
  exact hstop.bind fun _ => shutdownLoops_edits s.queue

/-- An edit gives no slot back, and does not open a stopped registry. -/
theorem Edit.slots {s t : Registry} (h : Edit env lenient retires s t) :
    t.runningSlots = s.runningSlots ∧ (s.stopped = true → t.stopped = true) := by
  cases h with
  | same _ hs => exact ⟨hs.runningSlots, hs.stopped⟩
  | drop id =>
    rw [removeRetained_told]
    exact ⟨rfl, fun h => h⟩
  | record | emit | lose | retire | close | forceClose => exact ⟨rfl, fun h => h⟩

/-- An edit frees no slot and takes none. -/
theorem Edited.slots {s t : Registry} (h : Edited env lenient retires s t) :
    t.runningSlots = s.runningSlots ∧ (s.stopped = true → t.stopped = true) := by
  induction h with
  | refl => exact ⟨rfl, fun h => h⟩
  | tail _ hstep ih => exact ⟨hstep.slots.1.trans ih.1, fun h => hstep.slots.2 (ih.2 h)⟩

/-- Where no waiting job is ended the queue is left alone. -/
theorem Edited.queue {s t : Registry} (h : Edited env lenient False s t) : t.queue = s.queue := by
  induction h with
  | refl => rfl
  | tail _ hstep ih =>
    rw [← ih]
    cases hstep with
    | same _ hs => exact hs.queue
    | drop id => rw [removeRetained_told]; rfl
    | retire id f hr => exact hr.elim
    | record | emit | lose | close | forceClose => rfl

/-- After `shutdown` the registry is stopped, or nothing was done. -/
theorem shutdown_stops (s : Registry) : Triple (Unfit lenient) (fun t => t = s) (shutdown env)
    (fun _ t => t = s ∨ t.stopped = true) (fun t => t.stopped = true) := by
  refine triple_at_get (triple_when (fun _ => triple_at_modify ?_) fun _ t ht => .inl ht)
  intro t ht
  have hstop : t.stopped = true := by rw [ht]
  have hloops := (shutdownLoops_edits s.queue t).weaken (J := fun u => u = t)
    (fun u hu => hu ▸ .refl)
    (fun _ u (hu : Edited env lenient True t u) => Or.inr (a := u = s) (hu.slots.2 hstop))
    fun u (hu : Edited env lenient True t u) => hu.slots.2 hstop
  exact hloops t rfl

/-! ## Submission -/

/-- A job is enrolled between two rows of edits. -/
def Submitted (env : JobEnv) (lenient : Prop) (s t : Registry) : Prop :=
  ∃ u r, Edited env lenient False s u ∧ u.stopped = false ∧ u.queue.length < env.limits.maxQueued ∧
    r.Fresh ∧
    Edited env lenient False (enroll r u) t

/-- **A submission enrols its job, or edits.** -/
theorem submit_triple (spec : JobSpec) (s : Registry) :
    Triple (Unfit lenient) (fun t => t = s) (submit env spec) (fun _ => Submitted env lenient s)
      (fun t => Edited env lenient False s t ∨ lenient ∧ Submitted env lenient s t) := by
  have hpurge : Triple (Unfit lenient) (fun t => t = s) (purgeExpiredLocked env)
      (fun _ => Edited env lenient False s)
      (fun t => Edited env lenient False s t ∨ lenient ∧ Submitted env lenient s t) :=
    (purgeExpiredLocked_edits s).weaken (fun t ht => ht ▸ .refl) (fun _ _ h => h) fun _ h => .inl h
  refine hpurge.bind fun _ => triple_get fun u hu => ?_
  refine triple_ite (fun _ => triple_throw fun t ht => .inr (.inl (ht ▸ hu))) fun hopen => ?_
  refine triple_ite (fun _ => triple_throw fun t ht => .inr (.inl (ht ▸ hu))) fun hroom => ?_
  refine triple_at_ok (nanoTime_run u) (triple_at_ok (instant_run _) ?_)
  have hu' : Edited env lenient False s { u with ticks := u.ticks + 1, instants := u.instants + 1 } :=
    hu.tail (.same _ ⟨rfl, rfl, rfl, rfl, rfl, rfl, rfl, fun h => h⟩)
  refine (newRecord_triple (fun t ht => .inl (ht ▸ hu')) spec _ _).bind fun r =>
    triple_get fun t ht => ?_
  obtain ⟨rfl, hr⟩ := ht
  have hstop : u.stopped = false := by
    simp only [Bool.or_eq_true, not_or, Bool.not_eq_true] at hopen
    exact hopen.1
  have hlen : u.queue.length < env.limits.maxQueued := by
    simp only [not_or, not_le] at hroom
    exact hroom.1
  refine triple_at_modify ?_
  have hemit : Edits env lenient False (emitLocked env u.created .queued) :=
    emitLocked_edits u.created .queued
  refine Triple.bind (R := fun _ t => Submitted env lenient s t) (fun t ht => ?_) fun _ =>
    triple_pure fun t ht => ht
  have ht' := hemit t t Relation.ReflTransGen.refl
  subst ht
  rcases hm : emitLocked env u.created .queued
    (enroll r { u with ticks := u.ticks + 1, instants := u.instants + 1 }) with ⟨e | a, v⟩
  · rw [hm] at ht'
    by_cases hl : lenient
    · exact ht'.imp_right fun hv => .inr ⟨hl, _, r, hu', hstop, hlen, hr, hv⟩
    · exact .inl (((emitLocked_only u.created .queued hl).error trivial hm).resolve_right fun h => h)
  · rw [hm] at ht'
    exact ⟨_, r, hu', hstop, hlen, hr, ht'⟩

/-! ## Subscription -/

/-- What `subscribe` found out, and the subscription it opened. -/
structure Subscribed (env : JobEnv) (id : JobId) (lastEventId : Option ℤ) (u : Registry)
    (sub : SubscriptionId)
    (t : Registry) : Prop where
  opened : sub = u.opened
  known : id ∈ u.records
  sequence : ∀ last ∈ lastEventId, 0 ≤ last ∧ last ≤ (u.job id).nextSequence
  history : ∀ last ∈ lastEventId, ∀ e ∈ (u.job id).events.head?, (e.sequence : ℤ) - 1 ≤ last
  eq : t = { (u.update id fun r => { r with subscribers := r.subscribers ++ [sub] }) with
    opened := u.opened + 1
    subscription := Function.update u.subscription sub
      ⟨(u.job id).events.filter fun e => lastEventId.all fun last => last < (e.sequence : ℤ), [], false,
        (u.job id).terminal, false, false⟩
    globalSubscribers := u.globalSubscribers + 1 }

/-- **A subscription is added behind an edit.** -/
theorem subscribe_triple (id : JobId) (lastEventId : Option ℤ) (s : Registry) :
    Triple (Unfit lenient) (fun t => t = s) (subscribe env id lastEventId)
      (fun sub t => ∃ u, Edited env lenient False s u ∧ Subscribed env id lastEventId u sub t)
      (Edited env lenient False s) := by
  have hpurge : Triple (Unfit lenient) (fun t => t = s) (purgeExpiredLocked env)
      (fun _ => Edited env lenient False s) (Edited env lenient False s) :=
    (purgeExpiredLocked_edits s).weaken (fun t ht => ht ▸ .refl) (fun _ _ h => h) fun _ h => h
  have hfind : Triple (Unfit lenient) (Edited env lenient False s) (findLocked id)
      (fun r t => Edited env lenient False s t ∧ id ∈ t.records ∧ r = t.job id)
          (Edited env lenient False s) :=
    triple_get fun u hu => triple_ite (fun hid =>
      triple_pure fun t ht => by subst ht; exact ⟨hu, hid, rfl⟩)
      fun _ => triple_throw fun t ht => .inr (ht ▸ hu)
  refine hpurge.bind fun _ => hfind.bind fun r => ?_
  refine triple_ite (fun _ => triple_throw fun t ht => .inr ht.1) fun hseq => ?_
  refine triple_ite (fun _ => triple_throw fun t ht => .inr ht.1) fun hhist =>
    triple_get fun u hu => ?_
  obtain ⟨hu, hid, rfl⟩ := hu
  refine triple_ite (fun _ => triple_throw fun t ht => .inr (ht ▸ hu)) fun _ => ?_
  refine triple_at_modify (triple_at_modify (triple_at_modify (triple_pure fun t ht =>
    ⟨u, hu, rfl, hid, ?_, ?_, ht⟩)))
  · intro last hlast
    rw [Option.mem_def.1 hlast] at hseq
    simp only [Option.any_some, Bool.or_eq_true, decide_eq_true_eq, not_or, not_lt] at hseq
    exact hseq
  · intro last hlast e he
    rw [Option.mem_def.1 hlast, Option.mem_def.1 he] at hhist
    simp only [Option.any_some, decide_eq_true_eq, not_lt] at hhist
    exact hhist

/-! ## The dispatcher's sections -/

/-- The head of the queue is taken. -/
def Registry.taken (id : JobId) (rest : List JobId) (s : Registry) : Registry :=
  { s.update id (fun r => { r with dispatching := true }) with queue := rest, runningSlots := s.runningSlots + 1 }

/-- What `pump` finds: no job to take, or the head of the queue. -/
def Pumped (env : JobEnv) (lenient : Prop) (s : Registry) : Option JobId → Registry → Prop
  | none, t => Edited env lenient False s t ∧
      (t.stopped = true ∨ env.limits.maxRunning ≤ t.runningSlots ∨ t.queue = [])
  | some id, t => ∃ u rest, Edited env lenient False s u ∧ u.stopped = false ∧
      u.runningSlots < env.limits.maxRunning ∧ u.queue = id :: rest ∧ t = u.taken id rest

/-- **The pump takes the head of the queue, or edits.** -/
theorem pump_triple_edits (s : Registry) :
    Triple (Unfit lenient) (fun t => t = s) (pump env) (Pumped env lenient s) (Edited env lenient False s) := by
  have hpurge : Triple (Unfit lenient) (fun t => t = s) (purgeExpiredLocked env)
      (fun _ => Edited env lenient False s) (Edited env lenient False s) :=
    (purgeExpiredLocked_edits s).weaken (fun t ht => ht ▸ .refl) (fun _ _ h => h) fun _ h => h
  refine hpurge.bind fun _ => triple_get fun u hu => triple_ite (fun hfull => ?_) fun hroom => ?_
  · refine triple_pure fun t ht => ?_
    subst ht
    rw [Bool.or_eq_true, decide_eq_true_eq] at hfull
    exact ⟨hu, hfull.imp_right .inl⟩
  · simp only [Bool.or_eq_true, decide_eq_true_eq, not_or, not_le, Bool.not_eq_true] at hroom
    cases hq : u.queue with
    | nil => exact triple_pure fun t ht => by subst ht; exact ⟨hu, .inr (.inr hq)⟩
    | cons id rest =>
      refine triple_at_modify (triple_at_modify (triple_at_modify (triple_pure fun t ht => ?_)))
      exact ⟨u, rest, hu, hroom.1, hroom.2, hq, ht⟩

/-- The deadline of a job is over at the next reading of the ticker. -/
def late (env : JobEnv) (id : JobId) (s : Registry) : Bool :=
  (s.job id).deadlineNanos.any fun deadline => 0 ≤ env.ticker s.ticks - deadline

/-- What `requestLate` does to a record. -/
def JobRecord.asked (expired stopped : Bool) (r : JobRecord) : JobRecord :=
  let r := if expired then r.request .DEADLINE else r
  if stopped then r.request .SHUTDOWN else r

/-- To be asked is a mild change. -/
theorem mild_asked (expired stopped : Bool) (r : JobRecord) : Mild r (r.asked expired stopped) := by
  cases expired <;> cases stopped <;> exact ⟨rfl, rfl, rfl, rfl, fun h => h⟩

/-- A job is asked when it was, when it is late, or when the registry has stopped. -/
theorem asked_token (expired stopped : Bool) (r : JobRecord) :
    (r.asked expired stopped).isCancellationRequested = (r.token.isSome || expired || stopped) := by
  cases expired <;> cases stopped <;>
    simp [JobRecord.asked, JobRecord.isCancellationRequested, JobRecord.request]

/-- Whether a job is late is asked of the ticker. -/
theorem expired_late (env : JobEnv) (id : JobId) (s : Registry) :
    ∃ k, expired env id s = (.ok (late env id s), { s with ticks := k }) := by
  unfold expired late
  rw [bind_get]
  cases h : (s.job id).deadlineNanos with
  | none => exact ⟨s.ticks, rfl⟩
  | some deadline => exact ⟨s.ticks + 1, rfl⟩

/-- What is asked of a late job. -/
theorem requestLate_run (env : JobEnv) (id : JobId) (s : Registry) :
    ∃ k, requestLate env id s =
      (.ok (), { s.update id (JobRecord.asked (late env id s) s.stopped) with ticks := k }) := by
  obtain ⟨k, hk⟩ := expired_late env id s
  refine ⟨k, ?_⟩
  unfold requestLate
  rw [bind_ok hk]
  cases hl : late env id s <;> cases hst : s.stopped <;>
    simp [JobRecord.asked, edit, Registry.update, hst, Function.update_idem]

/-- The registry when a job is put back at the head of the queue. -/
def Registry.putBack (id : JobId) (ticks : ℕ) (s : Registry) : Registry :=
  { s.update id JobRecord.release with
    runningSlots := s.runningSlots - 1, ticks := ticks, queue := id :: s.queue }

/-- Nothing asks the job to stop: `requeueBlocked` puts it back. -/
def putsBack (env : JobEnv) (id : JobId) (s : Registry) : Bool :=
  !s.stopped && (s.job id).token.isNone && !late env id s

/-- What one section leaves of a registry whose holder of a job gave back its slot. -/
def Freed (env : JobEnv) (lenient : Prop) (s t : Registry) : Prop :=
  Edited env lenient False { s with runningSlots := s.runningSlots - 1 } t

/-- The job `id` is not dispatched any more, and in no queue yet. -/
def Loose (env : JobEnv) (lenient : Prop) (s : Registry) (id : JobId) (t : Registry) : Prop :=
  ∃ u, Freed env lenient s u ∧ t = u.update id JobRecord.release

/-- A slot that is given back leaves the registry loose. -/
theorem Loose.refl (s : Registry) (id : JobId) :
    Loose env lenient s id ({ s with runningSlots := s.runningSlots - 1 }.update id JobRecord.release) :=
  ⟨_, .refl, rfl⟩

/-- **A loose job that is cancelled frees its slot.** -/
theorem Loose.cancelled (s : Registry) (id : JobId) :
    Triple (Unfit lenient) (Loose env lenient s id) (finishCancelledLocked env id)
      (fun _ => Freed env lenient s) (Freed env lenient s) := by
  refine finishCancelledLocked_triple (fun t ht hover => ?_) fun t ht _ => ?_
  · obtain ⟨u, hu, rfl⟩ := ht
    refine hu.tail (.record id _ ⟨rfl, rfl, rfl, rfl, fun hw => ?_⟩)
    rw [update_job_self, JobRecord.terminal, hw.1] at hover
    exact absurd hover (by decide)
  · obtain ⟨u, hu, rfl⟩ := ht
    have hedit := hu.tail (.record id (fun r => { r.release with state := .CANCELLED })
      ⟨rfl, rfl, rfl, rfl, fun hw => absurd hw.1 (by simp)⟩)
    show Relation.ReflTransGen _ _ _
    simpa [Registry.update, Function.update_idem] using hedit

/-- **So does one that fails.** -/
theorem Loose.failed (s : Registry) (id : JobId) (failure : Option Throwable) (message : String) :
    Triple (Unfit lenient) (Loose env lenient s id) (finishFailedLocked env id failure message)
      (fun _ => Freed env lenient s) (Freed env lenient s) := by
  refine finishFailedLocked_triple failure message (fun t ht hover => ?_) fun t ht _ => ?_
  · obtain ⟨u, hu, rfl⟩ := ht
    refine hu.tail (.record id _ ⟨rfl, rfl, rfl, rfl, fun hw => ?_⟩)
    rw [update_job_self, JobRecord.terminal, hw.1] at hover
    exact absurd hover (by decide)
  · obtain ⟨u, hu, rfl⟩ := ht
    have hedit := hu.tail (.record id (fun r => { r.release with state := .FAILED })
      ⟨rfl, rfl, rfl, rfl, fun hw => absurd hw.1 (by simp)⟩)
    show Relation.ReflTransGen _ _ _
    simpa [Registry.update, Function.update_idem] using hedit

/-- A loose job may be asked. -/
theorem Loose.asked {s t : Registry} {id : JobId} {f : JobRecord → JobRecord}
    (h : Loose env lenient s id t)
    (hf : ∀ r, Mild r (f r)) (hcomm : ∀ r : JobRecord, f r.release = (f r).release) (k : ℕ) :
    Loose env lenient s id { t.update id f with ticks := k } := by
  obtain ⟨u, hu, rfl⟩ := h
  refine ⟨{ u.update id f with ticks := k }, (hu.tail (.record id f (hf _))).tail
    (.same _ ⟨rfl, rfl, rfl, rfl, rfl, rfl, rfl, fun h => h⟩), ?_⟩
  simp [Registry.update, Function.update_idem, hcomm]

/-- To release and to ask commute. -/
theorem asked_release (expired stopped : Bool) (r : JobRecord) :
    r.release.asked expired stopped = (r.asked expired stopped).release := by
  cases expired <;> cases stopped <;> rfl

/-- The job goes back to the head of the queue, or is over. -/
theorem requeueBlocked_edits (id : JobId) (s : Registry) :
    if putsBack env id s then ∃ k, requeueBlocked env id s = (.ok (), s.putBack id k)
    else Triple (Unfit lenient) (fun t => t = s) (requeueBlocked env id)
      (fun _ => Freed env lenient s)
      (Freed env lenient s) := by
  let s₁ : Registry := { s with runningSlots := s.runningSlots - 1 }.update id JobRecord.release
  have hlate : late env id s₁ = late env id s := by simp [s₁, late, Registry.update, JobRecord.release]
  obtain ⟨k, hk⟩ := requestLate_run env id s₁
  have hstop : s₁.stopped = s.stopped := rfl
  rw [hlate, hstop] at hk
  have htoken : ((s₁.update id (JobRecord.asked (late env id s) s.stopped)).job id).isCancellationRequested =
      ((s.job id).token.isSome || late env id s || s.stopped) := by
    rw [update_job_self, asked_token]
    simp [s₁, Registry.update, JobRecord.release]
  split_ifs with hp
  · simp only [putsBack, Bool.and_eq_true, Bool.not_eq_true', Option.isNone_iff_eq_none] at hp
    obtain ⟨⟨hns, hnt⟩, hnl⟩ := hp
    refine ⟨k, ?_⟩
    unfold requeueBlocked edit
    rw [bind_modify, bind_modify]
    refine (bind_ok hk).trans ?_
    rw [bind_get, ite_run]
    have hgo : (s.stopped || (((s₁.update id (JobRecord.asked (late env id s) s.stopped))).job
        id).isCancellationRequested) =
        false := by rw [htoken, hns, hnt, hnl]; rfl
    refine (if_neg (Bool.eq_false_iff.1 hgo)).trans ?_
    simp [s₁, Registry.putBack, Registry.update, JobRecord.asked, hns, hnl]
  · refine triple_at_modify (triple_at_modify (triple_at_ok hk (triple_at_get ?_)))
    refine triple_ite (fun _ => ?_) fun hgo => ?_
    · refine (Loose.cancelled s id).weaken (fun t ht => ?_) (fun _ _ h => h) fun _ h => h
      subst ht
      exact (Loose.refl s id).asked (mild_asked _ _) (asked_release _ _) k
    · refine absurd ?_ hp
      have hgo' : (s.stopped || (((s₁.update id (JobRecord.asked (late env id s) s.stopped))).job
        id).isCancellationRequested) =
        false := Bool.eq_false_iff.2 hgo
      rw [htoken] at hgo'
      simp only [Bool.or_eq_false_iff] at hgo'
      simp [putsBack, hgo'.1, hgo'.2.1.2, Option.isSome_eq_false_iff.1 hgo'.2.1.1]

/-- **A dispatch that failed frees its slot.** -/
theorem finishDispatchFailure_edits (id : JobId) (failure : Option Throwable) (cancelled : Bool)
    (s : Registry) :
    Triple (Unfit lenient) (fun t => t = s) (finishDispatchFailure env id failure cancelled)
      (fun _ => Freed env lenient s) (Freed env lenient s) := by
  have hloose : Loose env lenient s id
      ({ s with runningSlots := s.runningSlots - 1 }.update id JobRecord.release) :=
    Loose.refl s id
  refine triple_at_modify (triple_at_modify (triple_at_get (triple_ite (fun _ => ?_) fun _ =>
    triple_ite (fun _ => ?_)
    fun _ => ?_)))
  · exact (Loose.failed s id failure _).weaken (fun t ht => ht ▸ hloose) (fun _ _ h => h)
      fun _ h => h
  · refine triple_at_modify ((Loose.cancelled s id).weaken (fun t ht => ?_) (fun _ _ h => h)
      fun _ h => h)
    subst ht
    exact hloose.asked (mild_request .SHUTDOWN) (fun _ => rfl) _
  · exact (Loose.failed s id none _).weaken (fun t ht => ht ▸ hloose) (fun _ _ h => h) fun _ h => h

/-- A request to a late job edits. -/
theorem requestLate_edits (id : JobId) : Edits env lenient retires (requestLate env id) := by
  intro s₀ s hs
  obtain ⟨k, hk⟩ := requestLate_run env id s
  rw [hk]
  exact (hs.tail (.record id _ (mild_asked _ _ _))).tail
    (.same _ ⟨rfl, rfl, rfl, rfl, rfl, rfl, rfl, fun h => h⟩)

/-- **The start of an admitted job edits.** -/
theorem startAdmitted_edits (id : JobId) : Edits env lenient retires (startAdmitted env id) := by
  refine (requestLate_edits id).bind fun _ => edits_get fun s =>
    edits_ite (fun _ => edits_pure _) fun _ => ?_
  refine Edits.bind (edits_edit fun r => ⟨rfl, rfl, rfl, rfl, fun h => absurd h.1 (by simp)⟩) fun _ => ?_
  refine instant_edits.bind fun now => ?_
  refine Edits.bind (edits_edit fun r => ⟨rfl, rfl, rfl, rfl, fun h => h⟩) fun _ => ?_
  exact (emitLocked_edits id _).bind fun _ => edits_pure _

/-! ## The workers' section -/

/-- **Its success edits,** -/
theorem succeed_edits (id : JobId) (result : JobResult) :
    Edits env lenient retires (succeed env id result) := by
  have hroom : Edits env lenient retires (reclaimResultRoomLocked env (utf8Length result.json)) :=
    edits_get fun s => reclaimResultRoom_edits _ _
  refine hroom.bind fun _ => Edits.bind (edits_edit fun r => ⟨rfl, rfl, rfl, rfl, fun h => h⟩)
    fun _ => ?_
  refine Edits.bind (edits_same fun _ => ⟨rfl, rfl, rfl, rfl, rfl, rfl, rfl, fun h => h⟩) fun _ =>
    ?_
  refine Edits.bind (edits_edit fun r => mild_ended (by simp)) fun _ => ?_
  exact (markCompletedLocked_edits id).bind fun _ => emitLocked_edits id _

/-- **and so does every conclusion.** -/
theorem conclude_edits (id : JobId) (outcome : Except Throwable JobResult) :
    Edits env lenient retires (conclude env id outcome) := by
  refine edits_get fun s => ?_
  cases outcome with
  | error e =>
    exact edits_ite (fun _ => finishCancelledLocked_edits id) fun _ =>
      finishFailedLocked_edits id _ _
  | ok result =>
    refine edits_ite (fun _ => ?_) fun _ => succeed_edits id result
    exact (edits_edit (mild_request .SHUTDOWN)).bind fun _ => finishCancelledLocked_edits id

/-- **The finish of a body frees its slot.** -/
theorem finish_edits (id : JobId) (outcome : Except Throwable JobResult) (s : Registry) :
    Triple (Unfit lenient) (fun t => t = s) (finish env id outcome) (fun _ => Freed env lenient s)
      (Freed env lenient s) := by
  refine triple_at_modify ?_
  have hend : Edits env lenient False (conclude env id outcome >>= fun _ =>
      modify (enforceRetention env)) :=
    (conclude_edits id outcome).bind fun _ => enforceRetention_edits
  exact (hend _).weaken (fun t ht => ht ▸ .refl) (fun _ _ h => h) fun _ h => h

end Libjadx
