import Libjadx.Proof.Acts

/-!
# What a section does to the log and the texts of a record

`Edit` leaves open which event is emitted and which text is written. `Touch` says it: `Allows` lists
what a section may emit and write, and an announcement comes with the first request to stop.
`touched` is the result for any act, whatever it throws.
-/

namespace Libjadx

open JobRegistry Locked Registry

/-- What a section may emit and write. -/
structure Allows where
  emits : JobId → EventType → Prop
  stage : JString → Prop
  note : JString → Prop
  /-- It announces to jobs that were asked to stop before, too. -/
  again : Prop

/-- A change that neither the log nor the texts show. -/
structure Silent (r r' : JobRecord) : Prop where
  log : r'.log = r.log
  token : r'.token = r.token
  diagnostics : r'.diagnostics = r.diagnostics
  progress : r'.progress = r.progress
  queued : r'.state = .QUEUED → r.state = .QUEUED

theorem Silent.refl (r : JobRecord) : Silent r r := ⟨rfl, rfl, rfl, rfl, fun h => h⟩

/-- One change of a record. -/
inductive Touch (env : JobEnv) (al : Allows) (id : JobId) (r : JobRecord) : JobRecord → Prop
  | silent {r' : JobRecord} : Silent r r' → Touch env al id r r'
  | request (reason : Reason) : Touch env al id r (r.request reason)
  | note (text : JString) : al.note text → Touch env al id r (addDiagnostic env text r)
  | progress (p : JobProgress) : al.stage p.stage → Touch env al id r { r with progress := p }
  | emit (type : EventType) (now : ℤ) : al.emits id type →
      Touch env al id r (r.emitted env id type now)
  /-- The first request, and its event. -/
  | announce {r' : JobRecord} (reason : Reason) (now : ℤ) : r.token = none →
      Silent (r.request reason) r' →
      Touch env al id r (r'.emitted env id .cancel_requested now)
  | again {r' : JobRecord} (reason : Reason) (now : ℤ) : al.again → Silent (r.request reason) r' →
      Touch env al id r (r'.emitted env id .cancel_requested now)

/-- What happens to a record over a section. -/
def Touches (env : JobEnv) (al : Allows) (id : JobId) : JobRecord → JobRecord → Prop :=
  Relation.ReflTransGen (Touch env al id)

/-- What happens to a registry: jobs may be dropped, and records are touched. -/
structure Touched (env : JobEnv) (al : Allows) (s t : Registry) : Prop where
  created : t.created = s.created
  records : t.records.Sublist s.records
  job : ∀ id, Touches env al id (s.job id) (t.job id)

variable {env : JobEnv} {al : Allows} {s s₀ t : Registry} {id : JobId} {r r' : JobRecord}

theorem Touched.refl (s : Registry) : Touched env al s s :=
  ⟨rfl, List.Sublist.refl _, fun _ => .refl⟩

/-- Only the records count. -/
theorem Touched.same {u : Registry} (h : Touched env al s t) (hc : u.created = t.created)
    (hr : u.records.Sublist t.records) (hj : u.job = t.job) : Touched env al s u :=
  ⟨hc.trans h.created, hr.trans h.records, fun id => hj ▸ h.job id⟩

/-- What touches one job touches the registry. -/
theorem Touched.update (id : JobId) {f : JobRecord → JobRecord} (h : Touched env al s t)
    (hf : Touches env al id (t.job id) (f (t.job id))) : Touched env al s (t.update id f) := by
  refine ⟨h.created, h.records, fun x => ?_⟩
  by_cases hx : x = id
  · subst hx
    rw [update_job_self]
    exact (h.job x).trans hf
  · rw [update_job_of_ne hx]
    exact h.job x

/-- A section all of whose outcomes touch records as allowed. -/
def TouchesBy (env : JobEnv) (al : Allows) {α : Type} (m : Section α) : Prop :=
  ∀ s₀, Keeps (fun _ => False) (Touched env al s₀) m

/-! ## Plain steps -/

theorem touches_pure {α : Type} (a : α) : TouchesBy env al (pure a) := fun _ => keeps_pure

theorem touches_throw {α : Type} (e : Throwable) :
    TouchesBy env al (throw e : Section α) := fun _ => keeps_throw

/-- **Touches compose.** -/
theorem TouchesBy.bind {α β : Type} {m : Section α} {f : α → Section β} (hm : TouchesBy env al m)
    (hf : ∀ a, TouchesBy env al (f a)) : TouchesBy env al (m >>= f) := fun s₀ =>
    (hm s₀).bind fun a => hf a s₀

theorem touches_get {α : Type} {f : Registry → Section α} (hf : ∀ s, TouchesBy env al (f s)) :
    TouchesBy env al (get >>= f) := fun s₀ => triple_get_keep fun s _ => hf s s₀

theorem touches_ite {α : Type} {c : Prop} [Decidable c] {m m' : Section α}
    (h : c → TouchesBy env al m)
    (h' : ¬ c → TouchesBy env al m') : TouchesBy env al (if c then m else m') := by
  split
  · exact h ‹_›
  · exact h' ‹_›

theorem touches_when {c : Bool} {m : Section Unit} (h : TouchesBy env al m) :
    TouchesBy env al (when c m) :=
  fun s₀ => keeps_when (h s₀)

theorem touches_forEach {β : Type} {l : List β} {body : β → Section Unit}
    (h : ∀ x, TouchesBy env al (body x)) : TouchesBy env al (forEach l body) :=
  fun s₀ => triple_forEach fun x _ => h x s₀

/-- A step that leaves the records alone. -/
theorem touches_same {g : Registry → Registry} (hc : ∀ s, (g s).created = s.created)
    (hr : ∀ s, (g s).records.Sublist s.records) (hj : ∀ s, (g s).job = s.job) :
    TouchesBy env al (modify g) :=
  fun _ => triple_modify fun s hs => hs.same (hc s) (hr s) (hj s)

/-- What is done to one record touches it. -/
theorem touches_edit {f : JobRecord → JobRecord} (hf : ∀ r, Touches env al id r (f r)) :
    TouchesBy env al (edit id f) :=
  fun _ => triple_modify fun s hs => hs.update id (hf (s.job id))

theorem touches_silent {f : JobRecord → JobRecord} (hf : ∀ r, Silent r (f r)) :
    TouchesBy env al (edit id f) :=
  touches_edit fun r => .single (.silent (hf r))

theorem nanoTime_touches : TouchesBy env al (nanoTime env) := by
  refine touches_get fun s => (touches_same ?_ ?_ ?_).bind fun _ => touches_pure _
  · exact fun _ => rfl
  · exact fun t => List.Sublist.refl _
  · exact fun _ => rfl

theorem instant_touches : TouchesBy env al (instant env) := by
  refine touches_get fun s => (touches_same ?_ ?_ ?_).bind fun _ => touches_pure _
  · exact fun _ => rfl
  · exact fun t => List.Sublist.refl _
  · exact fun _ => rfl

theorem toNanos_touches (d : ℕ) : TouchesBy env al (toNanos d) :=
  touches_ite (fun _ => touches_pure _) fun _ => touches_throw _

theorem expired_touches (id : JobId) : TouchesBy env al (expired env id) := by
  refine touches_get fun s => ?_
  cases (s.job id).deadlineNanos with
  | none => exact touches_pure _
  | some deadline => exact nanoTime_touches.bind fun _ => touches_pure _

theorem findLocked_touches (id : JobId) : TouchesBy env al (findLocked id) :=
  touches_get fun _ => touches_ite (fun _ => touches_pure _) fun _ => touches_throw _

/-! ## Retention -/

/-- A record that is taken out is touched no more. -/
theorem removeRetained_touched (h : Touched env al s₀ s) (id : JobId) :
    Touched env al s₀ (removeRetained id s) := by
  rw [removeRetained_told]
  have hcleared := h.update id (f := fun r => { r with subscribers := [], events := [] })
    (.single (.silent ⟨rfl, rfl, rfl, rfl, fun h => h⟩))
  exact hcleared.same rfl List.erase_sublist rfl

/-- **A purge touches what it may.** -/
theorem purgeExpiredLocked_touches : TouchesBy env al (purgeExpiredLocked env) := by
  refine nanoTime_touches.bind fun now => touches_get fun s => ?_
  refine touches_ite (fun _ => touches_pure _) fun _ => (toNanos_touches _).bind fun ttl => ?_
  exact touches_forEach fun x _ => triple_modify fun t ht => removeRetained_touched ht x

/-- So does retention, -/
theorem enforceRetention_touches : TouchesBy env al (modify (enforceRetention env)) := by
  refine fun s₀ => triple_modify fun s hs => ?_
  unfold enforceRetention
  split
  · exact hs
  · split
    · exact hs
    · exact removeRetained_touched hs _

/-- and the search for room. -/
theorem reclaimResultRoom_touches (incoming n : ℕ) :
    TouchesBy env al (reclaimResultRoom env incoming n) := by
  induction n with
  | zero => exact touches_get fun _ => touches_ite (fun _ => touches_throw _) fun _ =>
      touches_pure _
  | succ n ih =>
    refine touches_get fun s => touches_ite (fun _ => ?_) fun _ => touches_pure _
    cases oldestCompleted true s.records s.job with
    | none => exact touches_throw _
    | some oldest =>
      have hdrop : TouchesBy env al (modify (removeRetained oldest)) :=
        fun _ => triple_modify fun t ht => removeRetained_touched ht oldest
      exact hdrop.bind fun _ => ih

/-! ## Events -/

/-- An event, or its loss. -/
theorem emitLocked_touched {type : EventType} (h : Touched env al s₀ s)
    (hemit : ∀ now, Touches env al id (s.job id) ((s.job id).emitted env id type now)) :
    Triple (fun _ => False) (fun t => t = s) (emitLocked env id type) (fun _ => Touched env al s₀)
      (Touched env al s₀) := by
  intro t ht
  subst ht
  obtain hr | hr := emitLocked_run env id type t <;> rw [hr]
  · exact Touched.same (h.update id (f := fun r => r.emitted env id type (env.clock t.instants))
      (hemit _)) rfl
      (List.Sublist.refl _) rfl
  · exact .inr (Touched.same (h.update id (f := fun r => { r with nextSequence := r.nextSequence + 1 })
      (.single (.silent ⟨rfl, rfl, rfl, rfl, fun h => h⟩))) rfl (List.Sublist.refl _) rfl)

/-- **An event that is allowed is a touch.** -/
theorem emitLocked_touches {type : EventType} (h : al.emits id type) :
    TouchesBy env al (emitLocked env id type) :=
  fun _ s hs => emitLocked_touched hs (fun now => .single (.emit type now h)) s rfl

/-- So is the completion of a job. -/
theorem markCompletedLocked_touches (id : JobId) :
    TouchesBy env al (markCompletedLocked env id) := by
  refine instant_touches.bind fun at_ => nanoTime_touches.bind fun nanos => ?_
  have hcount : TouchesBy env al (modify fun s =>
      { s with completionSequence := s.completionSequence + 1 }) :=
    touches_same (fun _ => rfl) (fun _ => List.Sublist.refl _) fun _ => rfl
  exact hcount.bind fun _ => touches_get fun s => touches_silent fun r =>
    ⟨rfl, rfl, rfl, rfl, fun h => h⟩

/-- The texts that the registry writes by itself. -/
def messages : List String :=
  ["Job deadline expired", "Job admission failed", "Job result exceeded its memory limit",
    "Job failed; inspect the local service log"]

/-- The endings of a job, and the registry's own texts. -/
structure Allows.Ordinary (al : Allows) : Prop where
  ends : ∀ id type, type = .completed ∨ type = .failed ∨ type = .cancelled → al.emits id type
  messages : ∀ m ∈ messages, al.note (str m)

section Endings

variable (hal : al.Ordinary)
include hal

/-- **A cancelled job is touched,** -/
theorem finishCancelledLocked_touches (id : JobId) :
    TouchesBy env al (finishCancelledLocked env id) := by
  refine touches_get fun s => touches_ite (fun _ => touches_pure _) fun _ => ?_
  have hend : TouchesBy env al (edit id fun r => { r with state := .CANCELLED }) :=
    touches_silent fun r => ⟨rfl, rfl, rfl, rfl, nofun⟩
  refine hend.bind fun _ => ?_
  refine (markCompletedLocked_touches id).bind fun _ => ?_
  exact (emitLocked_touches (hal.ends id _ (.inr (.inr rfl)))).bind fun _ =>
    enforceRetention_touches

/-- **and so is a failed one.** -/
theorem finishFailedLocked_touches (id : JobId) (failure : Option Throwable) {message : String}
    (hm : message ∈ messages) : TouchesBy env al (finishFailedLocked env id failure message) := by
  refine touches_get fun s => touches_ite (fun _ => touches_pure _) fun _ => ?_
  have hend : TouchesBy env al (edit id fun r => { r with state := .FAILED }) :=
    touches_silent fun r => ⟨rfl, rfl, rfl, rfl, nofun⟩
  refine hend.bind fun _ => ?_
  refine (markCompletedLocked_touches id).bind fun _ => TouchesBy.bind (touches_edit fun r =>
    ?_) fun _ =>
    (emitLocked_touches (hal.ends id _ (.inr (.inl rfl)))).bind fun _ => enforceRetention_touches
  have hset : Touch env al id r { r with error := some (jobError failure message), cause := failure } :=
    .silent ⟨rfl, rfl, rfl, rfl, fun h => h⟩
  exact (Relation.ReflTransGen.single hset).tail (.note (str message) (hal.messages message hm))

end Endings

/-! ## The callers' sections -/

theorem reserveSubmissions_touches : TouchesBy env al reserveSubmissions := by
  refine touches_get fun s => touches_ite (fun _ => touches_throw _) fun _ => touches_same ?_ ?_ ?_
  · exact fun _ => rfl
  · exact fun t => List.Sublist.refl _
  · exact fun _ => rfl

theorem releaseSubmissionReservation_touches : TouchesBy env al releaseSubmissionReservation :=
  fun _ => triple_modify fun _ hs => hs.same rfl (List.Sublist.refl _) rfl

theorem stopSubmissions_touches : TouchesBy env al stopSubmissions :=
  fun _ => triple_modify fun _ hs => hs.same rfl (List.Sublist.refl _) rfl

theorem snapshot_touches (id : JobId) : TouchesBy env al (snapshot env id) :=
  purgeExpiredLocked_touches.bind fun _ => (findLocked_touches id).bind fun _ => touches_pure _

theorem silent_cancelling (r : JobRecord) : Silent r r.cancelling := by
  unfold JobRecord.cancelling
  split
  · exact ⟨rfl, rfl, rfl, rfl, nofun⟩
  · exact .refl r

/-- Leaving the queue is no touch. -/
theorem unqueue_touches (id : JobId) :
    TouchesBy env al (modify fun s => { s with queue := s.queue.erase id }) :=
  fun _ => triple_modify fun _ hs => hs.same rfl (List.Sublist.refl _) rfl

/-- An event of a record that was changed before; or its loss. -/
theorem emitLocked_after {type : EventType} (h : Touched env al s₀ s)
    (hemit : ∀ now, Touches env al id (s.job id) (r.emitted env id type now))
    (hlost : Touches env al id (s.job id) { r with nextSequence := r.nextSequence + 1 }) :
    Triple (fun _ => False) (fun t => t = s.update id fun _ => r) (emitLocked env id type)
      (fun _ => Touched env al s₀) (Touched env al s₀) := by
  intro t ht
  obtain hrun | hrun := emitLocked_run env id type t <;> rw [hrun, ht]
  · refine Touched.same (h.update id (f := fun _ => r.emitted env id type (env.clock s.instants))
      (hemit _)) rfl
      (List.Sublist.refl _) ?_
    simp [emitFits, Registry.update, Function.update_idem]
  · refine .inr (Touched.same (h.update id (f := fun _ =>
      { r with nextSequence := r.nextSequence + 1 }) hlost) rfl
      (List.Sublist.refl _) ?_)
    simp [emitLost, Registry.update, Function.update_idem]

section Requests

variable (hal : al.Ordinary)
include hal

/-- A job is asked to stop for the first time, and it is announced. -/
theorem announce_triple {reason : Reason} (h : Touched env al s₀ s)
    (hr : Touches env al id (s.job id) r)
    (htoken : r.token = none) :
    Triple (fun _ => False) (fun t => t = s.update id fun _ => r.request reason)
      (cancelRequested env id)
      (fun _ => Touched env al s₀) (Touched env al s₀) := by
  refine triple_at_modify (Triple.bind (R := fun _ => Touched env al s₀) ?_ fun _ => ?_)
  · have hsame : (s.update id fun _ => r.request reason).update id JobRecord.cancelling =
        s.update id fun _ => (r.request reason).cancelling := by
      simp [Registry.update, Function.update_idem]
    rw [hsame]
    have hc := silent_cancelling (r.request reason)
    refine emitLocked_after h (fun now => hr.tail (.announce reason now htoken hc))
      ((hr.tail (.request reason)).tail ?_)
    exact .silent ⟨hc.log, hc.token, hc.diagnostics, hc.progress, hc.queued⟩
  · refine touches_get (fun t => touches_when ?_) s₀
    exact (unqueue_touches id).bind fun _ => finishCancelledLocked_touches hal id

/-- **A cancellation touches what it may.** -/
theorem cancel_touches (id : JobId) : TouchesBy env al (cancel env id) := by
  refine purgeExpiredLocked_touches.bind fun _ s₀ => ?_
  refine Triple.bind (R := fun r t => Touched env al s₀ t ∧ r = t.job id) ?_ fun r => ?_
  · exact triple_get fun u hu =>
      triple_ite (fun _ => triple_pure fun t ht => by subst ht; exact ⟨hu, rfl⟩)
      fun _ => triple_throw fun t ht => .inr (ht ▸ hu)
  refine Triple.bind (R := fun _ => Touched env al s₀) (triple_when (fun hc => ?_) fun _ t ht =>
    ht.1) fun _ =>
    touches_get (fun _ => touches_pure _) s₀
  intro s hs
  obtain ⟨hs, rfl⟩ := hs
  rw [Bool.and_eq_true, Option.isNone_iff_eq_none] at hc
  have hcancel : Triple (fun _ => False) (fun t => t = s) (edit id (fun r => r.request .USER) >>= fun _ =>
      cancelRequested env id) (fun _ => Touched env al s₀) (Touched env al s₀) :=
    triple_at_modify (announce_triple hal hs .refl hc.2)
  exact hcancel s rfl

omit hal in
/-- A diagnostic and a request commute. -/
theorem addDiagnostic_request (text : JString) (reason : Reason) (r : JobRecord) :
    addDiagnostic env text (r.request reason) = (addDiagnostic env text r).request reason := by
  unfold addDiagnostic
  split
  · rw [if_pos ‹_›]
    rfl
  · rw [if_neg ‹_›]

/-- A tick touches one record, -/
theorem tickRecord_touches (id : JobId) : TouchesBy env al (tickRecord env id) := by
  intro s₀
  refine triple_get fun s hs => triple_when (fun _ => ?_) fun _ t ht => ht ▸ hs
  obtain ⟨b, k, hb⟩ := expired_run env id s
  refine triple_at_ok hb (triple_when (fun hc => ?_) fun _ t ht =>
    ht ▸ hs.same rfl (List.Sublist.refl _) rfl)
  rw [Bool.and_eq_true, Option.isNone_iff_eq_none] at hc
  refine triple_at_modify ?_
  have hnote : (Registry.update { s with ticks := k } id fun r =>
      addDiagnostic env (str "Job deadline expired")
      (r.request .DEADLINE)) = Registry.update { s with ticks := k } id fun _ =>
        (addDiagnostic env (str "Job deadline expired") (s.job id)).request .DEADLINE := by
    rw [← addDiagnostic_request]
    rfl
  have htoken : (addDiagnostic env (str "Job deadline expired") (s.job id)).token = none := by
    obtain ⟨d, hd⟩ := addDiagnostic_eq env (str "Job deadline expired") (s.job id)
    rw [hd]
    exact hc.2
  rw [hnote]
  have hs' : Touched env al s₀ { s with ticks := k } := hs.same rfl (List.Sublist.refl _) rfl
  exact announce_triple hal hs' (.single (.note _ (hal.messages _ (by decide)))) htoken

/-- **and so all.** -/
theorem tick_touches : TouchesBy env al (tick env) :=
  purgeExpiredLocked_touches.bind fun _ => touches_get fun _ =>
    touches_forEach (tickRecord_touches hal)

/-! ## Subscriptions, progress, shutdown -/

omit hal in
/-- The end of a subscription touches its job, -/
theorem closeSubscription_touches (id : JobId) (sub : SubscriptionId) :
    TouchesBy env al (closeSubscription id sub) := by
  refine touches_get fun s => TouchesBy.bind (touches_when ?_) fun _ s₀ => triple_modify fun _ hs =>
    hs.same rfl (List.Sublist.refl _) rfl
  have herase : TouchesBy env al (edit id fun r => { r with subscribers := r.subscribers.erase sub }) :=
    touches_silent fun r => ⟨rfl, rfl, rfl, rfl, fun h => h⟩
  exact herase.bind fun _ _ => triple_modify fun _ hs => hs.same rfl (List.Sublist.refl _) rfl

omit hal in
/-- the poll of one nothing, -/
theorem next_touches (sub : SubscriptionId) : TouchesBy env al (next sub) :=
  touches_get fun _ => TouchesBy.bind (fun _ => triple_modify fun _ hs =>
    hs.same rfl (List.Sublist.refl _) rfl) fun _ =>
    touches_pure _

omit hal in
/-- and a new one its job. -/
theorem subscribe_touches (id : JobId) (lastEventId : Option ℤ) :
    TouchesBy env al (subscribe env id lastEventId) := by
  refine purgeExpiredLocked_touches.bind fun _ => (findLocked_touches id).bind fun r => ?_
  refine touches_ite (fun _ => touches_throw _) fun _ =>
    touches_ite (fun _ => touches_throw _) fun _ => ?_
  refine touches_get fun s => touches_ite (fun _ => touches_throw _) fun _ => ?_
  have hadd : TouchesBy env al (edit id fun r => { r with subscribers := r.subscribers ++ [s.opened] }) :=
    touches_silent fun r => ⟨rfl, rfl, rfl, rfl, fun h => h⟩
  refine TouchesBy.bind (fun _ => triple_modify fun _ hs => hs.same rfl (List.Sublist.refl _) rfl)
    fun _ => ?_
  refine hadd.bind fun _ => TouchesBy.bind (fun _ => triple_modify fun _ hs =>
    hs.same rfl (List.Sublist.refl _) rfl) fun _ => ?_
  exact touches_pure _

omit hal in
/-- A stage that is reported, and its event. -/
theorem progress_touches (id : JobId) (completed : ℤ) (total : Option ℤ) (stage : Option JString)
    (hstage : al.stage (bounded stage 128)) (hemit : al.emits id .progress) :
    TouchesBy env al (progress env id completed total stage) := by
  unfold progress
  cases hp : JobProgress.make completed total (bounded stage 128) with
  | error e => exact touches_throw e
  | ok p =>
    have hsame : p.stage = bounded stage 128 := by
      unfold JobProgress.make at hp
      split at hp
      · split at hp
        · rw [← Except.ok.inj hp]
        · cases hp
      · cases hp
    have hset : TouchesBy env al (edit id fun r => { r with progress := p }) :=
      touches_edit fun r => .single (.progress p (hsame ▸ hstage))
    refine touches_get fun s => touches_ite (fun _ => touches_pure _) fun _ =>
      touches_ite (fun _ => touches_throw _) fun _ => ?_
    exact hset.bind fun _ => emitLocked_touches hemit

omit hal in
/-- **A diagnostic that is allowed is a touch.** -/
theorem diagnostic_touches (id : JobId) (message : Option JString)
    (hnote : al.note (bounded message env.limits.maxDiagnosticBytes)) :
    TouchesBy env al (diagnostic env id message) :=
  touches_edit fun _ => .single (.note _ hnote)

omit hal in
theorem request_touches (id : JobId) (reason : Reason) :
    TouchesBy env al (edit id fun r => r.request reason) :=
  touches_edit fun _ => .single (.request reason)

/-- A queued job is told of the shutdown. -/
theorem shutdownQueued_touches (id : JobId) : TouchesBy env al (shutdownQueued env id) :=
  (unqueue_touches id).bind fun _ => (request_touches id _).bind fun _ =>
    finishCancelledLocked_touches hal id

omit hal in
/-- What the second loop of `shutdown` does to a job, asked before or not. -/
theorem shutdownActive_triple (h : Touched env al s₀ s)
    (hasks : (s.job id).terminal = false → al.again ∨ (s.job id).token = none) :
    Triple (fun _ => False) (fun t => t = s) (shutdownActive env id) (fun _ => Touched env al s₀)
      (Touched env al s₀) := by
  refine triple_at_get (triple_when (fun hlive => triple_at_modify ?_) fun _ t ht => ht ▸ h)
  intro t ht
  have hc := silent_cancelling ((s.job id).request .SHUTDOWN)
  have hsame : (s.update id fun r => r.request .SHUTDOWN).update id JobRecord.cancelling =
      s.update id fun _ => ((s.job id).request .SHUTDOWN).cancelling := by
    simp [Registry.update, Function.update_idem]
  have hrun : Triple (fun _ => False) (fun t => t = s.update id fun r => r.request .SHUTDOWN)
      (edit id JobRecord.cancelling >>= fun _ => emitLocked env id .cancel_requested) (fun _ =>
        Touched env al s₀)
      (Touched env al s₀) := by
    refine triple_at_modify ?_
    rw [hsame]
    refine emitLocked_after h (fun now => .single ?_)
      ((Relation.ReflTransGen.single (.request .SHUTDOWN)).tail ?_)
    · rcases hasks (by simpa using hlive) with hagain | hnone
      · exact .again .SHUTDOWN now hagain hc
      · exact .announce .SHUTDOWN now hnone hc
    · exact .silent ⟨hc.log, hc.token, hc.diagnostics, hc.progress, hc.queued⟩
  exact hrun t ht

/-- **The shutdown touches what it may.** -/
theorem shutdown_touches (hagain : al.again) : TouchesBy env al (shutdown env) := by
  refine touches_get fun s => touches_when ?_
  refine TouchesBy.bind (fun _ => triple_modify fun _ hs => hs.same rfl (List.Sublist.refl _) rfl)
    fun _ => ?_
  refine (touches_forEach (shutdownQueued_touches hal)).bind fun _ => touches_get fun t => ?_
  refine (touches_forEach fun id _ u hu => shutdownActive_triple hu (fun _ =>
    .inl hagain) u rfl).bind fun _ => touches_get fun u => ?_
  refine touches_forEach fun x => touches_get fun v => touches_forEach fun sub _ => ?_
  exact triple_modify fun _ hw => hw.same rfl (List.Sublist.refl _) rfl

/-! ## The dispatcher's and the workers' sections -/

omit hal in
/-- **So does the pump.** -/
theorem pump_touches : TouchesBy env al (JobRegistry.pump env) := by
  refine purgeExpiredLocked_touches.bind fun _ => touches_get fun s =>
    touches_ite (fun _ => touches_pure _) fun _ => ?_
  cases s.queue with
  | nil => exact touches_pure _
  | cons id queue =>
    have hset : TouchesBy env al (edit id fun r => { r with dispatching := true }) :=
      touches_silent fun r => ⟨rfl, rfl, rfl, rfl, fun h => h⟩
    refine TouchesBy.bind (fun _ => triple_modify fun _ hs => hs.same rfl (List.Sublist.refl _) rfl)
      fun _ => ?_
    refine hset.bind fun _ => TouchesBy.bind (fun _ => triple_modify fun _ hs =>
      hs.same rfl (List.Sublist.refl _) rfl) fun _ => ?_
    exact touches_pure _

omit hal in
theorem requestLate_touches (id : JobId) : TouchesBy env al (requestLate env id) :=
  (expired_touches id).bind fun _ => (touches_when (request_touches id _)).bind fun _ =>
    touches_get fun _ =>
    touches_when (request_touches id _)

/-- A job that is put back is touched. -/
theorem requeueBlocked_touches (id : JobId) : TouchesBy env al (requeueBlocked env id) := by
  have hset : TouchesBy env al (edit id fun r => { r with dispatching := false }) :=
    touches_silent fun r => ⟨rfl, rfl, rfl, rfl, fun h => h⟩
  refine TouchesBy.bind (fun _ => triple_modify fun _ hs => hs.same rfl (List.Sublist.refl _) rfl)
    fun _ => ?_
  refine hset.bind fun _ => (requestLate_touches id).bind fun _ => touches_get fun s => ?_
  refine touches_ite (fun _ => finishCancelledLocked_touches hal id) fun _ => ?_
  exact fun _ => triple_modify fun _ hs => hs.same rfl (List.Sublist.refl _) rfl

/-- **So is one whose dispatch failed.** -/
theorem finishDispatchFailure_touches (id : JobId) (failure : Option Throwable) (cancelled : Bool) :
    TouchesBy env al (finishDispatchFailure env id failure cancelled) := by
  have hset : TouchesBy env al (edit id fun r => { r with dispatching := false }) :=
    touches_silent fun r => ⟨rfl, rfl, rfl, rfl, fun h => h⟩
  refine TouchesBy.bind (fun _ => triple_modify fun _ hs => hs.same rfl (List.Sublist.refl _) rfl)
    fun _ => ?_
  refine hset.bind fun _ => touches_get fun s =>
    touches_ite (fun _ => finishFailedLocked_touches hal id _ (by decide)) fun _ => ?_
  refine touches_ite (fun _ => ?_) fun _ => finishFailedLocked_touches hal id _ (by decide)
  exact (request_touches id _).bind fun _ => finishCancelledLocked_touches hal id

omit hal in
/-- **The start of an admitted job is a touch.** -/
theorem startAdmitted_touches (id : JobId) (hemit : al.emits id .started) :
    TouchesBy env al (startAdmitted env id) := by
  have hrun : TouchesBy env al (edit id fun r => { r with dispatching := false, state := .RUNNING }) :=
    touches_silent fun r => ⟨rfl, rfl, rfl, rfl, nofun⟩
  refine (requestLate_touches id).bind fun _ => touches_get fun s =>
    touches_ite (fun _ => touches_pure _) fun _ => ?_
  refine hrun.bind fun _ => instant_touches.bind fun at_ => ?_
  have hstart : TouchesBy env al (edit id fun r => { r with startedAt := some at_ }) :=
    touches_silent fun r => ⟨rfl, rfl, rfl, rfl, fun h => h⟩
  exact hstart.bind fun _ => (emitLocked_touches hemit).bind fun _ => touches_pure _

omit hal in
/-- The message of a failure is one of the known ones. -/
theorem failureMessage_mem (failure : Throwable) : failureMessage failure ∈ messages := by
  unfold failureMessage
  split <;> decide

/-- **The conclusion of a job is a touch,** -/
theorem conclude_touches (id : JobId) (outcome : Except Throwable JobResult) :
    TouchesBy env al (conclude env id outcome) := by
  refine touches_get fun s => ?_
  cases outcome with
  | error failure =>
    exact touches_ite (fun _ => finishCancelledLocked_touches hal id) fun _ =>
      finishFailedLocked_touches hal id _ (failureMessage_mem failure)
  | ok result =>
    refine touches_ite (fun _ => (request_touches id _).bind fun _ =>
      finishCancelledLocked_touches hal id) fun _ => ?_
    have hresult : TouchesBy env al (edit id fun r => { r with
        resultJson := some result.json, completeness := some result.completeness }) :=
      touches_silent fun r => ⟨rfl, rfl, rfl, rfl, fun h => h⟩
    have hend : TouchesBy env al (edit id fun r => { r with state := .SUCCEEDED }) :=
      touches_silent fun r => ⟨rfl, rfl, rfl, rfl, nofun⟩
    refine TouchesBy.bind (touches_get fun t => reclaimResultRoom_touches _ _) fun _ =>
      hresult.bind fun _ => ?_
    refine TouchesBy.bind (fun _ => triple_modify fun _ hs => hs.same rfl (List.Sublist.refl _) rfl)
      fun _ => hend.bind fun _ => ?_
    exact (markCompletedLocked_touches id).bind fun _ =>
      emitLocked_touches (hal.ends id _ (.inl rfl))

/-- **and so is its finish.** -/
theorem finish_touches (id : JobId) (outcome : Except Throwable JobResult) :
    TouchesBy env al (finish env id outcome) :=
  TouchesBy.bind (fun _ => triple_modify fun _ hs => hs.same rfl (List.Sublist.refl _) rfl) fun _ =>
    (conclude_touches hal id outcome).bind fun _ => enforceRetention_touches

end Requests

/-! ## Submission -/

/-- As the constructor leaves it, with its texts. -/
structure JobRecord.Born (r : JobRecord) : Prop extends r.Fresh where
  diagnostics : r.diagnostics = []
  progress : r.progress = queuedProgress

/-- A new record is born. -/
theorem newRecord_born {bad : Throwable → Prop} {I E : Registry → Prop} (hI : ∀ s, I s → E s)
    (spec : JobSpec)
    (nowNanos : Int64) (now : ℤ) : Triple bad I (newRecord spec nowNanos now)
    (fun r s => I s ∧ r.Born) E := by
  unfold newRecord
  cases hd : spec.deadline with
  | none => exact triple_pure fun s hs =>
      ⟨hs, ⟨⟨rfl, rfl, rfl, rfl, rfl, rfl, rfl, rfl, rfl, rfl⟩, rfl, rfl⟩⟩
  | some d =>
    refine (plus_triple hI now d).bind fun at_ => ?_
    refine (toNanos_triple hI d).bind fun nanos => ?_
    exact triple_pure fun s hs => ⟨hs, ⟨⟨rfl, rfl, rfl, rfl, rfl, rfl, rfl, rfl, rfl, rfl⟩, rfl, rfl⟩⟩

/-- A job is enrolled, and its event emitted or lost. -/
def Enrolled (env : JobEnv) (al : Allows) (s t : Registry) : Prop :=
  ∃ u r, Touched env al s u ∧ r.Born ∧ Touched env al (enroll r u) t

/-- **A submission enrols its job, or touches what it may.** -/
theorem submit_enrolls (spec : JobSpec) (hemit : ∀ id, al.emits id .queued) (s : Registry) :
    Triple (fun _ => False) (fun t => t = s) (submit env spec) (fun _ => Enrolled env al s)
      (fun t => Touched env al s t ∨ Enrolled env al s t) := by
  have hpurge : Triple (fun _ => False) (fun t => t = s) (purgeExpiredLocked env) (fun _ =>
      Touched env al s)
      (fun t => Touched env al s t ∨ Enrolled env al s t) :=
    (purgeExpiredLocked_touches s).weaken (fun t ht => by subst ht; exact .refl t) (fun _ _ h => h)
      fun _ h => .inl h
  refine hpurge.bind fun _ => triple_get fun u hu => ?_
  refine triple_ite (fun _ => triple_throw fun t ht => .inr (.inl (ht ▸ hu))) fun _ => ?_
  refine triple_ite (fun _ => triple_throw fun t ht => .inr (.inl (ht ▸ hu))) fun _ => ?_
  refine triple_at_ok (nanoTime_run u) (triple_at_ok (instant_run _) ?_)
  have hu' : Touched env al s { u with ticks := u.ticks + 1, instants := u.instants + 1 } :=
    hu.same rfl (List.Sublist.refl _) rfl
  refine (newRecord_born (fun t ht => .inl (ht ▸ hu')) spec _ _).bind fun r =>
    triple_get fun t ht => ?_
  obtain ⟨rfl, hr⟩ := ht
  refine triple_at_modify ?_
  have hrun : Triple (fun _ => False)
      (fun t => t = enroll r { u with ticks := u.ticks + 1, instants := u.instants + 1 })
      (emitLocked env u.created .queued) (fun _ => Enrolled env al s) (fun t => Touched env al s t ∨
          Enrolled env al s t) :=
    (emitLocked_touches (hemit u.created)
      (enroll r { u with ticks := u.ticks + 1, instants := u.instants + 1 })).weaken
      (fun t ht => by subst ht; exact .refl _) (fun _ t ht => ⟨_, r, hu', hr, ht⟩) fun t ht =>
        .inr ⟨_, r, hu', hr, ht⟩
  exact hrun.bind fun _ => triple_pure fun t ht => ht

/-! ## Any act -/

/-- What an act may emit and write. -/
def Act.allows (env : JobEnv) (s : Scheduler) (a : Act) : Allows where
  emits id type := type ≠ .cancel_requested ∧ (type = .started → ∃ lease, a = .start ∧
    s.dispatch = .start id lease)
  stage text := ∃ id completed total stage, a = .call (.progress id completed total stage) ∧
    text = bounded stage 128
  note text := (∃ m ∈ messages, text = str m) ∨
    ∃ id message, a = .call (.diagnostic id message) ∧
      text = bounded message env.limits.maxDiagnosticBytes
  again := a = .call .shutdown

namespace Scheduler

variable {s t : Scheduler} {a : Act} {o : Except Throwable Unit}

/-- What an act allows is ordinary. -/
theorem allows_ordinary (env : JobEnv) (s : Scheduler) (a : Act) : (a.allows env s).Ordinary where
  ends id type h := by
    rcases h with rfl | rfl | rfl <;> exact ⟨by decide, nofun⟩
  messages m hm := .inl ⟨m, hm, rfl⟩

/-- A section's touches are those of its step. -/
theorem section_touches {al : Allows} {α : Type} {m : Section α} {done : α → Scheduler → Scheduler}
    {failed : Scheduler → Scheduler} (h : TouchesBy env al m)
    (hdone : ∀ x u, (done x u).registry = u.registry)
    (hfailed : ∀ u, (failed u).registry = u.registry) (hr : s.section_ m done failed = (o, t)) :
    Touched env al s.registry t.registry := by
  have hrun := h s.registry s.registry (.refl _)
  unfold section_ at hr
  rcases hm : m s.registry with ⟨e | x, u⟩
  · rw [hm] at hr hrun
    obtain ⟨-, rfl⟩ := Prod.mk.inj hr
    rw [hfailed]
    exact hrun.resolve_left id
  · rw [hm] at hr hrun
    obtain ⟨-, rfl⟩ := Prod.mk.inj hr
    rw [hdone]
    exact hrun

/-- **A call that submits nothing touches what it may.** -/
theorem call_touches {c : Call} (hsub : ∀ spec, c ≠ .submit spec) (s : Scheduler) :
    TouchesBy env (Act.allows env s (.call c)) (call env c) := by
  have hal := allows_ordinary env s (.call c)
  cases c with
  | reserveSubmissions => exact reserveSubmissions_touches
  | releaseSubmissionReservation => exact releaseSubmissionReservation_touches
  | stopSubmissions => exact stopSubmissions_touches
  | submit spec => exact absurd rfl (hsub spec)
  | snapshot id => exact (snapshot_touches id).bind fun _ => touches_pure _
  | cancel id => exact (cancel_touches hal id).bind fun _ => touches_pure _
  | tick => exact tick_touches hal
  | subscribe id last => exact (subscribe_touches id last).bind fun _ => touches_pure _
  | closeSubscription id sub => exact closeSubscription_touches id sub
  | next sub => exact (next_touches sub).bind fun _ => touches_pure _
  | shutdown => exact shutdown_touches hal rfl
  | progress id completed total stage =>
    exact progress_touches id completed total stage ⟨id, completed, total, stage, rfl, rfl⟩
      ⟨by decide, nofun⟩
  | diagnostic id message => exact diagnostic_touches id message (.inr ⟨id, message, rfl, rfl⟩)

/-- A step that leaves the registry alone. -/
theorem touched_same {al : Allows} (h : t.registry = s.registry) :
    Touched env al s.registry t.registry := h ▸ .refl _

/-- **What one act does to the records**, whatever it throws. -/
theorem touched (h : act env s a = some (o, t)) :
    Touched env (a.allows env s) s.registry t.registry ∨
    (∃ spec, a = .call (.submit spec)) ∧ Enrolled env (a.allows env s) s.registry t.registry := by
  have hal := allows_ordinary env s a
  cases a with
  | call c =>
    simp only [act] at h
    split at h
    case isFalse => simp at h
    have hr := Option.some.inj h
    by_cases hsub : ∃ spec, c = .submit spec
    · obtain ⟨spec, rfl⟩ := hsub
      rw [call, void_outcome] at hr
      have hemit : ∀ id, (Act.allows env s (.call (.submit spec))).emits id .queued := fun _ =>
        ⟨by decide, fun hcancel => by cases hcancel⟩
      have hrun := @submit_enrolls env _ spec hemit s.registry s.registry rfl
      unfold section_ at hr
      rcases hm : submit env spec s.registry with ⟨e | x, u⟩
      · rw [hm] at hr hrun
        obtain ⟨-, rfl⟩ := Prod.mk.inj hr
        exact (hrun.resolve_left id).imp_right fun h => ⟨⟨spec, rfl⟩, h⟩
      · rw [hm] at hr hrun
        obtain ⟨-, rfl⟩ := Prod.mk.inj hr
        exact .inr ⟨⟨spec, rfl⟩, hrun⟩
    · exact .inl (section_touches (call_touches (fun spec hc => hsub ⟨spec, hc⟩) s) (fun _ _ => rfl)
        (fun _ => rfl) hr)
  | pump =>
    simp only [act] at h
    split at h
    · have hr := Option.some.inj h
      refine .inl (section_touches pump_touches (fun x u => ?_) (fun _ => ?_) hr)
      · cases x <;> rfl
      · rfl
    · simp at h
  | requeue =>
    simp only [act] at h
    split at h
    · have hr := Option.some.inj h
      refine .inl (section_touches (requeueBlocked_touches hal _) (fun _ _ => ?_) (fun _ => ?_) hr)
      · rfl
      · rfl
    · simp at h
  | start =>
    simp only [act] at h
    split at h
    · rename_i id lease hd
      have hr := Option.some.inj h
      refine .inl (section_touches (startAdmitted_touches id ⟨by decide, fun _ => ⟨lease, rfl, hd⟩⟩)
        (fun _ _ => ?_)
        (fun _ => ?_) hr)
      · rfl
      · rfl
    · simp at h
  | close failure =>
    obtain ⟨u, hu, hut⟩ := Option.map_eq_some_iff.1 h
    obtain ⟨-, rfl⟩ := Prod.mk.inj hut
    unfold closed at hu
    split at hu
    · obtain rfl := Option.some.inj hu
      exact .inl (touched_same rfl)
    · obtain rfl := Option.some.inj hu
      exact .inl (touched_same rfl)
    · split at hu
      · obtain rfl := Option.some.inj hu
        have hs : Touched env (Act.allows env s (.close failure)) s.registry s.registry := .refl _
        exact .inl (hs.update _ (f := fun r => r.request .SHUTDOWN) (.single (.request .SHUTDOWN)))
      · obtain rfl := Option.some.inj hu
        exact .inl (touched_same rfl)
    · simp at hu
  | fail =>
    simp only [act] at h
    split at h
    · have hr := Option.some.inj h
      refine .inl (section_touches (finishDispatchFailure_touches hal _ _ _) (fun _ _ => ?_)
        (fun _ => ?_) hr)
      · rfl
      · rfl
    · simp at h
  | finish i =>
    obtain ⟨w, hw, h⟩ := worker_some h
    split at h
    · have hr := Option.some.inj h
      refine .inl (section_touches (finish_touches hal _ _) (fun _ _ => ?_) (fun _ => ?_) hr)
      · rfl
      · rfl
    · simp at h
  | tryAdmit answer | capture failure =>
    simp only [act] at h
    split at h
    · obtain ⟨-, rfl⟩ := Prod.mk.inj (Option.some.inj h)
      exact .inl (touched_same rfl)
    · simp at h
  | execute accepted =>
    simp only [act] at h
    split at h
    · split at h <;> obtain ⟨-, rfl⟩ := Prod.mk.inj (Option.some.inj h)
      · exact .inl (touched_same rfl)
      · exact .inl (touched_same rfl)
    · simp at h
  | run i | returns i result | release i failure =>
    obtain ⟨w, hw, h⟩ := worker_some h
    split at h
    · obtain ⟨-, rfl⟩ := Prod.mk.inj (Option.some.inj h)
      exact .inl (touched_same rfl)
    · simp at h

end Scheduler

end Libjadx
