import Libjadx.Proof.Ledger

/-!
# Every critical section is a sequence of moves

`Since env owner refused l s` says that moves lead from the ledger `l` to that of the registry `s`.
Every critical section whose events fit their limit keeps it; a section of the dispatcher or of a
worker keeps it for the job that the thread holds.
-/

namespace Libjadx

open JobRegistry Locked Ledger

variable {env : JobEnv} {owner : Option JobId} {refused : Prop} {l : Ledger} {id : JobId}

/-- The registries that moves lead to from the ledger `l`. -/
structure Since (env : JobEnv) (owner : Option JobId) (refused : Prop) (l : Ledger) (s : Registry) :
    Prop where
  moves : Moves env owner refused l s.ledger
  inv : s.ledger.Inv env env.limits.maxRetained

/-- A section all of whose outcomes are moves, where events fit. -/
abbrev Reckons (env : JobEnv) (owner : Option JobId) (refused : Prop) (l : Ledger) {α : Type}
    (m : Section α) : Prop :=
  Keeps (· = eventTooLarge) (Since env owner refused l) m

/-- A move behind a run lengthens it, -/
theorem Since.move {s t : Registry} (h : Since env owner refused l s)
    (hm : Move env owner refused s.ledger t.ledger) : Since env owner refused l t :=
  ⟨h.moves.tail hm, hm.inv h.inv⟩

/-- as does a run. -/
theorem Since.trans {s t : Registry} (h : Since env owner refused l s)
    (hm : Moves env owner refused s.ledger t.ledger) : Since env owner refused l t :=
  ⟨h.moves.trans hm, Moves.inv h.inv hm⟩

/-- What leaves the ledger alone is no move. -/
theorem Since.same {s t : Registry} (h : Since env owner refused l s) (ht : t.ledger = s.ledger) :
    Since env owner refused l t := by
  constructor
  · rw [ht]; exact h.moves
  · rw [ht]; exact h.inv

/-- A job there was is still there. -/
theorem Since.lt {s : Registry} (h : Since env owner refused l s) (hid : id < l.created) :
    id < s.created :=
  hid.trans_le (Moves.created_le h.moves)

/-- A change of a job that anybody may make. -/
theorem Since.change {s : Registry} (h : Since env owner refused l s) (hid : id < s.created)
    {f : JobRecord → JobRecord}
    (hc : Change env id (s.job id) (f (s.job id)))
    (hb : s.ledger.Blames refused id (f (s.job id))) : Since env owner refused l (s.update id f) :=
  h.move (.change id _ hid hc hb)

/-! ## Sections that leave the ledger -/

/-- **A section that leaves the ledger alone reckons.** -/
theorem reckons_modify {g : Registry → Registry} (hg : ∀ s, (g s).ledger = s.ledger) :
    Reckons env owner refused l (modify g) := triple_modify fun s hs => hs.same (hg s)

theorem reckons_throw {α : Type} (e : Throwable) :
    Reckons env owner refused l (throw e : Section α) :=
  triple_throw fun _ hs => .inr hs

theorem reckons_pure {α : Type} (a : α) : Reckons env owner refused l (pure a) :=
  triple_pure fun _ hs => hs

/-- **Sections that reckon compose.** -/
theorem Reckons.bind {α β : Type} {m : Section α} {f : α → Section β}
    (hm : Reckons env owner refused l m)
    (hf : ∀ a, Reckons env owner refused l (f a)) : Reckons env owner refused l (m >>= f) :=
  Triple.bind hm hf

/-- A look at the ticker takes one tick. -/
theorem nanoTime_run (s : Registry) :
    nanoTime env s = (.ok (env.ticker s.ticks), { s with ticks := s.ticks + 1 }) :=
  rfl

/-- A look at the clock takes one instant. -/
theorem instant_run (s : Registry) :
    instant env s = (.ok (env.clock s.instants), { s with instants := s.instants + 1 }) := rfl

theorem nanoTime_reckons : Reckons env owner refused l (nanoTime env) := fun s hs => by
  rw [nanoTime_run]
  exact hs.same rfl

theorem toNanos_triple {bad : Throwable → Prop} {I E : Registry → Prop}
    (h : ∀ s, I s → E s) (d : ℕ) :
    Triple bad I (toNanos d) (fun _ => I) E :=
  triple_ite (fun _ => triple_pure fun _ hs => hs) fun _ => triple_throw fun s hs => .inr (h s hs)

theorem plus_triple {bad : Throwable → Prop} {I E : Registry → Prop} (h : ∀ s, I s → E s)
    (at_ : ℤ) (d : ℕ) :
    Triple bad I (plus at_ d) (fun _ => I) E :=
  triple_ite (fun _ => triple_pure fun _ hs => hs) fun _ => triple_throw fun s hs => .inr (h s hs)

/-- Whether a job has expired is asked with one tick at most. -/
theorem expired_run (env : JobEnv) (id : JobId) (s : Registry) :
    ∃ b k, expired env id s = (.ok b, { s with ticks := k }) := by
  unfold expired
  rw [bind_get]
  cases h : (s.job id).deadlineNanos with
  | none => exact ⟨_, s.ticks, rfl⟩
  | some deadline => exact ⟨_, s.ticks + 1, rfl⟩

/-- What is done to subscriptions touches subscriptions alone. -/
theorem foldl_updateSubscription (f : Subscription → Subscription) (subs : List SubscriptionId) :
    ∀ s : Registry, ∃ sub, subs.foldl (fun s x => s.updateSubscription x f) s =
      { s with subscription := sub } := by
  induction subs with
  | nil => intro s; exact ⟨s.subscription, rfl⟩
  | cons x subs ih =>
    intro s
    obtain ⟨sub, hsub⟩ := ih (s.updateSubscription x f)
    exact ⟨sub, by rw [List.foldl_cons, hsub]; rfl⟩

/-! ## Dropping -/

/-- A record that is taken out is dropped from the ledger. -/
theorem removeRetained_ledger (id : JobId) (s : Registry) :
    (removeRetained id s).ledger = s.ledger.drop id := by
  unfold removeRetained
  obtain ⟨sub, hsub⟩ := foldl_updateSubscription Subscription.forceClose (s.job id).subscribers s
  simp only [hsub]
  rfl

/-- Completed jobs are dropped. -/
def Sheds : Ledger → Ledger → Prop :=
  Relation.ReflTransGen fun l l' => ∃ id ∈ l.records, (l.job id).completedNanos.isSome = true ∧
    l' = l.drop id

/-- Shedding records is a run of moves. -/
theorem Sheds.moves {l l' : Ledger} (hs : Sheds l l') (h : l.Inv env env.limits.maxRetained) :
    Moves env owner refused l l' := by
  induction hs with
  | refl => exact .refl
  | tail _ hd ih =>
    obtain ⟨id, hid, hc, rfl⟩ := hd
    have hinv := Moves.inv h ih
    refine ih.tail (.drop id hid ?_)
    rw [← (hinv.ok id (hinv.known id hid)).completed]
    exact hc

/-- A job that is not over is not dropped. -/
theorem Sheds.keeps {l l' : Ledger} (hs : Sheds l l') (hc : (l.job id).completedNanos = none) :
    l'.job id = l.job id ∧ (id ∈ l'.records ↔ id ∈ l.records) ∧ l'.runningSlots = l.runningSlots ∧
      l'.created = l.created ∧ l'.queue = l.queue := by
  induction hs with
  | refl => exact ⟨rfl, Iff.rfl, rfl, rfl, rfl⟩
  | tail _ hd ih =>
    obtain ⟨x, hx, hcx, rfl⟩ := hd
    obtain ⟨h1, h2, h3, h4, h5⟩ := ih
    have hne : id ≠ x := by
      rintro rfl
      rw [h1, hc] at hcx
      simp at hcx
    refine ⟨?_, ?_, h3, h4, h5⟩
    · rw [← h1]
      exact drop_job_ne hne
    · rw [← h2]
      exact List.mem_erase_of_ne hne

/-- Dropping does not look at the slots. -/
theorem Sheds.slots {l l' : Ledger} {n : ℤ} (hs : Sheds { l with runningSlots := n } l') :
    ∃ l₁, Sheds l l₁ ∧ l' = { l₁ with runningSlots := n } := by
  induction hs with
  | refl => exact ⟨l, .refl, rfl⟩
  | tail _ hd ih =>
    obtain ⟨l₁, hl₁, rfl⟩ := ih
    obtain ⟨x, hx, hcx, rfl⟩ := hd
    exact ⟨l₁.drop x, hl₁.tail ⟨x, hx, hcx, rfl⟩, rfl⟩

/-- Records that have completed can be shed one by one. -/
theorem sheds_foldl {ids : List JobId} : ∀ {s : Registry}, ids.Nodup →
    (∀ id ∈ ids, id ∈ s.records ∧ (s.job id).completedNanos.isSome = true) →
    Sheds s.ledger (ids.foldl (fun s id => removeRetained id s) s).ledger := by
  induction ids with
  | nil => intro s _ _; exact .refl
  | cons id ids ih =>
    intro s hnd h
    rw [List.nodup_cons] at hnd
    have hdrop := removeRetained_ledger id s
    have hid := h id List.mem_cons_self
    refine Relation.ReflTransGen.head ⟨id, hid.1, hid.2, hdrop⟩ (ih hnd.2 fun x hx => ?_)
    have hne : x ≠ id := by rintro rfl; exact hnd.1 hx
    obtain ⟨hx1, hx2⟩ := h x (List.mem_cons_of_mem _ hx)
    have hrec : (removeRetained id s).records = s.records.erase id := congrArg Ledger.records hdrop
    have hjob : (removeRetained id s).job x = s.job x := by
      exact (congrFun (congrArg Ledger.job hdrop) x).trans (drop_job_ne hne)
    rw [hrec, hjob]
    exact ⟨(List.mem_erase_of_ne hne).2 hx1, hx2⟩

/-- **A purge reckons.** -/
theorem purgeExpiredLocked_reckons : Reckons env owner refused l (purgeExpiredLocked env) := by
  refine nanoTime_reckons.bind fun now => triple_get fun s hs =>
    triple_ite (fun _ => ?_) fun _ => ?_
  · exact triple_pure fun t ht => ht ▸ hs
  · refine (toNanos_triple (fun t ht => ht ▸ hs) _).bind fun ttl => ?_
    intro t ht
    subst ht
    rw [forEach_modify]
    refine hs.trans (Sheds.moves (sheds_foldl ?_ fun x hx => ?_) hs.inv)
    · exact (hs.inv.nodup.filter _).filter _
    · obtain ⟨hx, -⟩ := List.mem_filter.1 hx
      exact ⟨(List.mem_filter.1 hx).1, by simpa using (List.mem_filter.1 hx).2⟩

/-- **Retention evicts as the ledger does.** -/
theorem enforceRetention_ledger (s : Registry) :
    (enforceRetention env s).ledger = s.ledger.evict env := by
  unfold enforceRetention Ledger.evict
  by_cases hc : (s.records.filter fun id => (s.job id).completedNanos.isSome).length ≤
    env.limits.maxRetained
  · rw [if_pos hc]
    exact (if_pos hc).symm
  · rw [if_neg hc]
    refine Eq.trans ?_ (if_neg hc).symm
    cases ho : oldestCompleted false s.records s.job with
    | none =>
      have hledger : oldestCompleted false s.ledger.records s.ledger.job = none := ho
      rw [hledger]
    | some o =>
      have hledger : oldestCompleted false s.ledger.records s.ledger.job = some o := ho
      rw [hledger]
      exact removeRetained_ledger o s

/-- Where the jobs retained are not too many, retention drops none. -/
theorem Since.enforced {s : Registry} (h : Since env owner refused l s) :
    Since env owner refused l (enforceRetention env s) := by
  rcases evict_cases env s.ledger with he | ⟨o, ho, hc, he⟩
  · exact h.same ((enforceRetention_ledger s).trans he)
  · refine h.move (t := enforceRetention env s) ?_
    rw [enforceRetention_ledger, he]
    exact .drop o ho (by rw [← (h.inv.ok o (h.inv.known o ho)).completed]; exact hc)

/-! ## Events -/

/-- What a section does from a known state, where events fit and it throws nothing else. -/
abbrev Runs {α : Type} (s : Registry) (m : Section α) (Q : α → Registry → Prop) : Prop :=
  Triple (· = eventTooLarge) (fun t => t = s) m Q fun _ => False

/-- **An event changes its own job, and the subscriptions.** -/
theorem emitLocked_runs (id : JobId) (type : EventType) (s : Registry) :
    Runs s (emitLocked env id type) fun _ t => ∃ subs, t = { s with
      job := Function.update s.job id ((s.job id).emitted env id type (env.clock s.instants))
      instants := s.instants + 1
      subscription := subs } := by
  refine triple_at_modify (triple_at_ok (instant_run _) (triple_at_get ?_))
  refine triple_ite (fun _ => triple_throw fun _ _ => .inl rfl) fun _ => triple_at_modify ?_
  intro s' hs
  subst hs
  rw [forEach_modify]
  obtain ⟨subs, hsubs⟩ := foldl_updateSubscription
    (Subscription.offer env.limits.maxFramesPerSubscriber _) _ _
  rw [hsubs]
  refine ⟨subs, ?_⟩
  simp [Registry.update, Function.update_self, Function.update_idem, JobRecord.emitted, eventData]

/-! ## Endings -/

/-- A diagnostic changes the diagnostics alone. -/
theorem addDiagnostic_eq (env : JobEnv) (text : JString) (r : JobRecord) :
    ∃ d, addDiagnostic env text r = { r with diagnostics := d } := by
  unfold addDiagnostic
  split
  · exact ⟨_, rfl⟩
  · exact ⟨r.diagnostics, rfl⟩

/-- The completion of a job stamps its record. -/
theorem markCompletedLocked_run (id : JobId) (s : Registry) :
    markCompletedLocked env id s = (.ok (), { s with
      job := Function.update s.job id ((s.job id).completed (s.job id).state (env.clock s.instants)
        (env.ticker s.ticks) (s.completionSequence + 1))
      instants := s.instants + 1
      ticks := s.ticks + 1
      completionSequence := s.completionSequence + 1 }) := rfl

/-- **A job that is cancelled ends.** -/
theorem finishCancelledLocked_runs {s : Registry} (ht : (s.job id).terminal = false) :
    Runs s (finishCancelledLocked env id) fun _ t => ∃ r, Ends env id (s.job id) r ∧
      (r.Blamed → (s.job id).Blamed) ∧ t.ledger = (s.ledger.set id r).evict env := by
  refine triple_at_get (triple_ite (fun h => by simp [ht] at h) fun _ => ?_)
  refine triple_at_modify (triple_at_ok (markCompletedLocked_run _ _) ((emitLocked_runs id _ _).bind
    fun _ => ?_))
  refine triple_modify fun t hr => ?_
  obtain ⟨subs, rfl⟩ := hr
  refine ⟨_, .cancelled (env.clock s.instants) (env.ticker s.ticks) (s.completionSequence + 1)
    (env.clock (s.instants + 1)), fun h => h, ?_⟩
  rw [enforceRetention_ledger]
  simp [Registry.ledger, Ledger.set, Registry.update, Function.update_idem, JobRecord.completed]

/-- **So does one that fails.** -/
theorem finishFailedLocked_runs {s : Registry} (failure : Option Throwable) (message : String)
    (ht : (s.job id).terminal = false) :
    Runs s (finishFailedLocked env id failure message) fun _ t => ∃ r, Ends env id (s.job id) r ∧
      (r.Blamed → (s.job id).Blamed ∨ failure = some .serviceShuttingDown ∧ message = "Job admission failed") ∧
      t.ledger = (s.ledger.set id r).evict env := by
  refine triple_at_get (triple_ite (fun h => by simp [ht] at h) fun _ => ?_)
  refine triple_at_modify (triple_at_ok (markCompletedLocked_run _ _) ?_)
  refine triple_at_modify ((emitLocked_runs id _ _).bind fun _ => ?_)
  refine triple_modify fun t hr => ?_
  obtain ⟨subs, rfl⟩ := hr
  obtain ⟨d, hd⟩ := addDiagnostic_eq env (str message) { (s.job id).completed .FAILED
    (env.clock s.instants)
    (env.ticker s.ticks) (s.completionSequence + 1) with
      error := some (jobError failure message), cause := failure }
  refine ⟨_, .failed (env.clock s.instants) (env.ticker s.ticks) (s.completionSequence + 1)
    (env.clock (s.instants + 1)) (jobError failure message) failure d, fun h => ?_, ?_⟩
  · rcases h with h | ⟨hc, he⟩
    · exact .inl (.inl h)
    · exact .inr ⟨hc, Option.some.inj he⟩
  · rw [enforceRetention_ledger]
    rw [JobRecord.completed] at hd
    simp [Registry.ledger, Ledger.set, Registry.update, Function.update_idem, JobRecord.completed, hd]

/-! ## Room for a result -/

/-- Where no job retained has a result, no bytes are retained. -/
theorem noBytes {l : Ledger} {m : ℕ} (h : l.Inv env m)
    (hn : ∀ x ∈ l.records, (l.job x).completedNanos.isSome = true → (l.job x).resultJson = none) :
    l.retainedResultBytes = 0 := by
  rw [h.bytes]
  unfold Ledger.total
  rw [List.sum_eq_zero]
  · rfl
  · intro w hw
    obtain ⟨x, hx, rfl⟩ := List.mem_map.1 hw
    have hok := h.ok x (h.known x hx)
    have hnone : (l.job x).resultJson = none := by
      by_contra hsome
      have hst := hok.result.1 (Option.isSome_iff_ne_none.2 hsome)
      have hc := hok.completed
      rw [JobRecord.terminal, hst] at hc
      exact hsome (hn x hx hc)
    simp [JobRecord.resultBytes, hnone]

/-- **Making room never throws**, and drops completed jobs only. -/
theorem reclaimResultRoom_run {incoming : ℕ} (hin : incoming ≤ env.limits.maxTotalResultBytes)
    (k : ℤ) :
    ∀ (n m : ℕ) (s : Registry), Inv env m { s.ledger with runningSlots := k } →
      s.records.length ≤ n →
      ∃ t, reclaimResultRoom env incoming n s = (.ok (), t) ∧ Sheds s.ledger t.ledger ∧
        t.retainedResultBytes + incoming ≤ env.limits.maxTotalResultBytes := by
  have hover : ∀ {m : ℕ} {s : Registry}, Inv env m { s.ledger with runningSlots := k } →
      (∀ x ∈ s.records, (s.job x).completedNanos.isSome = true → (s.job x).resultJson = none) →
      ¬ (env.limits.maxTotalResultBytes : ℤ) < s.retainedResultBytes + incoming := by
    intro m s h hn
    have : s.retainedResultBytes = 0 := noBytes h hn
    omega
  intro n
  induction n with
  | zero =>
    intro m s h hlen
    have hnil : s.records = [] := List.length_eq_zero_iff.1 (Nat.le_zero.1 hlen)
    have hno := hover h (by simp [hnil])
    refine ⟨s, ?_, .refl, by omega⟩
    unfold reclaimResultRoom
    rw [bind_get, if_neg hno]
    rfl
  | succ n ih =>
    intro m s h hlen
    unfold reclaimResultRoom
    rw [bind_get]
    by_cases hgt : (env.limits.maxTotalResultBytes : ℤ) < s.retainedResultBytes + incoming
    · rw [if_pos hgt]
      cases ho : oldestCompleted true s.records s.job with
      | none => exact absurd hgt (hover h fun x hx hc => (oldestCompleted_none ho hx hc).2)
      | some o =>
        obtain ⟨hmem, hc⟩ := oldestCompleted_some ho
        have hterm : (s.job o).terminal = true := (h.ok o (h.known o hmem)).completed ▸ hc
        have hdrop := removeRetained_ledger o s
        have hinv : Inv env (m - 1) { (removeRetained o s).ledger with runningSlots := k } := by
          rw [hdrop]
          exact (h.drop hmem hterm).1
        have hlen' : (removeRetained o s).records.length ≤ n := by
          have : (removeRetained o s).records = s.records.erase o := congrArg Ledger.records hdrop
          rw [this, List.length_erase_of_mem hmem]
          omega
        obtain ⟨t, hr, hs, hle⟩ := ih (m - 1) _ hinv hlen'
        exact ⟨t, hr, .head ⟨o, hmem, hc, hdrop⟩ hs, hle⟩
    · rw [if_neg hgt]
      exact ⟨s, rfl, .refl, by omega⟩

/-- **Room for a result is made by evictions.** -/
theorem reclaimResultRoomLocked_run {incoming : ℕ} (hin : incoming ≤ env.limits.maxTotalResultBytes)
    {k : ℤ} {m : ℕ}
    {s : Registry} (h : Inv env m { s.ledger with runningSlots := k }) :
    ∃ t, reclaimResultRoomLocked env incoming s = (.ok (), t) ∧ Sheds s.ledger t.ledger ∧
      t.retainedResultBytes + incoming ≤ env.limits.maxTotalResultBytes :=
  reclaimResultRoom_run hin k _ m s h (le_refl _)

/-! ## The callers' sections -/

@[simp] theorem update_job_self (s : Registry) (f : JobRecord → JobRecord) :
    (s.update id f).job id = f (s.job id) := by
  simp [Registry.update]

theorem update_ledger (s : Registry) (f : JobRecord → JobRecord) :
    (s.update id f).ledger = s.ledger.set id (f (s.job id)) := rfl

/-- An event is emitted in the ledger too. -/
theorem emitLocked_ledger (id : JobId) (type : EventType) (s : Registry) :
    Runs s (emitLocked env id type) fun _ t => ∃ now, t.ledger = s.ledger.set id
      ((s.job id).emitted env id type now) :=
  (emitLocked_runs id type s).weaken (fun _ h => h) (fun _ t ht => by
    obtain ⟨subs, rfl⟩ := ht
    exact ⟨_, rfl⟩) fun _ h => h

/-- A request blames no shutdown unless it is the first, and a shutdown's. -/
theorem request_blames {l : Ledger} {reason : Reason}
    (h : reason = .SHUTDOWN → (l.job id).token.isSome = true ∨ l.stopped = true ∨ refused) :
    l.Blames refused id ((l.job id).request reason) := by
  intro hb
  rcases hb with hb | hb
  · cases htok : (l.job id).token with
    | none =>
      have hr : reason = .SHUTDOWN := by simpa [JobRecord.request, htok] using hb
      exact .inr ((h hr).resolve_left (by simp [htok]))
    | some reason' => exact .inl (.inl (by simpa [JobRecord.request, htok] using hb))
  · exact .inl (.inr hb)

/-- **A request for cancellation is a move.** -/
theorem Since.request {s : Registry} (h : Since env owner refused l s) (hid : id < s.created)
    (reason : Reason)
    (hr : reason = .SHUTDOWN → (s.job id).token.isSome = true ∨ s.stopped = true ∨ refused) :
    Since env owner refused l (s.update id fun r => r.request reason) :=
  h.change hid (.request reason) (request_blames hr)

/-- The event that follows a request. -/
theorem Since.cancel_requested {s t : Registry} (h : Since env owner refused l s)
    (hid : id < s.created)
    (ht : (s.job id).terminal = false) {now : ℤ}
    (hl : t.ledger = (s.update id JobRecord.cancelling).ledger.set id
      (((s.update id JobRecord.cancelling).job id).emitted env id .cancel_requested now)) :
    Since env owner refused l t := by
  refine h.move (t := t) ?_
  have hset : t.ledger = s.ledger.set id
      ((s.job id).cancelling.emitted env id .cancel_requested now) := by
    rw [hl, update_job_self, update_ledger, set_set]
  rw [hset]
  refine .change id _ hid (.cancel_requested now ht) fun hb => .inl ?_
  unfold JobRecord.cancelling at hb
  split at hb
  · exact hb
  · exact hb

/-- A job that is asked to stop emits so, and ends at once where it waits. -/
theorem cancelRequested_runs {s : Registry} (hs : Since env owner refused l s)
    (hid : id < s.created)
    (ht : (s.job id).terminal = false) :
    Triple (· = eventTooLarge) (fun t => t = s) (cancelRequested env id)
      (fun _ => Since env owner refused l)
      (Since env owner refused l) := by
  refine triple_at_modify (((emitLocked_ledger id _ _).weaken (fun _ h => h) (fun _ _ h => h)
    fun _ => False.elim).bind
    fun _ => triple_get fun t ht' => ?_)
  obtain ⟨now, hl⟩ := ht'
  have hst : Since env owner refused l t := hs.cancel_requested hid ht hl
  have hidt : id < t.created := by
    have : t.created = s.created := congrArg Ledger.created hl
    rw [this]
    exact hid
  refine triple_when (fun hw => ?_) fun _ t' ht' => ht' ▸ hst
  -- the job waits: it leaves the queue and ends
  obtain ⟨hq, hd⟩ : (t.job id).state = .QUEUED ∧ (t.job id).dispatching = false := by simpa using hw
  have htt : (t.job id).terminal = false := by rw [JobRecord.terminal, hq]; rfl
  have hin : id ∈ t.queue := (hst.inv.queue id).2 ⟨hidt, hq, hd⟩
  refine triple_at_modify ((finishCancelledLocked_runs (s := { t with queue := t.queue.erase id })
    htt).weaken
    (fun _ h => h) (fun _ t' hr => ?_) fun _ => False.elim)
  obtain ⟨r, he, hb, hl'⟩ := hr
  refine hst.move (t := t') ?_
  rw [hl']
  exact .endWaiting id r hin he fun h => .inl (hb h)

/-- A job that is found is on record. -/
theorem findLocked_triple (id : JobId) :
    Triple (· = eventTooLarge) (Since env owner refused l) (findLocked id)
      (fun r s => Since env owner refused l s ∧ id ∈ s.records ∧ r = s.job id)
      (Since env owner refused l) :=
  triple_get fun s hs => triple_ite (fun hid => triple_pure fun t ht => by subst ht; exact ⟨hs, hid, rfl⟩)
    fun _ => triple_throw fun t ht => .inr (ht ▸ hs)

/-- **A cancellation reckons.** -/
theorem cancel_reckons (id : JobId) : Reckons env owner refused l (cancel env id) := by
  refine purgeExpiredLocked_reckons.bind fun _ => (findLocked_triple id).bind fun r => ?_
  refine Triple.bind (R := fun _ => Since env owner refused l) ?_ fun _ => triple_get fun s hs =>
    triple_pure fun t ht => ht ▸ hs
  refine triple_when (fun hc => ?_) fun _ s hs => hs.1
  intro s hs
  obtain ⟨hs, hid, rfl⟩ := hs
  have hidc : id < s.created := hs.inv.known id hid
  have ht : (s.job id).terminal = false := by simp_all
  have hreq : Since env owner refused l (s.update id fun r => r.request .USER) :=
    hs.request hidc _ (by simp)
  exact triple_at_modify (cancelRequested_runs hreq hidc (by rw [update_job_self]; exact ht)) s rfl

theorem snapshot_reckons (id : JobId) : Reckons env owner refused l (snapshot env id) :=
  purgeExpiredLocked_reckons.bind fun _ => (findLocked_triple id).bind fun _ =>
    triple_pure fun _ hs => hs.1

/-- A tick reckons for one record, -/
theorem tickRecord_reckons (hid : id < l.created) :
    Reckons env owner refused l (tickRecord env id) := by
  refine triple_get fun s hs => triple_when (fun ht => ?_) fun _ t ht => ht ▸ hs
  obtain ⟨b, k, hexp⟩ := expired_run env id s
  refine triple_at_ok hexp (triple_when (fun hc => ?_) fun _ t ht => ht ▸ hs.same rfl)
  have hs' : Since env owner refused l { s with ticks := k } := hs.same rfl
  have hidc : id < s.created := hs.lt hid
  have hdead : Since env owner refused l ({ s with ticks := k }.update id fun r =>
      r.request .DEADLINE) :=
    hs'.request hidc _ (by simp)
  -- the diagnostic is a change of its own
  obtain ⟨d, hd⟩ := addDiagnostic_eq env (str "Job deadline expired") ((s.job id).request .DEADLINE)
  have hnote := hdead.change (f := fun r => { r with diagnostics := d }) hidc (.note d) .inl
  refine triple_at_modify (cancelRequested_runs (hnote.same ?_) hidc ?_)
  · simp [Registry.ledger, Registry.update, Function.update_idem, hd]
  · rw [update_job_self]
    show (addDiagnostic env (str "Job deadline expired") ((s.job id).request .DEADLINE)).terminal = false
    rw [hd]
    have hlive : (s.job id).terminal = false := by simpa using ht
    exact hlive

/-- A loop, from the state it starts in. -/
theorem forEach_reckons {ids : List JobId} {body : JobId → Section Unit} {s : Registry}
    (hs : Since env owner refused l s)
    (hb : ∀ x ∈ ids, Reckons env owner refused s.ledger (body x)) :
    Triple (· = eventTooLarge) (fun t => t = s) (forEach ids body)
      (fun _ => Since env owner refused l)
      (Since env owner refused l) := by
  have hloop : Reckons env owner refused s.ledger (forEach ids body) := triple_forEach hb
  refine hloop.weaken (fun t ht => ?_) (fun _ t ht => hs.trans ht.moves) fun t ht =>
    hs.trans ht.moves
  subst ht
  exact ⟨.refl, hs.inv⟩

/-- and for all. -/
theorem tick_reckons : Reckons env owner refused l (tick env) :=
  purgeExpiredLocked_reckons.bind fun _ => triple_get fun _ hs =>
    forEach_reckons hs fun x hx => tickRecord_reckons (hs.inv.known x hx)

theorem reserveSubmissions_reckons : Reckons env owner refused l reserveSubmissions :=
  triple_get fun _ hs => triple_ite (fun _ => triple_throw fun _ ht => .inr (ht ▸ hs)) fun _ =>
    triple_modify fun _ ht => by subst ht; exact hs.same rfl

theorem releaseSubmissionReservation_reckons :
    Reckons env owner refused l releaseSubmissionReservation :=
  reckons_modify fun _ => rfl

theorem stopSubmissions_reckons : Reckons env owner refused l stopSubmissions :=
  triple_modify fun s hs => hs.move (t := { s with stopped := true }) .stop

/-- A new record is fresh. -/
theorem newRecord_triple {bad : Throwable → Prop} {I E : Registry → Prop} (hI : ∀ s, I s → E s)
    (spec : JobSpec)
    (nowNanos : Int64) (now : ℤ) : Triple bad I (newRecord spec nowNanos now)
    (fun r s => I s ∧ r.Fresh) E := by
  unfold newRecord
  cases hd : spec.deadline with
  | none => exact triple_pure fun s hs => ⟨hs, ⟨rfl, rfl, rfl, rfl, rfl, rfl, rfl, rfl, rfl, rfl⟩⟩
  | some d =>
    refine (plus_triple hI now d).bind fun at_ => ?_
    refine (toNanos_triple hI d).bind fun nanos => ?_
    exact triple_pure fun s hs => ⟨hs, ⟨rfl, rfl, rfl, rfl, rfl, rfl, rfl, rfl, rfl, rfl⟩⟩

/-- **A submission reckons.** -/
theorem submit_reckons (spec : JobSpec) : Reckons env owner refused l (submit env spec) := by
  refine purgeExpiredLocked_reckons.bind fun _ => triple_get fun s hs => ?_
  refine triple_ite (fun _ => triple_throw fun t ht => .inr (ht ▸ hs)) fun hopen => ?_
  refine triple_ite (fun _ => triple_throw fun t ht => .inr (ht ▸ hs)) fun _ => ?_
  refine triple_at_ok (nanoTime_run s) (triple_at_ok (instant_run _) ?_)
  have hs' : Since env owner refused l
      { s with ticks := s.ticks + 1, instants := s.instants + 1 } := hs.same rfl
  refine (newRecord_triple (fun t ht => ht ▸ hs') spec _ _).bind fun r => triple_get fun t ht => ?_
  obtain ⟨rfl, hr⟩ := ht
  refine triple_at_modify (((emitLocked_ledger _ _ _).weaken (fun _ h => h) (fun _ _ h => h)
    fun _ => False.elim).bind
    fun _ => triple_pure fun t ht => ?_)
  obtain ⟨now, hl⟩ := ht
  refine hs'.move (t := t) ?_
  have hns : s.stopped = false := by
    simp only [Bool.or_eq_true, not_or, Bool.not_eq_true] at hopen
    exact hopen.1
  have henroll : t.ledger = s.ledger.enroll (r.emitted env s.created .queued now) := by
    rw [hl]
    simp [Registry.ledger, JobRegistry.enroll, Ledger.enroll, Ledger.set, Function.update_idem]
  rw [henroll]
  exact .enroll r now hns hr

/-- A subscription reckons, -/
theorem subscribe_reckons (id : JobId) (lastEventId : Option ℤ) :
    Reckons env owner refused l (subscribe env id lastEventId) := by
  refine purgeExpiredLocked_reckons.bind fun _ => (findLocked_triple id).bind fun r => ?_
  refine triple_ite (fun _ => triple_throw fun s hs => .inr hs.1) fun _ => ?_
  refine triple_ite (fun _ => triple_throw fun s hs => .inr hs.1) fun _ => triple_get fun s hs => ?_
  obtain ⟨hs, hid, rfl⟩ := hs
  refine triple_ite (fun _ => triple_throw fun t ht => .inr (ht ▸ hs)) fun _ => ?_
  refine triple_at_modify (triple_at_modify (triple_at_modify (triple_pure fun t ht => ?_)))
  subst ht
  exact hs.move (.subscribe id s.opened hid)

/-- and so does its end, -/
theorem closeSubscription_reckons (hid : id < l.created) (sub : SubscriptionId) :
    Reckons env owner refused l (closeSubscription id sub) := by
  refine triple_get fun s hs => Triple.bind (R := fun _ => Since env owner refused l) ?_ fun _ =>
    triple_modify fun t ht => ht.same rfl
  refine triple_when (fun hc => ?_) fun _ t ht => ht ▸ hs
  refine triple_at_modify (triple_modify fun t ht => ?_)
  subst ht
  have hsub : sub ∈ (s.job id).subscribers := by simpa using hc
  exact hs.move (t := { s.update id (fun r => { r with subscribers := r.subscribers.erase sub }) with
    globalSubscribers := s.globalSubscribers - 1 }) (.unsubscribe id sub (hs.lt hid) hsub)

/-- and every poll. -/
theorem next_reckons (sub : SubscriptionId) : Reckons env owner refused l (next sub) :=
  triple_get fun s hs => triple_at_modify (triple_pure fun t ht => by subst ht; exact hs.same rfl)

/-- **A report of progress reckons,** -/
theorem progress_reckons (hid : id < l.created) (completed : ℤ) (total : Option ℤ)
    (stage : Option JString) :
    Reckons env owner refused l (progress env id completed total stage) := by
  unfold progress
  cases JobProgress.make completed total (bounded stage 128) with
  | error e => exact reckons_throw e
  | ok p =>
    refine triple_get fun s hs => triple_ite (fun _ => triple_pure fun t ht => ht ▸ hs) fun hx => ?_
    refine triple_ite (fun _ => triple_throw fun t ht => .inr (ht ▸ hs)) fun _ => ?_
    refine triple_at_modify ((emitLocked_ledger id _ _).weaken (fun _ h => h) (fun _ t ht => ?_)
      fun _ => False.elim)
    obtain ⟨now, hl⟩ := ht
    have hex : (s.job id).Executing := by
      by_contra hn
      exact hx ⟨fun h => hn (.inl h), fun h => hn (.inr h)⟩
    refine hs.move (t := t) ?_
    rw [hl, update_job_self, update_ledger, set_set]
    exact .change id _ (hs.lt hid) (.progress p now hex) .inl

/-- **and a diagnostic.** -/
theorem diagnostic_reckons (hid : id < l.created) (message : Option JString) :
    Reckons env owner refused l (diagnostic env id message) := by
  refine triple_modify fun s hs => ?_
  obtain ⟨d, hd⟩ := addDiagnostic_eq env (bounded message env.limits.maxDiagnosticBytes) (s.job id)
  refine hs.change (hs.lt hid) ?_ ?_
  · rw [hd]; exact .note d
  · rw [hd]; exact .inl

/-! ## Shutdown -/

/-- A queued job is cancelled. -/
theorem shutdownQueued_runs {s : Registry} (hs : Since env owner refused l s) (hin : id ∈ s.queue)
    (hstop : s.stopped = true) :
    Runs s (shutdownQueued env id) fun _ t =>
      Since env owner refused l t ∧ t.stopped = true ∧ t.queue = s.queue.erase id := by
  obtain ⟨hid, hw⟩ := (hs.inv.queue id).1 hin
  have ht : (s.job id).terminal = false := ((RecordOk.waiting_iff (hs.inv.ok id hid)).1 hw).1
  have hreq := hs.request hid .SHUTDOWN fun _ => .inr (.inl hstop)
  refine triple_at_modify (triple_at_modify ?_)
  refine (finishCancelledLocked_runs (s := { s.update id (fun r => r.request .SHUTDOWN) with
    queue := s.queue.erase id }) (by rw [update_job_self]; exact ht)).weaken (fun _ h => h)
      (fun _ t hr => ?_) fun _ h => h
  obtain ⟨r, he, hb, hl⟩ := hr
  refine ⟨hreq.move (t := t) ?_, ?_, ?_⟩
  · rw [hl]
    exact .endWaiting id r hin he fun h => .inl (hb h)
  · show t.ledger.stopped = true
    rw [hl, (evict_fields _).2.1]
    exact hstop
  · show t.ledger.queue = _
    rw [hl, (evict_fields _).2.2]
    rfl

/-- The queue is emptied job by job. -/
theorem shutdownQueue_runs {ids : List JobId} :
    ∀ {s : Registry}, Since env owner refused l s → s.stopped = true →
    ids.Nodup → (∀ x ∈ ids, x ∈ s.queue) →
    Runs s (forEach ids (shutdownQueued env)) fun _ t => Since env owner refused l t ∧
      t.stopped = true := by
  induction ids with
  | nil => intro s hs hstop _ _; exact triple_pure fun t ht => ht ▸ ⟨hs, hstop⟩
  | cons id ids ih =>
    intro s hs hstop hnd hin
    rw [List.nodup_cons] at hnd
    refine (shutdownQueued_runs hs (hin id List.mem_cons_self) hstop).bind fun _ t ht => ?_
    obtain ⟨ht, hstop', hq⟩ := ht
    refine ih ht hstop' hnd.2 (fun x hx => ?_) t rfl
    rw [hq]
    have hne : x ≠ id := by rintro rfl; exact hnd.1 hx
    exact (List.mem_erase_of_ne hne).2 (hin x (List.mem_cons_of_mem _ hx))

/-- A job that is active is told of the shutdown. -/
theorem shutdownActive_reckons (hid : id < l.created) (hstop : l.stopped = true) :
    Reckons env owner refused l (shutdownActive env id) := by
  refine triple_get fun s hs => triple_when (fun ht => ?_) fun _ t ht => ht ▸ hs
  have hidc := hs.lt hid
  have hreq := hs.request hidc .SHUTDOWN fun _ => .inr (.inl (hs.moves.stopped hstop))
  have hlive : (s.job id).terminal = false := by simpa using ht
  refine triple_at_modify (triple_at_modify ((emitLocked_ledger id _ _).weaken (fun _ h => h)
    (fun _ t ht => ?_)
    fun _ => False.elim))
  obtain ⟨now, hl⟩ := ht
  exact hreq.cancel_requested hidc (by rw [update_job_self]; exact hlive) hl

/-- **The shutdown reckons.** -/
theorem shutdown_reckons : Reckons env owner refused l (shutdown env) := by
  refine triple_get fun s hs => triple_when (fun _ => triple_at_modify ?_) fun _ t ht => ht ▸ hs
  have hs' : Since env owner refused l { s with shutdownDone := true, stopped := true } :=
    hs.move (t := { s with shutdownDone := true, stopped := true }) .stop
  refine ((shutdownQueue_runs hs' rfl hs.inv.queue_nodup fun x hx => hx).weaken (fun _ h => h)
    (fun _ _ h => h)
    fun _ => False.elim).bind fun _ => triple_get fun t ht => ?_
  obtain ⟨ht, hstop⟩ := ht
  refine Triple.bind (forEach_reckons ht fun x hx =>
    shutdownActive_reckons (ht.inv.known x hx) hstop) fun _ =>
    triple_get fun u hu => forEach_reckons hu fun x hx => triple_get fun v hv => ?_
  intro w hw
  subst hw
  rw [forEach_modify]
  obtain ⟨sub, hsub⟩ := foldl_updateSubscription Subscription.forceClose (w.job x).subscribers w
  rw [hsub]
  exact hv.same rfl

/-! ## The dispatcher's sections -/

/-- **The pump reckons, and hands on a job that is dispatching.** -/
theorem pump_triple : Triple (· = eventTooLarge) (Since env owner refused l) (pump env)
    (fun head t => Since env owner refused l t ∧ ∀ id ∈ head, id < t.created ∧
      (t.job id).dispatching = true)
    (Since env owner refused l) := by
  refine Triple.bind purgeExpiredLocked_reckons fun _ => triple_get fun s hs => ?_
  refine triple_ite (fun _ => ?_) fun hroom => ?_
  · exact triple_pure fun _ ht => ⟨ht ▸ hs, by simp⟩
  · cases hq : s.queue with
    | nil => exact triple_pure fun t ht => ⟨ht ▸ hs, by simp⟩
    | cons id queue =>
      have hin : id ∈ s.queue := by rw [hq]; exact List.mem_cons_self
      have hid : id < s.created := ((hs.inv.queue id).1 hin).1
      have hlt : s.runningSlots < env.limits.maxRunning := by
        simp only [Bool.or_eq_true, decide_eq_true_eq, not_or, not_le] at hroom
        exact hroom.2
      refine triple_at_modify (triple_at_modify (triple_at_modify (triple_pure fun t ht => ?_)))
      subst ht
      refine ⟨hs.move (.take id queue hq hlt), fun x hx => ?_⟩
      obtain rfl : id = x := Option.some.inj hx
      exact ⟨hid, by simp [Registry.update]⟩

/-- The holder of the job `id` has given back its slot: the job is about to end, or to wait. -/
def Released (env : JobEnv) (refused : Prop) (l : Ledger) (id : JobId) (s : Registry) : Prop :=
  ∃ l₁, Moves env (some id) refused l l₁ ∧ l₁.Inv env env.limits.maxRetained ∧ id < l₁.created ∧
    (l₁.job id).Holds ∧
    s.ledger = { l₁.set id (l₁.job id).release with runningSlots := l₁.runningSlots - 1 }

/-- A slot that is given back releases its job. -/
theorem released {s : Registry} (hs : Since env (some id) refused l s) (hid : id < s.created)
    (hh : (s.job id).Holds) :
    Released env refused l id
      ({ s with runningSlots := s.runningSlots - 1 }.update id fun r =>
        { r with dispatching := false }) :=
  ⟨s.ledger, hs.moves, hs.inv, hid, hh, rfl⟩

/-- A released job is neither terminal nor dispatching. -/
theorem Released.job {s : Registry} (h : Released env refused l id s) :
    (s.job id).terminal = false ∧ (s.job id).dispatching = false := by
  obtain ⟨l₁, -, -, -, hh, hl⟩ := h
  have hjob : s.job id = (l₁.job id).release := by
    have := congrFun (congrArg Ledger.job hl) id
    exact this.trans set_job_self
  rw [hjob]
  exact ⟨hh.1, rfl⟩

/-- What leaves the ledger alone leaves it released, -/
theorem Released.same {s t : Registry} (h : Released env refused l id s)
    (ht : t.ledger = s.ledger) : Released env refused l id t := by
  unfold Released
  rw [ht]
  exact h

/-- as does a request. -/
theorem Released.request {s : Registry} (h : Released env refused l id s) (reason : Reason)
    (hr : reason = .SHUTDOWN → (s.job id).token.isSome = true ∨ s.stopped = true ∨ refused) :
    Released env refused l id (s.update id fun r => r.request reason) := by
  obtain ⟨l₁, hm, hinv, hid, hh, hl⟩ := h
  have hjob : s.job id = (l₁.job id).release :=
    (congrFun (congrArg Ledger.job hl) id).trans set_job_self
  have hstop : s.stopped = l₁.stopped := congrArg Ledger.stopped hl
  rw [hjob, hstop] at hr
  have hmove : Move env (some id) refused l₁ (l₁.set id ((l₁.job id).request reason)) :=
    .change id _ hid (.request reason) (request_blames hr)
  refine ⟨_, hm.tail hmove, hmove.inv hinv, hid, by rw [set_job_self]; exact hh, ?_⟩
  rw [update_ledger, hl, hjob, set_job_self]
  show Ledger.mk _ _ _ _ _ _ _ _ = Ledger.mk _ _ _ _ _ _ _ _
  simp [Ledger.set, Function.update_idem, JobRecord.release, JobRecord.request]

/-- The end of a job whose slot is given back. -/
theorem Released.ends {s t : Registry} (h : Released env refused l id s) {r : JobRecord}
    (he : Ends env id (s.job id) r) (hb : r.Blamed → (s.job id).Blamed ∨ refused)
    (hl : t.ledger = (s.ledger.set id r).evict env) : Since env (some id) refused l t := by
  obtain ⟨l₁, hm, hinv, hid, hh, hl₁⟩ := h
  have hjob : s.job id = (l₁.job id).release :=
    (congrFun (congrArg Ledger.job hl₁) id).trans set_job_self
  rw [hjob] at he hb
  have hmove : Move env (some id) refused l₁ t.ledger := by
    rw [hl, hl₁]
    have hset : Ledger.set { l₁.set id (l₁.job id).release with runningSlots := l₁.runningSlots -
        1 } id r =
        { l₁.set id r with runningSlots := l₁.runningSlots - 1 } := by
      simp [Ledger.set, Function.update_idem]
    rw [hset]
    exact .endHeld id r rfl hid hh he fun h => (hb h).imp_right .inr
  exact ⟨hm.tail hmove, hmove.inv hinv⟩

/-- A released job may end cancelled, -/
theorem Released.cancelled {s : Registry} (h : Released env refused l id s) :
    Runs s (finishCancelledLocked env id) fun _ => Since env (some id) refused l :=
  (finishCancelledLocked_runs h.job.1).weaken (fun _ h => h)
    (fun _ _ ⟨_, he, hb, hl⟩ => h.ends he (fun hr => .inl (hb hr)) hl) fun _ h => h

/-- or failed. -/
theorem Released.failed {s : Registry} (h : Released env refused l id s)
    {failure : Option Throwable} {message : String}
    (hf : failure = some .serviceShuttingDown ∧ message = "Job admission failed" → refused) :
    Runs s (finishFailedLocked env id failure message) fun _ => Since env (some id) refused l :=
  (finishFailedLocked_runs failure message h.job.1).weaken (fun _ h => h)
    (fun _ _ ⟨_, he, hb, hl⟩ => h.ends he (fun hr => (hb hr).imp_right hf) hl) fun _ h => h

/-- The job waits again. -/
theorem Released.putBack {s t : Registry} (h : Released env refused l id s)
    (hst : (s.job id).state = .QUEUED)
    (hl : t.ledger = { s.ledger with queue := id :: s.queue }) :
    Since env (some id) refused l t := by
  obtain ⟨l₁, hm, hinv, hid, hh, hl₁⟩ := h
  have hjob : s.job id = (l₁.job id).release :=
    (congrFun (congrArg Ledger.job hl₁) id).trans set_job_self
  have hst₁ : (l₁.job id).state = .QUEUED := by rw [hjob] at hst; exact hst
  have hd : (l₁.job id).dispatching = true := by
    rcases hh.2 with hd | hx | hx
    · exact hd
    · rw [hst₁] at hx; simp at hx
    · rw [hst₁] at hx; simp at hx
  have hq : s.queue = l₁.queue := congrArg Ledger.queue hl₁
  have hmove : Move env (some id) refused l₁ t.ledger := by
    rw [hl, hl₁, hq]
    exact .putBack id rfl hid hd hst₁
  exact ⟨hm.tail hmove, hmove.inv hinv⟩

/-- The late requests keep what a request with its reason keeps. -/
theorem requestLate_triple {I E : Registry → Prop} (hsame : ∀ {s t : Registry}, I s →
    t.ledger = s.ledger → I t)
    (hreq : ∀ {s : Registry} {reason : Reason}, I s → (reason = .SHUTDOWN → s.stopped = true) →
      I (s.update id fun r => r.request reason)) :
    Triple (· = eventTooLarge) I (requestLate env id) (fun _ => I) E := by
  intro s hs
  obtain ⟨b, k, hexp⟩ := expired_run env id s
  have hs' : I { s with ticks := k } := hsame hs rfl
  refine triple_at_ok hexp ?_ s rfl
  refine Triple.bind (R := fun _ => I) ?_ fun _ => ?_
  · refine triple_when (fun _ => ?_) fun _ t ht => ht ▸ hs'
    exact triple_modify fun t ht => by subst ht; exact hreq hs' (by simp)
  · refine triple_get fun t ht => triple_when (fun hstop => ?_) fun _ u hu => hu ▸ ht
    exact triple_modify fun u hu => by subst hu; exact hreq ht fun _ => hstop

/-- **A job that is put back reckons.** -/
theorem requeueBlocked_reckons (hid : id < l.created) (hd : (l.job id).dispatching = true)
    (hinv : l.Inv env env.limits.maxRetained) {s : Registry} (hs : s.ledger = l) :
    Runs s (requeueBlocked env id) fun _ => Since env (some id) refused l := by
  have hs₀ : Since env (some id) refused l s := ⟨hs ▸ .refl, hs ▸ hinv⟩
  subst hs
  have hst : (s.job id).state = .QUEUED := (hinv.ok id hid).dispatching hd
  have hh : (s.job id).Holds := ⟨by rw [JobRecord.terminal, hst]; rfl, .inl hd⟩
  have hrel := released hs₀ hid hh
  -- the job stays queued until it ends
  refine triple_at_modify (triple_at_modify ?_)
  refine Triple.bind (R := fun _ t => Released env refused s.ledger id t ∧
    (t.job id).state = .QUEUED) ?_ fun _ => ?_
  · refine (requestLate_triple (I := fun t => Released env refused s.ledger id t ∧
      (t.job id).state = .QUEUED)
      ?_ ?_).weaken (fun t ht => ?_) (fun _ _ h => h) fun _ h => h
    · intro t u ht hu
      have hjob : u.job id = t.job id := congrFun (congrArg Ledger.job hu) id
      exact ⟨ht.1.same hu, by rw [hjob]; exact ht.2⟩
    · intro t reason ht hr
      exact ⟨ht.1.request reason fun h => .inr (.inl (hr h)), by rw [update_job_self]; exact ht.2⟩
    · subst ht
      exact ⟨hrel, by rw [update_job_self]; exact hst⟩
  · refine triple_get fun t ht => triple_ite (fun _ => ht.1.cancelled) fun _ => ?_
    exact triple_modify fun u hu => by subst hu; exact ht.1.putBack ht.2 rfl

/-- **A dispatch that failed reckons.** -/
theorem finishDispatchFailure_reckons (hid : id < l.created) (hh : (l.job id).Holds)
    (hinv : l.Inv env env.limits.maxRetained) {s : Registry} (hs : s.ledger = l)
    {failure : Option Throwable}
    {cancelled : Bool} (hf : failure = some .serviceShuttingDown → refused)
    (hc : cancelled = true → refused ∨ (l.job id).token.isSome = true) :
    Runs s (finishDispatchFailure env id failure cancelled) fun _ => Since env
      (some id) refused l := by
  have hs₀ : Since env (some id) refused l s := ⟨hs ▸ .refl, hs ▸ hinv⟩
  subst hs
  have hrel := released hs₀ hid hh
  refine triple_at_modify (triple_at_modify (triple_at_get (triple_ite (fun _ => ?_) fun _ => ?_)))
  · exact hrel.failed fun h => hf h.1
  · refine triple_ite (fun hc' => ?_) fun _ => hrel.failed (by simp)
    have hreq := hrel.request .SHUTDOWN fun _ => ?_
    · exact triple_at_modify hreq.cancelled
    · rw [update_job_self] at hc' ⊢
      rw [Bool.or_eq_true] at hc'
      rcases hc' with h | h
      · exact (hc h).elim (fun h => .inr (.inr h)) .inl
      · exact .inl h

/-- The late requests leave a stopped registry's job with a request. -/
theorem requestLate_stopped (env : JobEnv) (id : JobId) (s : Registry) :
    Runs s (requestLate env id) fun _ t => t.stopped = s.stopped ∧
      (s.stopped = true → (t.job id).token.isSome = true) ∧
      (t.job id).dispatching = (s.job id).dispatching ∧
      (t.job id).state = (s.job id).state := by
  obtain ⟨b, k, hexp⟩ := expired_run env id s
  refine triple_at_ok hexp ?_
  refine Triple.bind (R := fun _ t => t.stopped = s.stopped ∧
    (t.job id).dispatching = (s.job id).dispatching ∧
    (t.job id).state = (s.job id).state) ?_ fun _ => triple_get fun t ht => ?_
  · refine triple_when (fun _ => triple_modify fun t ht => ?_) fun _ t ht => ?_
    · subst ht
      rw [update_job_self]
      exact ⟨rfl, rfl, rfl⟩
    · subst ht
      exact ⟨rfl, rfl, rfl⟩
  · refine triple_when (fun _ => triple_modify fun u hu => ?_) fun hns u hu => ?_
    · subst hu
      rw [update_job_self]
      exact ⟨ht.1, fun _ => JobRecord.isSome_request _ _, ht.2.1, ht.2.2⟩
    · subst hu
      exact ⟨ht.1, fun hstop => absurd (ht.1.trans hstop) (by simp [hns]), ht.2.1, ht.2.2⟩

/-- A job that starts is not asked to stop, and the registry is open. -/
theorem startAdmitted_runs (hid : id < l.created) (hd : (l.job id).dispatching = true)
    (hinv : l.Inv env env.limits.maxRetained) {s : Registry} (hs : s.ledger = l) :
    Runs s (startAdmitted env id) fun cancelled t => Since env (some id) refused l t ∧
      if cancelled then (t.job id).dispatching = true ∧ (t.job id).token.isSome = true
      else (t.job id).Executing ∧ (t.job id).dispatching = false := by
  have hs₀ : Since env (some id) refused l s := ⟨hs ▸ .refl, hs ▸ hinv⟩
  subst hs
  have hst : (s.job id).state = .QUEUED := (hinv.ok id hid).dispatching hd
  have hlate : Runs s (requestLate env id) fun _ t => Since env (some id) refused s.ledger t := by
    refine (requestLate_triple (I := Since env (some id) refused s.ledger) (fun ht hu => ht.same hu)
      fun {t reason} ht hr => ht.request (ht.lt hid) reason fun h => .inr (.inl (hr h))).weaken
        (fun t ht => ht ▸ hs₀)
      (fun _ _ h => h) fun _ h => h
  refine Triple.bind (R := fun _ t => Since env (some id) refused s.ledger t ∧
    (s.stopped = true → (t.job id).token.isSome = true) ∧ t.stopped = s.stopped ∧
    (t.job id).dispatching = (s.job id).dispatching ∧ (t.job id).state = (s.job id).state)
      ?_ fun _ => ?_
  · intro t ht
    have h1 := hlate t ht
    have h2 := requestLate_stopped env id s t ht
    rcases hr : requestLate env id t with ⟨e | a, u⟩
    · rw [hr] at h1; exact h1
    · rw [hr] at h1 h2
      exact ⟨h1, h2.2.1, h2.1, h2.2.2⟩
  refine triple_get fun t ht => ?_
  obtain ⟨hst', hstop, heq, hdt, hstt⟩ := ht
  refine triple_ite (fun hc => triple_pure fun u hu => ?_) fun hc => ?_
  · subst hu
    exact ⟨hst', by rw [if_pos rfl]; exact ⟨hdt.trans hd, hc⟩⟩
  have htok : (t.job id).token = none := by simpa [JobRecord.isCancellationRequested] using hc
  have hopen : t.stopped = false := by
    rw [heq]
    cases h : s.stopped with
    | false => rfl
    | true => have := hstop h; simp [htok] at this
  refine triple_at_modify (triple_at_ok (instant_run _) (triple_at_modify ((emitLocked_ledger id _ _).bind
    fun _ => triple_pure fun u hu => ?_)))
  obtain ⟨now, hl⟩ := hu
  have hset : u.ledger = t.ledger.set id ({ (t.job id).release with
      state := .RUNNING, startedAt := some (env.clock t.instants) }.emitted env id
          .started now) := by
    rw [hl]
    simp [Registry.ledger, Ledger.set, Registry.update, Function.update_idem, JobRecord.release]
  refine ⟨hst'.move (t := u) ?_, ?_⟩
  · rw [hset]
    exact .start id _ now rfl (hst'.lt hid) (hdt.trans hd) (hstt.trans hst) htok hopen
  · have hjob := (congrFun (congrArg Ledger.job hset) id).trans set_job_self
    have hjob' : u.job id = _ := hjob
    rw [hjob', if_neg (by simp)]
    exact ⟨.inl rfl, rfl⟩

/-! ## The workers' section -/

/-- No failure of a body looks like one of the admission. -/
theorem failureMessage_ne (e : Throwable) : failureMessage e ≠ "Job admission failed" := by
  cases e <;> simp [failureMessage]

/-- A successful end, up to the retention that follows. -/
theorem succeed_runs (hid : id < l.created) (hx : (l.job id).Executing)
    (hinv : l.Inv env env.limits.maxRetained)
    {result : JobResult} (hr : utf8Length result.json ≤ env.limits.maxResultBytes) {s : Registry}
    (hs : s.ledger = { l with runningSlots := l.runningSlots - 1 }) :
    Runs s (succeed env id result) fun _ t => Since env (some id) refused l
        (enforceRetention env t) := by
  have hin : utf8Length result.json ≤ env.limits.maxTotalResultBytes :=
    hr.trans env.limits.positive.2.2.2.2.1
  obtain ⟨t, hrun, hsheds, hle⟩ := reclaimResultRoomLocked_run (k := l.runningSlots) hin
    (by rw [hs]; exact hinv)
  rw [hs] at hsheds
  obtain ⟨l₂, hl₂, ht⟩ := hsheds.slots
  have hmoves : Moves env (some id) refused l l₂ := hl₂.moves hinv
  have hinv₂ := Moves.inv hinv hmoves
  -- the job is not completed, so that it is not dropped
  have hnone : (l.job id).completedNanos = none := by
    rw [← Option.not_isSome_iff_eq_none, (hinv.ok id hid).completed]
    rcases hx with hx | hx <;> simp [JobRecord.terminal, hx, JobState.terminal]
  obtain ⟨hjob, -, hslots, hcreated, -⟩ := hl₂.keeps hnone
  have hjobt : t.job id = l₂.job id := congrFun (congrArg Ledger.job ht) id
  have hbytes : t.retainedResultBytes = l₂.retainedResultBytes :=
    congrArg Ledger.retainedResultBytes ht
  have hx₂ : (l₂.job id).Executing := by rw [hjob]; exact hx
  refine triple_at_ok hrun (triple_at_modify (triple_at_modify (triple_at_modify
    (triple_at_ok (markCompletedLocked_run _ _) ?_))))
  refine (emitLocked_ledger id _ _).weaken (fun _ h => h) (fun _ u hu => ?_) fun _ h => h
  obtain ⟨now, hl⟩ := hu
  have hset : u.ledger = { t.ledger.set id (({ t.ledger.job id with
      resultJson := some result.json, completeness :=
        some result.completeness }.completed .SUCCEEDED
        (env.clock t.instants) (env.ticker t.ticks) (t.completionSequence + 1)).emitted env id
            .completed now) with
      retainedResultBytes := t.ledger.retainedResultBytes + utf8Length result.json } := by
    rw [hl]
    simp [Registry.ledger, Ledger.set, Registry.update, Function.update_idem, JobRecord.completed]
  have hmove : Move env (some id) refused l₂ (enforceRetention env u).ledger := by
    rw [enforceRetention_ledger, hset, ht, ← hslots]
    exact .succeed id result _ _ _ now rfl (hcreated ▸ hid) hx₂ (by rw [← hbytes]; exact hle)
  exact ⟨hmoves.tail hmove, hmove.inv hinv₂⟩

/-- **The conclusion of a job reckons.** -/
theorem conclude_runs (hid : id < l.created) (hx : (l.job id).Executing)
    (hinv : l.Inv env env.limits.maxRetained)
    {outcome : Except Throwable JobResult}
    (hr : ∀ result, outcome = .ok result → utf8Length result.json ≤ env.limits.maxResultBytes)
    {s : Registry}
    (hs : s.ledger = { l with runningSlots := l.runningSlots - 1 }) :
    Runs s (conclude env id outcome) fun _ t => Since env (some id) refused l
        (enforceRetention env t) := by
  have hlive : (l.job id).terminal = false := by
    rcases hx with hx | hx <;> simp [JobRecord.terminal, hx, JobState.terminal]
  have hd : (l.job id).release = l.job id := by
    have hnd : (l.job id).dispatching = false := by
      by_contra hd
      have := (hinv.ok id hid).dispatching (by simpa using hd)
      rcases hx with hx | hx <;> simp [this] at hx
    unfold JobRecord.release
    rw [← hnd]
  have hrel : Released env refused l id s := by
    refine ⟨l, .refl, hinv, hid, ⟨hlive, .inr hx⟩, ?_⟩
    rw [hs, hd]
    simp [Ledger.set]
  refine triple_at_get ?_
  cases outcome with
  | error failure =>
    refine triple_ite (fun _ => ?_) fun _ => ?_
    · exact hrel.cancelled.weaken (fun _ h => h) (fun _ _ ht => ht.enforced) fun _ h => h
    · refine (hrel.failed fun h => ?_).weaken (fun _ h => h) (fun _ _ ht => ht.enforced)
        fun _ h => h
      exact absurd h.2 (failureMessage_ne failure)
  | ok result =>
    refine triple_ite (fun hc => ?_) fun _ => succeed_runs hid hx hinv (hr result rfl) hs
    have hreq := hrel.request .SHUTDOWN fun _ => ?_
    · exact triple_at_modify (hreq.cancelled.weaken (fun _ h => h) (fun _ _ ht => ht.enforced)
        fun _ h => h)
    · rw [Bool.or_eq_true] at hc
      exact hc.imp_right .inl

/-- **The finish of a body reckons.** -/
theorem finish_reckons (hid : id < l.created) (hx : (l.job id).Executing)
    (hinv : l.Inv env env.limits.maxRetained)
    {outcome : Except Throwable JobResult}
    (hr : ∀ result, outcome = .ok result → utf8Length result.json ≤ env.limits.maxResultBytes)
    {s : Registry}
    (hs : s.ledger = l) : Runs s (finish env id outcome) fun _ => Since env
    (some id) refused l := by
  subst hs
  refine triple_at_modify ((conclude_runs hid hx hinv hr rfl).bind fun _ =>
    triple_modify fun t ht => ht)

end Libjadx
