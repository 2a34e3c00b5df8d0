import Libjadx.Proof.Acts
import Libjadx.Spec.Bytes

/-!
# The stream of a subscription

* `Streams`: what was polled, with what is ready to be polled, is an initial part of the job's log
  from where the subscription began; all of it as long as the subscription is open.
* `subscription_contiguous`: in a run that loses no event the polled events are consecutive, an open
  subscription gives all events emitted so far, and nothing comes after the event that ends the job.
* `subscription_not_contiguous`: an event that does not fit leaves a gap.
-/

namespace Libjadx

open JobRegistry Locked Registry

variable {env : JobEnv} {lenient retires : Prop} {s t u : Registry} {id : JobId}
    {sub : SubscriptionId} {after : ℕ}
  {ended : Bool} {l : List JobEvent}

/-! ## What subscriptions are told -/

/-- A subscription that is not told stays as it is. -/
theorem told_of_not_mem {f : Subscription → Subscription} {subs : List SubscriptionId}
    (h : sub ∉ subs) :
    ∀ g, told subs f g sub = g sub := by
  induction subs with
  | nil => exact fun g => rfl
  | cons x subs ih =>
    intro g
    rw [List.mem_cons, not_or] at h
    have hrest := ih h.2 (Function.update g x (f (g x)))
    rw [Function.update_of_ne h.1] at hrest
    exact hrest

/-- One that is in the list once is told once. -/
theorem told_of_mem {f : Subscription → Subscription} {subs : List SubscriptionId} (h : sub ∈ subs)
    (honce : subs.count sub ≤ 1) : ∀ g, told subs f g sub = f (g sub) := by
  induction subs with
  | nil => simp at h
  | cons x subs ih =>
    intro g
    by_cases hx : x = sub
    · subst hx
      have hnot : x ∉ subs := by
        rw [List.count_cons_self] at honce
        exact List.count_eq_zero.1 (by omega)
      have hrest := told_of_not_mem (f := f) hnot (Function.update g x (f (g x)))
      rw [Function.update_self] at hrest
      exact hrest
    · have hin : sub ∈ subs := (List.mem_cons.1 h).resolve_left fun he => hx he.symm
      rw [List.count_cons_of_ne (by simpa using hx)] at honce
      have hrest := ih hin honce (Function.update g x (f (g x)))
      rw [Function.update_of_ne (fun he => hx he.symm)] at hrest
      exact hrest

/-! ## The invariant of one stream -/

/-- The events of a record after a number. -/
def JobRecord.since (after : ℕ) (r : JobRecord) : List JobEvent :=
  r.log.filter fun e => after < e.sequence

/-- What was taken from a subscription, and what can be. -/
def Subscription.account (l : List JobEvent) (b : Subscription) : List JobEvent :=
  l ++ (b.replay ++ b.live)

/-- A closed subscription is offered nothing. -/
theorem Subscription.offer_closed {b : Subscription} (n : ℕ) (e : JobEvent) (h : b.closed = true) :
    b.offer n e = b :=
  if_pos (by rw [h]; rfl)

/-- An open subscription takes an event, or is closed. -/
theorem Subscription.offer_open {b : Subscription} (n : ℕ) (e : JobEvent) (h : b.closed = false)
    (ho : b.overflowed = false) : b.offer n e = { b with overflowed := true, closed := true } ∨
      b.offer n e = { b with live := b.live ++ [e] } := by
  unfold Subscription.offer
  rw [h, ho, if_neg (by decide)]
  split
  · exact .inl rfl
  · exact .inr rfl

/-- The subscription `sub` of the job `id`, which began after the event `after`, when `l` was
polled; `ended` tells whether the job was over then. -/
structure Streams (id : JobId) (after : ℕ) (ended : Bool) (sub : SubscriptionId) (l : List JobEvent)
    (s : Registry) :
    Prop where
  created : id < s.created
  opened : sub < s.opened
  number : after ≤ (s.job id).nextSequence
  once : (s.job id).subscribers.count sub ≤ 1
  others : ∀ x, x ≠ id → sub ∉ (s.job x).subscribers
  part : (s.subscription sub).account l <+: (s.job id).since after
  whole : (s.subscription sub).closed = false → sub ∈ (s.job id).subscribers ∧
    (s.subscription sub).overflowed = false ∧
      (s.subscription sub).account l = (s.job id).since after
  atOpen : (s.subscription sub).terminalAtOpen = ended
  delivered : (s.subscription sub).terminalDelivered = l.any JobEvent.terminal

namespace Streams

/-- Neither the stream nor the events of its job changed. -/
theorem keep (h : Streams id after ended sub l s) (hc : s.created ≤ t.created)
    (ho : s.opened ≤ t.opened)
    (hlog : (t.job id).log = (s.job id).log)
    (hnum : (s.job id).nextSequence ≤ (t.job id).nextSequence)
    (hsubs : ∀ x, (t.job x).subscribers.count sub = (s.job x).subscribers.count sub)
    (hsub : t.subscription sub = s.subscription sub) : Streams id after ended sub l t := by
  have hmem : ∀ x, sub ∈ (t.job x).subscribers ↔ sub ∈ (s.job x).subscribers := fun x => by
    rw [← List.count_pos_iff, ← List.count_pos_iff, hsubs]
  have hsince : (t.job id).since after = (s.job id).since after :=
    by rw [JobRecord.since, hlog, JobRecord.since]
  refine ⟨h.created.trans_le hc, h.opened.trans_le ho, h.number.trans hnum,
    (hsubs id).trans_le h.once, ?_, ?_, ?_,
    by rw [hsub]; exact h.atOpen, by rw [hsub]; exact h.delivered⟩
  · exact fun x hx hin => h.others x hx ((hmem x).1 hin)
  · rw [hsub, hsince]
    exact h.part
  · rw [hsub, hsince, hmem]
    exact h.whole

/-- A record other than the stream's, or nothing that the stream depends on. -/
theorem update (h : Streams id after ended sub l s) {x : JobId} {f : JobRecord → JobRecord}
    (hlog : (f (s.job x)).log = (s.job x).log)
    (hnum : (s.job x).nextSequence ≤ (f (s.job x)).nextSequence)
    (hsubs : (f (s.job x)).subscribers.count sub = (s.job x).subscribers.count sub) :
    Streams id after ended sub l (s.update x f) := by
  exact h.keep (le_refl _) (le_refl _) (update_rel s x f (fun r r' => r.log = r'.log) hlog
    (fun _ => rfl) id)
    (update_rel s x f (fun r r' => r'.nextSequence ≤ r.nextSequence) hnum (fun _ => le_refl _) id)
    (update_rel s x f (fun r r' => r.subscribers.count sub = r'.subscribers.count sub) hsubs
      fun _ => rfl) rfl

/-- The stream is closed. -/
theorem close (h : Streams id after ended sub l s) (hc : s.created ≤ t.created)
    (ho : s.opened ≤ t.opened)
    (hlog : (t.job id).log = (s.job id).log)
    (hnum : (s.job id).nextSequence ≤ (t.job id).nextSequence)
    (hsubs : ∀ x, (t.job x).subscribers.count sub ≤ (s.job x).subscribers.count sub)
    (hsub : t.subscription sub = (s.subscription sub).forceClose) :
    Streams id after ended sub l t := by
  refine ⟨h.created.trans_le hc, h.opened.trans_le ho, h.number.trans hnum,
    (hsubs id).trans h.once, ?_, ?_, ?_,
    by rw [hsub]; exact h.atOpen, by rw [hsub]; exact h.delivered⟩
  · intro x hx hin
    have hzero := List.count_eq_zero.2 (h.others x hx)
    have hpos := List.count_pos_iff.2 hin
    have := hsubs x
    omega
  · rw [hsub, JobRecord.since, hlog]
    exact h.part
  · rw [hsub]
    exact fun hopen => absurd hopen (by simp [Subscription.forceClose])

/-- An event of the stream's job. -/
theorem emit (h : Streams id after ended sub l s) (type : EventType) :
    Streams id after ended sub l (s.emitFits env id type) := by
  let e := (s.job id).nextEvent env id type (env.clock s.instants)
  have hself : (s.emitFits env id type).job id = (s.job id).emitted env id type
      (env.clock s.instants) :=
    Function.update_self _ _ _
  have hother : ∀ x, x ≠ id → (s.emitFits env id type).job x = s.job x := fun x hx =>
    Function.update_of_ne hx _ _
  have hsubs : ((s.emitFits env id type).job id).subscribers = (s.job id).subscribers :=
    by rw [hself]; rfl
  have hnew : after < e.sequence := Nat.lt_succ_of_le h.number
  have hsince : ((s.emitFits env id type).job id).since after = (s.job id).since after ++ [e] := by
    rw [hself]
    show ((s.job id).log ++ [e]).filter _ = _
    rw [List.filter_append, List.filter_singleton, decide_eq_true hnew]
    rfl
  have hknown : sub ∈ (s.job id).subscribers → (s.emitFits env id type).subscription sub =
      (s.subscription sub).offer env.limits.maxFramesPerSubscriber e := fun hin =>
        told_of_mem hin h.once _
  have hfields : ∀ {b : Subscription}, (s.emitFits env id type).subscription sub = b →
      b.account l <+: (s.job id).since after ++ [e] →
      (b.closed = false → b.overflowed = false ∧ b.account l = (s.job id).since after ++ [e] ∧
        sub ∈ (s.job id).subscribers) → b.terminalAtOpen = (s.subscription sub).terminalAtOpen →
      b.terminalDelivered = (s.subscription sub).terminalDelivered →
      Streams id after ended sub l (s.emitFits env id type) := by
    intro b hb hpart hwhole hat hdel
    refine ⟨h.created, h.opened,
      ?_, by rw [hsubs]; exact h.once, ?_, ?_, ?_, by rw [hb, hat]; exact h.atOpen,
      by rw [hb, hdel]; exact h.delivered⟩
    · rw [hself]
      exact h.number.trans (Nat.le_succ _)
    · intro x hx
      rw [hother x hx]
      exact h.others x hx
    · rwa [hb, hsince]
    · rw [hb, hsince, hsubs]
      exact fun hopen => ⟨(hwhole hopen).2.2, (hwhole hopen).1, (hwhole hopen).2.1⟩
  have hgrown : (s.subscription sub).account l <+: (s.job id).since after ++ [e] :=
    h.part.trans (List.prefix_append _ _)
  by_cases hopen : (s.subscription sub).closed = false
  · obtain ⟨hin, hover, haccount⟩ := h.whole hopen
    rcases Subscription.offer_open env.limits.maxFramesPerSubscriber e hopen hover with ho | ho
    · -- no room for the event: the stream is closed
      refine hfields ((hknown hin).trans ho) hgrown (fun hc => ?_) rfl rfl
      simp at hc
    · refine hfields ((hknown hin).trans ho) ?_ (fun _ => ⟨hover, ?_, hin⟩) rfl rfl
      · rw [← haccount]
        simp [Subscription.account]
      · rw [← haccount]
        simp [Subscription.account]
  · have hclosed : (s.subscription sub).closed = true := by simpa using hopen
    refine hfields (b := s.subscription sub) ?_ hgrown (fun hc => absurd hc hopen) rfl rfl
    by_cases hin : sub ∈ (s.job id).subscribers
    · exact (hknown hin).trans (Subscription.offer_closed _ _ hclosed)
    · exact told_of_not_mem hin _

/-- A job is dropped: its subscriptions are closed. -/
theorem drop (h : Streams id after ended sub l s) (x : JobId) :
    Streams id after ended sub l (removeRetained x s) := by
  let f : JobRecord → JobRecord := fun r => { r with subscribers := [], events := [] }
  have hlog := update_rel s x f (fun r r' => r.log = r'.log) rfl (fun _ => rfl) id
  have hnum := update_rel s x f (fun r r' => r'.nextSequence ≤ r.nextSequence) (le_refl _)
    (fun _ => le_refl _) id
  rw [removeRetained_told]
  by_cases hin : sub ∈ (s.job x).subscribers
  · have hx : x = id := by
      by_contra hx
      exact h.others x hx hin
    have hsubs := update_rel s x f
      (fun r r' => r.subscribers.count sub ≤ r'.subscribers.count sub) (by simp [f])
        fun _ => le_refl _
    exact h.close (le_refl _) (le_refl _) hlog hnum hsubs (told_of_mem hin (hx ▸ h.once) _)
  · have hsubs := update_rel s x f
      (fun r r' => r.subscribers.count sub = r'.subscribers.count sub)
        (List.count_eq_zero.2 hin).symm fun _ => rfl
    exact h.keep (le_refl _) (le_refl _) hlog hnum hsubs (told_of_not_mem hin _)

/-- One edit. -/
theorem edit (h : Streams id after ended sub l s) (he : Edit env lenient retires s t) :
    Streams id after ended sub l t := by
  cases he with
  | same t hs =>
    exact h.keep hs.created.ge hs.opened.ge (by rw [hs.job]) (by rw [hs.job])
      (fun x => by rw [hs.job])
      (by rw [hs.subscription])
  | record x f hf => exact h.update hf.log hf.nextSequence.ge (by rw [hf.subscribers])
  | emit x type =>
    by_cases hx : x = id
    · exact hx ▸ h.emit type
    · have hjob : (s.emitFits env x type).job id = s.job id :=
        Function.update_of_ne (fun he => hx he.symm) _ _
      refine h.keep (le_refl _) (le_refl _) (by rw [hjob]) (by rw [hjob]) (fun y => ?_)
        (told_of_not_mem (h.others x hx) _)
      exact update_rel s x (fun r => r.emitted env x type (env.clock s.instants))
        (fun r r' => r.subscribers.count sub = r'.subscribers.count sub) rfl (fun _ => rfl) y
  | lose x _ =>
    have hlost := h.update (x := x) (f := fun r => { r with nextSequence := r.nextSequence + 1 })
      rfl (Nat.le_succ _) rfl
    exact hlost.keep (le_refl _) (le_refl _) rfl (le_refl _) (fun _ => rfl) rfl
  | drop x => exact h.drop x
  | retire x f _ hf _ =>
    have hrec := h.update hf.log hf.nextSequence.ge (by rw [hf.subscribers])
    exact hrec.keep (le_refl _) (le_refl _) rfl (le_refl _) (fun _ => rfl) rfl
  | close x sub' =>
    let f : JobRecord → JobRecord := fun r => { r with subscribers := r.subscribers.erase sub' }
    by_cases hsub : sub' = sub
    · subst hsub
      refine h.close (le_refl _) (le_refl _) (update_rel s x f (fun r r' => r.log = r'.log) rfl
        (fun _ => rfl) id) (update_rel s x f (fun r r' => r'.nextSequence ≤ r.nextSequence)
        (le_refl _) (fun _ => le_refl _) id) ?_ (Function.update_self _ _ _)
      exact update_rel s x f (fun r r' => r.subscribers.count sub' ≤ r'.subscribers.count sub')
        (List.erase_sublist.count_le sub') fun _ => le_refl _
    · have hrec := h.update (x := x) (f := fun r =>
        { r with subscribers := r.subscribers.erase sub' }) rfl (le_refl _)
        (List.count_erase_of_ne (fun he => hsub he.symm))
      exact hrec.keep (le_refl _) (le_refl _) rfl (le_refl _) (fun _ => rfl)
        (Function.update_of_ne (fun he => hsub he.symm) _ _)
  | forceClose sub' =>
    by_cases hsub : sub' = sub
    · subst hsub
      exact h.close (le_refl _) (le_refl _) rfl (le_refl _) (fun _ => le_refl _)
        (Function.update_self _ _ _)
    · exact h.keep (le_refl _) (le_refl _) rfl (le_refl _) (fun _ => rfl)
        (Function.update_of_ne (fun he => hsub he.symm) _ _)

/-- **An edited registry streams on.** -/
theorem edited (h : Streams id after ended sub l s) (he : Edited env lenient retires s t) :
    Streams id after ended sub l t := by
  induction he with
  | refl => exact h
  | tail _ hstep ih => exact ih.edit hstep

/-- A job is enrolled. -/
theorem enroll (h : Streams id after ended sub l s) {r : JobRecord} (hr : r.subscribers = []) :
    Streams id after ended sub l (JobRegistry.enroll r s) := by
  have hne : ∀ {x}, x ≠ s.created → (JobRegistry.enroll r s).job x = s.job x := fun hx =>
    Function.update_of_ne hx _ _
  have hid : (JobRegistry.enroll r s).job id = s.job id := hne h.created.ne
  refine ⟨h.created.trans (Nat.lt_succ_self _),
    h.opened, by rw [hid]; exact h.number, by rw [hid]; exact h.once, ?_,
    by rw [hid]; exact h.part, by rw [hid]; exact h.whole, h.atOpen, h.delivered⟩
  intro x hx
  by_cases hnew : x = s.created
  · have hself : (JobRegistry.enroll r s).job x = r := by
      rw [hnew]
      exact Function.update_self _ _ _
    rw [hself, hr]
    exact List.not_mem_nil
  · rw [hne hnew]
    exact h.others x hx

/-- Another subscription is opened. -/
theorem subscribed (h : Streams id after ended sub l s) {x : JobId} {lastEventId : Option ℤ}
    {sub' : SubscriptionId}
    (hsub : Subscribed env x lastEventId s sub' t) : Streams id after ended sub l t := by
  have hne : sub ≠ sub' := fun he => absurd h.opened (by rw [he, hsub.opened]; exact lt_irrefl _)
  have hrec := h.update (x := x) (f := fun r => { r with subscribers := r.subscribers ++ [sub'] })
    rfl (le_refl _)
    (by rw [List.count_append, List.count_singleton, if_neg (by simpa using hne.symm), Nat.add_zero])
  rw [hsub.eq]
  exact hrec.keep (le_refl _) (Nat.le_succ _) rfl (le_refl _) (fun _ => rfl)
    (Function.update_of_ne hne _ _)

/-- A poll of the stream, or of another one. -/
theorem polled (h : Streams id after ended sub l s) (x : SubscriptionId) :
    Streams id after ended sub (l ++ if x = sub then (s.subscription sub).next.1.toList else [])
      (s.updateSubscription x fun b => b.next.2) := by
  by_cases hx : x = sub
  · subst hx
    have hself : (s.updateSubscription x fun b => b.next.2).subscription x =
        (s.subscription x).next.2 :=
      Function.update_self _ _ _
    have haccount : (s.subscription x).next.2.account (l ++ (s.subscription x).next.1.toList) =
        (s.subscription x).account l := by
      unfold Subscription.next Subscription.account
      split
      · simp
      · split <;> simp_all
    have hflags : (s.subscription x).next.2.closed = false → (s.subscription x).closed = false ∧
        (s.subscription x).next.2.overflowed = (s.subscription x).overflowed := by
      unfold Subscription.next
      intro hopen
      split at hopen
      · simp_all
      · split at hopen <;> simp_all
    have hends : (s.subscription x).next.2.terminalAtOpen = (s.subscription x).terminalAtOpen ∧
        (s.subscription x).next.2.terminalDelivered =
          ((s.subscription x).terminalDelivered || (s.subscription x).next.1.toList.any
              JobEvent.terminal) := by
      unfold Subscription.next
      split
      · simp
      · split <;> simp
    rw [if_pos rfl]
    refine ⟨h.created, h.opened, h.number, h.once, h.others, ?_, fun hopen => ?_, ?_, ?_⟩
    · rw [hself, haccount]
      exact h.part
    · rw [hself] at hopen ⊢
      obtain ⟨hc, ho⟩ := hflags hopen
      rw [haccount, ho]
      exact h.whole hc
    · rw [hself, hends.1]
      exact h.atOpen
    · rw [hself, hends.2, h.delivered, List.any_append]
  · rw [if_neg hx, List.append_nil]
    exact h.keep (le_refl _) (le_refl _) rfl (le_refl _) (fun _ => rfl)
      (Function.update_of_ne (fun he => hx he.symm) _ _)

/-- One act. -/
theorem happens {s : Scheduler} {a : Act} {t : Registry}
    (h : Streams id after ended sub l s.registry)
    (hh : Happens env lenient s a t) : Streams id after ended sub (l ++ s.polled sub a) t := by
  have hsame : ∀ {t : Registry}, (∀ x, a ≠ .call (.next x)) → Streams id after ended sub l t →
      Streams id after ended sub (l ++ s.polled sub a) t := by
    intro t hnext ht
    have hnil : s.polled sub a = [] := by
      unfold Scheduler.polled
      split
      · exact absurd rfl (hnext _)
      · rfl
    rwa [hnil, List.append_nil]
  cases hh with
  | edited hnext _ he => exact hsame hnext (h.edited he)
  | freed hf he =>
    have hfree : Streams id after ended sub l
        { s.registry with runningSlots := s.registry.runningSlots - 1 } :=
      ⟨h.created, h.opened, h.number, h.once, h.others, h.part, h.whole, h.atOpen, h.delivered⟩
    refine hsame (fun x ha => ?_) (hfree.edited he)
    rw [ha] at hf
    exact hf
  | submitted hsub =>
    obtain ⟨u, r, hu, -, -, hr, ht⟩ := hsub
    exact hsame (by simp) (((h.edited hu).enroll hr.subscribers).edited ht)
  | @taken x _ htaken =>
    obtain ⟨u, rest, hu, -, -, -, rfl⟩ := htaken
    have hrec := (h.edited hu).update (x := x) (f := fun r => { r with dispatching := true }) rfl
      (le_refl _) rfl
    exact hsame (by simp) (hrec.keep (le_refl _) (le_refl _) rfl (le_refl _) (fun _ => rfl) rfl)
  | @putBack x k _ _ =>
    have hrec := h.update (x := x) (f := JobRecord.release) rfl (le_refl _) rfl
    exact hsame (by simp) (hrec.keep (le_refl _) (le_refl _) rfl (le_refl _) (fun _ => rfl) rfl)
  | subscribed hu hsub => exact hsame (by simp) ((h.edited hu).subscribed hsub)
  | polled x => exact h.polled x

end Streams

/-! ## Where a stream begins -/

/-- What a new subscription rests on. -/
structure Rooted (s : Registry) : Prop where
  subscribers : ∀ x, ∀ y ∈ (s.job x).subscribers, y < s.opened
  nodup : s.records.Nodup
  known : ∀ x ∈ s.records, x < s.created
  events : ∀ x ∈ s.records, (s.job x).events = [] → (s.job x).log = []

namespace Rooted

/-- One record changed. -/
theorem update (h : Rooted s) {x : JobId} {f : JobRecord → JobRecord}
    (hsubs : (f (s.job x)).subscribers ⊆ (s.job x).subscribers)
    (hev : (f (s.job x)).events = [] → (f (s.job x)).log = (s.job x).log ∧ (s.job x).events = []) :
    Rooted (s.update x f) where
  subscribers y z hz := h.subscribers y z
    (update_rel s x f (fun r r' => r.subscribers ⊆ r'.subscribers) hsubs (fun _ =>
      List.Subset.refl _) y hz)
  nodup := h.nodup
  known := h.known
  events y hy hnil := by
    have hrel := update_rel s x f (fun r r' => r.events = [] → r.log = r'.log ∧ r'.events = []) hev
      (fun _ he => ⟨rfl, he⟩) y hnil
    rw [hrel.1]
    exact h.events y hy hrel.2

/-- The registry differs elsewhere. -/
theorem same (h : Rooted s) (hj : t.job = s.job) (ho : t.opened = s.opened)
    (hr : t.records = s.records)
    (hc : t.created = s.created) : Rooted t :=
  ⟨by rw [hj, ho]; exact h.subscribers, hr ▸ h.nodup, by rw [hr, hc]; exact h.known,
    by rw [hr, hj]; exact h.events⟩

/-- An edit keeps the registry rooted, -/
theorem edit (h : Rooted s) (he : Edit env lenient retires s t) : Rooted t := by
  cases he with
  | same t hs => exact h.same hs.job hs.opened hs.records hs.created
  | record x f hf => exact h.update (by rw [hf.subscribers]; exact List.Subset.refl _) fun he =>
      ⟨hf.log, hf.events ▸ he⟩
  | emit x type =>
    have hrec := h.update (x := x) (f := fun r => r.emitted env x type (env.clock s.instants))
      (List.Subset.refl _) ?_
    · exact hrec.same rfl rfl rfl rfl
    · intro hnil
      have hne : retain env ((s.job x).nextEvent env x type (env.clock s.instants))
          (s.job x).events ≠ [] := by
        unfold retain
        split <;> simp
      exact absurd hnil hne
  | lose x _ =>
    have hrec := h.update (x := x) (f := fun r => { r with nextSequence := r.nextSequence + 1 })
      (List.Subset.refl _)
      fun he => ⟨rfl, he⟩
    exact hrec.same rfl rfl rfl rfl
  | drop x =>
    rw [removeRetained_told]
    have hmem : ∀ {y}, y ∈ s.records.erase x → y ≠ x ∧ y ∈ s.records := fun hy =>
      (h.nodup.mem_erase_iff).1 hy
    refine ⟨fun y z hz => h.subscribers y z ?_, h.nodup.erase x, fun y hy => h.known y (hmem hy).2,
      fun y hy hnil => ?_⟩
    · exact update_rel s x (fun r => { r with subscribers := [], events := [] })
        (fun r r' => r.subscribers ⊆ r'.subscribers) (List.nil_subset _) (fun _ =>
          List.Subset.refl _) y hz
    · have hjob : ((s.update x fun r => { r with subscribers := [], events := [] }).job y) = s.job y :=
        update_job_of_ne (hmem hy).1
      have hnil' : ((s.update x fun r => { r with subscribers := [], events := [] }).job y).events =
        [] := hnil
      show ((s.update x fun r => { r with subscribers := [], events := [] }).job y).log = []
      rw [hjob] at hnil' ⊢
      exact h.events y (hmem hy).2 hnil'
  | retire x f _ hf _ =>
    have hrec := h.update (by rw [hf.subscribers]; exact List.Subset.refl _) fun he =>
      ⟨hf.log, hf.events ▸ he⟩
    exact hrec.same rfl rfl rfl rfl
  | close x sub' =>
    have hrec := h.update (x := x) (f := fun r => { r with subscribers := r.subscribers.erase sub' })
      (List.erase_subset) fun he => ⟨rfl, he⟩
    exact hrec.same rfl rfl rfl rfl
  | forceClose sub' => exact h.same rfl rfl rfl rfl

/-- and so does a run of them, -/
theorem edited (h : Rooted s) (he : Edited env lenient retires s t) : Rooted t := by
  induction he with
  | refl => exact h
  | tail _ hstep ih => exact ih.edit hstep

/-- and whatever happens. -/
theorem happens {s : Scheduler} {a : Act} {t : Registry} (h : Rooted s.registry)
    (hh : Happens env lenient s a t) : Rooted t := by
  cases hh with
  | edited _ _ he => exact h.edited he
  | freed _ he =>
    have hfree : Rooted { s.registry with runningSlots := s.registry.runningSlots - 1 } :=
      h.same rfl rfl rfl rfl
    exact hfree.edited he
  | submitted hsub =>
    obtain ⟨u, r, hu, -, -, hr, ht⟩ := hsub
    have hru := h.edited hu
    have hne : ∀ {x}, x ≠ u.created → (enroll r u).job x = u.job x := fun hx =>
      Function.update_of_ne hx _ _
    have hself : (enroll r u).job u.created = r := Function.update_self _ _ _
    refine Rooted.edited ⟨fun x y hy => ?_, ?_, fun x hx => ?_, fun x hx hnil => ?_⟩ ht
    · by_cases hx : x = u.created
      · rw [hx, hself, hr.subscribers] at hy
        exact absurd hy List.not_mem_nil
      · rw [hne hx] at hy
        exact hru.subscribers x y hy
    · refine List.nodup_append.2 ⟨hru.nodup, List.nodup_singleton _, fun a ha b hb => ?_⟩
      rw [List.mem_singleton.1 hb]
      exact (hru.known a ha).ne
    · rcases List.mem_append.1 hx with hx | hx
      · exact (hru.known x hx).trans (Nat.lt_succ_self _)
      · rw [List.mem_singleton.1 hx]
        exact Nat.lt_succ_self _
    · by_cases hxc : x = u.created
      · rw [hxc, hself]
        exact hr.log
      · rw [hne hxc] at hnil ⊢
        have hin : x ∈ u.records := (List.mem_append.1 hx).resolve_right fun hx =>
          hxc (List.mem_singleton.1 hx)
        exact hru.events x hin hnil
  | @taken x _ htaken =>
    obtain ⟨u, rest, hu, -, -, -, rfl⟩ := htaken
    have hrec := (h.edited hu).update (x := x) (f := fun r => { r with dispatching := true })
      (List.Subset.refl _)
      fun he => ⟨rfl, he⟩
    exact hrec.same rfl rfl rfl rfl
  | @putBack x k _ _ =>
    have hrec := h.update (x := x) (f := JobRecord.release) (List.Subset.refl _) fun he => ⟨rfl, he⟩
    exact hrec.same rfl rfl rfl rfl
  | @subscribed x _ u _ sub' hu hsub =>
    have hru := h.edited hu
    rw [hsub.eq]
    refine ⟨fun y z hz => ?_, hru.nodup, hru.known, fun y hy hnil => ?_⟩
    · have hrel := update_rel u x (fun r => { r with subscribers := r.subscribers ++ [sub'] })
        (fun r r' => ∀ z ∈ r.subscribers, z ∈ r'.subscribers ∨ z = sub')
          (fun z hz => by simpa using hz)
        (fun _ _ hz => .inl hz) y z hz
      rcases hrel with hin | rfl
      · exact (hru.subscribers y z hin).trans (Nat.lt_succ_self _)
      · rw [hsub.opened]
        exact Nat.lt_succ_self _
    · have hrel := update_rel u x (fun r => { r with subscribers := r.subscribers ++ [sub'] })
        (fun r r' => r.events = r'.events ∧ r.log = r'.log) ⟨rfl, rfl⟩ (fun _ => ⟨rfl, rfl⟩) y
      have hlog := hru.events y hy (hrel.1 ▸ hnil)
      exact hrel.2.trans hlog
  | polled x => exact h.same rfl rfl rfl rfl

end Rooted

/-! ## Numbers -/

/-- Sequence numbers behind the cursor. -/
theorem filter_range' (n : ℕ) : (List.range' 1 n).filter (fun k => after < k) = List.range'
    (after + 1) (n - after) := by
  induction n with
  | zero => simp
  | succ n ih =>
    rw [List.range'_1_concat, List.filter_append, ih, List.filter_singleton]
    by_cases hn : after < 1 + n
    · rw [decide_eq_true hn, show n + 1 - after = (n - after) + 1 by omega, List.range'_1_concat]
      have : after + 1 + (n - after) = 1 + n := by omega
      rw [this]
      rfl
    · rw [decide_eq_false hn, show n + 1 - after = 0 by omega, show n - after = 0 by omega]
      rfl

/-- In a record that lost no event the events after a number are numbered consecutively. -/
theorem RecordOk.since {r : JobRecord} (h : RecordOk id r) (after : ℕ) :
    (r.since after).map JobEvent.sequence = List.range' (after + 1) (r.nextSequence - after) := by
  rw [← filter_range', ← h.sequences, List.filter_map]
  rfl

/-- What a new subscription replays are all events after its origin. -/
theorem RecordOk.replayed {r : JobRecord} (h : RecordOk id r) {lastEventId : Option ℤ}
    (hkept : r.events = [] → r.log = []) (hseq : ∀ last ∈ lastEventId, 0 ≤ last)
    (hhist : ∀ last ∈ lastEventId, ∀ e ∈ r.events.head?, (e.sequence : ℤ) - 1 ≤ last) :
    r.since (r.origin lastEventId) = r.events.filter fun e => lastEventId.all fun last =>
      last < (e.sequence : ℤ) := by
  obtain ⟨gone, hgone⟩ := h.retained
  -- a ring that is empty has lost nothing
  cases hev : r.events with
  | nil =>
    rw [JobRecord.since, hkept hev]
    rfl
  | cons e rest =>
    rw [hev] at hgone hhist
    -- the events that the ring has lost are numbered before its first
    have hnum := h.sequences
    rw [← hgone, List.map_append] at hnum
    obtain ⟨k, -, hold, hnew⟩ := List.range'_eq_append_iff.1 hnum.symm
    have hle : ∀ x ∈ gone, x.sequence ≤ k := by
      intro x hx
      have hin := List.mem_map_of_mem (f := JobEvent.sequence) hx
      rw [hold, List.mem_range'_1] at hin
      omega
    have hlt : ∀ x ∈ e :: rest, k < x.sequence := by
      intro x hx
      have hin := List.mem_map_of_mem (f := JobEvent.sequence) hx
      rw [hnew, List.mem_range'_1] at hin
      omega
    have hfirst : e.sequence = k + 1 := by
      rw [List.map_cons] at hnew
      have hpos := List.range'_eq_cons_iff.1 hnew.symm
      omega
    have horigin : k ≤ r.origin lastEventId ∧ ∀ x ∈ e :: rest, r.origin lastEventId < x.sequence ↔
        (lastEventId.all fun last => last < (x.sequence : ℤ)) = true := by
      cases lastEventId with
      | none =>
        have ho : r.origin none = e.sequence - 1 := by simp [JobRecord.origin, hev]
        refine ⟨by omega, fun x hx => ?_⟩
        have := hlt x hx
        simp only [Option.all_none, iff_true]
        omega
      | some last =>
        have ho : r.origin (some last) = last.toNat := rfl
        have hpos := hseq last rfl
        have hback := hhist last rfl e rfl
        refine ⟨by omega, fun x hx => ?_⟩
        simp only [Option.all_some, decide_eq_true_eq]
        omega
    rw [JobRecord.since, ← hgone, List.filter_append]
    -- nothing that the ring has lost is behind the origin
    have hnone : gone.filter (fun x => r.origin lastEventId < x.sequence) = [] := by
      refine List.filter_eq_nil_iff.2 fun x hx => ?_
      have := hle x hx
      simp only [decide_eq_true_eq, not_lt]
      omega
    rw [hnone, List.nil_append]
    refine List.filter_congr fun x hx => ?_
    rw [Bool.eq_iff_iff, decide_eq_true_iff]
    exact horigin.2 x hx

/-! ## Draining -/

/-- A closed subscription has nothing to drain. -/
theorem Subscription.drain_closed {b : Subscription} (h : b.closed = true) (n : ℕ) :
    b.drain n = [] := by
  have hnext : b.next = (none, b) := if_pos h
  induction n with
  | zero => rfl
  | succ n ih =>
    rw [Subscription.drain, hnext]
    exact ih

/-- What the next poll of an open subscription yields. -/
theorem Subscription.next_open {b : Subscription} (h : b.closed = false) :
    b.next = match b.replay, b.live with
    | event :: replay, _ =>
      (some event, { b with replay := replay, terminalDelivered := b.terminalDelivered ||
        event.terminal })
    | [], event :: live =>
      (some event, { b with live := live, terminalDelivered := b.terminalDelivered || event.terminal })
    | [], [] => (none, { b with closed := b.terminalAtOpen || b.terminalDelivered }) := by
  unfold Subscription.next
  rw [h]
  rfl

/-- An open subscription gives what it has, in order. -/
theorem Subscription.drain_open (n : ℕ) : ∀ {b : Subscription}, b.closed = false →
    b.drain n = (b.replay ++ b.live).take n := by
  induction n with
  | zero => intro b _; rfl
  | succ n ih =>
    intro b h
    rw [Subscription.drain, next_open h]
    rcases hr : b.replay with _ | ⟨e, replay⟩
    · rcases hl : b.live with _ | ⟨e, live⟩
      · cases hc : b.terminalAtOpen || b.terminalDelivered with
        | true =>
          rw [List.append_nil, List.take_nil]
          exact drain_closed rfl n
        | false => simpa [hr, hl] using ih (b := { b with closed := false }) rfl
      · simpa [hr] using ih (b := { b with live := live, terminalDelivered := b.terminalDelivered ||
          e.terminal }) h
    · simpa [hr] using
        ih (b := { b with replay := replay, terminalDelivered := b.terminalDelivered || e.terminal }) h

/-! ## Runs -/

namespace Scheduler

variable {s t u : Scheduler} {a : Act} {o : Except Throwable Unit}

/-- A section that did not lose its event failed for something else. -/
theorem fits (ho : o ≠ .error eventTooLarge) : ∀ e, o = .error e → ¬ Unfit False e := by
  rintro e rfl ⟨rfl, -⟩
  exact ho rfl

/-- What has begun is reachable, -/
theorem Begun.reachable (h : Begun env s) : Reachable env s := by
  obtain ⟨job, subscription, -, hrun⟩ := h
  exact ⟨job, subscription, hrun⟩

/-- and rooted. -/
theorem Begun.rooted (h : Begun env s) : Rooted s.registry := by
  obtain ⟨job, subscription, hjob, hrun⟩ := h
  induction hrun with
  | refl =>
    refine ⟨fun x y hy => ?_, List.nodup_nil, by simp [empty], by simp [empty]⟩
    rw [show (empty job subscription).job x = job x from rfl, hjob x] at hy
    exact absurd hy List.not_mem_nil
  | tail _ hstep ih =>
    obtain ⟨a, o, ha, ho⟩ := hstep
    exact ih.happens (happens ha (fits ho))

/-- A delivery is a run. -/
theorem Delivers.run (h : Delivers env True sub s l t) : Relation.ReflTransGen (Step env) s t := by
  induction h with
  | refl => exact .refl
  | tail _ ha ho ih => exact ih.tail ⟨_, _, ha, ho trivial⟩

/-- An accepted subscription is a step, and its stream begins. -/
theorem subscribe_streams (hs : Begun env s) {lastEventId : Option ℤ} {r : Registry}
    (hsub : subscribe env id lastEventId s.registry = (.ok sub, r)) :
    Step env s { s with registry := r } ∧
      Streams id ((r.job id).origin lastEventId) (r.job id).terminal sub [] r := by
  have hact : act env s (.call (.subscribe id lastEventId)) = some
      (.ok (), { s with registry := r }) := by
    simp only [act, Call.known, if_true, call, void_outcome]
    rw [section_, hsub]
  have hstep : Step env s { s with registry := r } := ⟨_, _, hact, by simp⟩
  refine ⟨hstep, ?_⟩
  have htriple : Triple (Unfit False) (fun t => t = s.registry) (subscribe env id lastEventId) _ _ :=
    subscribe_triple id lastEventId s.registry
  obtain ⟨u, hu, hopen⟩ := htriple.ok rfl hsub
  have hroot := hs.rooted.edited hu
  have hid := hroot.known id hopen.known
  obtain ⟨job, subscription, hrun⟩ := hs.reachable
  have hinv := Reachable.inv ⟨job, subscription, hrun.tail hstep⟩
  -- the number of the subscription is new to every job
  have hfresh : ∀ x, sub ∉ (u.job x).subscribers := fun x hx =>
    absurd (hroot.subscribers x sub hx) (by rw [hopen.opened]; exact lt_irrefl _)
  let f : JobRecord → JobRecord := fun r => { r with subscribers := r.subscribers ++ [sub] }
  have hjob : r.job id = f (u.job id) := by
    rw [hopen.eq]
    exact update_job_self u f
  have hok : RecordOk id (r.job id) := hinv.ledger.ok id (by
    show id < r.created
    rw [hopen.eq]
    exact hid)
  have hreplay : (r.job id).since ((r.job id).origin lastEventId) = _ :=
    hok.replayed (by rw [hjob]; exact hroot.events id hopen.known)
    (fun last hlast => (hopen.sequence last hlast).1) (by rw [hjob]; exact hopen.history)
  have hself : r.subscription sub = ⟨(r.job id).events.filter fun e => lastEventId.all fun last =>
      last < (e.sequence : ℤ), [], false, (r.job id).terminal, false, false⟩ := by
    rw [hjob, hopen.eq]
    exact Function.update_self _ _ _
  -- what it replays is what the job has emitted behind the origin
  have haccount : (r.subscription sub).account [] = (r.job id).since
      ((r.job id).origin lastEventId) := by
    rw [hreplay, hself]
    simp [Subscription.account]
  have hin : sub ∈ (r.job id).subscribers := by
    rw [hjob]
    exact List.mem_append_right _ List.mem_cons_self
  refine ⟨by rw [hopen.eq]; exact hid, by rw [hopen.eq, hopen.opened]; exact Nat.lt_succ_self _,
    ?_, ?_, ?_, ?_, ?_, ?_, ?_⟩
  -- the origin is the last event that was seen, or the one before the ring
  · cases hlast : lastEventId with
    | some last =>
      have hle := (hopen.sequence last (by rw [hlast]; rfl)).2
      rw [hjob]
      show last.toNat ≤ (u.job id).nextSequence
      omega
    | none =>
      unfold JobRecord.origin
      cases hev : (r.job id).events with
      | nil => exact le_refl _
      | cons e rest =>
        have hlog : e ∈ (r.job id).log :=
          hok.retained.subset (by rw [hev]; exact List.mem_cons_self)
        have hin := List.mem_map_of_mem (f := JobEvent.sequence) hlog
        rw [hok.sequences, List.mem_range'_1] at hin
        show e.sequence - 1 ≤ _
        omega
  · rw [hjob]
    show ((u.job id).subscribers ++ [sub]).count sub ≤ 1
    rw [List.count_append, List.count_eq_zero.2 (hfresh id), List.count_singleton_self]
  -- no other job has the subscription
  · intro x hx
    rw [hopen.eq, show
      ({ u.update id f with opened := _, subscription := _, globalSubscribers := _ } : Registry).job x =
        u.job x from update_job_of_ne hx]
    exact hfresh x
  · exact haccount ▸ List.prefix_rfl
  · exact fun _ => ⟨hin, by rw [hself], haccount⟩
  · rw [hself]
  · rw [hself]
    rfl

/-- **A delivery streams.** -/
theorem Delivers.streams {s t : Scheduler} {ended : Bool} (h : Delivers env True sub s l t)
    (hs : Streams id after ended sub [] s.registry) : Streams id after ended sub l t.registry := by
  induction h with
  | refl => exact hs
  | tail _ ha ho ih => exact ih.happens (happens ha (fits (ho trivial)))

/-- **The stream of an accepted subscription.** In a run that loses no event the events polled are
numbered consecutively from the origin on. Draining an open subscription gives all events of the job
since then. A job that is over has the event that says so as its last, and emits nothing any more; a
poll ends the stream only when the job is over and all its events were given. -/
theorem subscription_contiguous (hs : Begun env s) {lastEventId : Option ℤ} {r : Registry}
    (hsub : subscribe env id lastEventId s.registry = (.ok sub, r))
    (hrun : Delivers env True sub { s with registry := r } l t) :
    l.map JobEvent.sequence = List.range' ((r.job id).origin lastEventId + 1) l.length ∧
      ((t.registry.subscription sub).closed = false → ∀ n, l ++ (t.registry.subscription sub).drain n =
        ((t.registry.job id).since ((r.job id).origin lastEventId)).take (l.length + n)) ∧
      ((t.registry.job id).terminal = true → (∃ e, (t.registry.job id).log.getLast? = some e ∧
        e.terminal = true) ∧
        ∀ l' u, Delivers env True sub t l' u → (u.registry.job id).log = (t.registry.job id).log) ∧
      ((t.registry.subscription sub).closed = false → (t.registry.subscription sub).next.2.closed = true →
        (t.registry.job id).terminal = true ∧
            l = (t.registry.job id).since ((r.job id).origin lastEventId)) := by
  obtain ⟨hstep, hstart⟩ := subscribe_streams hs hsub
  have hst := hrun.streams hstart
  obtain ⟨job, subscription, hreach⟩ := hs.reachable
  have hr : Reachable env { s with registry := r } := ⟨job, subscription, hreach.tail hstep⟩
  have ht : Reachable env t := ⟨job, subscription, (hreach.tail hstep).trans hrun.run⟩
  have hok : RecordOk id (t.registry.job id) := ht.inv.ledger.ok id hst.created
  have hlog := logOk_of_recordOk hok
  obtain ⟨rest, hrest⟩ := hst.part
  refine ⟨?_, fun hopen n => ?_, fun hterm => ⟨?_, fun l' u hl' => ?_⟩, fun hopen hclosed => ?_⟩
  -- the events since the origin are numbered, and what was given comes first
  · have hnum := hok.since ((r.job id).origin lastEventId)
    rw [← hrest, Subscription.account, List.append_assoc, List.map_append] at hnum
    obtain ⟨k, -, hl, -⟩ := List.range'_eq_append_iff.1 hnum.symm
    have hlen := congrArg List.length hl
    rw [List.length_map, List.length_range'] at hlen
    rw [hl, hlen]
  · rw [Subscription.drain_open n hopen, ← (hst.whole hopen).2.2, Subscription.account,
      List.take_length_add_append]
  -- the last event of a terminal job says so
  · obtain ⟨e, he, hterm'⟩ := hlog.ended.1 hterm
    obtain ⟨a, b, hab⟩ := List.append_of_mem he
    obtain rfl := (hlog.terminal_last a e b hab hterm').1
    exact ⟨e, by rw [hab, List.getLast?_concat], hterm'⟩
  · exact (((run_later ht.inv hl'.run).1.job id hst.created).ended hterm).2.2.2.2
  · -- the poll found nothing, and an event that ends the job was there from the start or given
    obtain ⟨-, -, haccount⟩ := hst.whole hopen
    have hnext : (t.registry.subscription sub).replay = [] ∧
        (t.registry.subscription sub).live = [] ∧
        ((t.registry.subscription sub).terminalAtOpen = true ∨
            (t.registry.subscription sub).terminalDelivered = true) := by
      unfold Subscription.next at hclosed
      rw [hopen] at hclosed
      revert hclosed
      cases (t.registry.subscription sub).replay with
      | cons e replay => simp
      | nil => cases (t.registry.subscription sub).live with
        | cons e live => simp
        | nil => simp
    rw [Subscription.account, hnext.1, hnext.2.1, List.append_nil, List.append_nil] at haccount
    refine ⟨?_, haccount⟩
    rcases hnext.2.2 with hat | hdel
    · have hended := ((run_later hr.inv hrun.run).1.job id hstart.created).ended
        (by rw [← hat, hst.atOpen])
      rw [JobRecord.terminal, hended.1]
      rw [hst.atOpen] at hat
      exact hat
    · rw [hst.delivered, List.any_eq_true] at hdel
      obtain ⟨e, he, heterm⟩ := hdel
      rw [haccount] at he
      exact hlog.ended.2 ⟨e, (List.mem_filter.1 he).1, heterm⟩

namespace LongProgress

/-! A run in which a progress event does not fit. -/

/-- An id as a UUID. -/
def uuid (id : JobId) : JString :=
  str "00000000-0000-4000-8000-" ++ List.replicate (12 - (digits id).length) 0x30 ++ digits id

def hexDigit (c : JChar) : JChar := if c < 10 then c + 0x30 else c + 0x37

/-- A character within a JSON string. -/
def escape (c : JChar) : JString :=
  if c = 0x22 ∨ c = 0x5C then [0x5C, c]
  else if c = 0x08 then str "\\b"
  else if c = 0x09 then str "\\t"
  else if c = 0x0A then str "\\n"
  else if c = 0x0C then str "\\f"
  else if c = 0x0D then str "\\r"
  else if c < 0x20 then str "\\u00" ++ [hexDigit (c / 16), hexDigit (c % 16)]
  else [c]

def stateName : JobState → JString
  | .QUEUED => str "QUEUED"
  | .RUNNING => str "RUNNING"
  | .CANCELLING => str "CANCELLING"
  | .SUCCEEDED => str "SUCCEEDED"
  | .FAILED => str "FAILED"
  | .CANCELLED => str "CANCELLED"

/-- The JSON object of an event of the first second of the clock. -/
def eventJson (d : EventData) : JString :=
  str "\x7b\"jobId\":\"" ++ uuid d.jobId ++ str "\",\"sequence\":" ++ digits d.sequence ++
  str ",\"type\":\"" ++ d.type.name ++ str "\",\"at\":\"1970-01-01T00:00:00Z\",\"state\":\"" ++
    stateName d.state ++
  str "\",\"progress\":\x7b\"completed\":" ++ digits d.progress.completed.toNat ++
    str ",\"total\":" ++
  (d.progress.total.elim (str "null") fun n => digits n.toNat) ++ str ",\"stage\":\"" ++
  d.progress.stage.flatMap escape ++ str "\"\x7d,\"resultUrl\":\"/api/v1/jobs/" ++ uuid d.jobId ++
    str "\"\x7d"

def jsonEnv : JobEnv :=
  { OneJob.smallEnv with clock := fun _ => 0, writeValueAsString := eventJson }

/-- `Long.MAX_VALUE`. -/
def maxLong : ℤ := 2 ^ 63 - 1

/-- Up to the task. -/
def started : List Act := [.pump, .tryAdmit (.lease 0), .capture none, .start, .execute true, .run 0]

/-- A stage of 128 control characters, and then a short one. -/
def reports : List Act :=
  [.call (.progress 0 maxLong (some maxLong) (some (List.replicate 128 1))),
    .call (.progress 0 maxLong (some maxLong) (some (str "x")))]

def polls : List Act := [.call (.next 0), .call (.next 0), .call (.next 0)]

/-- Run the acts, and collect what is polled. Where `fit` is set no act may throw. -/
def deliver (env : JobEnv) (fit : Bool) (sub : SubscriptionId) :
    List Act → Scheduler → Option (List JobEvent × Scheduler)
  | [], s => some ([], s)
  | a :: rest, s => match act env s a with
    | some (.ok _, t) => (deliver env fit sub rest t).map fun p => (polled sub s a ++ p.1, p.2)
    | some (.error _, t) =>
      if fit then none else (deliver env fit sub rest t).map fun p => (polled sub s a ++ p.1, p.2)
    | none => none

/-- A list of acts that can be delivered is a delivery. -/
theorem deliver_run {env : JobEnv} {fit : Bool} {sub : SubscriptionId} {s₀ : Scheduler} :
    ∀ {acts : List Act} {s t : Scheduler} {l₀ l : List JobEvent}, deliver env fit sub acts s = some
      (l, t) →
      Delivers env (fit = true) sub s₀ l₀ s → Delivers env (fit = true) sub s₀ (l₀ ++ l) t := by
  intro acts
  induction acts with
  | nil =>
    intro s t l₀ l h hd
    obtain ⟨rfl, rfl⟩ := Prod.mk.inj (Option.some.inj h)
    rwa [List.append_nil]
  | cons a rest ih =>
    intro s t l₀ l h hd
    rw [deliver] at h
    split at h
    · obtain ⟨p, hp, hpl⟩ := Option.map_eq_some_iff.1 h
      obtain ⟨rfl, rfl⟩ := Prod.mk.inj hpl
      rw [← List.append_assoc]
      exact ih hp (hd.tail ‹_› fun _ => by simp)
    · split at h
      · simp at h
      · obtain ⟨p, hp, hpl⟩ := Option.map_eq_some_iff.1 h
        obtain ⟨rfl, rfl⟩ := Prod.mk.inj hpl
        rw [← List.append_assoc]
        exact ih hp (hd.tail ‹_› fun hfit => absurd hfit ‹_›)
    · simp at h

/-- A job is submitted. -/
def queued : Scheduler := (perform jsonEnv [.call (.submit OneJob.someSpec)] OneJob.start).get
    (by decide +kernel)

theorem queued_begun : Begun jsonEnv queued :=
  ⟨fun _ => OneJob.noJob, _, fun _ => rfl, perform_run (Option.some_get _).symm⟩

/-- Its stream is opened. -/
def opened : Registry := (subscribe jsonEnv 0 none queued.registry).2

theorem opened_eq : subscribe jsonEnv 0 none queued.registry = (.ok 0, opened) := by
  have hok : (subscribe jsonEnv 0 none queued.registry).1.toOption = some 0 := by decide +kernel
  unfold opened
  rcases hr : subscribe jsonEnv 0 none queued.registry with ⟨e | sub, r⟩
  · rw [hr] at hok
    simp [Except.toOption] at hok
  · rw [hr] at hok
    obtain rfl := Option.some.inj hok
    rfl

theorem gap : (deliver jsonEnv false 0 (started ++ reports ++ polls)
    { queued with registry := opened }).map
    (fun p => p.1.map JobEvent.sequence) = some [1, 2, 4] := by decide +kernel

theorem noGap : (deliver jsonEnv true 0 (started ++ polls) { queued with registry := opened }).map
    (fun p => p.1.map JobEvent.sequence) = some [1, 2] := by decide +kernel

end LongProgress

/-- The event that did not fit is missing. -/
theorem subscription_not_contiguous :
    ¬ ∀ (env : JobEnv) (s : Scheduler) (id : JobId) (lastEventId : Option ℤ)
    (sub : SubscriptionId) (r : Registry) (l : List JobEvent) (t : Scheduler), Begun env s →
    subscribe env id lastEventId s.registry = (.ok sub, r) → Delivers env False sub
      { s with registry := r } l t →
    l.map JobEvent.sequence = List.range' ((r.job id).origin lastEventId + 1) l.length := by
  intro hall
  obtain ⟨⟨l, t⟩, hl, hseq⟩ := Option.map_eq_some_iff.1 LongProgress.gap
  have hrun := LongProgress.deliver_run hl .refl
  have hrange := hall LongProgress.jsonEnv LongProgress.queued 0 none 0 LongProgress.opened l t
    LongProgress.queued_begun LongProgress.opened_eq (by simpa using hrun)
  have hlen : l.length = 3 := by
    have := congrArg List.length hseq
    simpa using this
  rw [hseq, hlen] at hrange
  exact absurd hrange (by decide +kernel)

/-- A stream that gives the first two events. -/
theorem subscription_contiguous_two : ∃ l t, Delivers LongProgress.jsonEnv True 0
      { LongProgress.queued with registry := LongProgress.opened } l t ∧ l.length = 2 ∧
    l.map JobEvent.sequence = List.range'
      (((LongProgress.opened.job 0).origin none) + 1) l.length := by
  obtain ⟨⟨l, t⟩, hl, hseq⟩ := Option.map_eq_some_iff.1 LongProgress.noGap
  have hrun : Delivers LongProgress.jsonEnv True 0
      { LongProgress.queued with registry := LongProgress.opened } l t := by
    simpa using LongProgress.deliver_run hl .refl
  have hlen := congrArg List.length hseq
  rw [List.length_map] at hlen
  exact ⟨l, t, hrun, hlen, (subscription_contiguous LongProgress.queued_begun
    LongProgress.opened_eq hrun).1⟩

end Scheduler

end Libjadx
