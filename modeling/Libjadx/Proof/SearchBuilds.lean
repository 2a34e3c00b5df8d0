import Libjadx.Proof.Bound
import Libjadx.Proof.Order
import Libjadx.Proof.Progress
import Libjadx.Spec.SearchBuilds

/-!
# One build at a time

What the registry does to builds is said once (`Onward`): a build that is over stays over. `Inv` is
what the table and the holder of the lock know about the builds under way; it is kept by every
timely step.

Main results: `single_flight`, `single_flight_lost`.
-/

namespace Libjadx

namespace SearchBuilds

open JobRegistry Scheduler Locked

variable {env : JobEnv} {s t : State} {a : Act} {o : Except Throwable Unit} {r : Request}

/-! ## Flights -/

/-- Lists without repetition hold the same domains where one permutes the other. -/
theorem sameDomains_iff {l m : List Domain} (hl : l.Nodup) (hm : m.Nodup) :
    SameDomains l m ↔ l.Perm m :=
  (List.perm_ext_iff_of_nodup hl hm).symm

/-- For one identity the flights tell the sets of domains apart. -/
theorem flight_iff (key : SearchIndexKey) {l m : List Domain} (hl : l.Nodup) (hm : m.Nodup) :
    flight key l = flight key m ↔ SameDomains l m := by
  rw [sameDomains_iff hl hm, ← SearchService.domainsText_iff]
  unfold flight SearchService.sorted
  rw [List.append_cancel_left_eq]

/-! ## The registry -/

/-- What happens to the registry leaves the builds that are over as they are. -/
structure Onward (s t : Signals) : Prop where
  created : s.scheduler.registry.created ≤ t.scheduler.registry.created
  ended : ∀ id < s.scheduler.registry.created, (s.scheduler.registry.job id).terminal = true →
    (t.scheduler.registry.job id).terminal = true

/-- **What the signals do leaves the builds that are over as they are.** -/
theorem onward {s t : Signals} {b : Signals.Act} (h : Signals.Reachable env True s)
    (ha : Signals.act env s b = some (o, t)) (ho : o ≠ .error eventTooLarge) : Onward s t := by
  obtain hsame | ⟨c, hc⟩ := Signals.act_scheduler ha
  · exact ⟨by rw [hsame], fun id _ hover => by rw [hsame]; exact hover⟩
  · have hlater := (run_later h.scheduler.inv (.single ⟨c, o, hc, ho⟩)).1
    refine ⟨hlater.created, fun id hid hover => ?_⟩
    have hend := (hlater.job id hid).ended hover
    rw [JobRecord.terminal, hend.1]
    exact hover

/-- A job that the registry does not find is over. -/
theorem over_of_missing {s : Signals} (h : Signals.Reachable env True s) {id : JobId}
    (hid : id < s.scheduler.registry.created) (hmissing : id ∉ s.scheduler.registry.records) :
    (s.scheduler.registry.job id).terminal = true := by
  rw [← Bool.not_eq_false]
  intro hlive
  exact hmissing (h.scheduler.inv.ledger.live id hid hlive)

/-- A section that a caller runs. -/
theorem section_scheduler {s t : Signals} {c : Call}
    (h : Signals.act env s (.thread (.call c)) = some (o, t)) :
    ∃ u, call env c s.scheduler.registry = (o, u) ∧ t.scheduler.registry = u := by
  simp only [Signals.act, Libjadx.Act.dispatcher] at h
  obtain ⟨v, hv, rfl⟩ := Signals.run_some h
  simp only [Scheduler.act, Scheduler.section_] at hv
  split at hv
  · rcases hm : call env c s.scheduler.registry with ⟨e | x, u⟩
    · rw [hm] at hv
      obtain ⟨rfl, rfl⟩ := Prod.mk.inj (Option.some.inj hv)
      exact ⟨u, rfl, rfl⟩
    · rw [hm] at hv
      obtain ⟨rfl, rfl⟩ := Prod.mk.inj (Option.some.inj hv)
      exact ⟨u, rfl, rfl⟩
  · cases hv

/-- Where the time to live is a `long` of nanoseconds, a poll fails only for a job that is gone. -/
theorem snapshot_fails (httl : env.limits.terminalTtl < 2 ^ 63) {u v : Registry} {id : JobId}
    {e : Throwable}
    (h : call env (.snapshot id) u = (.error e, v)) :
    e = .noSuchElement "Job not found or expired" ∧ id ∉ v.records := by
  obtain ⟨w, hw⟩ := purgeExpiredLocked_ok httl u
  have hrun : JobRegistry.snapshot env id u = if id ∈ w.records then
      (.ok ((w.job id).snapshot id), w)
      else (.error (.noSuchElement "Job not found or expired"), w) := by
    unfold JobRegistry.snapshot findLocked
    rw [bind_ok hw]
    split
    · rename_i hin
      rw [bind_ok (a := w.job id) (t := w) (by simp [hin]), pure_run]
    · rename_i hout
      exact bind_error (by simp [hout])
  simp only [call, void] at h
  split at hrun
  · rw [bind_ok hrun] at h
    cases h
  · rw [bind_error hrun] at h
    obtain ⟨he, rfl⟩ := Prod.mk.inj h
    exact ⟨(Except.error.inj he).symm, ‹_›⟩

/-- A submission enrolls one job, or none where it throws. -/
theorem submit_created {u v : Registry} {spec : JobSpec} (h : call env (.submit spec) u = (o, v))
    (ho : o ≠ .error eventTooLarge) :
    (o = .ok () → v.created = u.created + 1) ∧ ∀ e, o = .error e → v.created = u.created := by
  have hsubmit : Triple (Unfit False) (fun t => t = u) (JobRegistry.submit env spec) (fun _ =>
      Submitted env False u)
      (fun t => Edited env False False u t ∨ False ∧ Submitted env False u t) :=
        submit_triple spec u
  simp only [call, void] at h
  rcases hm : JobRegistry.submit env spec u with ⟨e | id, w⟩
  · rw [bind_error hm] at h
    obtain ⟨rfl, rfl⟩ := Prod.mk.inj h
    refine ⟨(fun hok => by cases hok), fun _ _ => ?_⟩
    obtain hbad | hedited | ⟨hfalse, -⟩ := hsubmit.error rfl hm
    · exact absurd (by rw [hbad.1]) ho
    · exact hedited.queue_sublist.1
    · exact hfalse.elim
  · rw [bind_ok hm] at h
    obtain ⟨rfl, rfl⟩ := Prod.mk.inj h
    refine ⟨fun _ => ?_, fun _ herror => by cases herror⟩
    obtain ⟨x, r, hux, -, -, -, hxw⟩ := hsubmit.ok rfl hm
    have hx := hux.queue_sublist.1
    have hw : w.created = (enroll r x).created := hxw.queue_sublist.1
    rw [hw, ← hx, enroll]

/-! ## The invariant -/

/-- Builds for the same domains of an identity. -/
def Other (s : State) (r : Request) (id : JobId) : Prop :=
  ∃ m, s.jobs id = some (r.key, m) ∧ SameDomains r.domains m

/-- The invariant of the builds. -/
structure Inv (s : State) : Prop where
  created : ∀ id key l, s.jobs id = some (key, l) → id < s.signals.scheduler.registry.created ∧
    l.Nodup
  entries : ∀ f id, s.builds f = some id → id < s.signals.scheduler.registry.created
  single : SingleFlight s
  /-- The table knows the builds under way for its identity, except one that is about to be stored.
  -/
  table : ∀ id key l, s.buildIdentity = some key → s.jobs id = some (key, l) → s.Live id →
    s.builds (flight key l) = some id ∨ ∃ r, s.holder = some (r, .put id)
  holder : ∀ r p, s.holder = some (r, p) → s.buildIdentity = some r.key
  looking : ∀ r id, s.holder = some (r, .look id) → s.builds (flight r.key r.domains) = some id
  /-- A request that goes on to submit has found no build under way. -/
  clear : ∀ r p, s.holder = some (r, p) → p = .available ∨ (∃ l, p = .submit l) →
    ∀ id, Other s r id → ¬ s.Live id
  putting : ∀ r id, s.holder = some (r, .put id) → s.jobs id = some (r.key, r.domains) ∧
    ∀ j, Other s r j → j ≠ id → ¬ s.Live j

/-- It holds at the start. -/
theorem inv_start (job : JobId → JobRecord) (subscription : SubscriptionId → Subscription)
    (lease : LeaseId → Lease) : Inv (start job subscription lease) := by
  refine ⟨?_, ?_, ?_, ?_, ?_, ?_, ?_, ?_⟩ <;> simp [start, SingleFlight]

/-- What happens to the registry keeps the invariant. -/
theorem Inv.onward (h : Inv s) {u : Signals} (hu : Onward s.signals u) :
    Inv { s with signals := u } := by
  have hlive : ∀ id key l, s.jobs id = some (key, l) → State.Live { s with signals := u } id →
      s.Live id := by
    intro id key l hid hl
    unfold State.Live at *
    rw [← Bool.not_eq_true] at *
    exact fun hover => hl (hu.ended id (h.created id key l hid).1 hover)
  refine ⟨fun id key l hid => ?_, fun f id hf => ?_, ?_, ?_, h.holder, h.looking, ?_, ?_⟩
  · exact ⟨(h.created id key l hid).1.trans_le hu.created, (h.created id key l hid).2⟩
  · exact (h.entries f id hf).trans_le hu.created
  · intro i j key l m hi hj hlm hli hlj
    exact h.single i j key l m hi hj hlm (hlive i key l hi hli) (hlive j key m hj hlj)
  · exact fun id key l hkey hid hl => h.table id key l hkey hid (hlive id key l hid hl)
  · rintro r p hp hat id ⟨m, hid, hm⟩ hl
    exact h.clear r p hp hat id ⟨m, hid, hm⟩ (hlive id r.key m hid hl)
  · intro r id hp
    refine ⟨(h.putting r id hp).1, ?_⟩
    rintro j ⟨m, hj, hm⟩ hne hl
    exact (h.putting r id hp).2 j ⟨m, hj, hm⟩ hne (hlive j r.key m hj hl)

/-- The lock is given back by a thread that has no build to store. -/
theorem Inv.leave (h : Inv s) (hput : ∀ r id, s.holder = some (r, .put id) → ¬ s.Live id)
    (reply : Reply) : Inv (s.leave reply) := by
  refine ⟨h.created, h.entries, h.single, fun id key l hkey hid hl => ?_, nofun, nofun, nofun, nofun⟩
  obtain hin | ⟨r, hr⟩ := h.table id key l hkey hid hl
  · exact .inl hin
  · exact absurd hl (hput r id hr)

/-- Requests of the same domains are one flight. -/
theorem Other.flight {id : JobId} {m : List Domain} (h : Inv s) (hid : s.jobs id = some (r.key, m))
    (hm : SameDomains r.domains m) : flight r.key r.domains = flight r.key m :=
  (flight_iff r.key r.distinct (h.created id r.key m hid).2).2 hm

/-- The request goes on to submit: the build that the table has is over. -/
theorem Inv.goto_available {id : JobId} (h : Inv s) (hp : s.holder = some (r, .look id))
    (hover : ¬ s.Live id) : Inv (s.goto r .available) := by
  have htable : ∀ x key l, s.buildIdentity = some key → s.jobs x = some (key, l) → s.Live x →
      s.builds (SearchBuilds.flight key l) = some x := by
    intro x key l hkey hx hl
    obtain hin | ⟨r', hr'⟩ := h.table x key l hkey hx hl
    · exact hin
    · rw [hp] at hr'
      cases hr'
  refine ⟨h.created, h.entries, h.single, ?_, ?_, nofun, ?_, nofun⟩
  · exact fun x key l hkey hx hl => .inl (htable x key l hkey hx hl)
  · rintro r' p' ⟨⟩
    exact h.holder r _ hp
  · rintro r' p' ⟨⟩ - x ⟨m, hx, hm⟩ hl
    have hin := htable x r.key m (h.holder r _ hp) hx hl
    rw [← Other.flight h hx hm, h.looking r id hp] at hin
    exact hover (Option.some.inj hin ▸ hl)

/-- From one place between the table and the submission to the next. -/
theorem Inv.goto_submit {l : LeaseId} (h : Inv s) (hp : s.holder = some (r, .available)) :
    Inv (s.goto r (.submit l)) := by
  refine ⟨h.created, h.entries, h.single, fun x key m hkey hx hl => ?_, ?_, nofun, ?_, nofun⟩
  · obtain hin | ⟨r', hr'⟩ := h.table x key m hkey hx hl
    · exact .inl hin
    · rw [hp] at hr'
      cases hr'
  · rintro r' p' ⟨⟩
    exact h.holder r _ hp
  · rintro r' p' ⟨⟩ - x hx
    exact h.clear r _ hp (.inl rfl) x hx

/-- The lock is taken: the table is kept where it has the identity of the request. -/
theorem Inv.found {w : List Request} (h : Inv s) (hp : s.holder = none)
    (hlost : s.buildIdentity ≠ some r.key → ∀ id l, s.jobs id = some (r.key, l) → ¬ s.Live id) :
    Inv (({ s with waiting := w }.claim r.key).found r) := by
  have hclaimed : ∃ b, { s with waiting := w }.claim r.key = { s with
      waiting := w, builds := b, buildIdentity := some r.key } ∧
      (∀ f id, b f = some id → s.builds f = some id) ∧
      ∀ id l, s.jobs id = some (r.key, l) → s.Live id →
          b (SearchBuilds.flight r.key l) = some id := by
    -- whether the table is for this identity already
    unfold State.claim
    split
    · rename_i heq
      refine ⟨s.builds, ?_, fun _ _ hf => hf, fun id l hid hl => ?_⟩
      · show _ = { s with waiting := w, builds := s.builds, buildIdentity := some r.key }
        rw [← heq]
      · obtain hin | ⟨r', hr'⟩ := h.table id r.key l heq hid hl
        · exact hin
        · rw [hp] at hr'
          cases hr'
    · rename_i hne
      -- the table of another identity is left behind, with no build of this one alive
      exact ⟨fun _ => none, rfl, nofun, fun id l hid hl => absurd hl (hlost hne id l hid)⟩
  obtain ⟨b, hb, hold, htable⟩ := hclaimed
  rw [hb]
  unfold State.found
  refine ⟨h.created, fun f id hf => h.entries f id (hold f id hf), h.single, ?_, ?_, ?_, ?_, ?_⟩
  · rintro id key l ⟨⟩ hid hl
    exact .inl (htable id l hid hl)
  · rintro r' p' ⟨⟩
    rfl
  · intro r' id hp'
    simp only [State.goto, Option.some.injEq, Prod.mk.injEq] at hp'
    obtain ⟨rfl, hpoint⟩ := hp'
    split at hpoint
    · cases hpoint
      assumption
    · cases hpoint
  -- a build of these domains that lives would have been found
  · intro r' p' hp' hat id hother hl
    simp only [State.goto, Option.some.injEq, Prod.mk.injEq] at hp'
    obtain ⟨rfl, rfl⟩ := hp'
    obtain ⟨m, hid, hm⟩ := hother
    have hin := htable id m hid hl
    rw [← Other.flight h hid hm] at hin
    rw [hin] at hat
    simp at hat
  · intro r' id hp'
    simp only [State.goto, Option.some.injEq, Prod.mk.injEq] at hp'
    obtain ⟨-, hpoint⟩ := hp'
    split at hpoint <;> cases hpoint

/-- What the poll says of the build that the table has. -/
theorem Inv.looked {id : JobId} {u : Signals} (h : Inv s) (hu : Onward s.signals u)
    (hp : s.holder = some (r, .look id))
    (hgone : ∀ message, o = .error (.noSuchElement message) →
      (u.scheduler.registry.job id).terminal = true) :
    Inv ({ s with signals := u }.looked r id o) := by
  have h' := h.onward hu
  have hleave : ∀ reply, Inv (State.leave reply { s with signals := u }) := by
    intro reply
    refine h'.leave (fun r' x hr' => ?_) reply
    change s.holder = _ at hr'
    rw [hp] at hr'
    cases hr'
  have hover : (u.scheduler.registry.job id).terminal = true →
      ¬ State.Live { s with signals := u } id := by
    intro hterminal hl
    exact absurd (hterminal.symm.trans hl) (by decide)
  unfold State.looked
  split
  · split
    · exact hleave _
    · rename_i hover'
      rw [Bool.not_eq_false] at hover'
      split
      · exact hleave _
      · exact h'.goto_available hp (hover hover')
  · exact h'.goto_available hp (hover (hgone _ rfl))
  · exact hleave _

/-- The build that a request submits is the only one for its domains. -/
theorem Inv.submitted {l : LeaseId} {u : Signals} (h : Inv s) (hu : Onward s.signals u)
    (hp : s.holder = some (r, .submit l))
    (hone : o = .ok () → u.scheduler.registry.created = s.signals.scheduler.registry.created + 1)
    (hsame : ∀ e, o = .error e → u.scheduler.registry.created = s.signals.scheduler.registry.created) :
    Inv (s.submitted r o u) := by
  have h' := h.onward hu
  have hfresh : s.jobs s.signals.scheduler.registry.created = none := by
    rcases hjob : s.jobs s.signals.scheduler.registry.created with - | ⟨key, m⟩
    · rfl
    · exact absurd (h.created _ key m hjob).1 (lt_irrefl _)
  unfold State.submitted
  rcases o with e | x
  · simp only [hsame e rfl, if_true]
    refine h'.leave (fun r' x hr' => ?_) _
    change s.holder = _ at hr'
    rw [hp] at hr'
    cases hr'
  · have hcreated := hone rfl
    set n := s.signals.scheduler.registry.created with hn
    have hne : ¬ u.scheduler.registry.created = n := by omega
    simp only [if_neg hne]
    have hclear : ∀ x, Other s r x → ¬ State.Live { s with signals := u } x :=
      h'.clear r _ hp (.inr ⟨l, rfl⟩)
    have hjobs : ∀ x key m, Function.update s.jobs n (some (r.key, r.domains)) x = some (key, m) →
        x = n ∧ r.key = key ∧ r.domains = m ∨ x ≠ n ∧ s.jobs x = some (key, m) := by
      intro x key m hx
      by_cases hxn : x = n
      · rw [hxn, Function.update_self] at hx
        simp only [Option.some.injEq, Prod.mk.injEq] at hx
        exact .inl ⟨hxn, hx⟩
      · rw [Function.update_of_ne hxn] at hx
        exact .inr ⟨hxn, hx⟩
    refine ⟨?_, h'.entries, ?_, ?_, ?_, nofun, ?_, ?_⟩
    · intro x key m hx
      obtain ⟨rfl, -, rfl⟩ | ⟨-, hx⟩ := hjobs x key m hx
      · exact ⟨by show n < u.scheduler.registry.created; omega, r.distinct⟩
      · exact h'.created x key m hx
    · intro i j key l m hi hj hlm hli hlj
      obtain ⟨rfl, rfl, rfl⟩ | ⟨-, hi⟩ := hjobs i key l hi <;> obtain ⟨rfl, hk, rfl⟩ | ⟨-, hj⟩ :=
        hjobs j _ m hj
      · rfl
      · exact absurd hlj (hclear j ⟨m, hj, hlm⟩)
      · subst hk
        exact absurd hli (hclear i ⟨l, hi, fun d => (hlm d).symm⟩)
      · exact h'.single i j key l m hi hj hlm hli hlj
    · intro x key m hkey hx hl
      obtain ⟨rfl, -, -⟩ | ⟨-, hx⟩ := hjobs x key m hx
      · exact .inr ⟨r, rfl⟩
      · obtain hin | ⟨r', hr'⟩ := h'.table x key m hkey hx hl
        · exact .inl hin
        · change s.holder = _ at hr'
          rw [hp] at hr'
          cases hr'
    · rintro r' p' ⟨⟩
      exact h.holder r _ hp
    · rintro r' p' ⟨⟩ hat
      obtain hat | ⟨l, hat⟩ := hat <;> cases hat
    · rintro r' x ⟨⟩
      refine ⟨Function.update_self .., ?_⟩
      rintro j ⟨m, hj, hm⟩ hjn hl
      obtain ⟨rfl, -, -⟩ | ⟨-, hj⟩ := hjobs j _ m hj
      · exact hjn rfl
      · exact hclear j ⟨m, hj, hm⟩ hl

/-- The build is stored in the table, or it is over already. -/
theorem Inv.stored {id : JobId} {u : Signals} (h : Inv s) (hu : Onward s.signals u)
    (hp : s.holder = some (r, .put id))
    (hgone : ∀ e, o = .error e → (u.scheduler.registry.job id).terminal = true) :
    Inv ({ s with signals := u }.stored r id o) := by
  have h' := h.onward hu
  unfold State.stored
  split
  · refine ⟨h'.created, fun f x hf => ?_, h'.single, fun x key m hkey hx hl =>
      .inl ?_, nofun, nofun, nofun, nofun⟩
    · change Function.update s.builds (flight r.key r.domains) (some id) f = some x at hf
      by_cases hflight : f = flight r.key r.domains
      · rw [hflight, Function.update_self] at hf
        obtain rfl := Option.some.inj hf
        exact (h'.created id _ _ (h'.putting r id hp).1).1
      · rw [Function.update_of_ne hflight] at hf
        exact h'.entries f x hf
    obtain rfl : r.key = key := Option.some.inj ((h.holder r _ hp).symm.trans hkey)
    obtain ⟨hid, honly⟩ := h'.putting r id hp
    by_cases hxid : x = id
    · subst hxid
      obtain rfl : r.domains = m := (Prod.mk.inj (Option.some.inj (hid.symm.trans hx))).2
      exact Function.update_self ..
    · have hdiffers : flight r.key m ≠ flight r.key r.domains := by
        intro heq
        have hsame := (flight_iff r.key r.distinct (h.created x r.key m hx).2).1 heq.symm
        exact honly x ⟨m, hx, hsame⟩ hxid hl
      obtain hin | ⟨r', hr'⟩ := h'.table x r.key m hkey hx hl
      · show Function.update s.builds (flight r.key r.domains) (some id) (flight r.key m) = some x
        rw [Function.update_of_ne hdiffers]
        exact hin
      · change s.holder = _ at hr'
        rw [hp] at hr'
        cases hr'
        exact absurd rfl hxid
  · rename_i e
    refine h'.leave (fun r' x hr' => ?_) _
    change s.holder = _ at hr'
    rw [hp] at hr'
    cases hr'
    intro hl
    exact absurd ((hgone e rfl).symm.trans hl) (by decide)

/-! ## Steps -/

@[simp] theorem looked_signals (r : Request) (id : JobId) (o : Except Throwable Unit) (s : State) :
    (s.looked r id o).signals = s.signals := by
  unfold State.looked
  split
  · split
    · rfl
    · split <;> rfl
  · rfl
  · rfl

@[simp] theorem submitted_signals (r : Request) (o : Except Throwable Unit) (u : Signals)
    (s : State) :
    (s.submitted r o u).signals = u := by
  unfold State.submitted
  cases o <;> rfl

@[simp] theorem stored_signals (r : Request) (id : JobId) (o : Except Throwable Unit) (s : State) :
    (s.stored r id o).signals = s.signals := by
  unfold State.stored
  split <;> rfl

@[simp] theorem claim_signals (key : SearchIndexKey) (s : State) :
    (s.claim key).signals = s.signals := by
  unfold State.claim
  split <;> rfl

/-- What one act of the service or of the registry does. -/
inductive Does (env : JobEnv) (s : State) : Act → Except Throwable Unit → State → Prop
  | other {a : Act} {b : Signals.Act} {o : Except Throwable Unit} {u : Signals} :
      Signals.act env s.signals b = some (o, u) → Does env s a o { s with signals := u }
  | idle {a : Act} {o : Except Throwable Unit} {identity : Option SearchIndexKey}
      {waiting : List Request} :
      Does env s a o { s with identity := identity, waiting := waiting }
  | enter {i : ℕ} {r : Request} : s.holder = none → s.waiting[i]? = some r →
      Does env s (.enter i) (.ok ()) (({ s with waiting := s.waiting.eraseIdx i }.claim r.key).found r)
  | look {r : Request} {id : JobId} {o : Except Throwable Unit} {u : Signals} :
      s.holder = some (r, .look id) →
      Signals.act env s.signals (.thread (.call (.snapshot id))) = some (o, u) →
      Does env s .look o ({ s with signals := u }.looked r id o)
  | refuse {a : Act} {r : Request} {p : Point} {e : Throwable} : s.holder = some (r, p) →
      p = .available ∨ (∃ l, p = .submit l) → Does env s a (.error e) (s.leave (.throws e))
  | leased {a : Act} {r : Request} {l : LeaseId} {b : Signals.Act} {u : Signals} :
      s.holder = some (r, .available) →
      Signals.act env s.signals b = some (.ok (), u) →
        Does env s a (.ok ()) ({ s with signals := u }.goto r (.submit l))
  | submit {failure : Option Throwable} {r : Request} {l : LeaseId} {o : Except Throwable Unit}
      {u : Signals} :
      s.holder = some (r, .submit l) →
      Signals.act env s.signals (.thread (.call (.submit (jobSpec r)))) = some (o, u) →
      Does env s (.submit failure) o (s.submitted r o u)
  | put {r : Request} {id : JobId} {o : Except Throwable Unit} {u : Signals} :
      s.holder = some (r, .put id) →
      Signals.act env s.signals (.thread (.call (.snapshot id))) = some (o, u) →
      Does env s .put o ({ s with signals := u }.stored r id o)

/-- **What an act does.** -/
theorem does (h : act env s a = some (o, t)) : Does env s a o t := by
  cases a with
  | other b =>
    obtain ⟨⟨o', u⟩, hu, hut⟩ := Option.map_eq_some_iff.1 h
    obtain ⟨rfl, rfl⟩ := Prod.mk.inj hut
    exact .other hu
  | publish identity =>
    obtain ⟨rfl, rfl⟩ := Prod.mk.inj (Option.some.inj h)
    exact .idle
  | runningBuild domains =>
    simp only [act] at h
    split at h
    · cases h
    · obtain ⟨rfl, rfl⟩ := Prod.mk.inj (Option.some.inj h)
      exact .idle
    -- a build whose job is known is polled, and that may expire others
    · split at h
      · obtain ⟨rfl, rfl⟩ := Prod.mk.inj (Option.some.inj h)
        exact .idle
      · obtain ⟨⟨o', u⟩, hu, hut⟩ := Option.map_eq_some_iff.1 h
        obtain ⟨rfl, rfl⟩ := Prod.mk.inj hut
        exact .other hu
  | arrive r =>
    simp only [act] at h
    split at h
    · obtain ⟨rfl, rfl⟩ := Prod.mk.inj (Option.some.inj h)
      exact .idle
    · cases h
  | enter i =>
    simp only [act] at h
    split at h
    · rename_i r hp hr
      obtain ⟨rfl, rfl⟩ := Prod.mk.inj (Option.some.inj h)
      exact .enter hp hr
    · cases h
  | look =>
    simp only [act] at h
    split at h
    · rename_i r id hp
      obtain ⟨⟨o', u⟩, hu, hut⟩ := Option.map_eq_some_iff.1 h
      obtain ⟨rfl, rfl⟩ := Prod.mk.inj hut
      exact .look hp hu
    · cases h
  | available failure admission =>
    simp only [act] at h
    split at h
    · rename_i r hp
      split at h
      · obtain ⟨rfl, rfl⟩ := Prod.mk.inj (Option.some.inj h)
        exact .refuse hp (.inl rfl)
      · split at h
        · obtain ⟨rfl, rfl⟩ := Prod.mk.inj (Option.some.inj h)
          exact .refuse hp (.inl rfl)
        -- the lease is taken from the coordinator itself
        · rename_i l c hc
          obtain ⟨rfl, rfl⟩ := Prod.mk.inj (Option.some.inj h)
          refine .leased (b := .lease (.tryAdmit ⟨.CLASS_READ, str "search-build-admission"⟩
            admission)) hp ?_
          simp only [Signals.act, OperationCoordinator.act, Option.map_some, hc]
    · cases h
  | submit failure =>
    simp only [act] at h
    split at h
    · rename_i r l hp
      split at h
      · split at h
        · obtain ⟨rfl, rfl⟩ := Prod.mk.inj (Option.some.inj h)
          exact .refuse hp (.inr ⟨l, rfl⟩)
        · obtain ⟨⟨o', u⟩, hu, hut⟩ := Option.map_eq_some_iff.1 h
          obtain ⟨rfl, rfl⟩ := Prod.mk.inj hut
          exact .submit hp hu
      · cases h
    · cases h
  | put =>
    simp only [act] at h
    split at h
    · rename_i r id hp
      obtain ⟨⟨o', u⟩, hu, hut⟩ := Option.map_eq_some_iff.1 h
      obtain ⟨rfl, rfl⟩ := Prod.mk.inj hut
      exact .put hp hu
    · cases h

/-- The registry makes a step of its own, or none. -/
theorem Does.signals (h : Does env s a o t) :
    t.signals = s.signals ∨ ∃ b, Signals.act env s.signals b = some (o, t.signals) := by
  cases h with
  | other hu => exact .inr ⟨_, hu⟩
  | idle => exact .inl rfl
  | enter hp hr => exact .inl (claim_signals ..)
  | look hp hu => exact .inr ⟨_, by rw [looked_signals]; exact hu⟩
  | refuse hp hat => exact .inl rfl
  | leased hp hu => exact .inr ⟨_, hu⟩
  | submit hp hu => exact .inr ⟨_, by rw [submitted_signals]; exact hu⟩
  | put hp hu => exact .inr ⟨_, by rw [stored_signals]; exact hu⟩

/-- A poll that fails is one for a build that is over. -/
theorem poll_fails {id : JobId} {u : Signals} (httl : env.limits.terminalTtl < 2 ^ 63)
    (hs : Signals.Reachable env True s.signals) (hid : id < s.signals.scheduler.registry.created)
    (hu : Signals.act env s.signals (.thread (.call (.snapshot id))) = some (o, u))
    (ho : o ≠ .error eventTooLarge)
    {e : Throwable} (he : o = .error e) : (u.scheduler.registry.job id).terminal = true := by
  obtain ⟨v, hv, huv⟩ := section_scheduler hu
  rw [he] at hv
  have hmissing := (snapshot_fails httl hv).2
  have hu' : Signals.Reachable env True u := by
    obtain ⟨job, subscription, lease, hrun⟩ := hs
    exact ⟨job, subscription, lease, hrun.tail ⟨_, o, hu, fun _ => ho⟩⟩
  refine over_of_missing hu' (hid.trans_le (onward hs hu ho).created) ?_
  rw [huv]
  exact hmissing

/-- **Every act keeps the invariant.** -/
theorem Inv.act (httl : env.limits.terminalTtl < 2 ^ 63) (hs : Signals.Reachable env True s.signals)
    (h : Inv s)
    (ha : act env s a = some (o, t)) (ho : o ≠ .error eventTooLarge) (htimely : Timely s a) :
    Inv t := by
  have honward : ∀ {b : Signals.Act} {u : Signals}, Signals.act env s.signals b = some (o, u) →
      Onward s.signals u :=
    fun hu => SearchBuilds.onward hs hu ho
  cases does ha with
  | other hu => exact h.onward (honward hu)
  | idle => exact ⟨h.created, h.entries, h.single, h.table, h.holder, h.looking, h.clear, h.putting⟩
  | @enter i r hp hr => exact h.found hp fun hne => htimely i r rfl hr hne
  | @look r id _ u hp hu =>
    have hid := h.entries _ id (h.looking r id hp)
    exact h.looked (honward hu) hp fun message he => poll_fails httl hs hid hu ho he
  | @refuse _ r p e hp hat =>
    refine h.leave (fun r' id hr' => ?_) _
    rw [hp] at hr'
    obtain rfl | ⟨l, rfl⟩ := hat <;> cases hr'
  | leased hp hu => exact (h.onward (honward hu)).goto_submit hp
  | @submit failure r l _ u hp hu =>
    obtain ⟨v, hv, huv⟩ := section_scheduler hu
    obtain ⟨hone, hsame⟩ := submit_created hv ho
    rw [← huv] at hone hsame
    exact h.submitted (honward hu) hp hone hsame
  | @put r id _ u hp hu =>
    have hid := (h.created id _ _ (h.putting r id hp).1).1
    exact h.stored (honward hu) hp fun e he => poll_fails httl hs hid hu ho he

/-- The registry of a run of the service has run so, too. -/
theorem Reachable.signals {timely : Prop} (h : Reachable env timely s) :
    Signals.Reachable env True s.signals := by
  obtain ⟨job, subscription, lease, hrun⟩ := h
  refine ⟨job, subscription, lease, ?_⟩
  induction hrun with
  | refl => exact .refl
  | tail _ hstep ih =>
    obtain ⟨a, o, ha, ho, -⟩ := hstep
    obtain hsame | ⟨b, hb⟩ := (does ha).signals
    · rw [hsame]
      exact ih
    · exact ih.tail ⟨b, o, hb, fun _ => ho⟩

/-- **So every reachable state has it.** -/
theorem Reachable.inv (httl : env.limits.terminalTtl < 2 ^ 63) (h : Reachable env True s) :
    Inv s := by
  have hs := h.signals
  obtain ⟨job, subscription, lease, hrun⟩ := h
  clear hs
  induction hrun with
  | refl => exact inv_start job subscription lease
  | tail hrun hstep ih =>
    obtain ⟨a, o, ha, ho, htimely⟩ := hstep
    exact ih.act httl (Reachable.signals ⟨job, subscription, lease, hrun⟩) ha ho (htimely trivial)

/-- New builds are those of the request that submits. -/
theorem Does.jobs (h : Does env s a o t) : t.jobs = s.jobs ∨ ∃ r l, s.holder = some (r, .submit l) ∧
    t.jobs = Function.update s.jobs s.signals.scheduler.registry.created
      (some (r.key, r.domains)) := by
  cases h with
  | other hu => exact .inl rfl
  | idle => exact .inl rfl
  | refuse hp hat => exact .inl rfl
  | leased hp hu => exact .inl rfl
  | enter hp hr =>
    refine .inl ?_
    unfold State.found State.claim State.goto
    split <;> rfl
  | look hp hu =>
    refine .inl ?_
    unfold State.looked
    split
    · split
      · rfl
      · split <;> rfl
    · rfl
    · rfl
  | put hp hu =>
    refine .inl ?_
    unfold State.stored
    split <;> rfl
  | @submit _ r l _ u hp hu =>
    have hjobs : (s.submitted r o u).jobs =
        if u.scheduler.registry.created = s.signals.scheduler.registry.created then s.jobs
        else Function.update s.jobs s.signals.scheduler.registry.created
            (some (r.key, r.domains)) := by
      unfold State.submitted
      cases o <;> rfl
    rw [hjobs]
    split
    · exact .inl rfl
    · exact .inr ⟨r, l, hp, rfl⟩

/-- What a request submits is not under way. -/
theorem Inv.needed (h : Inv s) (ha : SearchBuilds.act env s a = some (o, t)) : Needed s t := by
  intro i key l hi ht j m hj hlm
  obtain hsame | ⟨r, x, hp, hjobs⟩ := (does ha).jobs
  · rw [hsame, hi] at ht
    cases ht
  · rw [hjobs] at ht
    by_cases hin : i = s.signals.scheduler.registry.created
    · rw [hin, Function.update_self] at ht
      obtain ⟨rfl, rfl⟩ := Prod.mk.inj (Option.some.inj ht)
      exact h.clear r _ hp (.inr ⟨x, rfl⟩) j ⟨m, hj, hlm⟩
    · rw [Function.update_of_ne hin, hi] at ht
      cases ht

/-- **One build at a time**, in every run in which no request takes the table for an identity that
has lost it while builds of that identity are under way. -/
theorem single_flight (env : JobEnv) (httl : env.limits.terminalTtl < 2 ^ 63) (s : State)
    (h : Reachable env True s) :
    SingleFlight s ∧ ∀ a o t, act env s a = some (o, t) → Needed s t :=
  ⟨(h.inv httl).single, fun _ _ _ ha => (h.inv httl).needed ha⟩

/-- Before the first job every step is timely. -/
theorem Inv.timely (h : Inv s) (hcreated : s.signals.scheduler.registry.created = 0) (a : Act) :
    Timely s a := by
  intro i r _ _ _ id l hid
  have hlt := (h.created id r.key l hid).1
  rw [hcreated] at hlt
  exact absurd hlt (Nat.not_lt_zero id)

/-! ## A late request -/

/-- Some acts, one after the other. -/
def perform (env : JobEnv) : List Act → State → Option State
  | [], s => some s
  | a :: acts, s => match act env s a with
    | some (.ok _, t) => perform env acts t
    | _ => none

namespace LateRequest

/-! A request that has read the first identity takes the lock after a build of the second one was
submitted. -/

def first : SearchIndexKey := ⟨str "s", 0, 1, str "f"⟩
def second : SearchIndexKey := ⟨str "s", 1, 1, str "f"⟩

def request (key : SearchIndexKey) : Request where
  key := key
  domains := [.MEMBER_NAME]
  force := true
  coverage := []
  distinct := by decide
  supported := by decide
  needed := .inl rfl

def roomyLimits : JobLimits :=
  { OneJob.smallLimits with maxQueued := 32, positive := by decide, ints := by decide }

def roomyEnv : JobEnv := { OneJob.smallEnv with limits := roomyLimits }

def noLease : Lease := ⟨⟨.CLASS_READ, []⟩, ⟨[], 0⟩, false, false⟩

def empty : State := start (fun _ => OneJob.noJob) (fun _ => ⟨[], [], true, false, false, false⟩)
    fun _ => noLease

/-- The request at a place of the line submits; its lease of the check is the given one. -/
def builds (i : ℕ) (l : LeaseId) : List Act :=
  [.enter i, .available none ⟨str "s", 1⟩, .other (.lease (.close l)), .other (.lease (.remove l)),
    .other (.lease (.afterRelease l)), .submit none, .put]

/-- Both requests wait for the lock. -/
def arrived : List Act :=
  [.publish (some first), .arrive (request first), .publish (some second), .arrive (request second)]

/-- The second one submits, then the late one takes the lock, and after it one more for the second
identity. -/
def late : List Act := arrived ++ builds 1 0 ++ builds 0 1 ++
    [.arrive (request second)] ++ builds 0 2

theorem runs : (perform roomyEnv arrived empty).isSome = true := by decide +kernel

def both : State := (perform roomyEnv arrived empty).get runs

theorem submits : (perform roomyEnv (builds 1 0) both).isSome = true := by decide +kernel

def built : State := (perform roomyEnv (builds 1 0) both).get submits

theorem runs_late : (perform roomyEnv late empty).isSome = true := by decide +kernel

end LateRequest

/-- A run starts with its first act. -/
theorem perform_cons {acts : List Act} (h : perform env (a :: acts) s = some t) :
    ∃ u, act env s a = some (.ok (), u) ∧ perform env acts u = some t := by
  simp only [perform] at h
  split at h
  · exact ⟨_, ‹_›, h⟩
  · cases h

/-- A list of acts that can be performed is a run. -/
theorem perform_run {timely : Prop} : ∀ {acts : List Act} {s t : State},
    (timely → ∀ u, ∀ a ∈ acts, Timely u a) → perform env acts s = some t →
      Relation.ReflTransGen (Step env timely) s t
  | [], s, t, _, h => by
    obtain rfl := Option.some.inj h
    exact .refl
  | a :: acts, s, t, htimely, h => by
    obtain ⟨u, hu, hut⟩ := perform_cons h
    have hrest := perform_run (fun ht v b hb => htimely ht v b (List.mem_cons_of_mem _ hb)) hut
    exact .head ⟨a, _, hu, nofun, fun ht => htimely ht s a List.mem_cons_self⟩ hrest

/-- Two builds for one identity and one domain are under way. -/
theorem single_flight_lost : ¬ ∀ env : JobEnv, env.limits.terminalTtl < 2 ^ 63 →
    ∀ s, Reachable env False s →
    SingleFlight s := by
  intro hall
  have hrun : Reachable LateRequest.roomyEnv False
      ((perform LateRequest.roomyEnv LateRequest.late LateRequest.empty).get LateRequest.runs_late) :=
    ⟨_, _, _, perform_run (fun h => h.elim) (Option.some_get _).symm⟩
  have htwo := hall LateRequest.roomyEnv (by decide) _ hrun 0 2 LateRequest.second [.MEMBER_NAME]
    [.MEMBER_NAME]
    (by decide +kernel) (by decide +kernel) (fun _ => Iff.rfl) (by unfold State.Live; decide +kernel)
    (by unfold State.Live; decide +kernel)
  exact absurd htwo (by decide)

/-- The second request submits, while the first one waits. -/
theorem built_reachable : Reachable LateRequest.roomyEnv True LateRequest.built := by
  have hboth : Relation.ReflTransGen (Step LateRequest.roomyEnv True) LateRequest.empty
      LateRequest.both := by
    refine perform_run (fun _ u a ha i r he => ?_) (Option.some_get LateRequest.runs).symm
    subst he
    simp [LateRequest.arrived] at ha
  have hinv : Inv LateRequest.both := Reachable.inv (by decide) ⟨_, _, _, hboth⟩
  obtain ⟨u, hu, hrest⟩ := perform_cons (Option.some_get LateRequest.submits).symm
  have hentered := hboth.tail ⟨_, _, hu, nofun, fun _ => hinv.timely (by decide +kernel) _⟩
  refine ⟨_, _, _, hentered.trans (perform_run (fun _ v a ha i r he => ?_) hrest)⟩
  subst he
  simp at ha

theorem single_flight_built : LateRequest.built.jobs 0 = some (LateRequest.second, [.MEMBER_NAME]) ∧
    LateRequest.built.Live 0 ∧ SingleFlight LateRequest.built ∧
    ∀ a o t, act LateRequest.roomyEnv LateRequest.built a = some (o, t) →
      Needed LateRequest.built t :=
  ⟨by decide +kernel, by unfold State.Live; decide +kernel, single_flight _ (by decide) _ built_reachable⟩

end SearchBuilds

end Libjadx
