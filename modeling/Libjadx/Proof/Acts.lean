import Libjadx.Proof.Scheduler
import Libjadx.Proof.Sections

/-!
# What any act does to the registry

`Happens` lists what a step of any thread may leave of the registry, whatever the step throws.
`Scheduler.Any` is a step of a run in which events may be lost.
-/

namespace Libjadx

open JobRegistry Locked

/-- The sections that may end waiting jobs. -/
def Act.retires : Act → Prop
  | .call (.cancel _) | .call .tick | .call .shutdown => True
  | _ => False

/-- The sections that give a slot back. -/
def Act.frees : Act → Prop
  | .requeue | .fail | .finish _ => True
  | _ => False

variable {env : JobEnv} {lenient : Prop}

/-- What one act leaves of a registry. -/
inductive Happens (env : JobEnv) (lenient : Prop) (s : Scheduler) : Act → Registry → Prop
  | edited {a : Act} {t : Registry} : (∀ sub, a ≠ .call (.next sub)) → ¬ a.frees →
      Edited env lenient a.retires s.registry t → Happens env lenient s a t
  | freed {a : Act} {t : Registry} : a.frees → Freed env lenient s.registry t →
      Happens env lenient s a t
  | submitted {spec : JobSpec} {t : Registry} : Submitted env lenient s.registry t →
      Happens env lenient s (.call (.submit spec)) t
  | taken {id : JobId} {t : Registry} : Pumped env lenient s.registry (some id) t →
      Happens env lenient s .pump t
  | putBack {id : JobId} (ticks : ℕ) : s.dispatch = .busy id → putsBack env id s.registry = true →
      Happens env lenient s .requeue (s.registry.putBack id ticks)
  | subscribed {id : JobId} {lastEventId : Option ℤ} {u t : Registry} {sub : SubscriptionId} :
      Edited env lenient False s.registry u → Subscribed env id lastEventId u sub t →
      Happens env lenient s (.call (.subscribe id lastEventId)) t
  | polled (sub : SubscriptionId) : Happens env lenient s (.call (.next sub))
      (s.registry.updateSubscription sub fun b => b.next.2)

namespace Scheduler

variable {s t : Scheduler} {a : Act} {o : Except Throwable Unit}

/-- A step of a run in which events may be lost. -/
def Any (env : JobEnv) (s t : Scheduler) : Prop := ∃ a o, act env s a = some (o, t)

/-- What a triple says of a section that a thread runs. -/
theorem section_ends {α : Type} {m : Section α} {Q : α → Registry → Prop} {E : Registry → Prop}
    {done : α → Scheduler → Scheduler} {failed : Scheduler → Scheduler}
    (h : Triple (Unfit lenient) (fun r => r = s.registry) m Q E)
    (hr : s.section_ m done failed = (o, t)) (ho : ∀ e, o = .error e → ¬ Unfit lenient e) :
    (∃ x u, m s.registry = (.ok x, u) ∧ Q x u ∧ o = .ok () ∧ t = done x { s with registry := u }) ∨
      (∃ e u, m s.registry = (.error e, u) ∧ E u ∧ o = .error e ∧
          t = failed { s with registry := u }) := by
  unfold section_ at hr
  rcases hm : m s.registry with ⟨e | x, u⟩
  · rw [hm] at hr
    obtain ⟨rfl, rfl⟩ := Prod.mk.inj hr
    exact .inr ⟨e, u, rfl, (h.error rfl hm).resolve_left (ho e rfl), rfl, rfl⟩
  · rw [hm] at hr
    obtain ⟨rfl, rfl⟩ := Prod.mk.inj hr
    exact .inl ⟨x, u, rfl, h.ok rfl hm, rfl, rfl⟩

/-- A section of edits. -/
theorem section_edits {α : Type} {m : Section α} {retires : Prop} {done : α → Scheduler → Scheduler}
    {failed : Scheduler → Scheduler} (h : Edits env lenient retires m)
    (hdone : ∀ x u, (done x u).registry = u.registry)
    (hfailed : ∀ u, (failed u).registry = u.registry)
    (hr : s.section_ m done failed = (o, t)) (ho : ∀ e, o = .error e → ¬ Unfit lenient e) :
    Edited env lenient retires s.registry t.registry := by
  have htriple := (h s.registry).weaken (J := fun r => r = s.registry) (fun _ hs => hs ▸ .refl)
    (fun _ _ h => h)
    fun _ h => h
  obtain ⟨x, u, -, hu, -, rfl⟩ | ⟨e, u, -, hu, -, rfl⟩ := section_ends htriple hr ho
  · rw [hdone]
    exact hu
  · rw [hfailed]
    exact hu

/-- Dropping the value of a section changes nothing of what it edits. -/
theorem void_edits {α : Type} {m : Section α} {retires : Prop} (h : Edits env lenient retires m) :
    Edits env lenient retires (void m) := h.bind fun _ => edits_pure _

/-- The calls that are nothing but edits. -/
theorem call_edits (c : Call) (hsub : ∀ spec, c ≠ .submit spec)
    (hopen : ∀ id last, c ≠ .subscribe id last)
    (hnext : ∀ sub, c ≠ .next sub) : Edits env lenient (Act.retires (.call c)) (call env c) := by
  cases c with
  | reserveSubmissions => exact reserveSubmissions_edits
  | releaseSubmissionReservation => exact releaseSubmissionReservation_edits
  | stopSubmissions => exact stopSubmissions_edits
  | submit spec => exact absurd rfl (hsub spec)
  | snapshot id => exact void_edits (snapshot_edits id)
  | cancel id => exact void_edits (cancel_edits id)
  | tick => exact tick_edits
  | subscribe id last => exact absurd rfl (hopen id last)
  | closeSubscription id sub => exact closeSubscription_edits id sub
  | next sub => exact absurd rfl (hnext sub)
  | shutdown => exact shutdown_edits
  | progress id completed total stage => exact progress_edits id completed total stage
  | diagnostic id message => exact diagnostic_edits id message

/-- A step that drops the value of a section comes to the same state. -/
theorem void_outcome {α : Type} {m : Section α} {done : Unit → Scheduler → Scheduler}
    {failed : Scheduler → Scheduler} :
    s.section_ (void m) done failed = s.section_ m (fun _ => done ()) failed := by
  unfold section_ void
  rcases hm : m s.registry with ⟨e | x, u⟩
  · rw [bind_error hm]
  · rw [bind_ok hm, pure_run]

/-- What a call of a thread leaves of the registry. -/
theorem happens_call {c : Call} (h : act env s (.call c) = some (o, t))
    (ho : ∀ e, o = .error e → ¬ Unfit lenient e) : Happens env lenient s (.call c) t.registry := by
  simp only [act] at h
  split at h
  case isFalse => simp at h
  have hr := Option.some.inj h
  by_cases hsub : ∃ spec, c = .submit spec
  · obtain ⟨spec, rfl⟩ := hsub
    rw [call, void_outcome] at hr
    obtain ⟨x, u, -, hu, -, rfl⟩ | ⟨e, u, -, hu, -, rfl⟩ :=
      section_ends (submit_triple spec s.registry) hr ho
    · exact .submitted hu
    · rcases hu with hu | hu
      · exact .edited (by simp) (fun h => h) hu
      · exact .submitted hu.2
  by_cases hopen : ∃ id last, c = .subscribe id last
  · obtain ⟨id, last, rfl⟩ := hopen
    rw [call, void_outcome] at hr
    obtain ⟨x, u, -, ⟨v, hv, hx⟩, -, rfl⟩ | ⟨e, u, -, hu, -, rfl⟩ :=
      section_ends (subscribe_triple id last s.registry) hr ho
    · exact .subscribed hv hx
    · exact .edited (by simp) (fun h => h) hu
  by_cases hnext : ∃ sub, c = .next sub
  · obtain ⟨sub, rfl⟩ := hnext
    obtain ⟨rfl, rfl⟩ := Prod.mk.inj hr
    exact .polled sub
  have hedits : Edits env lenient (Act.retires (.call c)) (call env c) :=
    call_edits c (fun x hx => hsub ⟨x, hx⟩) (fun x y hx => hopen ⟨x, y, hx⟩) fun x hx =>
      hnext ⟨x, hx⟩
  refine .edited (fun x hx => hnext ⟨x, ?_⟩) (fun h => h) (section_edits hedits (fun _ _ => rfl)
    (fun _ => rfl) hr ho)
  simpa using hx

/-- A step that leaves the registry alone. -/
theorem happens_same (hnext : ∀ sub, a ≠ .call (.next sub)) (hf : ¬ a.frees)
    (ht : t.registry = s.registry) : Happens env lenient s a t.registry :=
  .edited hnext hf (ht ▸ .refl)

/-- What a close leaves of the registry. -/
theorem happens_close {failure : Option Throwable} (h : act env s (.close failure) = some (o, t)) :
    Happens env lenient s (.close failure) t.registry := by
  obtain ⟨u, hu, hut⟩ := Option.map_eq_some_iff.1 h
  obtain ⟨-, rfl⟩ := Prod.mk.inj hut
  unfold closed at hu
  split at hu
  · obtain rfl := Option.some.inj hu
    exact happens_same (by simp) (fun h => h) rfl
  · obtain rfl := Option.some.inj hu
    exact happens_same (by simp) (fun h => h) rfl
  · split at hu
    · obtain rfl := Option.some.inj hu
      refine .edited (by simp) (fun h => h) (.single ?_)
      exact .record _ (JobRecord.request · .SHUTDOWN) (mild_request .SHUTDOWN _)
    · obtain rfl := Option.some.inj hu
      exact happens_same (by simp) (fun h => h) rfl
  · simp at hu

/-- What the put-back of a job leaves of the registry. -/
theorem happens_requeue (h : act env s .requeue = some (o, t))
    (ho : ∀ e, o = .error e → ¬ Unfit lenient e) : Happens env lenient s .requeue t.registry := by
  simp only [act] at h
  split at h
  case h_2 => simp at h
  rename_i id hd
  have hr := Option.some.inj h
  have hq := @requeueBlocked_edits env lenient id s.registry
  split_ifs at hq with hp
  · obtain ⟨k, hk⟩ := hq
    rw [section_, hk] at hr
    obtain ⟨-, rfl⟩ := Prod.mk.inj hr
    exact .putBack k hd hp
  · obtain ⟨x, u, -, hu, -, rfl⟩ | ⟨e, u, -, hu, -, rfl⟩ := section_ends hq hr ho
    · exact .freed trivial hu
    · exact .freed trivial hu

/-- What a worker's step comes from. -/
theorem worker_some {f : Worker → Option (Except Throwable Unit × Scheduler)} {i : ℕ}
    (h : (match s.workers[i]? with | some w => f w | none => none) = some (o, t)) :
    ∃ w, s.workers[i]? = some w ∧ f w = some (o, t) := by
  split at h
  · exact ⟨_, ‹_›, h⟩
  · simp at h

/-- **What one act leaves of the registry.** -/
theorem happens (h : act env s a = some (o, t)) (ho : ∀ e, o = .error e → ¬ Unfit lenient e) :
    Happens env lenient s a t.registry := by
  cases a with
  | call c => exact happens_call h ho
  | requeue => exact happens_requeue h ho
  | close failure => exact happens_close h
  | pump =>
    simp only [act] at h
    split at h
    · have hr := Option.some.inj h
      obtain ⟨x, u, -, hu, -, rfl⟩ | ⟨e, u, -, hu, -, rfl⟩ :=
        section_ends (pump_triple_edits s.registry) hr ho
      · cases x with
        | none => exact .edited (by simp) (fun h => h) hu.1
        | some id => exact .taken hu
      · exact .edited (by simp) (fun h => h) hu
    · simp at h
  | start =>
    simp only [act] at h
    split at h
    · have hr := Option.some.inj h
      refine .edited (by simp) (fun h => h) (section_edits ?_ ?_ ?_ hr ho)
      · exact startAdmitted_edits _
      · exact fun _ _ => rfl
      · exact fun _ => rfl
    · simp at h
  | fail =>
    simp only [act] at h
    split at h
    · obtain ⟨x, u, -, hu, -, rfl⟩ | ⟨e, u, -, hu, -, rfl⟩ :=
        section_ends (finishDispatchFailure_edits _ _ _ s.registry) (Option.some.inj h) ho
      · exact .freed trivial hu
      · exact .freed trivial hu
    · simp at h
  | finish i =>
    obtain ⟨w, hw, h⟩ := worker_some h
    split at h
    · obtain ⟨x, u, -, hu, -, rfl⟩ | ⟨e, u, -, hu, -, rfl⟩ :=
        section_ends (finish_edits _ _ s.registry) (Option.some.inj h) ho
      · exact .freed trivial hu
      · exact .freed trivial hu
    · simp at h
  | tryAdmit answer | capture failure =>
    simp only [act] at h
    split at h
    · obtain ⟨-, rfl⟩ := Prod.mk.inj (Option.some.inj h)
      exact happens_same (by simp) (fun h => h) rfl
    · simp at h
  | execute accepted =>
    simp only [act] at h
    split at h
    · split at h <;> obtain ⟨-, rfl⟩ := Prod.mk.inj (Option.some.inj h)
      · exact happens_same (by simp) (fun h => h) rfl
      · exact happens_same (by simp) (fun h => h) rfl
    · simp at h
  | run i | returns i result | release i failure =>
    obtain ⟨w, hw, h⟩ := worker_some h
    split at h
    · obtain ⟨-, rfl⟩ := Prod.mk.inj (Option.some.inj h)
      exact happens_same (by simp) (fun h => h) rfl
    · simp at h

end Scheduler

end Libjadx
