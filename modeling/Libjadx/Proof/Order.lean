import Libjadx.Proof.Touch
import Libjadx.Proof.Waiting

/-!
# The order of starts

The line is the job that the dispatcher holds, and the queue behind it. A job joins the line when it
is submitted, at its end; every other step of any thread leaves a part of the line in its order:
what `pump` takes stays in front, and what `requeueBlocked` puts back was there. Ids count
submissions, so the line ascends. A job starts at the front of the line, and a job that left the
line never starts.
-/

namespace Libjadx

open JobRegistry Locked Registry

variable {env : JobEnv} {lenient retires : Prop} {al : Allows} {id : JobId} {r r' : JobRecord}

/-! ## The queue -/

/-- An edit takes jobs out of the queue, and puts none in. -/
theorem Edit.queue_sublist {s t : Registry} (h : Edit env lenient retires s t) :
    t.created = s.created ∧ t.queue.Sublist s.queue := by
  cases h with
  | same t hsame => exact ⟨hsame.created, hsame.queue ▸ List.Sublist.refl _⟩
  | record id f hf => exact ⟨rfl, List.Sublist.refl _⟩
  | emit id type => exact ⟨rfl, List.Sublist.refl _⟩
  | lose id _ => exact ⟨rfl, List.Sublist.refl _⟩
  | drop id =>
    rw [removeRetained_told]
    exact ⟨rfl, List.Sublist.refl _⟩
  | retire id f _ hf hnot => exact ⟨rfl, List.erase_sublist⟩
  | close id sub => exact ⟨rfl, List.Sublist.refl _⟩
  | forceClose sub => exact ⟨rfl, List.Sublist.refl _⟩

/-- So does a section. -/
theorem Edited.queue_sublist {s t : Registry} (h : Edited env lenient retires s t) :
    t.created = s.created ∧ t.queue.Sublist s.queue := by
  induction h with
  | refl => exact ⟨rfl, List.Sublist.refl _⟩
  | tail _ hstep ih => exact ⟨hstep.queue_sublist.1.trans ih.1, hstep.queue_sublist.2.trans ih.2⟩

/-! ## The events -/

/-- How often the job emitted `job.started`. -/
def JobRecord.starts (r : JobRecord) : ℕ := r.log.countP fun e => e.type = .started

/-- No other event counts as a start. -/
theorem starts_emitted {type : EventType} (htype : type ≠ .started) (now : ℤ) (r : JobRecord) :
    (r.emitted env id type now).starts = r.starts := by
  unfold JobRecord.starts JobRecord.emitted
  rw [List.countP_append, List.countP_singleton]
  simp [htype]

/-- An edit of a section that starts nothing adds no start. -/
theorem Touch.starts (hal : ¬ al.emits id .started) (h : Touch env al id r r') :
    r'.starts = r.starts := by
  have hquiet : ∀ {x y : JobRecord}, Silent x y → y.starts = x.starts := by
    intro x y hs
    unfold JobRecord.starts
    rw [hs.log]
  cases h with
  | silent hs => exact hquiet hs
  | request reason => rfl
  | note text _ =>
    obtain ⟨d, hd⟩ := addDiagnostic_eq env text r
    rw [hd]
    rfl
  | progress p _ => rfl
  | emit type now htype =>
    have hne : type ≠ .started := by
      rintro rfl
      exact hal htype
    exact starts_emitted hne now r
  | @announce r'' reason now _ hs | @again r'' reason now _ hs =>
    have hsame : r''.starts = (r.request reason).starts := hquiet hs
    exact (starts_emitted (by decide) now _).trans hsame

/-- Nor does the whole section. -/
theorem Touches.starts (hal : ¬ al.emits id .started) (h : Touches env al id r r') :
    r'.starts = r.starts := by
  induction h with
  | refl => rfl
  | tail _ hstep ih => exact (hstep.starts hal).trans ih

namespace Scheduler

variable {s t u : Scheduler} {a : Act} {o : Except Throwable Unit}

/-! ## The line -/

/-- The job that the dispatcher holds, and the jobs in the queue. -/
def line (s : Scheduler) : List JobId := s.dispatch.job.toList ++ s.registry.queue

/-- The dispatcher holds the job that it held, or none. -/
theorem holds_next (h : act env s a = some (o, t)) (hpump : a ≠ .pump) :
    t.dispatch.job = s.dispatch.job ∨ t.dispatch.job = none := by
  cases a with
  | pump => exact absurd rfl hpump
  | call c =>
    simp only [act] at h
    split at h
    · refine .inl ?_
      have hr := Option.some.inj h
      unfold section_ at hr
      split at hr <;> obtain ⟨-, rfl⟩ := Prod.mk.inj hr <;> rfl
    · simp at h
  | requeue | fail =>
    simp only [act] at h
    split at h
    · refine .inr ?_
      have hr := Option.some.inj h
      unfold section_ at hr
      split at hr <;> obtain ⟨-, rfl⟩ := Prod.mk.inj hr <;> rfl
    · simp at h
  | start =>
    simp only [act] at h
    split at h
    · rename_i id lease hd
      have hr := Option.some.inj h
      unfold section_ at hr
      split at hr <;> obtain ⟨-, rfl⟩ := Prod.mk.inj hr
      · rename_i cancelled _ _
        refine .inl ?_
        -- the job is the same, whether it starts or fails
        rw [hd]
        cases cancelled <;> rfl
      · exact .inr rfl
    · simp at h
  | tryAdmit answer =>
    simp only [act] at h
    split at h
    · rename_i id hd
      obtain ⟨-, rfl⟩ := Prod.mk.inj (Option.some.inj h)
      refine .inl ?_
      rw [hd]
      unfold goto answered
      split <;> rfl
    · simp at h
  | capture failure =>
    simp only [act] at h
    split at h
    · rename_i id lease hd
      obtain ⟨-, rfl⟩ := Prod.mk.inj (Option.some.inj h)
      refine .inl ?_
      rw [hd]
      cases failure <;> rfl
    · simp at h
  | close failure =>
    obtain ⟨u, hu, hut⟩ := Option.map_eq_some_iff.1 h
    obtain ⟨-, rfl⟩ := Prod.mk.inj hut
    unfold closed at hu
    refine .inl ?_
    split at hu
    · rename_i hd
      obtain rfl := Option.some.inj hu
      rw [hd]
      rfl
    · rename_i hd
      obtain rfl := Option.some.inj hu
      rw [hd]
      rfl
    · rename_i hd
      split at hu <;> obtain rfl := Option.some.inj hu <;> rw [hd] <;> rfl
    · simp at hu
  -- a worker has the job now, or the dispatcher is to fail it
  | execute accepted =>
    simp only [act] at h
    split at h
    · rename_i id lease hd
      split at h <;> obtain ⟨-, rfl⟩ := Prod.mk.inj (Option.some.inj h)
      · exact .inr rfl
      · refine .inl ?_
        rw [hd]
        rfl
    · simp at h
  | run i | returns i result | release i failure =>
    obtain ⟨w, hw, h⟩ := worker_some h
    split at h
    · obtain ⟨-, rfl⟩ := Prod.mk.inj (Option.some.inj h)
      exact .inl rfl
    · simp at h
  | finish i =>
    obtain ⟨w, hw, h⟩ := worker_some h
    split at h
    · refine .inl ?_
      have hr := Option.some.inj h
      unfold section_ at hr
      split at hr <;> obtain ⟨-, rfl⟩ := Prod.mk.inj hr <;> rfl
    · simp at h

/-- The line after a step that takes no job, from what it does to the queue. -/
theorem line_sublist (hd : t.dispatch.job = s.dispatch.job ∨ t.dispatch.job = none)
    {more : List JobId}
    (hq : t.registry.queue.Sublist (s.registry.queue ++ more)) :
    (line t).Sublist (line s ++ more) := by
  unfold line
  rw [List.append_assoc]
  obtain hd | hd := hd <;> rw [hd]
  · exact (List.Sublist.refl _).append hq
  · exact hq.trans (List.sublist_append_right _ _)

/-- **What a step does to the line**: a submission lengthens it, and every other step leaves a part
of it. -/
theorem line_step (h : act env s a = some (o, t)) :
    t.registry.created = s.registry.created ∧ (line t).Sublist (line s) ∨
      t.registry.created = s.registry.created + 1 ∧ (line t).Sublist
        (line s ++ [s.registry.created]) := by
  have hh : Happens env True s a t.registry := happens h fun e _ h => h.2 trivial
  -- what does not pump shortens the queue at most
  have hkeeps : ∀ {q : List JobId}, a ≠ .pump → t.registry.queue.Sublist q → q = s.registry.queue →
      (line t).Sublist (line s) := by
    intro q hpump hq hqs
    have hq' : t.registry.queue.Sublist (s.registry.queue ++ []) := by
      rw [List.append_nil]
      exact hqs ▸ hq
    have hmore := line_sublist (holds_next h hpump) hq'
    rwa [List.append_nil] at hmore
  by_cases hpump : a = .pump
  · subst hpump
    refine .inl ?_
    simp only [act] at h
    split at h
    case h_2 => simp at h
    rename_i hd
    -- the dispatcher that pumps holds nothing
    have hline : line s = s.registry.queue := by
      unfold line
      rw [hd]
      rfl
    have htriple := @pump_triple_edits env True s.registry
    obtain ⟨x, v, -, hv, -, rfl⟩ | ⟨e, v, -, hv, -, rfl⟩ :=
      section_ends htriple (Option.some.inj h) fun e _ h => h.2 trivial
    · rw [hline]
      cases x with
      | none =>
        have hq := hv.1.queue_sublist
        refine ⟨hq.1, ?_⟩
        have hnone : line { s with registry := v } = v.queue := by
          unfold line
          rw [hd]
          rfl
        exact hnone ▸ hq.2
      | some id =>
        obtain ⟨w, rest, hw, -, -, hq, rfl⟩ := hv
        -- the head of the queue goes to the dispatcher: the line is the same
        refine ⟨hw.queue_sublist.1, ?_⟩
        have hfront : line (({ s with registry := w.taken id rest } : Scheduler).goto (.gate id)) =
          w.queue := hq.symm
        exact hfront ▸ hw.queue_sublist.2
    · rw [hline]
      exact ⟨hv.queue_sublist.1, hv.queue_sublist.2⟩
  · generalize hreg : t.registry = v at hh
    cases hh with
    | edited _ _ he => exact .inl ⟨he.queue_sublist.1, hkeeps hpump (hreg ▸ he.queue_sublist.2) rfl⟩
    | freed _ he => exact .inl ⟨he.queue_sublist.1, hkeeps hpump (hreg ▸ he.queue_sublist.2) rfl⟩
    -- the new job goes to the end
    | submitted hsub =>
      obtain ⟨w, r, hw, -, -, -, hv⟩ := hsub
      refine .inr ⟨hv.queue_sublist.1.trans (congrArg (· + 1) hw.queue_sublist.1), ?_⟩
      refine line_sublist (holds_next h hpump) ?_
      rw [hreg]
      refine hv.queue_sublist.2.trans ?_
      show (w.queue ++ [w.created]).Sublist _
      rw [hw.queue_sublist.1]
      exact hw.queue_sublist.2.append (List.Sublist.refl _)
    | taken htaken => exact absurd rfl hpump
    -- the job that is put back was at the front already
    | @putBack id k hd hp =>
      refine .inl ⟨rfl, ?_⟩
      have hfront : line s = id :: s.registry.queue := by
        unfold line
        rw [hd]
        rfl
      have hidle : t.dispatch.job = none := by
        simp only [act] at h
        split at h
        · have hr := Option.some.inj h
          unfold section_ at hr
          split at hr <;> obtain ⟨-, rfl⟩ := Prod.mk.inj hr <;> rfl
        · simp at h
      unfold line at hfront ⊢
      rw [hfront, hidle, hreg]
      exact List.Sublist.refl _
    | subscribed hu hsub =>
      have hq : v.queue.Sublist s.registry.queue := by
        rw [hsub.eq]
        exact hu.queue_sublist.2
      refine .inl ⟨?_, hkeeps hpump (hreg ▸ hq) rfl⟩
      rw [hsub.eq]
      exact hu.queue_sublist.1
    | polled sub => exact .inl ⟨rfl, hkeeps hpump (hreg ▸ List.Sublist.refl _) rfl⟩

/-! ## Runs -/

/-- The line ascends, and what waits is in the queue. -/
structure InLine (s : Scheduler) : Prop where
  ascending : (line s).Pairwise (· < ·)
  created : ∀ id ∈ line s, id < s.registry.created
  queued : s.registry.AllQueued

/-- **A step keeps the queue in the order of the submissions.** -/
theorem InLine.step (h : InLine s) (hs : Any env s t) : InLine t := by
  obtain ⟨a, o, ha⟩ := hs
  have hh : Happens env True s a t.registry := happens ha fun e _ h => h.2 trivial
  have hq := AllQueued.happens h.queued hh
  obtain ⟨hc, hl⟩ | ⟨hc, hl⟩ := line_step ha
  · exact ⟨h.ascending.sublist hl, fun id hid => hc ▸ h.created id (hl.subset hid), hq⟩
  · refine ⟨List.Pairwise.sublist hl
      (List.pairwise_append.2 ⟨h.ascending, List.pairwise_singleton _ _, ?_⟩),
      fun id hid => ?_, hq⟩
    · intro x hx y hy
      rw [List.mem_singleton.1 hy]
      exact h.created x hx
    · rw [hc]
      rcases List.mem_append.1 (hl.subset hid) with hid | hid
      · exact (h.created id hid).trans (Nat.lt_succ_self _)
      · rw [List.mem_singleton.1 hid]
        exact Nat.lt_succ_self _

/-- So it is over a whole run. -/
theorem inLine_run {job : JobId → JobRecord} {subscription : SubscriptionId → Subscription}
    (hrun : Relation.ReflTransGen (Any env) ⟨empty job subscription, .idle, []⟩ s) : InLine s := by
  induction hrun with
  | refl => exact ⟨List.Pairwise.nil, nofun, fun id hid => absurd hid (Nat.not_lt_zero id)⟩
  | tail _ hstep ih => exact ih.step hstep

/-- The job was submitted, and has left the line. -/
def Left (s : Scheduler) (id : JobId) : Prop := id < s.registry.created ∧ id ∉ line s

/-- A job that has left the queue for good stays out. -/
theorem Left.step (h : Left s id) (hs : Any env s t) : Left t id := by
  obtain ⟨a, o, ha⟩ := hs
  obtain ⟨hc, hl⟩ | ⟨hc, hl⟩ := line_step ha
  · exact ⟨hc ▸ h.1, fun hid => h.2 (hl.subset hid)⟩
  · refine ⟨by rw [hc]; exact h.1.trans (Nat.lt_succ_self _), fun hid => ?_⟩
    rcases List.mem_append.1 (hl.subset hid) with hid | hid
    · exact h.2 hid
    · exact absurd (List.mem_singleton.1 hid) h.1.ne

/-- How often a job emitted `job.started`; a job that does not exist did not. -/
def starts (s : Scheduler) (id : JobId) : ℕ :=
  if id < s.registry.created then (s.registry.job id).starts else 0

/-- A job emits `job.started` in the section of `startAdmitted` that the dispatcher runs for it. -/
theorem starts_step (hs : Any env s t) (hno : ∀ lease, s.dispatch ≠ .start id lease) :
    starts t id = starts s id := by
  obtain ⟨a, o, ha⟩ := hs
  have hal : ¬ (a.allows env s).emits id .started := by
    rintro ⟨-, hstart⟩
    obtain ⟨lease, -, hd⟩ := hstart rfl
    exact hno lease hd
  unfold starts
  obtain ht | ⟨-, v, r, hv, hr, ht⟩ := touched ha
  · rw [ht.created, (ht.job id).starts hal]
  · have hcreated : t.registry.created = s.registry.created + 1 :=
      ht.created.trans (congrArg (· + 1) hv.created)
    rw [hcreated, (ht.job id).starts hal]
    by_cases hnew : id = v.created
    · have hjob : (JobRegistry.enroll r v).job id = r := by
        rw [hnew]
        exact Function.update_self ..
      have hzero : r.starts = 0 := by
        unfold JobRecord.starts
        rw [hr.log]
        rfl
      have hold : ¬ id < s.registry.created := by
        rw [hnew, hv.created]
        exact lt_irrefl _
      rw [hjob, hzero, if_neg hold, ite_self]
    · have hjob : (JobRegistry.enroll r v).job id = v.job id := Function.update_of_ne hnew _ _
      rw [hjob, (hv.job id).starts hal]
      have hne : id ≠ s.registry.created := hv.created ▸ hnew
      by_cases hold : id < s.registry.created
      · rw [if_pos hold, if_pos (hold.trans (Nat.lt_succ_self _))]
      · rw [if_neg hold, if_neg fun hlt => hold (lt_of_le_of_ne (Nat.lt_succ_iff.1 hlt) hne)]

/-- A job that left the line never starts. -/
theorem Left.starts (h : Left s id) (hrun : Relation.ReflTransGen (Any env) s t) :
    Left t id ∧ starts t id = starts s id := by
  induction hrun with
  | refl => exact ⟨h, rfl⟩
  | @tail t u _ hstep ih =>
    have hno : ∀ lease, t.dispatch ≠ .start id lease := by
      intro lease hd
      refine ih.1.2 (List.mem_append_left _ ?_)
      rw [hd]
      exact List.mem_singleton_self id
    exact ⟨ih.1.step hstep, (starts_step hstep hno).trans ih.2⟩

/-- **Jobs start in the order of their submission.** When a job emits `job.started`, no job that was
submitted before it waits, and none of them emits `job.started` in that step or later. -/
theorem started_in_order (env : JobEnv) (job : JobId → JobRecord)
    (subscription : SubscriptionId → Subscription)
    (s t : Scheduler) (hrun : Relation.ReflTransGen (Any env) ⟨empty job subscription, .idle, []⟩ s)
    (hs : Any env s t)
    (id : JobId) (hstart : starts s id < starts t id) :
    ∀ x < id, ¬ (s.registry.job x).Waiting ∧ ∀ u, Relation.ReflTransGen (Any env) t u →
      starts u x = starts s x := by
  have hinv := inLine_run hrun
  obtain ⟨lease, hd⟩ : ∃ lease, s.dispatch = .start id lease := by
    by_contra hno
    exact hstart.ne' (starts_step hs fun lease hd => hno ⟨lease, hd⟩)
  have hfront : line s = id :: s.registry.queue := by
    unfold line
    rw [hd]
    rfl
  have hid : id < s.registry.created := hinv.created id (hfront ▸ List.mem_cons_self)
  intro x hx
  have hleft : Left s x := by
    refine ⟨hx.trans hid, fun hmem => ?_⟩
    rw [hfront, List.mem_cons] at hmem
    have hascending := hinv.ascending
    rw [hfront, List.pairwise_cons] at hascending
    obtain rfl | hmem := hmem
    · exact absurd hx (lt_irrefl _)
    · exact lt_asymm hx (hascending.1 x hmem)
  refine ⟨fun hwait => ?_, fun u hu => (hleft.starts (.head hs hu)).2⟩
  exact hleft.2 (List.mem_append_right _ (hinv.queued x hleft.1 hwait))

theorem perform_one (h : perform env [a] s = some t) : act env s a = some (.ok (), t) := by
  simp only [perform] at h
  split at h
  · rw [← Option.some.inj h]
    assumption
  · simp at h

namespace TwoJobs

/-- Two jobs wait; the first is put back, starts and ends, and then the second is captured. -/
def acts : List Act :=
  [.call (.submit OneJob.someSpec), .call (.submit OneJob.someSpec), .pump,
    .tryAdmit (.throws .projectBusy), .requeue,
    .pump, .tryAdmit (.lease 0), .capture none, .start, .execute true, .run 0,
    .returns 0 (.ok (some ⟨str "{}", .COMPLETE⟩)), .release 0 none, .finish 0, .pump,
      .tryAdmit (.lease 1), .capture none]

theorem runs : (perform OneJob.smallEnv acts OneJob.start).isSome = true := by decide +kernel

def captured : Scheduler := (perform OneJob.smallEnv acts OneJob.start).get runs

theorem captured_run : Relation.ReflTransGen (Any OneJob.smallEnv) OneJob.start captured :=
  Relation.ReflTransGen.mono (fun _ _ ⟨a, o, h, _⟩ => ⟨a, o, h⟩) _ _
    (perform_run (Option.some_get runs).symm)

theorem starts_next : (perform OneJob.smallEnv [.start] captured).isSome = true := by decide +kernel

def started : Scheduler := (perform OneJob.smallEnv [.start] captured).get starts_next

theorem started_step : Any OneJob.smallEnv captured started :=
  ⟨.start, .ok (), perform_one (Option.some_get starts_next).symm⟩

end TwoJobs

/-- The second of two jobs starts, and the first never again. -/
theorem started_in_order_two :
    starts TwoJobs.captured 0 = 1 ∧ starts TwoJobs.captured 1 < starts TwoJobs.started 1 ∧
    ∀ u, Relation.ReflTransGen (Any OneJob.smallEnv) TwoJobs.started u →
      starts u 0 = starts TwoJobs.captured 0 := by
  have hstart : starts TwoJobs.captured 1 < starts TwoJobs.started 1 := by decide +kernel
  have horder := started_in_order OneJob.smallEnv _ _ TwoJobs.captured TwoJobs.started
    TwoJobs.captured_run
    TwoJobs.started_step 1 hstart 0 Nat.zero_lt_one
  exact ⟨by decide +kernel, hstart, horder.2⟩

end Scheduler

end Libjadx
