import Libjadx.Spec.Ledger
import Mathlib.Data.List.Induction

/-!
# The log of one job

The log of a job is a word of a small automaton whose state is the job's state. `RecordOk` says
so, with what else holds of a record between two critical sections; every change of a record
keeps it (`RecordOk.change`, `RecordOk.ends`), and `logOk_of_recordOk` reads the grammar off it.
-/

namespace Libjadx

/-! ## The grammar as an automaton -/

/-- Where the log of a job stands. -/
inductive LogPhase
  | fresh | waiting | started | ended (state : JobState)
deriving DecidableEq

/-- The events that may come next. -/
def LogPhase.advance : LogPhase → JobEvent → Option LogPhase
  | .fresh, e => if e.type = .queued ∧ e.state = .QUEUED then some .waiting else none
  | .waiting, e => match e.type, e.state with
    | .cancel_requested, .QUEUED => some .waiting
    | .started, .RUNNING => some .started
    | .failed, .FAILED => some (.ended .FAILED)
    | .cancelled, .CANCELLED => some (.ended .CANCELLED)
    | _, _ => none
  | .started, e => match e.type, e.state with
    | .cancel_requested, .CANCELLING | .progress, .RUNNING | .progress, .CANCELLING => some .started
    | .completed, .SUCCEEDED => some (.ended .SUCCEEDED)
    | .failed, .FAILED => some (.ended .FAILED)
    | .cancelled, .CANCELLED => some (.ended .CANCELLED)
    | _, _ => none
  | .ended _, _ => none

/-- The phase that a log is in, by the state of its job. -/
def LogPhase.of : JobState → LogPhase
  | .QUEUED => .waiting
  | .RUNNING | .CANCELLING => .started
  | state => .ended state

/-- The phase that a log leads to, if it is one that a job may have. -/
def replay (log : List JobEvent) : Option LogPhase :=
  log.foldl (fun p e => p.bind fun p => p.advance e) (some .fresh)

/-- One event more is one step more. -/
theorem replay_snoc (log : List JobEvent) (e : JobEvent) :
    replay (log ++ [e]) = (replay log).bind fun p => p.advance e := by
  rw [replay, List.foldl_append]
  rfl

/-- What a replayed log looks like. -/
structure Replayed (log : List JobEvent) (p : LogPhase) : Prop where
  fresh : p = .fresh ↔ log = []
  first : log ≠ [] → log.head?.map JobEvent.type = some .queued
  waiting : p = .waiting ∨ p = .fresh → ∀ e ∈ log, e.type ≠ .started
  started_once : (log.filter fun e => e.type = .started).length ≤ 1
  started : p = .started → ∃ e ∈ log, e.type = .started
  open_ : (∀ st, p ≠ .ended st) → ∀ e ∈ log, e.terminal = false
  progress : ∀ a e b, log = a ++ e :: b → e.type = .progress →
    (∃ x ∈ a, x.type = .started) ∧ ∀ x ∈ a, x.terminal = false
  ended : ∀ st, p = .ended st → ∃ a e, log = a ++ [e] ∧ e.state = st ∧ e.terminal = true ∧
    ∀ x ∈ a, x.terminal = false

/-- The steps from phase to phase, one by one. -/
theorem advance_cases {p q : LogPhase} {e : JobEvent} (h : p.advance e = some q) :
    (p = .fresh ∧ q = .waiting ∧ e.type = .queued ∧ e.terminal = false) ∨
    (p = .waiting ∧ q = .waiting ∧ e.type = .cancel_requested ∧ e.terminal = false) ∨
    (p = .waiting ∧ q = .started ∧ e.type = .started ∧ e.terminal = false) ∨
    (p = .started ∧ q = .started ∧ (e.type = .cancel_requested ∨ e.type = .progress) ∧
      e.terminal = false) ∨
    ((p = .waiting ∨ p = .started) ∧ q = .ended e.state ∧ e.terminal = true ∧
      e.type ≠ .progress ∧ e.type ≠ .started) := by
  unfold JobEvent.terminal
  obtain ⟨j, n, type, now, state, data⟩ := e
  cases p with
  | fresh =>
    simp only [LogPhase.advance] at h
    split at h
    · rename_i he
      left
      simp_all [JobState.terminal]
    · simp at h
  | waiting => cases type <;> cases state <;> simp_all [LogPhase.advance, JobState.terminal]
  | started => cases type <;> cases state <;> simp_all [LogPhase.advance, JobState.terminal]
  | ended st => simp [LogPhase.advance] at h

/-- Splitting a list that ends in `x`. -/
theorem snoc_split {α : Type} {l a b : List α} {x y : α} (h : l ++ [x] = a ++ y :: b) :
    (∃ b', b = b' ++ [x] ∧ l = a ++ y :: b') ∨ (b = [] ∧ y = x ∧ a = l) := by
  rcases List.eq_nil_or_concat b with rfl | ⟨b', z, rfl⟩
  · obtain ⟨h1, h2⟩ := List.append_inj' h rfl
    exact .inr ⟨rfl, (List.cons.inj h2).1.symm, h1.symm⟩
  · have h' : l ++ [x] = (a ++ y :: b') ++ [z] := by rw [h]; simp
    obtain ⟨h1, h2⟩ := List.append_inj' h' rfl
    obtain rfl := (List.cons.inj h2).1
    exact .inl ⟨b', List.concat_eq_append, h1⟩

/-- A log goes on with what its phase allows. -/
theorem Replayed.snoc {log : List JobEvent} {p q : LogPhase} {e : JobEvent} (h : Replayed log p)
    (he : p.advance e = some q) : Replayed (log ++ [e]) q := by
  have hcases := advance_cases he
  have hne : log ++ [e] ≠ [] := by simp
  have hopen : ∀ st, p ≠ .ended st := by
    rintro st rfl
    simp at hcases
  refine ⟨?_, fun _ => ?_, ?_, ?_, ?_, ?_, ?_, ?_⟩
  · rcases hcases with ⟨-, rfl, -⟩ | ⟨-, rfl, -⟩ | ⟨-, rfl, -⟩ | ⟨-, rfl, -⟩ | ⟨-, rfl, -⟩ <;> simp
  · cases hl : log with
    | nil =>
      have hp : p = .fresh := h.fresh.2 hl
      rw [hp] at hcases
      simpa using hcases.resolve_right (by simp) |>.2.2.1
    | cons x l => simpa [hl] using h.first (by simp [hl])
  · intro hq x hx
    rcases List.mem_append.1 hx with hx | hx
    · refine h.waiting ?_ x hx
      rcases hcases with ⟨rfl, -⟩ | ⟨rfl, -⟩ | ⟨rfl, -⟩ | ⟨-, rfl, -⟩ | ⟨-, rfl, -⟩ <;> simp_all
    · rw [List.mem_singleton.1 hx]
      rcases hcases with ⟨-, -, ht, -⟩ | ⟨-, -, ht, -⟩ | ⟨-, rfl, -⟩ | ⟨-, rfl, -⟩ |
        ⟨-, -, -, -, ht⟩ <;>
        simp_all
  · -- a second `job.started` would need to wait after the first
    rw [List.filter_append, List.length_append]
    by_cases ht : e.type = .started
    · have hp : p = .waiting := by rcases hcases with h | h | h | h | h <;> simp_all
      have hnone : log.filter (fun e => e.type = .started) = [] := by
        rw [List.filter_eq_nil_iff]
        intro x hx
        simpa using h.waiting (.inl hp) x hx
      simp [hnone, ht]
    · simpa [ht] using h.started_once
  · rintro rfl
    rcases hcases with h' | h' | ⟨-, -, ht, -⟩ | ⟨hp, -⟩ | h'
    · simp at h'
    · simp at h'
    · exact ⟨e, by simp, ht⟩
    · obtain ⟨x, hx, ht⟩ := h.started hp
      exact ⟨x, List.mem_append_left _ hx, ht⟩
    · simp at h'
  · intro hq x hx
    rcases List.mem_append.1 hx with hx | hx
    · exact h.open_ hopen x hx
    · rw [List.mem_singleton.1 hx]
      rcases hcases with ⟨-, -, -, ht⟩ | ⟨-, -, -, ht⟩ | ⟨-, -, -, ht⟩ | ⟨-, -, -, ht⟩ | ⟨-, rfl, -⟩
      · exact ht
      · exact ht
      · exact ht
      · exact ht
      · exact absurd rfl (hq _)
  · intro a x b hab hx
    rcases snoc_split hab with ⟨b', -, hl⟩ | ⟨-, rfl, rfl⟩
    · exact h.progress a x b' hl hx
    · refine ⟨h.started ?_, h.open_ hopen⟩
      rcases hcases with h' | h' | h' | ⟨hp, -⟩ | ⟨-, -, -, ht, -⟩
      · simp_all
      · simp_all
      · simp_all
      · exact hp
      · exact absurd hx ht
  · rintro st rfl
    rcases hcases with h' | h' | h' | h' | ⟨-, hst, ht, -⟩
    · simp at h'
    · simp at h'
    · simp at h'
    · simp at h'
    · exact ⟨log, e, rfl, (LogPhase.ended.inj hst).symm, ht, h.open_ hopen⟩

/-- A log that is replayed has the form of its phase. -/
theorem replayed_of_replay {log : List JobEvent} :
    ∀ {p : LogPhase}, replay log = some p → Replayed log p := by
  induction log using List.reverseRecOn with
  | nil =>
    intro p h
    obtain rfl : LogPhase.fresh = p := Option.some.inj h
    exact ⟨by simp, by simp, by simp, by simp, by simp, by simp, by simp, by simp⟩
  | append_singleton log e ih =>
    intro q h
    rw [replay_snoc] at h
    obtain ⟨p, hp, he⟩ := Option.bind_eq_some_iff.1 h
    exact (ih hp).snoc he

/-! ## One record -/

/-- What holds of every job between two critical sections. -/
structure RecordOk (id : JobId) (r : JobRecord) : Prop where
  sequences : r.log.map JobEvent.sequence = List.range' 1 r.nextSequence
  job : ∀ e ∈ r.log, e.jobId = id
  retained : r.events <:+ r.log
  phase : replay r.log = some (.of r.state)
  completed : r.completedNanos.isSome = r.terminal
  result : r.resultJson.isSome = true ↔ r.state = .SUCCEEDED
  dispatching : r.dispatching = true → r.state = .QUEUED

/-- **The grammar.** -/
theorem logOk_of_recordOk {id : JobId} {r : JobRecord} (h : RecordOk id r) : r.LogOk id := by
  have hr := replayed_of_replay h.phase
  have hlen : r.log.length = r.nextSequence := by
    have := congrArg List.length h.sequences
    simpa using this
  have hne : r.log ≠ [] := by
    intro hnil
    have hf := hr.fresh.2 hnil
    cases hs : r.state <;> simp [LogPhase.of, hs] at hf
  have hended : ∀ st, LogPhase.of r.state = .ended st ↔ r.terminal = true ∧ st = r.state := by
    intro st
    unfold JobRecord.terminal
    cases hs : r.state <;> simp [LogPhase.of, JobState.terminal, eq_comm]
  refine ⟨by rw [hlen]; exact h.sequences, h.job, hr.first hne, hr.started_once, hr.progress,
    fun a e b hab ht => ?_, ?_, h.result, h.retained⟩
  · by_cases hend : r.terminal = true
    · obtain ⟨a', e', hl, hst, -, hopen⟩ := hr.ended _ ((hended _).2 ⟨hend, rfl⟩)
      rw [hl] at hab
      rcases snoc_split hab with ⟨b', -, rfl⟩ | ⟨rfl, rfl, -⟩
      · have := hopen e (by simp)
        rw [ht] at this
        simp at this
      · exact ⟨rfl, hst⟩
    · have := hr.open_ (fun st hst => hend ((hended st).1 hst).1) e (by rw [hab]; simp)
      rw [ht] at this
      simp at this
  · constructor
    · intro hend
      obtain ⟨a, e, hl, -, ht, -⟩ := hr.ended _ ((hended _).2 ⟨hend, rfl⟩)
      exact ⟨e, by rw [hl]; simp, ht⟩
    · rintro ⟨e, he, ht⟩
      by_contra hend
      have := hr.open_ (fun st hst => hend ((hended st).1 hst).1) e he
      rw [ht] at this
      simp at this

/-- What is retained is the end of the log. -/
theorem retain_suffix {env : JobEnv} {events log : List JobEvent} (h : events <:+ log)
    (e : JobEvent) :
    JobRegistry.retain env e events <:+ log ++ [e] := by
  obtain ⟨a, rfl⟩ := h
  unfold JobRegistry.retain
  split
  · cases events with
    | nil => exact ⟨a, by simp⟩
    | cons x events => exact ⟨a ++ [x], by simp⟩
  · exact ⟨a, by simp⟩

/-- A record after an event that its log admits. -/
theorem RecordOk.emit {env : JobEnv} {id : JobId} {r r' : JobRecord} {type : EventType} {now : ℤ}
    (h : RecordOk id r) (hlog : r'.log = r.log) (hev : r'.events = r.events)
    (hseq : r'.nextSequence = r.nextSequence)
    (hadv : ∀ n now d, (LogPhase.of r.state).advance ⟨id, n, type, now, r'.state, d⟩ = some
      (.of r'.state))
    (hcomp : r'.completedNanos.isSome = r'.terminal)
    (hres : r'.resultJson.isSome = true ↔ r'.state = .SUCCEEDED)
    (hdisp : r'.dispatching = true → r'.state = .QUEUED) :
    RecordOk id (r'.emitted env id type now) := by
  refine ⟨?_, ?_, ?_, ?_, hcomp, hres, hdisp⟩
  · simp only [JobRecord.emitted, hlog, hseq, List.map_append, h.sequences, List.map_cons, List.map_nil]
    rw [← List.range'_append_1]
    simp [Nat.add_comm]
  · intro e he
    simp only [JobRecord.emitted, hlog] at he
    rcases List.mem_append.1 he with he | he
    · exact h.job e he
    · rw [List.mem_singleton.1 he]
  · simp only [JobRecord.emitted, hlog, hev]
    exact retain_suffix h.retained _
  · simp only [JobRecord.emitted, hlog]
    rw [replay_snoc, h.phase]
    exact hadv _ _ _

/-- A change of a record keeps its log in order, -/
theorem RecordOk.change {env : JobEnv} {id : JobId} {r r' : JobRecord} (h : RecordOk id r)
    (hc : Change env id r r') : RecordOk id r' := by
  have hcomp := h.completed
  have hres := h.result
  have hdisp := h.dispatching
  cases hc with
  | request reason => exact ⟨h.sequences, h.job, h.retained, h.phase, h.completed, h.result,
      h.dispatching⟩
  | note d => exact ⟨h.sequences, h.job, h.retained, h.phase, h.completed, h.result, h.dispatching⟩
  | cancel_requested now ht =>
    unfold JobRecord.terminal at ht hcomp
    refine h.emit ?_ ?_ ?_ ?_ ?_ ?_ ?_ <;> unfold JobRecord.cancelling <;> split
    all_goals rename_i hs
    · rfl
    · rfl
    · rfl
    · rfl
    · rfl
    · rfl
    · intro n now d; rw [hs]; rfl
    · intro n now d
      cases hst : r.state <;> simp_all [JobState.terminal, LogPhase.of, LogPhase.advance]
    · simpa [JobRecord.terminal, JobState.terminal, hs] using hcomp
    · exact hcomp
    · simpa [hs] using hres
    · exact hres
    · intro hd; simp [hdisp hd] at hs
    · exact hdisp
  | progress p now hx =>
    refine h.emit rfl rfl rfl (fun n now d => ?_) hcomp hres hdisp
    rcases hx with hx | hx <;> rw [hx] <;> rfl

/-- and so does its end. -/
theorem RecordOk.ends {env : JobEnv} {id : JobId} {r r' : JobRecord} (h : RecordOk id r)
    (ht : r.terminal = false) (hd : r.dispatching = false) (he : Ends env id r r') :
    RecordOk id r' := by
  have hres := h.result
  unfold JobRecord.terminal at ht
  have hnone : ¬ r.resultJson.isSome = true := by
    rw [hres]; intro hs; simp [hs, JobState.terminal] at ht
  cases he with
  | cancelled at_ nanos order now =>
    refine h.emit rfl rfl rfl (fun n now d => ?_) rfl ?_ ?_
    · cases hs : r.state <;> simp_all [JobState.terminal, LogPhase.of, LogPhase.advance,
        JobRecord.completed]
    · simpa [JobRecord.completed] using hnone
    · simp [JobRecord.completed, hd]
  | failed at_ nanos order now error cause d =>
    refine h.emit rfl rfl rfl (fun n now d => ?_) rfl ?_ ?_
    · cases hs : r.state <;> simp_all [JobState.terminal, LogPhase.of, LogPhase.advance,
        JobRecord.completed]
    · simpa [JobRecord.completed] using hnone
    · simp [JobRecord.completed, hd]

/-- A job waits where it has not ended and nothing holds it. -/
theorem RecordOk.waiting_iff {id : JobId} {r : JobRecord} (h : RecordOk id r) :
    r.Waiting ↔ r.terminal = false ∧ ¬ r.Holds := by
  have hd := h.dispatching
  unfold JobRecord.Waiting JobRecord.Holds JobRecord.Executing JobRecord.terminal
  cases hs : r.state <;> cases hdd : r.dispatching <;> simp_all [JobState.terminal]

/-! ## What the accounts see of a record -/

/-- An event changes nothing but the log. -/
theorem emitted_fields (env : JobEnv) (id : JobId) (type : EventType) (now : ℤ) (r : JobRecord) :
    (r.emitted env id type now).terminal = r.terminal ∧
    (r.emitted env id type now).subscribers = r.subscribers ∧
    (r.emitted env id type now).resultJson = r.resultJson ∧ ((r.emitted env id type now).Waiting ↔
      r.Waiting) ∧
    ((r.emitted env id type now).Holds ↔ r.Holds) := ⟨rfl, rfl, rfl, Iff.rfl, Iff.rfl⟩

/-- A change keeps what a job holds. -/
theorem change_fields {env : JobEnv} {id : JobId} {r r' : JobRecord} (h : Change env id r r') :
    r'.terminal = r.terminal ∧ r'.subscribers = r.subscribers ∧ r'.resultJson = r.resultJson ∧
    (r'.Waiting ↔ r.Waiting) ∧ (r'.Holds ↔ r.Holds) := by
  cases h with
  | request reason => exact ⟨rfl, rfl, rfl, Iff.rfl, Iff.rfl⟩
  | note d => exact ⟨rfl, rfl, rfl, Iff.rfl, Iff.rfl⟩
  | cancel_requested now ht =>
    unfold JobRecord.cancelling
    split
    · rename_i hs
      refine ⟨?_, rfl, rfl, ?_, ?_⟩
      · simp [JobRecord.emitted, JobRecord.terminal, hs, JobState.terminal]
      · simp [JobRecord.emitted, JobRecord.Waiting, hs]
      · simp [JobRecord.emitted, JobRecord.Holds, JobRecord.Executing, JobRecord.terminal, hs,
          JobState.terminal]
    · exact emitted_fields _ _ _ _ _
  | progress p now hx => exact ⟨rfl, rfl, rfl, Iff.rfl, Iff.rfl⟩

/-- A job that ends holds no slot and does not wait. -/
theorem ends_fields {env : JobEnv} {id : JobId} {r r' : JobRecord} (h : Ends env id r r') :
    r'.terminal = true ∧ r'.subscribers = r.subscribers ∧ r'.resultJson = r.resultJson ∧
      ¬ r'.Waiting ∧ ¬ r'.Holds := by
  cases h <;> refine ⟨rfl, rfl, rfl, ?_, ?_⟩ <;>
    simp [JobRecord.Waiting, JobRecord.Holds, JobRecord.emitted, JobRecord.completed, JobRecord.terminal,
      JobState.terminal]

end Libjadx
