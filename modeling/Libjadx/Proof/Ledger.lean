import Libjadx.Proof.Log
import Mathlib.Algebra.BigOperators.Group.List.Basic

/-!
# Every move keeps the ledger in order

* `Move.inv`: every move keeps `Ledger.Inv`, which is `Balanced` with the bookkeeping behind it.
* `Move.evolves`: what a move leaves of a job, in particular its end, and all of it for a job
  that somebody else holds.
-/

namespace Libjadx

/-! ## Sums over the records -/

namespace Ledger

variable {env : JobEnv} {l : Ledger} {id : JobId} {r : JobRecord} {w : JobRecord → ℕ}

/-- One entry changes a sum by its own difference. -/
theorem sum_update {α : Type} [DecidableEq α] {β : Type} (w : β → ℕ) (f : α → β) (a : α) (b : β) :
    ∀ {l : List α}, l.Nodup → a ∈ l →
      (l.map fun x => w (Function.update f a b x)).sum + w
      (f a) = (l.map fun x => w (f x)).sum + w b := by
  intro l
  induction l with
  | nil => intro _ ha; simp at ha
  | cons x l ih =>
    intro hnd ha
    rw [List.nodup_cons] at hnd
    simp only [List.map_cons, List.sum_cons]
    by_cases hx : x = a
    · subst hx
      have hsame : (l.map fun y => w (Function.update f x b y)) = l.map fun y => w (f y) := by
        refine List.map_congr_left fun y hy => ?_
        rw [Function.update_of_ne]
        rintro rfl
        exact hnd.1 hy
      rw [hsame, Function.update_self]
      omega
    · have hal : a ∈ l := (List.mem_cons.1 ha).resolve_left fun h => hx h.symm
      have := ih hnd.2 hal
      rw [Function.update_of_ne hx]
      omega

@[simp] theorem set_job_self : (l.set id r).job id = r := by simp [set]

theorem set_job_ne {x : JobId} (hx : x ≠ id) : (l.set id r).job x = l.job x := by
  simp [set, Function.update_of_ne hx]

theorem set_set {r' : JobRecord} :
    (l.set id r).set id r' = l.set id r' := by simp [set, Function.update_idem]

theorem drop_job_ne {x : JobId} (hx : x ≠ id) : (l.drop id).job x = l.job x := set_job_ne hx

/-- Setting a record changes a total by its own difference. -/
theorem total_set (hnd : l.records.Nodup) (hid : id ∈ l.records) :
    (l.set id r).total w + w (l.job id) = l.total w + w r := sum_update w l.job id r hnd hid

/-- A record of the same weight changes no total. -/
theorem total_set_eq (hw : w r = w (l.job id)) : (l.set id r).total w = l.total w := by
  unfold total set
  refine congrArg List.sum (List.map_congr_left fun x _ => ?_)
  by_cases hx : x = id
  · subst hx; simp [hw]
  · simp [Function.update_of_ne hx]

/-- What is erased is missing from the sum. -/
theorem sum_erase {α : Type} [DecidableEq α] (f : α → ℕ) {a : α} : ∀ {l : List α}, a ∈ l →
    ((l.erase a).map f).sum + f a = (l.map f).sum := by
  intro l ha
  have := (List.perm_cons_erase ha).map f |>.sum_eq
  rw [this, List.map_cons, List.sum_cons]
  omega

/-! ## The invariant -/

/-- One slot for a job that holds one, one place for a job that is over. -/
def slot (r : JobRecord) : ℕ := if r.Holds then 1 else 0
/-- Whether a record counts as ended. -/
def ended (r : JobRecord) : ℕ := if r.terminal then 1 else 0
/-- How many subscribers a record has. -/
def subscribed (r : JobRecord) : ℕ := r.subscribers.length

/-- The ledger is in order, with at most `m` jobs retained. -/
structure Inv (env : JobEnv) (m : ℕ) (l : Ledger) : Prop where
  nodup : l.records.Nodup
  known : ∀ id ∈ l.records, id < l.created
  ok : ∀ id < l.created, RecordOk id (l.job id)
  live : ∀ id < l.created, (l.job id).terminal = false → id ∈ l.records
  gone : ∀ id < l.created, id ∉ l.records → (l.job id).subscribers = []
  queue_nodup : l.queue.Nodup
  queue : ∀ id, id ∈ l.queue ↔ id < l.created ∧ (l.job id).Waiting
  slots : l.runningSlots = l.total slot
  slots_le : l.runningSlots ≤ env.limits.maxRunning
  retained : l.total ended ≤ m
  bytes : l.retainedResultBytes = l.total JobRecord.resultBytes
  bytes_le : l.retainedResultBytes ≤ env.limits.maxTotalResultBytes
  subscribers : l.globalSubscribers = l.total subscribed

/-- A ledger whose counters are kept is balanced. -/
theorem Inv.balanced (h : Inv env env.limits.maxRetained l) : l.Balanced env where
  slots := h.slots
  slots_bound := ⟨by rw [h.slots]; exact Int.natCast_nonneg _, h.slots_le⟩
  queue_nodup := h.queue_nodup
  queue := h.queue
  live := h.live
  retained := h.retained
  bytes := h.bytes
  bytes_bound := h.bytes_le
  subscribers := h.subscribers

/-- A change of one job that leaves what the accounts count. -/
theorem Inv.set_same {m : ℕ} (h : Inv env m l) (hid : id < l.created) (hok : RecordOk id r)
    (ht : r.terminal = (l.job id).terminal) (hs : r.subscribers = (l.job id).subscribers)
    (hb : r.resultJson = (l.job id).resultJson) (hw : r.Waiting ↔ (l.job id).Waiting)
    (hh : r.Holds ↔ (l.job id).Holds) : Inv env m (l.set id r) := by
  have hbytes : r.resultBytes = (l.job id).resultBytes := by simp [JobRecord.resultBytes, hb]
  have hcase : ∀ {P : JobId → JobRecord → Prop} (x : JobId), P id r → (x ≠ id → P x (l.job x)) →
      P x ((l.set id r).job x) := by
    intro P x h1 h2
    by_cases hx : x = id
    · subst hx; simpa [set] using h1
    · simpa [set, Function.update_of_ne hx] using h2 hx
  refine ⟨h.nodup, h.known, fun x hx => hcase (P := RecordOk) x hok fun _ => h.ok x hx,
    fun x hx => ?_, fun x hx hn => ?_, h.queue_nodup, fun x =>
      ?_, ?_, h.slots_le, ?_, ?_, h.bytes_le, ?_⟩
  · refine hcase (P := fun x r => r.terminal = false → x ∈ l.records) x (fun h' => ?_)
      fun _ => h.live x hx
    exact h.live id hid (ht ▸ h')
  · refine hcase (P := fun x r => x ∉ l.records → r.subscribers = []) x (fun h' => ?_)
      (fun _ => h.gone x hx) hn
    rw [hs]
    exact h.gone id hid h'
  · refine hcase (P := fun x r => x ∈ l.queue ↔ x < l.created ∧ r.Waiting) x ?_ fun _ => h.queue x
    rw [hw]
    exact h.queue id
  · show l.runningSlots = _
    rw [h.slots, total_set_eq (by simp [slot, hh])]
  · rw [total_set_eq (by simp [ended, ht])]
    exact h.retained
  · show l.retainedResultBytes = _
    rw [h.bytes, total_set_eq hbytes]
  · show l.globalSubscribers = _
    rw [h.subscribers, total_set_eq (by simp [subscribed, hs])]

/-- A change of one job still in the registry, with the accounts brought up to date. -/
theorem Inv.reckon {m : ℕ} (h : Inv env m l) (hid : id ∈ l.records) (hok : RecordOk id r)
    {q : List JobId}
    {n b : ℤ} (hs : r.subscribers = (l.job id).subscribers) (hqn : q.Nodup)
    (hq : ∀ x, x ∈ q ↔ x ≠ id ∧ x ∈ l.queue ∨ x = id ∧ r.Waiting)
    (hn : n + slot (l.job id) = l.runningSlots + slot r) (hnle : n ≤ env.limits.maxRunning)
    (hb : b + (l.job id).resultBytes = l.retainedResultBytes + r.resultBytes)
    (hble : b ≤ env.limits.maxTotalResultBytes) {m' : ℕ}
    (hm : m + ended r ≤ m' + ended (l.job id)) :
    Inv env m' { l.set id r with queue := q, runningSlots := n, retainedResultBytes := b } := by
  have hset : ∀ w, (l.set id r).total w + w (l.job id) = l.total w + w r := fun w =>
    total_set h.nodup hid
  have hother : ∀ x, x ≠ id → (l.set id r).job x = l.job x := fun x hx => set_job_ne hx
  have hself : (l.set id r).job id = r := set_job_self
  refine ⟨h.nodup, h.known, fun x hx => ?_, fun x hx ht => ?_, fun x hx hnot => ?_, hqn, fun x =>
    ?_, ?_, hnle,
    ?_, ?_, hble, ?_⟩
  · by_cases hxi : x = id
    · subst hxi; show RecordOk x ((l.set x r).job x); rw [hself]; exact hok
    · show RecordOk x ((l.set id r).job x); rw [hother x hxi]; exact h.ok x hx
  · by_cases hxi : x = id
    · rw [hxi]; exact hid
    · exact h.live x hx (by rw [← hother x hxi]; exact ht)
  · have hxi : x ≠ id := by rintro rfl; exact hnot hid
    show ((l.set id r).job x).subscribers = []
    rw [hother x hxi]
    exact h.gone x hx hnot
  · show x ∈ q ↔ x < l.created ∧ ((l.set id r).job x).Waiting
    rw [hq]
    by_cases hxi : x = id
    · subst hxi; rw [hself]; simp [h.known x hid]
    · rw [hother x hxi]; simp [hxi, h.queue x]
  · show n = (l.set id r).total slot
    have := hset slot
    have := h.slots
    omega
  · show (l.set id r).total ended ≤ m'
    have := hset ended
    have := h.retained
    omega
  · show b = (l.set id r).total JobRecord.resultBytes
    have := hset JobRecord.resultBytes
    have := h.bytes
    omega
  · show l.globalSubscribers = (l.set id r).total subscribed
    have := hset subscribed
    have hsub : subscribed r = subscribed (l.job id) := by simp [subscribed, hs]
    have := h.subscribers
    omega

/-- Dropping a job that is over. -/
theorem Inv.drop {m : ℕ} (h : Inv env m l) (hid : id ∈ l.records)
    (ht : (l.job id).terminal = true) :
    Inv env (m - 1) (l.drop id) ∧ l.total ended = (l.drop id).total ended + 1 := by
  have hidc := h.known id hid
  have hnot : id ∉ l.records.erase id := fun hm => (h.nodup.mem_erase_iff.1 hm).1 rfl
  have hother : ∀ x, x ≠ id → (l.drop id).job x = l.job x := fun x hx => drop_job_ne hx
  have hself : (l.drop id).job id = { l.job id with subscribers := [], events := [] } :=
    set_job_self
  have htotal : ∀ w : JobRecord → ℕ, (l.drop id).total w + w (l.job id) = l.total w := by
    intro w
    unfold total
    rw [← sum_erase (fun id => w (l.job id)) hid]
    congr 2
    refine List.map_congr_left fun x hx => ?_
    rw [hother x]
    rintro rfl
    exact hnot hx
  have hslot : slot (l.job id) = 0 := by simp [slot, JobRecord.Holds, ht]
  have hended : ended (l.job id) = 1 := by simp [ended, ht]
  have hdrop : l.total ended = (l.drop id).total ended + 1 := by rw [← htotal ended, hended]
  refine ⟨⟨h.nodup.erase _, fun x hx => h.known x (List.mem_of_mem_erase hx), fun x hx => ?_,
    fun x hx hxt => ?_, fun x hx hxn => ?_, h.queue_nodup, fun x =>
      ?_, ?_, h.slots_le, ?_, ?_, ?_, ?_⟩, hdrop⟩
  · by_cases hxi : x = id
    · subst hxi
      have hok := h.ok x hx
      rw [hself]
      exact ⟨hok.sequences, hok.job, List.nil_suffix, hok.phase, hok.completed, hok.result,
        hok.dispatching⟩
    · rw [hother x hxi]; exact h.ok x hx
  · have hxi : x ≠ id := by
      rintro rfl
      rw [hself] at hxt
      exact Bool.false_ne_true (hxt.symm.trans ht)
    rw [hother x hxi] at hxt
    exact (List.mem_erase_of_ne hxi).2 (h.live x hx hxt)
  · by_cases hxi : x = id
    · subst hxi; rw [hself]
    · rw [hother x hxi]
      exact h.gone x hx fun hm => hxn ((List.mem_erase_of_ne hxi).2 hm)
  · show x ∈ l.queue ↔ x < l.created ∧ ((l.drop id).job x).Waiting
    by_cases hxi : x = id
    · subst hxi
      have hnw : ¬ (l.job x).Waiting := by
        rw [RecordOk.waiting_iff (h.ok x hidc)]
        simp [ht]
      rw [hself, h.queue x]
      exact and_congr Iff.rfl (by simp [JobRecord.Waiting])
    · rw [hother x hxi]; exact h.queue x
  · show l.runningSlots = _
    have := htotal slot
    have := h.slots
    omega
  · have := h.retained
    omega
  · show l.retainedResultBytes - (l.job id).resultBytes = _
    have := htotal JobRecord.resultBytes
    have := h.bytes
    omega
  · show l.retainedResultBytes - (l.job id).resultBytes ≤ _
    have := h.bytes_le
    omega
  · show l.globalSubscribers - (l.job id).subscribers.length = _
    have := htotal subscribed
    have := h.subscribers
    have hsub : subscribed (l.job id) = (l.job id).subscribers.length := rfl
    omega

/-! ## Retention -/

/-- The search goes over the records one by one. -/
theorem oldestCompleted_fold (req : Bool) (job : JobId → JobRecord) {P : JobId → Prop}
    (hP : ∀ id, P id ↔ ¬ ((job id).completedNanos.isNone || (req && (job id).resultJson.isNone)) = true) :
    ∀ (records : List JobId) (start : Option JobId),
      let result := records.foldl (fun oldest id =>
        if (job id).completedNanos.isNone || (req && (job id).resultJson.isNone) then oldest
        else match oldest with
          | none => some id
          | some o => if JobRegistry.olderThan (job id) (job o) then some id else some o) start
      (∀ o, result = some o → start = some o ∨ o ∈ records ∧ P o) ∧
      (result = none → start = none ∧ ∀ id ∈ records, ¬ P id) := by
  intro records
  induction records with
  | nil => intro start; simp
  | cons id records ih =>
    intro start
    simp only [List.foldl_cons]
    by_cases hp : P id
    · have hc := (hP id).1 hp
      rw [if_neg hc]
      cases start with
      | none =>
        obtain ⟨h1, h2⟩ := ih (some id)
        refine ⟨fun o ho => ?_, fun hn => absurd (h2 hn).1 (by simp)⟩
        rcases h1 o ho with h | h
        · rw [← Option.some.inj h]; exact .inr ⟨List.mem_cons_self, hp⟩
        · exact .inr ⟨List.mem_cons_of_mem _ h.1, h.2⟩
      | some o' =>
        simp only
        split
        · obtain ⟨h1, h2⟩ := ih (some id)
          refine ⟨fun o ho => ?_, fun hn => absurd (h2 hn).1 (by simp)⟩
          rcases h1 o ho with h | h
          · rw [← Option.some.inj h]; exact .inr ⟨List.mem_cons_self, hp⟩
          · exact .inr ⟨List.mem_cons_of_mem _ h.1, h.2⟩
        · obtain ⟨h1, h2⟩ := ih (some o')
          refine ⟨fun o ho => ?_, fun hn => absurd (h2 hn).1 (by simp)⟩
          exact (h1 o ho).imp_right fun h => ⟨List.mem_cons_of_mem _ h.1, h.2⟩
    · have hc := not_not.1 fun h => hp ((hP id).2 h)
      rw [if_pos hc]
      obtain ⟨h1, h2⟩ := ih start
      refine ⟨fun o ho => (h1 o ho).imp_right fun h => ⟨List.mem_cons_of_mem _ h.1, h.2⟩,
        fun hn => ?_⟩
      obtain ⟨hs, hall⟩ := h2 hn
      exact ⟨hs, List.forall_mem_cons.2 ⟨hp, hall⟩⟩

/-- The job that is found is retained, and has completed. -/
theorem oldestCompleted_some {req : Bool} {records : List JobId}
    {job : JobId → JobRecord} {o : JobId}
    (h : JobRegistry.oldestCompleted req records job = some o) :
    o ∈ records ∧ (job o).completedNanos.isSome = true := by
  have := (oldestCompleted_fold req job (fun _ => Iff.rfl) records none).1 o h
  rcases this with h | ⟨hm, hp⟩
  · simp at h
  · refine ⟨hm, ?_⟩
    cases hc : (job o).completedNanos <;> simp_all

/-- Where none is found, none has completed. -/
theorem oldestCompleted_none {req : Bool} {records : List JobId} {job : JobId → JobRecord}
    (h : JobRegistry.oldestCompleted req records job = none) {id : JobId} (hid : id ∈ records)
    (hc : (job id).completedNanos.isSome = true) : req = true ∧ (job id).resultJson = none := by
  have := ((oldestCompleted_fold req job (fun _ => Iff.rfl) records none).2 h).2 id hid
  rw [not_not] at this
  cases hn : (job id).completedNanos <;> cases hr : (job id).resultJson <;> simp_all

/-- **One eviction is enough.** -/
theorem Inv.evict (h : Inv env (env.limits.maxRetained + 1) l) :
    Inv env env.limits.maxRetained (l.evict env) := by
  have hcount : (l.records.filter fun id => (l.job id).completedNanos.isSome).length =
      l.total ended := by
    have hok : ∀ id ∈ l.records, (l.job id).completedNanos.isSome = (l.job id).terminal :=
      fun id hid => (h.ok id (h.known id hid)).completed
    unfold total
    generalize l.records = records at hok
    induction records with
    | nil => rfl
    | cons id records ih =>
      have hid := hok id List.mem_cons_self
      have ih := ih fun x hx => hok x (List.mem_cons_of_mem _ hx)
      rw [List.filter_cons, List.map_cons, List.sum_cons, ← ih]
      unfold ended
      cases ht : (l.job id).terminal <;> simp [hid, ht, Nat.add_comm]
  unfold Ledger.evict
  rw [hcount]
  split
  · rename_i hle
    exact ⟨h.nodup, h.known, h.ok, h.live, h.gone, h.queue_nodup, h.queue, h.slots, h.slots_le,
      hle, h.bytes,
      h.bytes_le, h.subscribers⟩
  · rename_i hgt
    cases ho : JobRegistry.oldestCompleted false l.records l.job with
    | none =>
      -- some job is over, so there is an oldest one
      exfalso
      rw [← hcount] at hgt
      obtain ⟨id, hid⟩ := List.exists_mem_of_length_pos (Nat.lt_of_le_of_lt (Nat.zero_le _)
        (Nat.lt_of_not_le hgt))
      obtain ⟨hmem, hc⟩ := List.mem_filter.1 hid
      exact absurd (oldestCompleted_none ho hmem hc).1 (by simp)
    | some o =>
      obtain ⟨hmem, hc⟩ := oldestCompleted_some ho
      exact (h.drop hmem (by rw [← (h.ok o (h.known o hmem)).completed]; exact hc)).1

/-- An eviction drops one completed job, or none. -/
theorem evict_cases (env : JobEnv) (l : Ledger) :
    l.evict env = l ∨ ∃ o ∈ l.records, (l.job o).completedNanos.isSome = true ∧
      l.evict env = l.drop o := by
  unfold Ledger.evict
  split
  · exact .inl rfl
  · cases ho : JobRegistry.oldestCompleted false l.records l.job with
    | none => exact .inl rfl
    | some o => exact .inr ⟨o, (oldestCompleted_some ho).1, (oldestCompleted_some ho).2, rfl⟩

/-! ## The moves -/

/-- **A new job keeps the counters.** -/
theorem Inv.enroll {m : ℕ} (h : Inv env m l) (hok : RecordOk l.created r) (hw : r.Waiting)
    (hr : r.resultJson = none) (hsub : r.subscribers = []) : Inv env m (l.enroll r) := by
  have hnew : l.created ∉ l.records := fun hm => Nat.lt_irrefl _ (h.known _ hm)
  have hother : ∀ x, x ≠ l.created → (l.enroll r).job x = l.job x := fun x hx => by
    simp [Ledger.enroll, Function.update_of_ne hx]
  have hself : (l.enroll r).job l.created = r := by simp [Ledger.enroll]
  have htotal : ∀ w, (l.enroll r).total w = l.total w + w r := by
    intro w
    show ((l.records ++ [l.created]).map fun id => w ((l.enroll r).job id)).sum = _
    rw [List.map_append, List.sum_append, List.map_cons, List.map_nil, List.sum_singleton, hself]
    congr 2
    refine List.map_congr_left fun x hx => ?_
    rw [hother x]
    rintro rfl
    exact hnew hx
  have ht : r.terminal = false := by simp [JobRecord.terminal, hw.1, JobState.terminal]
  have hlt : ∀ x, x < l.created + 1 → x = l.created ∨ x < l.created := fun x hx => by omega
  -- a job that is not created yet waits nowhere
  have hnotw : ∀ x ∈ l.queue, x ≠ l.created := by
    rintro x hx rfl
    exact Nat.lt_irrefl _ ((h.queue _).1 hx).1
  refine ⟨?_, fun x hx => ?_, fun x hx => ?_, fun x hx hxt => ?_, fun x hx hn => ?_, ?_,
    fun x => ?_, ?_,
    h.slots_le, ?_, ?_, h.bytes_le, ?_⟩
  · exact List.nodup_append.2 ⟨h.nodup, List.nodup_singleton _, by
      rintro a ha b hb rfl; exact hnew (List.mem_singleton.1 hb ▸ ha)⟩
  · show x < l.created + 1
    rcases List.mem_append.1 hx with hx | hx
    · exact Nat.lt_succ_of_lt (h.known x hx)
    · rw [List.mem_singleton.1 hx]; exact Nat.lt_succ_self _
  · rcases hlt x hx with rfl | hx
    · rw [hself]; exact hok
    · rw [hother x (Nat.ne_of_lt hx)]; exact h.ok x hx
  · rcases hlt x hx with rfl | hx
    · exact List.mem_append_right _ (List.mem_singleton.2 rfl)
    · rw [hother x (Nat.ne_of_lt hx)] at hxt
      exact List.mem_append_left _ (h.live x hx hxt)
  · rcases hlt x hx with rfl | hx
    · rw [hself]; exact hsub
    · rw [hother x (Nat.ne_of_lt hx)]
      exact h.gone x hx fun hm => hn (List.mem_append_left _ hm)
  · exact List.nodup_append.2 ⟨h.queue_nodup, List.nodup_singleton _, by
      rintro a ha b hb rfl; exact hnotw _ ha (List.mem_singleton.1 hb)⟩
  · show x ∈ l.queue ++ [l.created] ↔ x < l.created + 1 ∧ ((l.enroll r).job x).Waiting
    rw [List.mem_append, List.mem_singleton]
    by_cases hx : x = l.created
    · rw [hx, hself]
      exact ⟨fun _ => ⟨Nat.lt_succ_self _, hw⟩, fun _ => .inr rfl⟩
    · rw [hother x hx, h.queue x]
      constructor
      · rintro (⟨h1, h2⟩ | h1)
        · exact ⟨Nat.lt_succ_of_lt h1, h2⟩
        · exact absurd h1 hx
      · rintro ⟨h1, h2⟩
        exact .inl ⟨(hlt x h1).resolve_left hx, h2⟩
  -- a waiting job weighs nothing in any counter
  · show l.runningSlots = _
    have hslot : slot r = 0 := by
      have : ¬ r.Holds := (RecordOk.waiting_iff hok).1 hw |>.2
      simp [slot, this]
    rw [h.slots, htotal, hslot, Nat.add_zero]
  · rw [htotal]
    have : ended r = 0 := by simp [ended, ht]
    rw [this]
    exact h.retained
  · show l.retainedResultBytes = _
    have : r.resultBytes = 0 := by simp [JobRecord.resultBytes, hr]
    rw [h.bytes, htotal, this, Nat.add_zero]
  · show l.globalSubscribers = _
    have : subscribed r = 0 := by simp [subscribed, hsub]
    rw [h.subscribers, htotal, this, Nat.add_zero]

/-- A subscription opens or closes. -/
theorem Inv.subscription {m : ℕ} (h : Inv env m l) (hid : id ∈ l.records)
    {subs : List SubscriptionId} {g : ℤ}
    (hg : g + (l.job id).subscribers.length = l.globalSubscribers + subs.length) :
    Inv env m { l.set id { l.job id with subscribers := subs } with globalSubscribers := g } := by
  have hidc := h.known id hid
  have hok := h.ok id hidc
  have hset : ∀ w r, (l.set id r).total w + w (l.job id) = l.total w + w r := fun w r =>
    total_set h.nodup hid
  have hsame : ∀ w : JobRecord → ℕ, w { l.job id with subscribers := subs } = w (l.job id) →
      (l.set id { l.job id with subscribers := subs }).total w = l.total w := fun w hw =>
        total_set_eq hw
  have hother : ∀ x, x ≠ id → ∀ r, (l.set id r).job x = l.job x := fun x hx r => set_job_ne hx
  have hself : ∀ r, (l.set id r).job id = r := fun r => set_job_self
  refine ⟨h.nodup, h.known, fun x hx => ?_, fun x hx ht => ?_, fun x hx hn => ?_, h.queue_nodup,
    fun x => ?_, ?_,
    h.slots_le, ?_, ?_, h.bytes_le, ?_⟩
  · show RecordOk x ((l.set id _).job x)
    by_cases hxi : x = id
    · subst hxi
      rw [hself]
      exact ⟨hok.sequences, hok.job, hok.retained, hok.phase, hok.completed, hok.result, hok.dispatching⟩
    · rw [hother x hxi]; exact h.ok x hx
  · have ht : ((l.set id { l.job id with subscribers := subs }).job x).terminal = false := ht
    by_cases hxi : x = id
    · rw [hxi]; exact hid
    · rw [hother x hxi] at ht; exact h.live x hx ht
  · have hxi : x ≠ id := by rintro rfl; exact hn hid
    show ((l.set id _).job x).subscribers = []
    rw [hother x hxi]
    exact h.gone x hx hn
  · show x ∈ l.queue ↔ x < l.created ∧ ((l.set id _).job x).Waiting
    by_cases hxi : x = id
    · subst hxi; rw [hself]; exact h.queue x
    · rw [hother x hxi]; exact h.queue x
  · show l.runningSlots = (l.set id _).total slot
    rw [h.slots, hsame slot rfl]
  · show (l.set id _).total ended ≤ m
    rw [hsame ended rfl]
    exact h.retained
  · show l.retainedResultBytes = (l.set id _).total JobRecord.resultBytes
    rw [h.bytes, hsame JobRecord.resultBytes rfl]
  -- the counter moves with the job's own list
  · show g = (l.set id _).total subscribed
    have h1 := hset subscribed { l.job id with subscribers := subs }
    have h2 := h.subscribers
    have h3 : subscribed (l.job id) = (l.job id).subscribers.length := rfl
    have h4 : subscribed { l.job id with subscribers := subs } = subs.length := rfl
    omega

/-- The end of a job that holds a slot. -/
theorem Inv.endHeld (h : Inv env env.limits.maxRetained l) (hid : id < l.created)
    (hh : (l.job id).Holds)
    (hok : RecordOk id r) (hs : r.subscribers = (l.job id).subscribers)
    (ht : r.terminal = true) {b : ℤ}
    (hb : b + (l.job id).resultBytes = l.retainedResultBytes + r.resultBytes)
    (hble : b ≤ env.limits.maxTotalResultBytes) :
    Inv env env.limits.maxRetained
      ({ l.set id r with runningSlots := l.runningSlots - 1, retainedResultBytes := b }.evict env) := by
  refine Inv.evict ?_
  have hmem := h.live id hid hh.1
  have hnw : ¬ (l.job id).Waiting := fun hw => ((RecordOk.waiting_iff (h.ok id hid)).1 hw).2 hh
  have hslot : slot (l.job id) = 1 := by simp [slot, hh]
  have hslot' : slot r = 0 := by simp [slot, JobRecord.Holds, ht]
  have hended : ended (l.job id) = 0 := by simp [ended, hh.1]
  have hended' : ended r = 1 := by simp [ended, ht]
  have hle := h.slots_le
  refine h.reckon hmem hok hs h.queue_nodup (fun x => ?_) ?_ ?_ hb hble ?_
  · have hrw : ¬ r.Waiting := fun hw => by simp [JobRecord.terminal, hw.1, JobState.terminal] at ht
    by_cases hx : x = id
    · subst hx; simp [h.queue x, hnw, hrw]
    · simp [hx]
  · rw [hslot, hslot']; omega
  · omega
  · rw [hended, hended']

/-- **Every move keeps the ledger in order.** -/
theorem Move.inv {owner : Option JobId} {refused : Prop} {l' : Ledger}
    (h : Inv env env.limits.maxRetained l)
    (hm : Move env owner refused l l') : Inv env env.limits.maxRetained l' := by
  cases hm with
  | stop =>
    exact ⟨h.nodup, h.known, h.ok, h.live, h.gone, h.queue_nodup, h.queue, h.slots, h.slots_le,
      h.retained, h.bytes,
      h.bytes_le, h.subscribers⟩
  -- the first event of a job is `QUEUED`
  | enroll r now hns hf =>
    refine h.enroll ?_ ⟨hf.state, hf.dispatching⟩ hf.resultJson hf.subscribers
    refine ⟨?_, ?_, ?_, ?_, ?_, ?_, fun h' => hf.state⟩
    · simp [JobRecord.emitted, hf.log, hf.nextSequence]
    · simp [JobRecord.emitted, hf.log]
    · exact retain_suffix (by rw [hf.events]; exact List.nil_suffix) _
    · simp [JobRecord.emitted, hf.log, hf.state, replay, LogPhase.advance, LogPhase.of]
    · simp [JobRecord.emitted, JobRecord.terminal, hf.state, hf.completedNanos, JobState.terminal]
    · simp [JobRecord.emitted, hf.resultJson, hf.state]
  | change id r hid hc hb =>
    obtain ⟨h1, h2, h3, h4, h5⟩ := change_fields hc
    exact h.set_same hid ((h.ok id hid).change hc) h1 h2 h3 h4 h5
  -- a waiting job holds no slot; a dispatching one holds one
  | take id rest hq hlt =>
    have hin : id ∈ l.queue := by rw [hq]; exact List.mem_cons_self
    obtain ⟨hid, hw⟩ := (h.queue id).1 hin
    have hok := h.ok id hid
    have hnd := h.queue_nodup
    rw [hq, List.nodup_cons] at hnd
    have ht : (l.job id).terminal = false := (RecordOk.waiting_iff hok).1 hw |>.1
    have hslot : slot (l.job id) = 0 := by
      simp [slot, ((RecordOk.waiting_iff hok).1 hw).2]
    have hok' : RecordOk id { l.job id with dispatching := true } :=
      ⟨hok.sequences, hok.job, hok.retained, hok.phase, hok.completed, hok.result, fun _ => hw.1⟩
    refine h.reckon (h.live id hid ht) hok' rfl hnd.2 (fun x => ?_) ?_
      (Int.add_one_le_of_lt hlt) (by rfl)
      h.bytes_le (by rfl)
    · rw [hq, List.mem_cons]
      by_cases hx : x = id
      · subst hx; simp [hnd.1, JobRecord.Waiting]
      · simp [hx]
    · have hholds : slot { l.job id with dispatching := true } = 1 := by
        have : ({ l.job id with dispatching := true } : JobRecord).Holds := ⟨ht, .inl rfl⟩
        simp [slot, this]
      rw [hslot, hholds]
      omega
  -- no slot was held and none is, but one job more has ended
  | endWaiting id r hin he hbl =>
    obtain ⟨hid, hw⟩ := (h.queue id).1 hin
    have hok := h.ok id hid
    obtain ⟨ht, hnh⟩ := (RecordOk.waiting_iff hok).1 hw
    obtain ⟨h1, h2, h3, h4, h5⟩ := ends_fields he
    refine Inv.evict ?_
    have hb : r.resultBytes = (l.job id).resultBytes := by simp [JobRecord.resultBytes, h3]
    have hslot : slot (l.job id) = 0 ∧ slot r = 0 := by simp [slot, hnh, h5]
    have hended : ended (l.job id) = 0 ∧ ended r = 1 := by simp [ended, ht, h1]
    refine h.reckon (h.live id hid ht) (hok.ends ht hw.2 he) h2 (h.queue_nodup.erase _) (fun x =>
      ?_) ?_ h.slots_le
      (by rw [hb]) h.bytes_le (by rw [hended.1, hended.2])
    · rw [h.queue_nodup.mem_erase_iff]
      simp [h4]
    · show l.runningSlots + _ = _
      rw [hslot.1, hslot.2]
  | drop id hid ht =>
    obtain ⟨hd, -⟩ := h.drop hid ht
    exact ⟨hd.nodup, hd.known, hd.ok, hd.live, hd.gone, hd.queue_nodup, hd.queue, hd.slots, hd.slots_le,
      hd.retained.trans (Nat.sub_le _ _), hd.bytes, hd.bytes_le, hd.subscribers⟩
  | subscribe id sub hid =>
    refine h.subscription hid ?_
    rw [List.length_append, List.length_singleton]
    push_cast
    omega
  -- a record that is gone has no subscribers, so the job is retained
  | unsubscribe id sub hid hsub =>
    have hmem : id ∈ l.records := by
      by_contra hn
      rw [h.gone id hid hn] at hsub
      simp at hsub
    refine h.subscription hmem ?_
    rw [List.length_erase_of_mem hsub]
    have := List.length_pos_of_mem hsub
    omega
  -- the slot goes from the dispatcher to the worker
  | start id at_ now ho hid hd hst htok hns =>
    have hok := h.ok id hid
    have hres := hok.result
    have hcomp := hok.completed
    refine h.set_same hid (hok.emit rfl rfl rfl ?_ ?_ ?_ ?_) ?_ rfl rfl ?_ ?_
    · intro n now d; rw [hst]; rfl
    · simpa [JobRecord.release, JobRecord.terminal, hst, JobState.terminal] using hcomp
    · simpa [JobRecord.release, hst] using hres
    · simp [JobRecord.release]
    · simp [JobRecord.emitted, JobRecord.terminal, hst, JobState.terminal]
    · simp [JobRecord.emitted, JobRecord.Waiting, hd]
    · simp [JobRecord.emitted, JobRecord.Holds, JobRecord.Executing, JobRecord.terminal, hst, hd,
        JobState.terminal]
  -- the slot is given back, and the job waits at the head
  | putBack id ho hid hd hst =>
    have hok := h.ok id hid
    have ht : (l.job id).terminal = false := by simp [JobRecord.terminal, hst, JobState.terminal]
    have hholds : (l.job id).Holds := ⟨ht, .inl hd⟩
    have hw : (l.job id).release.Waiting := ⟨hst, rfl⟩
    have hok' : RecordOk id (l.job id).release :=
      ⟨hok.sequences, hok.job, hok.retained, hok.phase, hok.completed, hok.result,
        fun h => by simp [JobRecord.release] at h⟩
    have hslot : slot (l.job id) = 1 := by simp [slot, hholds]
    have hslot' : slot (l.job id).release = 0 := by
      simp [slot, ((RecordOk.waiting_iff hok').1 hw).2]
    have hnin : id ∉ l.queue := fun hin =>
      ((RecordOk.waiting_iff hok).1 ((h.queue id).1 hin).2).2 hholds
    have hle := h.slots_le
    refine h.reckon (h.live id hid ht) hok' rfl (List.nodup_cons.2 ⟨hnin, h.queue_nodup⟩)
      (fun x => ?_) ?_ ?_
      (by rfl) h.bytes_le (by rfl)
    · rw [List.mem_cons]
      by_cases hx : x = id
      · subst hx; simp [hw]
      · simp [hx]
    · rw [hslot, hslot']; omega
    · omega
  | endHeld id r ho hid hh he hbl =>
    obtain ⟨h1, h2, h3, -, -⟩ := ends_fields he
    have hok := h.ok id hid
    have hok' : RecordOk id (l.job id).release :=
      ⟨hok.sequences, hok.job, hok.retained, hok.phase, hok.completed, hok.result,
        fun h => by simp [JobRecord.release] at h⟩
    refine h.endHeld hid hh (hok'.ends hh.1 rfl he) h2 h1 ?_ h.bytes_le
    have hb : r.resultBytes = (l.job id).resultBytes :=
      by simp [JobRecord.resultBytes, h3, JobRecord.release]
    show l.retainedResultBytes + _ = _
    rw [hb]
  -- only an executing job gets here, and it has no result yet
  | succeed id result at_ nanos order now ho hid hx hle =>
    have hok := h.ok id hid
    have ht : (l.job id).terminal = false := by
      rcases hx with hx | hx <;> simp [JobRecord.terminal, hx, JobState.terminal]
    have hnone : (l.job id).resultJson = none := by
      rw [← Option.not_isSome_iff_eq_none, hok.result]
      rcases hx with hx | hx <;> simp [hx]
    have hnd : (l.job id).dispatching = false := by
      by_contra hd
      have := hok.dispatching (by simpa using hd)
      rcases hx with hx | hx <;> simp [hx] at this
    have hok' : RecordOk id (({ l.job id with
        resultJson := some result.json, completeness := some result.completeness }.completed
          .SUCCEEDED at_ nanos order).emitted env id .completed now) := by
      refine hok.emit rfl rfl rfl ?_ ?_ ?_ ?_
      · intro n now d
        rcases hx with hx | hx <;> rw [hx] <;> rfl
      · simp [JobRecord.completed, JobRecord.terminal, JobState.terminal]
      · simp [JobRecord.completed]
      · simp [JobRecord.completed, hnd]
    refine h.endHeld hid ⟨ht, .inr hx⟩ hok' rfl rfl ?_ hle
    simp [JobRecord.resultBytes, JobRecord.emitted, JobRecord.completed, hnone]

/-- So does a section, move by move. -/
theorem Moves.inv {owner : Option JobId} {refused : Prop} {l' : Ledger}
    (h : Inv env env.limits.maxRetained l)
    (hm : Moves env owner refused l l') : Inv env env.limits.maxRetained l' := by
  induction hm with
  | refl => exact h
  | tail _ hm ih => exact Move.inv ih hm

/-! ## What a move leaves of a job -/

/-- `r'` is a later state of the job of `r`; `owned` tells whether its holder acted, `closed`
whether the registry was stopped before, `fault` whether a shutdown may be blamed. -/
structure Evolves (owned closed fault : Prop) (r r' : JobRecord) : Prop where
  log : r.log <+: r'.log
  ended : r.terminal = true → r.SameEnd r'
  token : r.token.isSome = true → r'.token = r.token
  /-- After a request or a stop the job is not started any more. -/
  unstarted : closed ∨ r.token.isSome = true → (∀ e ∈ r.log, e.type ≠ .started) →
    ∀ e ∈ r'.log, e.type ≠ .started
  held : ¬ owned → r.Holds → r'.Holds ∧ r'.dispatching = r.dispatching
  blame : r'.Blamed → r.Blamed ∨ fault

section

variable {owned closed fault : Prop} {r' : JobRecord}

/-- A record that stays. -/
theorem Evolves.refl (owned closed fault : Prop) (r : JobRecord) : Evolves owned closed fault r r :=
  ⟨List.prefix_rfl, fun _ => ⟨rfl, rfl, rfl, rfl, rfl⟩, fun _ => rfl, fun _ h => h, fun _ h =>
    ⟨h, rfl⟩, .inl⟩

/-- One change after another. -/
theorem Evolves.trans {closed' fault' : Prop} {r'' : JobRecord}
    (h : Evolves owned closed fault r r')
    (hc : closed → closed') (hf : fault → fault') (h' : Evolves owned closed' fault' r' r'') :
    Evolves owned closed fault' r r'' where
  log := h.log.trans h'.log
  ended ht := by
    obtain ⟨h1, h2, h3, h4, h5⟩ := h.ended ht
    have ht' : r'.terminal = true := by unfold JobRecord.terminal at ht ⊢; rw [h1]; exact ht
    obtain ⟨k1, k2, k3, k4, k5⟩ := h'.ended ht'
    exact ⟨k1.trans h1, k2.trans h2, k3.trans h3, k4.trans h4, k5.trans h5⟩
  token ht := by
    have h1 := h.token ht
    rw [h'.token (by rw [h1]; exact ht), h1]
  unstarted ht hn := by
    refine h'.unstarted (ht.imp hc fun ht => ?_) (h.unstarted ht hn)
    rw [h.token ht]
    exact ht
  held ho hh := by
    obtain ⟨h1, h2⟩ := h.held ho hh
    obtain ⟨k1, k2⟩ := h'.held ho h1
    exact ⟨k1, k2.trans h2⟩
  blame hb := (h'.blame hb).elim (fun h1 => (h.blame h1).imp_right hf) .inr

/-- A record whose end, log and token a move leaves. -/
theorem Evolves.of_same (hlog : r'.log = r.log) (hend : r.terminal = true → r.SameEnd r')
    (htok : r'.token = r.token)
    (hheld : ¬ owned → r.Holds → r'.Holds ∧ r'.dispatching = r.dispatching)
    (hb : r'.Blamed → r.Blamed ∨ fault) :
    Evolves owned closed fault r r' :=
  ⟨hlog ▸ List.prefix_rfl, hend, fun _ => htok, fun _ h => by rw [hlog]; exact h, hheld, hb⟩

/-- A record that emits an event and is not over. -/
theorem Evolves.of_emitted {type : EventType} {now : ℤ} (ht : r.terminal = false)
    (hlog : r'.log = r.log)
    (htok : r'.token = r.token) (htype : closed ∨ r.token.isSome = true → type ≠ .started)
    (hheld : ¬ owned → r.Holds → r'.Holds ∧ r'.dispatching = r.dispatching)
    (hb : r'.Blamed → r.Blamed ∨ fault) :
    Evolves owned closed fault r (r'.emitted env id type now) where
  log := by simp [JobRecord.emitted, hlog]
  ended h := by rw [ht] at h; simp at h
  token _ := htok
  unstarted h hn e he := by
    simp only [JobRecord.emitted, hlog] at he
    rcases List.mem_append.1 he with he | he
    · exact hn e he
    · rw [List.mem_singleton.1 he]
      exact htype h
  held := hheld
  blame := hb

/-- A change of a record is one that it may take, -/
theorem evolves_change (hc : Change env id r r') (hb : r'.Blamed → r.Blamed ∨ fault) :
    Evolves owned closed fault r r' := by
  have hf := change_fields hc
  cases hc with
  | request reason =>
    refine ⟨List.prefix_rfl, fun _ => ⟨rfl, rfl, rfl, rfl, rfl⟩, fun ht => ?_, fun _ h => h,
      fun _ h => ⟨h, rfl⟩, hb⟩
    unfold JobRecord.request
    cases htok : r.token <;> simp_all
  | note d => exact .of_same rfl (fun _ => ⟨rfl, rfl, rfl, rfl, rfl⟩) rfl (fun _ h => ⟨h, rfl⟩) hb
  | cancel_requested now ht =>
    refine .of_emitted ht ?_ ?_ (fun _ => by simp) (fun _ hh => ⟨hf.2.2.2.2.2 hh, ?_⟩) hb
    all_goals unfold JobRecord.cancelling; split <;> rfl
  | progress p now hx =>
    have ht : r.terminal = false := by
      unfold JobRecord.terminal
      rcases hx with hx | hx <;> rw [hx] <;> rfl
    exact .of_emitted ht rfl rfl (fun _ => by simp) (fun _ hh => ⟨hh, rfl⟩) hb

/-- and so is its end. -/
theorem evolves_ends (he : Ends env id r r') (ht : r.terminal = false) (hh : owned ∨ ¬ r.Holds)
    (hb : r'.Blamed → r.Blamed ∨ fault) : Evolves owned closed fault r r' := by
  have hheld : ∀ {r'' : JobRecord}, ¬ owned → r.Holds → r''.Holds ∧
      r''.dispatching = r.dispatching :=
    fun ho hr => absurd hr (hh.resolve_left ho)
  cases he with
  | cancelled at_ nanos order now => exact .of_emitted ht rfl rfl (fun _ => by simp) hheld hb
  | failed at_ nanos order now error cause d => exact .of_emitted ht rfl rfl (fun _ => by simp) hheld hb

/-- Dropping a job that is over leaves its end. -/
theorem evolves_drop (l : Ledger) (x id : JobId) :
    Evolves owned closed fault (l.job id) ((l.drop x).job id) := by
  by_cases hid : id = x
  · subst hid
    have hself : (l.drop id).job id = { l.job id with subscribers := [], events := [] } :=
      set_job_self
    rw [hself]
    exact .of_same rfl (fun _ => ⟨rfl, rfl, rfl, rfl, rfl⟩) rfl (fun _ hh => ⟨hh, rfl⟩) .inl
  · rw [drop_job_ne hid]
    exact .refl _ _ _ _

/-- An eviction may drop the record. -/
theorem evolves_evict (l : Ledger) (id : JobId) :
    Evolves owned closed fault (l.job id) ((l.evict env).job id) := by
  rcases evict_cases env l with h | ⟨o, -, -, h⟩
  · rw [h]; exact .refl _ _ _ _
  · rw [h]; exact evolves_drop l o id

end

section

variable {owner : Option JobId} {refused : Prop} {l' : Ledger}

/-- What an eviction leaves. -/
theorem evict_fields (l : Ledger) :
    (l.evict env).created = l.created ∧ (l.evict env).stopped = l.stopped ∧
    (l.evict env).queue = l.queue := by
  rcases evict_cases env l with h | ⟨o, -, -, h⟩
  · rw [h]; exact ⟨rfl, rfl, rfl⟩
  · rw [h]; exact ⟨rfl, rfl, rfl⟩

/-- Jobs are only added. -/
theorem Move.created_le (hm : Move env owner refused l l') : l.created ≤ l'.created := by
  cases hm <;> try exact le_refl _
  · exact Nat.le_succ _
  all_goals rw [(evict_fields _).1]; exact le_refl _

/-- What is stopped stays stopped. -/
theorem Move.stopped (hm : Move env owner refused l l') (h : l.stopped = true) :
    l'.stopped = true := by
  cases hm <;> first | exact h | rfl | (rw [(evict_fields _).2.1]; exact h)

/-- Only the job that is set evolves. -/
theorem evolves_set {x : JobId} {closed fault : Prop}
    (hx : Evolves (owner = some x) closed fault (l.job x) r)
    (id : JobId) : Evolves (owner = some id) closed fault (l.job id) ((l.set x r).job id) := by
  by_cases hid : id = x
  · subst hid
    rw [set_job_self]
    exact hx
  · rw [set_job_ne hid]
    exact .refl _ _ _ _

/-- **What a move leaves of a job.** -/
theorem Move.evolves {m : ℕ} (h : Inv env m l) (hm : Move env owner refused l l')
    (hid : id < l.created) :
    Evolves (owner = some id) (l.stopped = true) (l'.stopped = true ∨ refused) (l.job id)
      (l'.job id) := by
  have hstop : l.stopped = true → l'.stopped = true := hm.stopped
  have hb : ∀ {x : JobId} {r : JobRecord}, l.Blames refused x r →
      r.Blamed → (l.job x).Blamed ∨ l'.stopped = true ∨ refused :=
    fun hbl hr => (hbl hr).imp_right fun h => h.imp_left hstop
  cases hm with
  | stop => exact .refl _ _ _ _
  | enroll r now hns hf =>
    have hne : id ≠ l.created := Nat.ne_of_lt hid
    simpa [Ledger.enroll, Function.update_of_ne hne] using Evolves.refl _ _ _ _
  | change x r hx hc hbl => exact evolves_set (evolves_change hc (hb hbl)) id
  | take x rest hq hlt =>
    have hin : x ∈ l.queue := by rw [hq]; exact List.mem_cons_self
    obtain ⟨hx, hw⟩ := (h.queue x).1 hin
    have hnh := ((RecordOk.waiting_iff (h.ok x hx)).1 hw).2
    refine evolves_set (r := { l.job x with dispatching := true }) ?_ id
    exact .of_same rfl (fun _ => ⟨rfl, rfl, rfl, rfl, rfl⟩) rfl (fun _ hh => absurd hh hnh) .inl
  | endWaiting x r hin he hbl =>
    obtain ⟨hx, hw⟩ := (h.queue x).1 hin
    obtain ⟨ht, hnh⟩ := (RecordOk.waiting_iff (h.ok x hx)).1 hw
    refine Evolves.trans ?_ (fun h => h) (fun h => h) (evolves_evict _ id)
    exact evolves_set (evolves_ends he ht (.inr hnh) (hb hbl)) id
  | drop x hx ht => exact evolves_drop l x id
  | subscribe x sub hx =>
    refine evolves_set (r := { l.job x with subscribers := (l.job x).subscribers ++ [sub] }) ?_ id
    exact .of_same rfl (fun _ => ⟨rfl, rfl, rfl, rfl, rfl⟩) rfl (fun _ hh => ⟨hh, rfl⟩) .inl
  | unsubscribe x sub hx hsub =>
    refine evolves_set (r := { l.job x with subscribers := (l.job x).subscribers.erase sub }) ?_ id
    exact .of_same rfl (fun _ => ⟨rfl, rfl, rfl, rfl, rfl⟩) rfl (fun _ hh => ⟨hh, rfl⟩) .inl
  | start x at_ now ho hx hd hst htok hns =>
    have ht : (l.job x).terminal = false := by simp [JobRecord.terminal, hst, JobState.terminal]
    refine evolves_set ?_ id
    exact .of_emitted ht rfl rfl (fun h => by simp [htok, hns] at h) (fun hn => absurd ho hn) .inl
  | putBack x ho hx hd hst =>
    have ht : ¬ (l.job x).terminal = true := by simp [JobRecord.terminal, hst, JobState.terminal]
    refine evolves_set (r := (l.job x).release) ?_ id
    exact .of_same rfl (fun h => absurd h ht) rfl (fun hn => absurd ho hn) .inl
  | endHeld x r ho hx hh he hbl =>
    refine Evolves.trans ?_ (fun h => h) (fun h => h) (evolves_evict _ id)
    have hrel : Evolves (owner = some x) (l.stopped = true) False (l.job x) (l.job x).release :=
      .of_same rfl (fun ht => by simp [hh.1] at ht) rfl (fun hn => absurd ho hn) .inl
    exact evolves_set (hrel.trans (fun h => h) False.elim (evolves_ends he hh.1 (.inl ho) (hb hbl))) id
  | succeed x result at_ nanos order now ho hx hex hle =>
    have ht : (l.job x).terminal = false := by
      rcases hex with hex | hex <;> simp [JobRecord.terminal, hex, JobState.terminal]
    refine Evolves.trans ?_ (fun h => h) (fun h => h) (evolves_evict _ id)
    refine evolves_set ?_ id
    exact .of_emitted ht rfl rfl (fun _ => by simp) (fun hn => absurd ho hn) .inl

/-- Over a section jobs are only added. -/
theorem Moves.created_le (hm : Moves env owner refused l l') : l.created ≤ l'.created := by
  induction hm with
  | refl => exact le_refl _
  | tail _ hm ih => exact ih.trans hm.created_le

/-- Over a section too. -/
theorem Moves.stopped (hm : Moves env owner refused l l') (h : l.stopped = true) :
    l'.stopped = true := by
  induction hm with
  | refl => exact h
  | tail _ hm ih => exact hm.stopped ih

/-- **What a section may do to one record.** -/
theorem Moves.evolves (h : Inv env env.limits.maxRetained l) (hm : Moves env owner refused l l')
    (hid : id < l.created) :
    Evolves (owner = some id) (l.stopped = true) (l'.stopped = true ∨ refused) (l.job id)
      (l'.job id) := by
  induction hm with
  | refl => exact .refl _ _ _ _
  | tail hms hm ih =>
    refine ih.trans (Moves.stopped hms) (fun h => h.imp_left hm.stopped) ?_
    exact Move.evolves (Moves.inv h hms) hm (hid.trans_le (Moves.created_le hms))

end

end Ledger

end Libjadx
