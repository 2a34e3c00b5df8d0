import Libjadx.Spec.Coordinator

/-!
# Exclusion of leases

`lease_exclusion`: which leases may be active together, in every order of admissions, captures
and closes, and that a lease's callback runs once and late. The pairwise check at an admission
keeps the active leases pairwise `Compatible`, a symmetric relation that a finished capture
only weakens.
-/

namespace Libjadx

/-- Two leases may be active together. -/
def Lease.Compatible (a b : Lease) : Prop :=
  match a.request.category, b.request.category with
  | .TEMPORARY_ANALYSIS, .TEMPORARY_ANALYSIS => False
  | .TEMPORARY_ANALYSIS, other => other.primary = true → a.capturing = false
  | other, .TEMPORARY_ANALYSIS => other.primary = true → b.capturing = false
  | c, d => c.primary = false ∧ d.primary = false ∧ a.request.key = b.request.key ∧
      a.admission = b.admission

/-- Two leases are compatible in either order. -/
theorem Lease.Compatible.symm {a b : Lease} (h : a.Compatible b) : b.Compatible a := by
  unfold Lease.Compatible at *
  cases ha : a.request.category <;> cases hb : b.request.category <;> rw [ha, hb] at h <;>
    first
      | exact h
      | exact ⟨h.2.1, h.1, h.2.2.1.symm, h.2.2.2.symm⟩

/-- A lease past its capture is compatible with no less. -/
theorem Lease.Compatible.captured {a b : Lease} (h : a.Compatible b) :
    Lease.Compatible { a with capturing := false } b := by
  unfold Lease.Compatible at *
  cases ha : a.request.category <;> cases hb : b.request.category <;> rw [ha, hb] at h <;>
    first
      | exact h
      | exact fun _ => rfl

namespace OperationCoordinator

open Locked

variable {c : Coordinator} {s t : Run}

/-- What the check at an admission establishes. -/
theorem compatible_make {request : OperationRequest} {admission : Admission}
    (h : compatible request admission c = true) {id : LeaseId} (hid : id ∈ c.active) :
    (Lease.make request admission).Compatible (c.lease id) := by
  unfold compatible at h
  split at h
  · exact absurd h (by simp)
  rename_i htemp
  have hw := List.all_eq_true.1 h id hid
  have hone : request.category = .TEMPORARY_ANALYSIS →
      (c.lease id).request.category ≠ .TEMPORARY_ANALYSIS := by
    intro hr he
    apply htemp
    simp only [hr, decide_true, Bool.true_and, List.any_eq_true, decide_eq_true_eq]
    exact ⟨id, hid, he⟩
  unfold compatibleWith at hw
  unfold Lease.Compatible Lease.make
  cases hr : request.category <;> cases he : (c.lease id).request.category <;>
    simp_all [Category.primary]

/-- How an admission by the coordinator ends. -/
theorem tryAdmit_cases (request : OperationRequest) (admission : Admission) (c : Coordinator) :
    tryAdmit request admission c = (.error .serviceShuttingDown, c) ∨
      compatible request admission c = false ∧
        tryAdmit request admission c = (.error .projectBusy, c) ∨
      tryAdmit request admission c =
        (.ok c.issued, enter (Lease.make request admission) c) := by
  unfold tryAdmit
  rw [bind_get, ite_run]
  split
  · exact .inl rfl
  · rw [ite_run]
    split
    · rename_i hc
      exact .inr (.inl ⟨by simpa using hc, rfl⟩)
    · exact .inr (.inr rfl)

/-! ## The invariant -/

/-- What every state of a run has. -/
structure Inv (s : Run) : Prop where
  nodup : s.coordinator.active.Nodup
  issued : ∀ id ∈ s.coordinator.active, id < s.coordinator.issued
  compatible : ∀ i ∈ s.coordinator.active, ∀ j ∈ s.coordinator.active, i ≠ j →
    (s.coordinator.lease i).Compatible (s.coordinator.lease j)
  /-- A close is under way at one place, and was won. -/
  once : (s.closing ++ s.leaving ++ s.released).Nodup
  closed : ∀ id ∈ s.closing ++ s.leaving ++ s.released,
    (s.coordinator.lease id).closed = true ∧ id < s.coordinator.issued
  left : ∀ id ∈ s.leaving ++ s.released, id ∉ s.coordinator.active

/-- It holds before the first lease. -/
theorem start_inv (lease : LeaseId → Lease) : Inv (start lease) where
  nodup := List.nodup_nil
  issued := nofun
  compatible := nofun
  once := List.nodup_nil
  closed := nofun
  left := nofun

/-- A step that only touches lease objects, and only to end captures. -/
theorem Inv.relabel (h : Inv s) {lease : LeaseId → Lease}
    (hl : ∀ id, lease id = s.coordinator.lease id ∨
      lease id = { s.coordinator.lease id with capturing := false } ∨
      lease id = { s.coordinator.lease id with closed := true }) :
    Inv { s with coordinator := { s.coordinator with lease := lease } } := by
  have hone : ∀ i b, (s.coordinator.lease i).Compatible b → (lease i).Compatible b := by
    intro i b hb
    obtain he | he | he := hl i <;> rw [he]
    · exact hb
    · exact hb.captured
    · exact hb
  refine ⟨h.nodup, h.issued, ?_, h.once, ?_, h.left⟩
  · intro i hi j hj hij
    exact (hone j _ (hone i _ (h.compatible i hi j hj hij)).symm).symm
  · intro id hid
    obtain ⟨hc, hlt⟩ := h.closed id hid
    refine ⟨?_, hlt⟩
    show (lease id).closed = true
    obtain he | he | he := hl id <;> rw [he]
    · exact hc
    · exact hc

/-- An admission keeps it: the new lease is compatible with every active one. -/
theorem Inv.tryAdmit (h : Inv s) (request : OperationRequest) (admission : Admission) :
    Inv { s with coordinator := (OperationCoordinator.tryAdmit request admission s.coordinator).2 } := by
  unfold OperationCoordinator.tryAdmit
  simp only [bind_get, ite_run, throw_run, bind_modify, pure_run]
  split
  · exact h
  split
  · exact h
  rename_i hcomp
  have hcomp : OperationCoordinator.compatible request admission s.coordinator = true :=
    by simpa using hcomp
  -- the leases there were are not touched
  have hlt : ∀ id, id < s.coordinator.issued →
      Function.update s.coordinator.lease s.coordinator.issued (Lease.make request admission) id =
        s.coordinator.lease id := fun id hid => Function.update_of_ne (Nat.ne_of_lt hid) _ _
  have hnew : Function.update s.coordinator.lease s.coordinator.issued
      (Lease.make request admission)
      s.coordinator.issued = Lease.make request admission := Function.update_self _ _ _
  refine ⟨?_, ?_, ?_, h.once, ?_, ?_⟩
  · show (s.coordinator.active ++ [s.coordinator.issued]).Nodup
    have hfresh : s.coordinator.issued ∉ s.coordinator.active := fun hm =>
      lt_irrefl _ (h.issued _ hm)
    exact List.nodup_append'.2 ⟨h.nodup, List.nodup_singleton _, List.disjoint_singleton.2 hfresh⟩
  · intro id hid
    show id < s.coordinator.issued + 1
    obtain hid | hid := List.mem_append.1 hid
    · exact Nat.lt_succ_of_lt (h.issued id hid)
    · exact List.mem_singleton.1 hid ▸ Nat.lt_succ_self _
  -- of two leases one is the new one, or both were there
  · intro i hi j hj hij
    show Lease.Compatible (Function.update s.coordinator.lease _ _ i)
      (Function.update s.coordinator.lease _ _ j)
    obtain hi | hi := List.mem_append.1 hi
    · rw [hlt i (h.issued i hi)]
      obtain hj | hj := List.mem_append.1 hj
      · rw [hlt j (h.issued j hj)]
        exact h.compatible i hi j hj hij
      · rw [List.mem_singleton.1 hj, hnew]
        exact (compatible_make hcomp hi).symm
    · rw [List.mem_singleton.1 hi, hnew]
      obtain hj | hj := List.mem_append.1 hj
      · rw [hlt j (h.issued j hj)]
        exact compatible_make hcomp hj
      · exact absurd ((List.mem_singleton.1 hi).trans (List.mem_singleton.1 hj).symm) hij
  · intro id hid
    obtain ⟨hc, hid'⟩ := h.closed id hid
    refine ⟨?_, Nat.lt_succ_of_lt hid'⟩
    show Lease.closed (Function.update s.coordinator.lease _ _ id) = true
    rw [hlt id hid']
    exact hc
  -- a lease that is being closed is no new one
  · intro id hid hm
    obtain hm | hm := List.mem_append.1 hm
    · exact h.left id hid hm
    · have hlt' := (h.closed id (by rw [List.append_assoc]; exact List.mem_append_right _ hid)).2
      exact Nat.ne_of_lt hlt' (List.mem_singleton.1 hm)

/-- **A step keeps it.** -/
theorem Inv.act (h : Inv s) {a : Act} (hact : act s a = some t) : Inv t := by
  cases a with
  | tryAdmit request admission =>
    obtain rfl := Option.some.inj hact
    exact h.tryAdmit request admission
  | stopAdmissions =>
    obtain rfl := Option.some.inj hact
    exact ⟨h.nodup, h.issued, h.compatible, h.once, h.closed, h.left⟩
  | finishSnapshotCapture id =>
    simp only [OperationCoordinator.act] at hact
    split at hact
    · obtain rfl := Option.some.inj hact
      unfold OperationCoordinator.finishSnapshotCapture
      simp only [bind_get, ite_run, throw_run]
      split
      · exact h
      · refine h.relabel fun i => ?_
        by_cases hi : i = id
        -- only the flag of the capture falls
        · subst hi
          exact .inr (.inl (Function.update_self _ _ _))
        · exact .inl (Function.update_of_ne hi _ _)
    · exact absurd hact (by simp)
  | close id =>
    simp only [OperationCoordinator.act] at hact
    split at hact
    swap
    · exact absurd hact (by simp)
    rename_i hid
    unfold winClose at hact
    by_cases hcl : (s.coordinator.lease id).closed = true
    · simp only [bind_get, hcl, if_true, pure_run] at hact
      obtain rfl := Option.some.inj hact
      -- another thread has won the close
      exact h
    · simp only [bind_get, hcl, if_false, edit, bind_modify, pure_run, Bool.false_eq_true] at hact
      obtain rfl := Option.some.inj hact
      have hlease : ∀ i, Function.update s.coordinator.lease id
            { s.coordinator.lease id with closed := true } i =
            s.coordinator.lease i ∨
          Function.update s.coordinator.lease id { s.coordinator.lease id with closed := true } i =
            { s.coordinator.lease i with capturing := false } ∨
          Function.update s.coordinator.lease id { s.coordinator.lease id with closed := true } i =
            { s.coordinator.lease i with closed := true } := fun i => by
        by_cases hi : i = id
        · subst hi
          exact .inr (.inr (Function.update_self _ _ _))
        · exact .inl (Function.update_of_ne hi _ _)
      have hr := h.relabel hlease
      -- nobody closes a lease that is open
      have hfresh : id ∉ s.closing ++ s.leaving ++ s.released := fun hm => hcl (h.closed id hm).1
      have hperm : (s.closing ++ [id] ++ s.leaving ++ s.released).Perm
          (id :: (s.closing ++ s.leaving ++ s.released)) := by
        simp only [List.append_assoc]
        exact List.perm_middle
      refine ⟨hr.nodup, hr.issued, hr.compatible, ?_, ?_, h.left⟩
      · exact hperm.nodup_iff.2 (List.nodup_cons.2 ⟨hfresh, h.once⟩)
      · intro i hi
        obtain rfl | hi := List.mem_cons.1 (hperm.mem_iff.1 hi)
        · exact ⟨by simp, hid⟩
        · exact hr.closed i hi
  | remove id =>
    simp only [OperationCoordinator.act] at hact
    split at hact
    swap
    · exact absurd hact (by simp)
    rename_i hid
    obtain rfl := Option.some.inj hact
    -- the lease goes from those that are closing to those that are leaving
    have hperm : (s.closing.erase id ++ (s.leaving ++ [id]) ++ s.released).Perm
        (s.closing ++ s.leaving ++ s.released) := by
      have hc := List.perm_cons_erase hid
      have hm : (s.closing.erase id ++ (s.leaving ++ [id]) ++ s.released).Perm
          (id :: s.closing.erase id ++ s.leaving ++ s.released) := by
        simp only [List.append_assoc, List.cons_append]
        have : (s.closing.erase id ++ s.leaving ++ id :: s.released).Perm
            (id :: (s.closing.erase id ++ s.leaving ++ s.released)) := List.perm_middle
        simpa only [List.append_assoc, List.cons_append, List.nil_append] using this
      exact hm.trans ((hc.symm.append_right _).append_right _)
    refine ⟨h.nodup.erase id, fun i hi => h.issued i (List.mem_of_mem_erase hi), ?_,
      hperm.nodup_iff.2 h.once,
      fun i hi => h.closed i (hperm.mem_iff.1 hi), ?_⟩
    · intro i hi j hj hij
      exact h.compatible i (List.mem_of_mem_erase hi) j (List.mem_of_mem_erase hj) hij
    · intro i hi hm
      have hm' : i ∈ s.coordinator.active.erase id := hm
      obtain ⟨hne, hm'⟩ := h.nodup.mem_erase_iff.1 hm'
      simp only [List.mem_append, List.mem_singleton] at hi
      refine h.left i ?_ hm'
      rw [List.mem_append]
      tauto
  | afterRelease id =>
    simp only [OperationCoordinator.act] at hact
    split at hact
    swap
    · exact absurd hact (by simp)
    rename_i hid
    obtain rfl := Option.some.inj hact
    -- and from those to the released ones
    have hperm : (s.leaving.erase id ++ (s.released ++ [id])).Perm (s.leaving ++ s.released) := by
      have hc := List.perm_cons_erase hid
      have hm : (s.leaving.erase id ++ (s.released ++ [id])).Perm (id :: s.leaving.erase id ++
          s.released) := by
        rw [← List.append_assoc]
        exact List.perm_append_comm
      exact hm.trans (hc.symm.append_right _)
    have hall : (s.closing ++ s.leaving.erase id ++ (s.released ++ [id])).Perm
        (s.closing ++ s.leaving ++ s.released) := by
      simp only [List.append_assoc]
      exact hperm.append_left _
    exact ⟨h.nodup, h.issued, h.compatible, hall.nodup_iff.2 h.once, fun i hi =>
      h.closed i (hall.mem_iff.1 hi),
      fun i hi => h.left i (hperm.mem_iff.1 hi)⟩

/-- So it holds over every run. -/
theorem Reachable.inv (h : Reachable s) : Inv s := by
  obtain ⟨lease, h⟩ := h
  induction h with
  | refl => exact start_inv lease
  | tail _ hstep ih =>
    obtain ⟨a, hact⟩ := hstep
    exact ih.act hact

/-- **Leases exclude each other in every order of admissions, captures and closes**, and a release
callback runs once, when the lease is no longer active. -/
theorem lease_exclusion (h : Reachable s) :
    let c := s.coordinator
    c.active.Nodup ∧
    (∀ i ∈ c.active, ∀ j ∈ c.active, (c.lease i).request.category = .TEMPORARY_ANALYSIS →
      (c.lease j).request.category = .TEMPORARY_ANALYSIS → i = j) ∧
    (∀ i ∈ c.active, ∀ j ∈ c.active, i ≠ j →
      (c.lease i).request.category = .PROJECT_EXCLUSIVE ∨
        (c.lease i).request.category = .CLASS_READ →
      (c.lease j).request.category = .TEMPORARY_ANALYSIS ∧ (c.lease j).capturing = false) ∧
    (∀ i ∈ c.active, ∀ j ∈ c.active, (c.lease i).request.category ≠ .TEMPORARY_ANALYSIS →
      (c.lease j).request.category ≠ .TEMPORARY_ANALYSIS →
      (c.lease i).request.key = (c.lease j).request.key ∧
        (c.lease i).admission = (c.lease j).admission) ∧
    s.released.Nodup ∧ ∀ id ∈ s.released, id ∉ c.active := by
  have hinv := h.inv
  refine ⟨hinv.nodup, ?_, ?_, ?_, ?_, fun id hid => hinv.left id (List.mem_append_right _ hid)⟩
  · intro i hi j hj hti htj
    by_contra hij
    have hc := hinv.compatible i hi j hj hij
    simp only [Lease.Compatible, hti, htj] at hc
  · intro i hi j hj hij hprimary
    have hc := hinv.compatible i hi j hj hij
    obtain hp | hp := hprimary <;>
      cases hcat : (s.coordinator.lease j).request.category <;>
      simp_all [Lease.Compatible, Category.primary]
  · intro i hi j hj hni hnj
    by_cases hij : i = j
    · subst hij
      exact ⟨rfl, rfl⟩
    have hc := hinv.compatible i hi j hj hij
    cases hcati : (s.coordinator.lease i).request.category <;>
      cases hcatj : (s.coordinator.lease j).request.category <;>
      simp_all [Lease.Compatible, Category.primary]
  · have hn := hinv.once
    exact (List.nodup_append'.1 hn).2.1

namespace TwoLeases

def analysis : OperationRequest := ⟨.TEMPORARY_ANALYSIS, str "t"⟩
def classRead : OperationRequest := ⟨.CLASS_READ, str "c"⟩

/-- The steps of a thread or of several, one after the other. -/
def perform : List Act → Run → Option Run
  | [], s => some s
  | a :: as, s => (act s a).bind (perform as)

/-- Acts that are performed are a run. -/
theorem perform_reachable {as : List Act} {s t : Run} (h : Reachable s)
    (hp : perform as s = some t) : Reachable t := by
  induction as generalizing s with
  | nil => exact Option.some.inj hp ▸ h
  | cons a as ih =>
    obtain ⟨u, ha, hp⟩ := Option.bind_eq_some_iff.1 hp
    obtain ⟨lease, hr⟩ := h
    exact ih ⟨lease, hr.tail ⟨a, ha⟩⟩ hp

/-- A class read is admitted once the capture is over; then the analysis is closed twice. -/
def acts : List Act :=
  [.tryAdmit analysis ⟨[], 0⟩, .tryAdmit classRead ⟨[], 0⟩, .finishSnapshotCapture 0,
    .tryAdmit classRead ⟨[], 0⟩, .close 0, .close 0, .remove 0, .afterRelease 0]

def noLease : LeaseId → Lease := fun _ => Lease.make classRead ⟨[], 0⟩

theorem runs : (perform acts (start noLease)).isSome := by decide +kernel

end TwoLeases

/-- An analysis and a class read, the analysis closed twice. -/
theorem lease_exclusion_two :
    ∃ s, TwoLeases.perform TwoLeases.acts (start TwoLeases.noLease) = some s ∧
    s.coordinator.active = [1] ∧ s.released = [0] ∧ s.coordinator.active.Nodup ∧
    ∀ id ∈ s.released, id ∉ s.coordinator.active :=
  ⟨_, (Option.some_get TwoLeases.runs).symm, by decide +kernel, by decide +kernel,
    (lease_exclusion (TwoLeases.perform_reachable ⟨_, .refl⟩ (Option.some_get TwoLeases.runs).symm)).1,
    (lease_exclusion (TwoLeases.perform_reachable ⟨_, .refl⟩
      (Option.some_get TwoLeases.runs).symm)).2.2.2.2.2⟩

end OperationCoordinator

end Libjadx
