import Libjadx.Proof.Repository
import Libjadx.Spec.PersistedIdentity

/-!
# The persisted identity is that of its generation

A call leaves the identity as it is, or starts a generation and shows nothing that belongs to an
older one (`perform_identified`). A computation that comes back publishes into its own generation
only, and each generation has one at most. So what shows as ready was computed from the paths of the
generation that is current (`identity_of_generation`).
-/

namespace Libjadx.PersistedIdentity

open Locked NativeProjectRepository

variable {disk : Disk} {s₀ s t : Repository}

/-! ## What a call does to the identity -/

/-- The sizes and the identity of files come back, or fail with an `IOException`. -/
structure Answers (disk : Disk) : Prop where
  totalBytes : ∀ n paths, disk.totalBytes n paths ≠ .error .error
  identity : ∀ n paths, disk.identity n paths ≠ .error .error

/-- What a commit keeps: the generation of the identity, and the paths it was taken of. -/
structure SameIdentity (s₀ s : Repository) : Prop where
  generation : s.identityGeneration = s₀.identityGeneration
  identity : s.persistedIdentity = s₀.persistedIdentity
  state : s.persistedIdentityState = s₀.persistedIdentityState

/-- What shows as ready is the identity of the paths, and nothing shows otherwise. -/
def Shows (disk : Disk) (paths : List Path) (s : Repository) : Prop :=
  (s.persistedIdentityState = .READY ∧
    ∃ n identity, disk.identity n paths = .ok identity ∧ s.persistedIdentity = some identity) ∨
  (s.persistedIdentityState ≠ .READY ∧ s.persistedIdentity = none)

/-- A generation was started, and shows nothing of an older one. -/
structure Refreshed (disk : Disk) (s₀ s : Repository) : Prop where
  generation : s.identityGeneration = s₀.identityGeneration + 1
  identity : Shows disk (savedPaths s) s

/-- What stands behind a save: the identity of the paths as the disk then holds them, or the old
state. -/
def Identified (disk : Disk) (s₀ s : Repository) : Prop := SameIdentity s₀ s ∨ Refreshed disk s₀ s

theorem SameIdentity.refl (s : Repository) : SameIdentity s s := ⟨rfl, rfl, rfl⟩

/-- Nothing that does not touch the identity breaks this. -/
theorem stable_same : Stable (SameIdentity s₀) := fun _ _ h => ⟨h.generation, h.identity, h.state⟩

/-- A generation has been started over some paths; what shows may still be of the one before. -/
structure Started (s₀ : Repository) (paths : List Path) (s : Repository) : Prop where
  generation : s.identityGeneration = s₀.identityGeneration + 1
  paths : savedPaths s = paths

/-- One use of the disk in `refreshIdentity`: it answers, or the generation has failed. -/
theorem triple_identifying {α : Type} {answer : ℕ → Except DiskFailure α} {paths : List Path}
    {E : Repository → Prop}
    (h : ∀ n, answer n ≠ .error .error) :
    Triple (fun _ => False) (Started s₀ paths) (identifying answer) (fun a s => Started s₀ paths s ∧
      ((∃ n x, answer n = .ok x ∧ a = some x) ∨
        a = none ∧ s.persistedIdentityState = .FAILED ∧ s.persistedIdentity = none)) E := by
  intro s hs
  unfold identifying
  rw [bind_get, bind_modify]
  cases ha : answer s.reads with
  | ok x => exact ⟨⟨hs.generation, hs.paths⟩, .inl ⟨_, x, ha, rfl⟩⟩
  | error failure =>
    cases failure with
    | error => exact absurd ha (h _)
    | io => exact ⟨⟨hs.generation, hs.paths⟩, .inr ⟨rfl, rfl, rfl⟩⟩
    | noSuchFile => exact ⟨⟨hs.generation, hs.paths⟩, .inr ⟨rfl, rfl, rfl⟩⟩

/-- `refreshIdentity()` starts a generation and settles what it shows. -/
theorem refreshIdentity_refreshed (hd : Answers disk) {E : Repository → Prop} :
    Triple (fun _ => False) (SameIdentity s₀) (refreshIdentity disk)
      (fun _ => Refreshed disk s₀) E := by
  have hstart : Triple (fun _ : Throwable => False) (SameIdentity s₀)
      (modify fun s => { s with identityGeneration := s.identityGeneration + 1 })
      (fun _ s => s.identityGeneration = s₀.identityGeneration + 1) E := by
    refine triple_modify fun t ht => ?_
    show t.identityGeneration + 1 = _
    rw [ht.generation]
  refine hstart.bind fun _ => triple_get fun s hs => ?_
  have hpaths : ∀ t, t = s → Started s₀ (savedPaths s) t := by
    rintro t rfl
    exact ⟨hs, rfl⟩
  have hsizes := @triple_identifying s₀ ℕ (fun n => disk.totalBytes n s.inputs) (savedPaths s) E
    fun n => hd.totalBytes n _
  refine (hsizes.weaken hpaths (fun _ _ h => h) fun _ h => h).bind fun totalBytes => ?_
  cases totalBytes with
  | none =>
    refine triple_pure fun t ⟨ht, hn⟩ => ⟨ht.generation, .inr ?_⟩
    obtain ⟨n, x, -, hx⟩ | ⟨-, hstate, hnone⟩ := hn
    · cases hx
    · exact ⟨by rw [hstate]; simp, hnone⟩
  | some total =>
    refine triple_ite (fun _ => ?_) fun _ => triple_modify fun t ht =>
      ⟨ht.1.generation, .inr ⟨by simp, rfl⟩⟩
    have hidentity := @triple_identifying s₀ JString (fun n => disk.identity n (savedPaths s)) (savedPaths s) E
      fun n => hd.identity n _
    refine (hidentity.weaken (fun _ h => h.1) (fun _ _ h => h) fun _ h => h).bind fun identity => ?_
    cases identity with
    | none =>
      refine triple_pure fun t ⟨ht, hn⟩ => ⟨ht.generation, .inr ?_⟩
      obtain ⟨n, x, -, hx⟩ | ⟨-, hstate, hnone⟩ := hn
      · cases hx
      · exact ⟨by rw [hstate]; simp, hnone⟩
    | some identity =>
      refine triple_modify fun t ⟨ht, hn⟩ => ⟨ht.generation, .inl ⟨rfl, ?_⟩⟩
      obtain ⟨n, x, hx, heq⟩ | ⟨hno, -⟩ := hn
      · cases heq
        have hsame : savedPaths { t with persistedIdentity := some identity, persistedIdentityState := .READY } =
            savedPaths s := ht.paths
        exact ⟨n, identity, by rw [hsame]; exact hx, rfl⟩
      · cases hno

theorem keeps_snapshot {bad : Throwable → Prop} {I : Repository → Prop} : Keeps bad I snapshot :=
  keeps_dirty.bind fun _ => triple_get_keep fun _ _ => keeps_pure

theorem keeps_checkCandidate {bad : Throwable → Prop} {I : Repository → Prop} (hI : Stable I)
    (c : CodeDataCandidate) : Keeps bad I (checkCandidate disk c) := by
  refine triple_get_keep fun s _ => (keeps_when keeps_throw).bind fun _ =>
    keeps_checkRevision.bind fun _ => ?_
  refine (keeps_when keeps_throw).bind fun _ => keeps_codeDataJson.bind fun _ => ?_
  exact (keeps_when keeps_throw).bind fun _ => keeps_when (keeps_checkAnalysisBaselines hI)

/-- A commit of annotations keeps the identity. -/
theorem commitCodeData_same (c : CodeDataCandidate) :
    Keeps (fun _ => False) (SameIdentity s₀) (commitCodeData disk c) := by
  refine (keeps_checkCandidate stable_same c).bind fun _ => triple_get_keep fun s _ => ?_
  refine (keeps_when (triple_modify fun t ht => ?_)).bind fun _ => keeps_pure
  unfold install
  split
  · exact ⟨ht.generation, ht.identity, ht.state⟩
  · exact ⟨ht.generation, ht.identity, ht.state⟩

/-- So does one of a path. -/
theorem commitMappingsPath_same (c : MappingCandidate) :
    Keeps (fun _ => False) (SameIdentity s₀) (commitMappingsPath disk c) := by
  refine keeps_checkRevision.bind fun _ => triple_get_keep fun s _ => ?_
  refine (keeps_checkInputBaselines stable_same).bind fun _ =>
    (keeps_fingerprintOf stable_same).bind fun _ => ?_
  refine (keeps_when keeps_throw).bind fun _ => (keeps_when (triple_modify fun t ht => ?_)).bind
    fun _ => keeps_snapshot
  exact ⟨ht.generation, ht.identity, ht.state⟩

/-- What a call does once its checks have passed: it assigns, starts a generation, and shows the
project. -/
theorem refreshed_then {α : Type} (hd : Answers disk) {m : Section α} {bad : Throwable → Prop}
    (hm : Keeps bad (Refreshed disk s₀) m) : Triple bad (SameIdentity s₀)
      (do refreshIdentity disk; m)
      (fun _ => Identified disk s₀) (Identified disk s₀) := by
  have hrefresh : Triple bad (SameIdentity s₀) (refreshIdentity disk) (fun _ => Refreshed disk s₀)
      (Identified disk s₀) := by
    intro s hs
    have h := refreshIdentity_refreshed hd (E := fun _ => False) s hs
    rcases hr : refreshIdentity disk s with ⟨e | a, t⟩
    · rw [hr] at h
      exact absurd h (by simp)
    · rw [hr] at h
      exact h
  exact hrefresh.bind fun _ => hm.weaken (fun _ h => h) (fun _ _ h => .inr h) fun _ h => .inr h

/-- **A reload leaves the identity of what it read, or the one there was.** -/
theorem commitReload_identified (hd : Answers disk) (c : ReloadCandidate) :
    Triple (fun _ => False) (SameIdentity s₀) (commitReload disk c) (fun _ => Identified disk s₀)
      (Identified disk s₀) := by
  have hsame : ∀ s, SameIdentity s₀ s → Identified disk s₀ s := fun _ h => .inl h
  refine ((keeps_checkReload stable_same).to hsame).bind fun _ => ?_
  refine Triple.bind (R := fun _ => SameIdentity s₀) (triple_modify fun t ht =>
    ⟨ht.generation, ht.identity, ht.state⟩)
    fun _ => (keeps_codeDataJson.to hsame).bind fun json => ?_
  refine Triple.bind (R := fun _ => SameIdentity s₀) (triple_modify fun t ht =>
    ⟨ht.generation, ht.identity, ht.state⟩)
    fun _ => refreshed_then hd ?_
  refine Triple.bind (R := fun _ => Refreshed disk s₀) (triple_modify fun t ht =>
    ⟨ht.generation, ht.identity⟩)
    fun _ => keeps_snapshot

/-- **So does the acceptance of a save.** -/
theorem acceptSaved_identified (hd : Answers disk) (target : Path) (toSave : Document) :
    Triple (fun _ => False) (SameIdentity s₀) (acceptSaved disk target toSave)
      (fun _ => Identified disk s₀)
      (Identified disk s₀) := by
  have hsame : ∀ s, SameIdentity s₀ s → Identified disk s₀ s := fun _ h => .inl h
  refine Triple.bind (R := fun _ => SameIdentity s₀) (triple_modify fun t ht =>
    ⟨ht.generation, ht.identity, ht.state⟩)
    fun _ => ((keeps_fingerprintOf stable_same).to hsame).bind fun project => ?_
  refine Triple.bind (R := fun _ => SameIdentity s₀) (triple_modify fun t ht =>
    ⟨ht.generation, ht.identity, ht.state⟩)
    fun _ => ((keeps_fingerprintOf stable_same).to hsame).bind fun mapping => ?_
  refine Triple.bind (R := fun _ => SameIdentity s₀) (triple_modify fun t ht =>
    ⟨ht.generation, ht.identity, ht.state⟩)
    fun _ => (keeps_codeDataJson.to hsame).bind fun json => ?_
  refine Triple.bind (R := fun _ => SameIdentity s₀) (triple_modify fun t ht =>
    ⟨ht.generation, ht.identity, ht.state⟩)
    fun _ => refreshed_then hd keeps_snapshot

/-- **A save ends with the identity of what it wrote, or with the one there was.** -/
theorem save_identified (hd : Answers disk) (requestedTarget : Option Path)
    (expectedSessionId : JString)
    (expectedRevision : Option ℤ) : Triple (fun _ => False) (SameIdentity s₀)
      (save disk requestedTarget expectedSessionId expectedRevision) (fun _ => Identified disk s₀)
      (Identified disk s₀) := by
  have hsame : ∀ s, SameIdentity s₀ s → Identified disk s₀ s := fun _ h => .inl h
  refine ((keeps_checkExpected _ _).to hsame).bind fun _ => triple_get_keep fun s _ => ?_
  refine ((keeps_checkInputBaselines stable_same).to hsame).bind fun _ => ?_
  cases (requestedTarget.map disk.normalize).or s.currentPath with
  | none => exact triple_throw fun t ht => .inr (hsame t ht)
  | some target =>
    refine ((keeps_when keeps_throw).to hsame).bind fun _ =>
      ((keeps_reading stable_same).to hsame).bind fun _ => ?_
    refine ((keeps_when keeps_throw).to hsame).bind fun _ =>
      ((keeps_checkSaved stable_same).to hsame).bind fun _ => ?_
    refine (keeps_liftExcept.to hsame).bind fun _ => (keeps_liftExcept.to hsame).bind
      fun toSave => ?_
    exact ((keeps_reading stable_same).to hsame).bind fun _ =>
      acceptSaved_identified hd target toSave

/-- **A call leaves the identity as it is, or starts one generation.** -/
theorem perform_identified (hd : Answers disk) (staged : List Staged) (op : Operation) :
    Identified disk s (perform disk staged op s).2 := by
  have hout : ∀ {α : Type} {m : Section α} {g : α → Receipt}, Triple (fun _ => False)
      (SameIdentity s) m
      (fun _ => Identified disk s) (Identified disk s) →
          Identified disk s ((m >>= fun a => pure (g a)) s).2 := by
    intro α m g hm
    rw [map_run]
    have h := hm s (.refl s)
    rcases hr : m s with ⟨e | a, t⟩
    · rw [hr] at h
      exact h.resolve_left id
    · rw [hr] at h
      exact h
  have hkeep : ∀ {α : Type} {m : Section α}, Keeps (fun _ => False) (SameIdentity s) m →
      Triple (fun _ => False)
      (SameIdentity s) m (fun _ => Identified disk s) (Identified disk s) :=
    fun hm => hm.weaken (fun _ h => h) (fun _ _ h => .inl h) fun _ h => .inl h
  cases op with
  | stageCodeData edited expectedRevision =>
    refine hout (hkeep (keeps_checkRevision.bind fun _ => triple_get_keep fun t _ =>
      keeps_liftExcept.bind fun _ => ?_))
    refine keeps_codeDataJson.bind fun _ => keeps_liftExcept.bind fun _ => ?_
    exact (keeps_when (keeps_checkAnalysisBaselines stable_same)).bind fun _ => keeps_pure
  | stageMappingsPath mappings expectedSessionId expectedRevision =>
    exact hout (hkeep (keeps_stageMappingsPath stable_same))
  | prepareReload discardUnsaved expectedSessionId expectedRevision =>
    exact hout (hkeep (keeps_prepareReload stable_same))
  | commitMappingsPath candidate => exact hout (hkeep (commitMappingsPath_same candidate))
  | commitReload candidate => exact hout (commitReload_identified hd candidate)
  | save requestedTarget expectedSessionId expectedRevision =>
    exact hout (save_identified hd requestedTarget expectedSessionId expectedRevision)
  | commitCodeData i =>
    cases hi : staged[i]? with
    | none =>
      rw [perform_null hi]
      exact .inl (.refl s)
    | some object =>
      rw [perform_commit hi]
      have hsame : Keeps (fun _ => False) (SameIdentity s) (commitCodeData disk object.candidate) :=
        commitCodeData_same _
      exact .inl (hsame.outcome (.refl s) fun _ _ => id)

/-! ## Computations that come back -/

/-- A computation publishes into its own generation only. -/
theorem fingerprinted_run (generation : ℤ) (computed : Option JString) (s : Repository) :
    (fingerprinted generation computed s).2 =
      if s.identityGeneration = generation then
        match computed with
        | some identity => { s with persistedIdentity := some identity, persistedIdentityState := .READY }
        | none => { s with persistedIdentityState := .FAILED }
      else s := by
  unfold fingerprinted
  rw [bind_get, ite_run]
  split
  · cases computed <;> rfl
  · rfl

/-- What is known of a repository and of its computations. -/
structure Tracks (disk : Disk) (s : Repository) (inFlight : List Computation)
    (collected : ℤ → Option (List Path)) : Prop where
  shows : ∃ paths, collected s.identityGeneration = some paths ∧ Shows disk paths s
  started : ∀ c ∈ inFlight, c.generation ≤ s.identityGeneration ∧
    collected c.generation = some c.paths
  pending : ∀ c ∈ inFlight, c.generation = s.identityGeneration →
    s.persistedIdentityState = .PENDING
  distinct : (inFlight.map Computation.generation).Nodup

variable {inFlight : List Computation} {collected : ℤ → Option (List Path)}

/-- Where the generation did not rise, nothing is launched. -/
theorem launched_same {α : Type} {outcome : Except Throwable α}
    (h : t.identityGeneration = s.identityGeneration) :
    launched s outcome t = [] := by
  unfold launched
  split
  · rfl
  · rw [if_neg fun hne => hne.1 h]

/-- What is launched is launched alone, for the generation that now waits. -/
theorem mem_launched {α : Type} {outcome : Except Throwable α} {c : Computation}
    (h : c ∈ launched s outcome t) :
    launched s outcome t = [c] ∧ c = ⟨t.identityGeneration, savedPaths t⟩ ∧
      t.persistedIdentityState = .PENDING := by
  unfold launched at h ⊢
  split at h
  · cases h
  · split at h
    · rename_i hstarted
      obtain rfl := List.mem_singleton.1 h
      rw [if_pos hstarted]
      exact ⟨rfl, rfl, hstarted.2⟩
    · cases h

/-- One call never launches two computations of one generation. -/
theorem launched_distinct {α : Type} {outcome : Except Throwable α} :
    ((launched s outcome t).map Computation.generation).Nodup := by
  rcases hl : launched s outcome t with _ | ⟨c, l⟩
  · exact List.nodup_nil
  · have hone := (mem_launched (hl ▸ List.mem_cons_self : c ∈ launched s outcome t)).1
    rw [hl] at hone
    rw [hone]
    exact List.nodup_singleton _

theorem Shows.same {paths : List Path} (h : Shows disk paths s) (hs : SameIdentity s t) :
    Shows disk paths t := by
  unfold Shows
  rw [hs.state, hs.identity]
  exact h

/-- A call keeps what is known. -/
theorem Tracks.call {α : Type} (outcome : Except Throwable α) (h : Tracks disk s inFlight collected)
    (hi : Identified disk s t) : Tracks disk t (inFlight ++ launched s outcome t)
      (if t.identityGeneration = s.identityGeneration then collected
        else Function.update collected t.identityGeneration (some (savedPaths t))) := by
  obtain hs | hr := hi
  · rw [launched_same hs.generation, List.append_nil, if_pos hs.generation]
    obtain ⟨paths, hpaths, hshows⟩ := h.shows
    refine ⟨⟨paths, by rw [hs.generation]; exact hpaths, hshows.same hs⟩, ?_, ?_, h.distinct⟩
    · rw [hs.generation]
      exact h.started
    · rw [hs.generation, hs.state]
      exact h.pending
  · have hgen := hr.generation
    have hold : ∀ c ∈ inFlight, c.generation < t.identityGeneration := by
      intro c hc
      have hle := (h.started c hc).1
      omega
    rw [if_neg (by omega)]
    refine ⟨⟨savedPaths t, Function.update_self _ _ _, hr.identity⟩, fun c hc => ?_,
      fun c hc heq => ?_, ?_⟩
    · obtain hc | hc := List.mem_append.1 hc
      · have hlt := hold c hc
        rw [Function.update_of_ne (by omega)]
        exact ⟨hlt.le, (h.started c hc).2⟩
      · obtain ⟨-, rfl, -⟩ := mem_launched hc
        exact ⟨le_rfl, Function.update_self _ _ _⟩
    · obtain hc | hc := List.mem_append.1 hc
      · have hlt := hold c hc
        omega
      · exact (mem_launched hc).2.2
    · rw [List.map_append, List.nodup_append]
      refine ⟨h.distinct, launched_distinct, fun g hg g' hg' => ?_⟩
      obtain ⟨c, hc, rfl⟩ := List.mem_map.1 hg
      obtain ⟨c', hc', rfl⟩ := List.mem_map.1 hg'
      have hlt := hold c hc
      obtain ⟨-, rfl, -⟩ := mem_launched hc'
      exact hlt.ne

/-- A computation may be lost. -/
theorem Tracks.loses (h : Tracks disk s inFlight collected) (i : ℕ) :
    Tracks disk s (inFlight.eraseIdx i) collected := by
  have hleft : ∀ d ∈ inFlight.eraseIdx i, d ∈ inFlight := fun d hd => List.mem_of_mem_eraseIdx hd
  exact ⟨h.shows, fun d hd => h.started d (hleft d hd), fun d hd => h.pending d (hleft d hd),
    h.distinct.sublist ((List.eraseIdx_sublist inFlight i).map _)⟩

/-- A computation that comes back keeps what is known of the others. -/
theorem Tracks.finishes (h : Tracks disk s inFlight collected) {i : ℕ} {c : Computation}
    (hc : inFlight[i]? = some c)
    {computed : Option JString}
    (hcomputed : ∀ identity ∈ computed, ∃ n, disk.identity n c.paths = .ok identity) :
    Tracks disk (fingerprinted c.generation computed s).2 (inFlight.eraseIdx i) collected := by
  have hmem : c ∈ inFlight := List.mem_of_getElem? hc
  have hrest := h.loses i
  rw [fingerprinted_run]
  by_cases hgen : s.identityGeneration = c.generation
  · rw [if_pos hgen]
    obtain ⟨hle, hpaths⟩ := h.started c hmem
    -- no other computation is of this generation
    have hother : ∀ d ∈ inFlight.eraseIdx i, d.generation ≠ c.generation := by
      intro d hd heq
      obtain ⟨j, hne, hj⟩ := List.mem_eraseIdx_iff_getElem?.1 hd
      have hlt : j < (inFlight.map Computation.generation).length := by
        rw [List.length_map]
        exact (List.getElem?_eq_some_iff.1 hj).1
      refine hne ((List.getElem?_inj hlt h.distinct).1 ?_)
      rw [List.getElem?_map, List.getElem?_map, hj, hc, Option.map_some, Option.map_some, heq]
    have hnone : s.persistedIdentity = none := by
      obtain ⟨paths, -, ⟨hready, -⟩ | ⟨-, hnone⟩⟩ := h.shows
      · rw [h.pending c hmem hgen.symm] at hready
        cases hready
      · exact hnone
    cases computed with
    | some identity =>
      obtain ⟨n, hn⟩ := hcomputed identity rfl
      refine ⟨⟨c.paths, ?_, .inl ⟨rfl, n, identity, hn, rfl⟩⟩, hrest.started, fun d hd heq =>
        ?_, hrest.distinct⟩
      · show collected s.identityGeneration = _
        rw [hgen]
        exact hpaths
      · exact absurd (heq.trans hgen) (hother d hd)
    | none =>
      obtain ⟨paths, hcollected, -⟩ := h.shows
      refine ⟨⟨paths, hcollected, .inr ⟨by simp, hnone⟩⟩, hrest.started, fun d hd heq =>
        ?_, hrest.distinct⟩
      exact absurd (heq.trans hgen) (hother d hd)
  · rw [if_neg hgen]
    exact hrest

variable {disks : RepositoryId → Disk} {w : World} {r r' : RepositoryId} {generation : ℤ}
  {outcome : Except DiskFailure JString}

/-- An answer that comes back touches no other repository. -/
theorem finished_other (h : r' ≠ r) :
    (finished disks w r generation outcome).repository r' = w.repository r' := by
  unfold finished World.after
  split
  · exact Function.update_of_ne h _ _
  · rfl
  · exact Function.update_of_ne h _ _

/-- It leaves the repository as it was, or fingerprinted by the answer. -/
theorem finished_self : (finished disks w r generation outcome).repository r = w.repository r ∨
    ∃ computed, (∀ identity ∈ computed, outcome = .ok identity) ∧
      (finished disks w r generation outcome).repository r = (fingerprinted generation computed
        (w.repository r)).2 := by
  unfold finished World.after
  split
  · rename_i identity
    refine .inr ⟨some identity, fun x hx => ?_, Function.update_self _ _ _⟩
    rw [Option.some.inj hx]
  · exact .inl rfl
  · exact .inr ⟨none, fun x hx => (Option.not_mem_none _ hx).elim, Function.update_self _ _ _⟩

/-! ## Runs -/

variable {p : Process}

/-- What is known of every repository of a process. -/
def Inv (disks : RepositoryId → Disk) (p : Process) : Prop :=
  ∀ r, Tracks (disks r) (p.world.repository r) (p.inFlight r) (p.collected r)

/-- The invariant holds at the start. -/
theorem start_inv (hd : ∀ r, Answers (disks r)) {fresh : RepositoryId → Repository}
    (hfresh : ∀ r, Fresh (fresh r))
    (hok : ∀ r, (refreshIdentity (disks r) (fresh r)).1 = .ok ()) :
    Inv disks (start disks fresh) := by
  intro r
  have hrefreshed : Refreshed (disks r) (fresh r) (refreshIdentity (disks r) (fresh r)).2 := by
    have h := refreshIdentity_refreshed (hd r) (E := fun _ => False) (fresh r) (.refl _)
    rcases hr : refreshIdentity (disks r) (fresh r) with ⟨e | a, t⟩
    · have := hok r
      rw [hr] at this
      cases this
    · rw [hr] at h
      exact h
  have hgen : (refreshIdentity (disks r) (fresh r)).2.identityGeneration = 1 := by
    rw [hrefreshed.generation, (hfresh r).identityGeneration]
    rfl
  refine ⟨⟨_, ?_, hrefreshed.identity⟩, fun c hc => ?_, fun c hc _ =>
    (mem_launched hc).2.2, launched_distinct⟩
  · show Function.update (fun _ => none) 1 _
      (refreshIdentity (disks r) (fresh r)).2.identityGeneration = _
    rw [hgen, Function.update_self]
  · obtain ⟨-, rfl, -⟩ := mem_launched hc
    refine ⟨le_rfl, ?_⟩
    show Function.update (fun _ => none) 1 _
      (refreshIdentity (disks r) (fresh r)).2.identityGeneration = _
    rw [hgen, Function.update_self]

/-- **Every event keeps the invariant.** -/
theorem Inv.after (hd : ∀ r, Answers (disks r)) (h : Inv disks p) (event : Event) :
    Inv disks (p.after disks event) := by
  cases event with
  | call r op =>
    intro r'
    by_cases hr : r' = r
    · subst hr
      have hcall := (h r').call (perform (disks r') p.world.staged op (p.world.repository r')).1
        (perform_identified (hd r') p.world.staged op)
      unfold Process.after World.after
      simp only [Function.update_self]
      split
      · rename_i hgen
        rwa [if_pos hgen] at hcall
      · rename_i hgen
        rw [if_neg hgen] at hcall
        rwa [Function.update_self]
    · unfold Process.after World.after
      simp only [Function.update_of_ne hr, Function.update_self]
      split
      · exact h r'
      · rw [Function.update_of_ne hr]
        exact h r'
  | finishes r i n =>
    unfold Process.after
    dsimp only
    split
    · exact h
    · rename_i c hc
      intro r'
      by_cases hr : r' = r
      · subst hr
        show Tracks (disks r') ((finished disks p.world r' c.generation _).repository r')
          (Function.update p.inFlight r' ((p.inFlight r').eraseIdx i) r') (p.collected r')
        rw [Function.update_self]
        obtain hsame | ⟨computed, hcomputed, hrun⟩ := @finished_self disks p.world r' c.generation
          ((disks r').identity n c.paths)
        · rw [hsame]
          exact (h r').loses i
        · rw [hrun]
          exact (h r').finishes hc fun identity hin => ⟨n, hcomputed identity hin⟩
      · show Tracks (disks r') ((finished disks p.world r c.generation _).repository r')
          (Function.update p.inFlight r ((p.inFlight r).eraseIdx i) r') (p.collected r')
        rw [Function.update_of_ne hr, finished_other hr]
        exact h r'

/-- **So every reachable state has it.** -/
theorem Reachable.inv (hd : ∀ r, Answers (disks r)) (h : Reachable disks p) : Inv disks p := by
  induction h with
  | opened fresh hself hfresh hok => exact start_inv hd hfresh hok
  | step event _ ih => exact ih.after hd event

/-- **What shows as ready is the identity of the current generation.** A computation of an older
generation changes nothing when it comes back, with an identity or with a failure; what shows as
ready was computed from the paths that the current generation has collected; and nothing shows that
is not ready. -/
theorem identity_of_generation (hd : ∀ r, Answers (disks r)) (h : Reachable disks p)
    (r : RepositoryId) :
    (∀ i c, (p.inFlight r)[i]? = some c → c.generation ≠ (p.world.repository r).identityGeneration →
      c.generation < (p.world.repository r).identityGeneration ∧
        ∀ n, (p.after disks (.finishes r i n)).world.repository r = p.world.repository r) ∧
    ((p.world.repository r).persistedIdentityState = .READY →
      ∃ paths n identity, p.collected r (p.world.repository r).identityGeneration = some paths ∧
        (disks r).identity n paths = .ok identity ∧ (p.world.repository r).persistedIdentity =
        some identity) ∧
    ((p.world.repository r).persistedIdentityState ≠ .READY →
      (p.world.repository r).persistedIdentity = none) := by
  have hinv := h.inv hd r
  obtain ⟨paths, hpaths, hshows⟩ := hinv.shows
  refine ⟨fun i c hc hne => ⟨?_, fun n => ?_⟩, fun hready => ?_, fun hready => ?_⟩
  · have hle := (hinv.started c (List.mem_of_getElem? hc)).1
    omega
  · unfold Process.after
    dsimp only
    rw [hc]
    show (finished disks p.world r c.generation _).repository r = _
    obtain hsame | ⟨computed, -, hrun⟩ := @finished_self disks p.world r c.generation
      ((disks r).identity n c.paths)
    · exact hsame
    · rw [hrun, fingerprinted_run, if_neg (Ne.symm hne)]
  · obtain ⟨-, n, identity, hn, hidentity⟩ | ⟨hno, -⟩ := hshows
    · exact ⟨paths, n, identity, hpaths, hn, hidentity⟩
    · exact absurd hready hno
  · obtain ⟨hyes, -⟩ | ⟨-, hnone⟩ := hshows
    · exact absurd hyes hready
    · exact hnone

/-! ## The worlds of a process -/

/-- What no refresh touches. -/
theorem fresh_opened {s : Repository} (h : Fresh s) (hok : (refreshIdentity disk s).1 = .ok ()) :
    (refreshIdentity disk s).2.self = s.self ∧ Opened (refreshIdentity disk s).2 := by
  let Kept : Repository → Prop := fun t => t.self = s.self ∧ t.document = s.document ∧
    t.rawCodeData = s.rawCodeData ∧
    t.savedCodeData = s.savedCodeData ∧ t.savedMappingsPath = s.savedMappingsPath ∧
    t.baselineMappingsPath = s.baselineMappingsPath ∧
      t.stagedMappingBaseline = s.stagedMappingBaseline ∧
    t.logicalRevision = s.logicalRevision ∧ t.indexRevision = s.indexRevision ∧
      t.identityGeneration = 1
  have hgen : s.identityGeneration + 1 = 1 := by rw [h.identityGeneration]; rfl
  have hkept : Triple (fun _ => False) (fun t => t = s) (refreshIdentity disk) (fun _ =>
      Kept) Kept := by
    refine triple_refreshIdentity (fun _ _ _ _ ht => ht) (fun _ ht => .inr ht) fun t ht => ?_
    subst ht
    exact ⟨rfl, rfl, rfl, rfl, rfl, rfl, rfl, rfl, rfl, hgen⟩
  have hrun := hkept s rfl
  rcases hr : refreshIdentity disk s with ⟨e | a, t⟩
  · rw [hr] at hok
    cases hok
  · rw [hr] at hrun
    obtain ⟨hself, hdocument, hraw, hsaved, hmapping, hbaseline, hstaged, hlogical, hindex, hgen⟩ :=
      hrun
    have hmappings : t.mappingsPath = s.mappingsPath := by unfold Repository.mappingsPath; rw [hdocument]
    refine ⟨hself, ?_, ⟨?_, ?_⟩, hstaged.trans h.staged, hraw.trans h.raw,
      hlogical.trans h.logicalRevision,
      hindex.trans h.indexRevision, hgen⟩
    · have hjson : t.codeDataJson = s.codeDataJson :=
        by unfold Repository.codeDataJson; rw [hdocument, hraw]
      rw [hjson, hsaved]
      exact h.saved
    · rw [hmapping, hmappings]
      exact h.mappings.1
    · rw [hbaseline, hmappings]
      exact h.mappings.2

/-- The repositories of a process are those of a run of calls and of computations that come back. -/
theorem Reachable.world (h : Reachable disks p) :
    NativeProjectRepository.Reachable disks p.world := by
  induction h with
  | opened fresh hself hfresh hok =>
    refine .opened _ (fun r => ?_) (fun r => (fresh_opened (hfresh r) (hok r)).2) rfl
    exact (fresh_opened (hfresh r) (hok r)).1.trans (hself r)
  | @step p event h ih =>
    cases event with
    | call r op => exact ih.step (.call r op)
    | finishes r i n =>
      unfold Process.after
      dsimp only
      split
      · exact ih
      · rename_i c hc
        show NativeProjectRepository.Reachable disks (finished disks p.world r c.generation _)
        unfold finished
        split
        · exact ih.step _
        · exact ih
        · exact ih.step _

/-! Large inputs, whose first computation comes back after the project was saved. -/

namespace LargeInputs

/-- The inputs are too large to be read at once. -/
def largeDisk : Disk where
  allowedRoots := [[0]]
  startsWith _ _ := true
  normalize path := path
  fingerprint _ _ := .ok (some [])
  toRealPath _ path := .ok path
  isRegularFile _ _ := true
  isNativeTarget _ := true
  checkWritableTarget _ _ := .ok ()
  exists_ _ _ := false
  parse _ _ := .error .io
  write _ _ := .ok ()
  totalBytes _ _ := .ok (33 * 1024 * 1024)
  identity _ paths := .ok paths.flatten

theorem answers : Answers largeDisk where
  totalBytes _ _ h := by cases h
  identity _ _ h := by cases h

def fresh (r : RepositoryId) : Repository where
  self := r
  sessionId := []
  inputs := [[1]]
  document := none
  rawCodeData := ⟨[], []⟩
  projectBaseline := none
  mappingBaseline := none
  inputBaselines := [some []]
  stagedMappingBaseline := none
  baselineMappingsPath := none
  savedMappingsPath := none
  savedCodeData := ⟨[], []⟩
  logicalRevision := 0
  indexRevision := 0
  persistedIdentity := none
  persistedIdentityState := .PENDING
  identityGeneration := 0
  reads := 0

/-- The project is saved, and the computation for the saved project comes back first. -/
def saved : Process :=
  ((start (fun _ => largeDisk) fresh).after (fun _ => largeDisk)
    (.call 0 (.save (some [2]) [] none))).after
    (fun _ => largeDisk) (.finishes 0 1 0)

theorem saved_reachable : Reachable (fun _ => largeDisk) saved := by
  have hopened : Reachable (fun _ => largeDisk) (start (fun _ => largeDisk) fresh) :=
    .opened fresh (fun _ => rfl) (fun _ => ⟨rfl, ⟨rfl, rfl⟩, rfl, rfl, rfl, rfl, rfl, rfl, rfl⟩)
      fun _ => rfl
  exact (hopened.step _).step _

end LargeInputs

/-- The identity of the saved project stays, whatever the computation for the inputs alone comes
back with. -/
theorem identity_of_generation_late :
    (LargeInputs.saved.world.repository 0).persistedIdentityState = .READY ∧
    (LargeInputs.saved.world.repository 0).persistedIdentity = some [2, 1] ∧
    ∀ n, (LargeInputs.saved.after (fun _ => LargeInputs.largeDisk) (.finishes 0 0 n)).world.repository 0 =
      LargeInputs.saved.world.repository 0 := by
  have h := identity_of_generation (fun _ => LargeInputs.answers) LargeInputs.saved_reachable 0
  exact ⟨rfl, rfl, (h.1 0 ⟨1, [[1]]⟩ rfl (by decide)).2⟩

end Libjadx.PersistedIdentity
