import Libjadx.Proof.Repository
import Libjadx.Spec.Runtime

/-!
# What calls do to the revision

* `Same`: looking at a repository, and computing its identity, leave its content.
* `apply_revised`: a commit moves the logical revision by its `step` where it returns, and not at
  all where it throws.
* `save_revised`: a save does not move it.
-/

namespace Libjadx

namespace Entry

variable {α : Type} {same : α → α → Bool}

/-- The written entries hold the records they are given, of which none is `null`. -/
theorem preserve_values {updated : List (Option α)} {old entries : List (Entry α)}
    (h : preserve same old updated = .ok entries) : entries.map Entry.value = updated ∧
    none ∉ updated := by
  induction updated generalizing old entries with
  | nil =>
    obtain rfl := Except.ok.inj h
    exact ⟨rfl, List.not_mem_nil⟩
  | cons value updated ih =>
    cases value with
    | none => exact absurd h (by simp [preserve])
    | some value =>
      simp only [preserve] at h
      split at h
      all_goals
        rename_i hfind
        cases hr : preserve same _ updated with
        | error e =>
          rw [hr] at h
          exact absurd h (by simp [bind, Except.bind])
        | ok rest =>
          rw [hr] at h
          obtain rfl := Except.ok.inj h
          obtain ⟨hvalues, hnone⟩ := ih hr
          refine ⟨?_, by simpa using hnone⟩
          show some value :: rest.map Entry.value = some value :: updated
          rw [hvalues]

/-- Objects can always be kept. -/
theorem preserve_ok {updated : List (Option α)} (hnone : none ∉ updated) (old : List (Entry α)) :
    ∃ entries, preserve same old updated = .ok entries := by
  induction updated generalizing old with
  | nil => exact ⟨_, rfl⟩
  | cons value updated ih =>
    cases value with
    | none => simp at hnone
    | some value =>
      have hrest : none ∉ updated := fun h => hnone (List.mem_cons_of_mem _ h)
      simp only [preserve]
      split
      all_goals
        rename_i hfind
        obtain ⟨rest, hr⟩ := ih hrest _
        rw [hr]
        exact ⟨_, rfl⟩

/-- A merge shows the new list. -/
theorem merge_values {old : Option (List (Entry α))} {updated : List (Option α)}
    {entries : List (Entry α)}
    (h : merge same old updated = .ok entries) : entries.map Entry.value = updated ∧
    (old ≠ none → none ∉ updated) := by
  cases old with
  | none =>
    obtain rfl := Except.ok.inj h
    refine ⟨?_, fun hne => absurd rfl hne⟩
    rw [List.map_map]
    exact List.map_id _
  | some old =>
    obtain ⟨hvalues, hnone⟩ := preserve_values h
    exact ⟨hvalues, fun _ => hnone⟩

end Entry

namespace Document

variable {d d' : Document} {c : CodeData}

/-- The tree that is written is read back as the code data. -/
theorem setCodeData_values (h : d.setCodeData c = .ok d') :
    ∃ renames comments, d'.renames = some renames ∧
    d'.comments = some comments ∧ renames.map Entry.value = c.renames ∧
      comments.map Entry.value = c.comments ∧
    (d.renames ≠ none → none ∉ c.renames) ∧ (d.comments ≠ none → none ∉ c.comments) := by
  unfold setCodeData at h
  cases hr : Entry.merge sameRename d.renames c.renames with
  | error e => exact absurd h (by simp [hr, bind, Except.bind])
  | ok renames =>
    cases hc : Entry.merge sameComment d.comments c.comments with
    | error e => exact absurd h (by simp [hr, hc, bind, Except.bind])
    | ok comments =>
      simp only [hr, hc, bind, Except.bind, pure, Except.pure] at h
      obtain rfl := Except.ok.inj h
      have hrenames := Entry.merge_values hr
      have hcomments := Entry.merge_values hc
      exact ⟨renames, comments, rfl, rfl, hrenames.1, hcomments.1, hrenames.2, hcomments.2⟩

/-- A document whose entries are all records can be written. -/
theorem codeDataJson_ok (hr : none ∉ d.codeData.renames) (hc : none ∉ d.codeData.comments) :
    ∃ json, d.codeDataJson = .ok json := by
  have hmerge : ∀ {α : Type} {same : α → α → Bool} {updated : List (Option α)}
      (old : Option (List (Entry α))),
      none ∉ updated → ∃ entries, Entry.merge same old updated = .ok entries := by
    intro α same updated old hnone
    cases old with
    | none => exact ⟨_, rfl⟩
    | some old => exact Entry.preserve_ok hnone old
  obtain ⟨renames, hrenames⟩ := hmerge d.renames hr
  obtain ⟨comments, hcomments⟩ := hmerge d.comments hc
  unfold codeDataJson toJsonTree withCodeData setCodeData
  rw [hrenames, hcomments]
  exact ⟨_, rfl⟩

/-- A document that could be written has no `null` entry. -/
theorem toJsonTree_records (h : d.toJsonTree = .ok d') :
    none ∉ d.codeData.renames ∧ none ∉ d.codeData.comments := by
  obtain ⟨-, -, -, -, -, -, hr, hc⟩ := setCodeData_values h
  constructor
  · intro hin
    by_cases hnone : d.renames = none
    · rw [d.renames_absent hnone] at hin
      simp at hin
    · exact hr hnone hin
  · intro hin
    by_cases hnone : d.comments = none
    · rw [d.comments_absent hnone] at hin
      simp at hin
    · exact hc hnone hin

/-- The copy with another mapping file holds the same code data, and can be written. -/
theorem withMappingsPath_ok {mappings : Option Path} (h : d.withMappingsPath mappings = .ok d') :
    d'.codeData = d.codeData ∧ d'.mappingsPath = mappings ∧ ∃ json, d'.codeDataJson = .ok json := by
  unfold withMappingsPath at h
  cases ht : d.toJsonTree with
  | error e => exact absurd h (by simp [ht, bind, Except.bind])
  | ok tree =>
    simp only [ht, bind, Except.bind, pure, Except.pure] at h
    obtain rfl := Except.ok.inj h
    obtain ⟨renames, comments, hr, hc, hrv, hcv, -, -⟩ := setCodeData_values ht
    have hread : readCodeData tree.renames tree.comments = d.codeData := by
      unfold readCodeData
      rw [hr, hc]
      show CodeData.mk (renames.map Entry.value) (comments.map Entry.value) = d.codeData
      rw [hrv, hcv]
    obtain ⟨hnr, hnc⟩ := toJsonTree_records ht
    refine ⟨hread, rfl, codeDataJson_ok ?_ ?_⟩
    · show none ∉ (readCodeData tree.renames tree.comments).renames
      rwa [hread]
    · show none ∉ (readCodeData tree.renames tree.comments).comments
      rwa [hread]

end Document

namespace NativeProjectRepository

open Locked

variable {disk : Disk} {s s₀ t : Repository} {bad : Throwable → Prop} {I E : Repository → Prop}

/-! ## Looking -/

/-- Nothing changed but that the disk was looked at, and the persisted identity. -/
def Same (s₀ s : Repository) : Prop :=
  s = { s₀ with
    reads := s.reads
    persistedIdentity := s.persistedIdentity
    persistedIdentityState := s.persistedIdentityState }

theorem Same.refl (s : Repository) : Same s s := rfl

/-- What is untouched is the same. -/
theorem Untouched.same (h : Untouched s₀ s) : Same s₀ s := by
  unfold Untouched at h
  unfold Same
  rw [h]

theorem Same.trans {u : Repository} (h : Same s t) (h' : Same t u) : Same s u := by
  unfold Same at *
  rw [h', h]

theorem Same.sessionId (h : Same s₀ s) : s.sessionId = s₀.sessionId := by rw [h]

theorem Same.logicalRevision (h : Same s₀ s) : s.logicalRevision = s₀.logicalRevision := by rw [h]

theorem Same.document (h : Same s₀ s) : s.document = s₀.document := by rw [h]

theorem Same.mappingsPath (h : Same s₀ s) : s.mappingsPath = s₀.mappingsPath := by
  unfold Repository.mappingsPath
  rw [h.document]

/-- Where a section that only looks ends. -/
theorem Keeps.untouched {α : Type} {m : Section α}
    (h : Keeps (fun _ : Throwable => False) (Untouched s) m) : Untouched s (m s).2 :=
  Keeps.outcome h (Untouched.refl s) fun _ _ h => h

/-- A snapshot changes nothing. -/
theorem snapshot_state (s : Repository) : (snapshot s).2 = s := by
  cases hj : s.codeDataJson with
  | ok json => rw [snapshot_run hj]
  | error e => rw [snapshot_error hj]

/-- It shows the state. -/
theorem snapshot_ok {p : ProjectSnapshot} (h : snapshot s = (.ok p, t)) :
    ∃ json, s.codeDataJson = .ok json ∧ p = shown s json := by
  cases hj : s.codeDataJson with
  | ok json =>
    rw [snapshot_run hj] at h
    exact ⟨json, rfl, (Except.ok.inj (Prod.mk.inj h).1).symm⟩
  | error e =>
    rw [snapshot_error hj] at h
    exact absurd (Prod.mk.inj h).1 (by simp)

/-- A fingerprint changes neither session nor revision. -/
theorem fingerprinted_same (generation : ℤ) (computed : Option JString) :
    Same s (fingerprinted generation computed s).2 := by
  unfold fingerprinted
  rw [bind_get, ite_run]
  split
  · cases computed with
    | none => rfl
    | some identity => rfl
  · rfl

/-- **The stage of annotations touches nothing.** -/
theorem stageCodeData_untouched (edited : CodeData) (expectedRevision : ℤ) :
    Untouched s (stageCodeData disk edited expectedRevision s).2 := by
  have htriple : Triple (fun _ : Throwable => False) (Untouched s)
      (stageCodeData disk edited expectedRevision)
      (fun c t => Untouched s t ∧ StagedBy s c) (Untouched s) := stageCodeData_triple
  rcases hr : stageCodeData disk edited expectedRevision s with ⟨e | c, t⟩
  · exact (htriple.error (Untouched.refl s) hr).resolve_left id
  · exact (htriple.ok (Untouched.refl s) hr).1

/-- What is staged is staged at the expected revision. -/
theorem checkRevision_ok {expected : ℤ} (h : checkRevision expected s = (.ok (), t)) :
    expected = s.logicalRevision ∧ t = s := by
  by_cases he : expected = s.logicalRevision
  · have hok : checkRevision expected s = (.ok (), s) := by simp [checkRevision, he]
    rw [hok] at h
    exact ⟨he, (Prod.mk.inj h).2.symm⟩
  · have herror : checkRevision expected s = (.error .staleRevision, s) :=
      by simp [checkRevision, he]
    rw [herror] at h
    exact absurd (Prod.mk.inj h).1 (by simp)

/-- **What is prepared carries the session and the revision there were.** -/
theorem prepareReload_ok {discardUnsaved : Bool} {expectedSessionId : JString}
    {expectedRevision : ℤ} {c : ReloadCandidate}
    (h : prepareReload disk discardUnsaved expectedSessionId expectedRevision s = (.ok c, t)) :
    expectedRevision = s.logicalRevision := by
  unfold prepareReload at h
  rcases hs : checkSession expectedSessionId s with ⟨e | ⟨⟩, u⟩
  · rw [bind_error hs] at h
    exact absurd (Prod.mk.inj h).1 (by simp)
  · have hu : Untouched s (checkSession expectedSessionId s).2 := Keeps.untouched keeps_checkSession
    rw [bind_ok hs] at h
    rw [hs] at hu
    rcases hc : checkRevision expectedRevision u with ⟨e | ⟨⟩, v⟩
    · rw [bind_error hc] at h
      exact absurd (Prod.mk.inj h).1 (by simp)
    · exact (checkRevision_ok hc).1.trans hu.same.logicalRevision

/-- **So does what is staged.** -/
theorem stageMappingsPath_ok {mappings : Option Path} {expectedSessionId : JString}
    {expectedRevision : ℤ}
    {c : MappingCandidate} (h : stageMappingsPath disk mappings expectedSessionId expectedRevision
      s = (.ok c, t)) :
    expectedRevision = s.logicalRevision ∧ c.document.mappingsPath = c.path ∧
      ∃ json, c.document.codeDataJson = .ok json := by
  have htriple : Triple (fun _ : Throwable => False) (Untouched s)
      (stageMappingsPath disk mappings expectedSessionId expectedRevision)
      (fun c _ => expectedRevision = s.logicalRevision ∧ c.document.mappingsPath = c.path ∧
        ∃ json, c.document.codeDataJson = .ok json) (Untouched s) := by
    refine keeps_checkSession.bind fun _ => triple_checkRevision_bind fun hrev => ?_
    refine triple_get_keep fun u _ => (keeps_checkInputBaselines stable_untouched).bind fun _ => ?_
    cases u.document with
    | none => exact triple_throw fun _ ht => .inr ht
    | some document =>
      refine (keeps_checkedMappings stable_untouched mappings).bind fun checked => ?_
      refine (keeps_when (keeps_checkAttachedMappingBaseline stable_untouched)).bind fun _ => ?_
      refine triple_liftExcept_bind (fun _ _ _ ht => .inr ht) fun candidate hcandidate => ?_
      refine (keeps_fingerprintOf stable_untouched).bind fun _ => triple_pure fun _ _ => ?_
      obtain ⟨-, hpath, hjson⟩ := Document.withMappingsPath_ok hcandidate
      exact ⟨hrev, hpath, hjson⟩
  exact htriple.ok (Untouched.refl s) h

/-! ## Moving -/

/-- The session and the logical revision. -/
def At (sessionId : JString) (logicalRevision : ℤ) (s : Repository) : Prop :=
  s.sessionId = sessionId ∧ s.logicalRevision = logicalRevision

/-- Nothing but a commit takes the project from its revision. -/
theorem stable_at {sessionId : JString} {revision : ℤ} : Stable (At sessionId revision) :=
  fun _ _ h => h

/-- What is untouched is at its own revision. -/
theorem Untouched.at_ (h : Untouched s₀ s) : At s₀.sessionId s₀.logicalRevision s :=
  ⟨h.same.sessionId, h.same.logicalRevision⟩

theorem keeps_refreshIdentity {sessionId : JString} {revision : ℤ} :
    Keeps bad (At sessionId revision) (refreshIdentity disk) :=
  triple_refreshIdentity (fun _ _ _ _ h => h) (fun _ h => .inr h) fun _ h => h

theorem keeps_snapshot : Keeps bad I snapshot := by
  intro s hs
  rcases hr : snapshot s with ⟨e | p, t⟩
  all_goals
    have ht := snapshot_state s
    rw [hr] at ht
    obtain rfl : t = s := ht
  · exact .inr hs
  · exact hs

/-- What is accepted of a save keeps the revision. -/
theorem keeps_acceptSaved {target : Path} {toSave : Document} {sessionId : JString} {revision : ℤ} :
    Keeps bad (At sessionId revision) (acceptSaved disk target toSave) := by
  have hset : ∀ {f : Repository → Repository}, (∀ s, At sessionId revision s →
      At sessionId revision (f s)) →
      Keeps bad (At sessionId revision) (modify f) := fun h => triple_modify h
  refine Triple.bind (hset ?_) fun _ => (keeps_fingerprintOf stable_at).bind fun _ => ?_
  · exact fun _ h => h
  refine Triple.bind (hset ?_) fun _ => (keeps_fingerprintOf stable_at).bind fun _ => ?_
  · exact fun _ h => h
  refine Triple.bind (hset ?_) fun _ => keeps_codeDataJson.bind fun _ => ?_
  · exact fun _ h => h
  refine Triple.bind (hset ?_) fun _ => keeps_refreshIdentity.bind fun _ => keeps_snapshot
  exact fun _ h => h

/-- **So does the save.** -/
theorem keeps_save {requestedTarget : Option Path} {expectedSessionId : JString}
    {expectedRevision : Option ℤ}
    {sessionId : JString} {revision : ℤ} :
    Keeps bad (At sessionId revision)
      (save disk requestedTarget expectedSessionId expectedRevision) := by
  refine (keeps_checkExpected _ _).bind fun _ => triple_get_keep fun s _ => ?_
  refine (keeps_checkInputBaselines stable_at).bind fun _ => ?_
  cases (requestedTarget.map disk.normalize).or s.currentPath with
  | none => exact keeps_throw
  | some target =>
    refine (keeps_when keeps_throw).bind fun _ => (keeps_reading stable_at).bind fun _ => ?_
    refine (keeps_when keeps_throw).bind fun _ => (keeps_checkSaved stable_at).bind fun _ => ?_
    refine keeps_liftExcept.bind fun _ => keeps_liftExcept.bind fun toSave => ?_
    exact (keeps_reading stable_at).bind fun _ => keeps_acceptSaved

/-- **A save does not move the revision**, and its receipt shows it. -/
theorem save_revised (disk : Disk) (s : Repository) (requestedTarget : Option Path)
    (expectedSessionId : JString)
    (expectedRevision : Option ℤ) :
    At s.sessionId s.logicalRevision
      (save disk requestedTarget expectedSessionId expectedRevision s).2 ∧
    ∀ p, (save disk requestedTarget expectedSessionId expectedRevision s).1 = .ok p →
      p.revisions.sessionId = s.sessionId ∧ p.revisions.logicalRevision = s.logicalRevision := by
  have hkeeps : Keeps (fun _ : Throwable => False) (At s.sessionId s.logicalRevision)
      (save disk requestedTarget expectedSessionId expectedRevision) := keeps_save
  have hat := hkeeps.outcome ⟨rfl, rfl⟩ fun _ _ h => h
  refine ⟨hat, fun p hp => ?_⟩
  rcases hr : save disk requestedTarget expectedSessionId expectedRevision s with ⟨o, t⟩
  rw [hr] at hp hat
  obtain rfl := hp
  have hset := ((save_triple (ending_follows s) requestedTarget expectedSessionId
    expectedRevision).ok (Untouched.refl s) hr).1
  obtain ⟨json, -, rfl⟩ := snapshot_ok hset.receipt
  exact hat

open ProjectRuntime (RebuildCommit)

/-- What a commit adds to the logical revision where it returns. -/
def commitStep (s : Repository) : RebuildCommit → ℤ
  | .codeData c => if c.effective then 1 else 0
  | .reload _ => 1
  | .mappings c => if s.mappingsPath = c.path then 0 else 1

/-- What is known of a candidate when it is committed: a new mapping file comes with a document
that can be written. -/
def Sound : RebuildCommit → Prop
  | .mappings c => ∃ json, c.document.codeDataJson = .ok json
  | _ => True

/-- **A commit of annotations moves the revision by its step,** -/
theorem commitCodeData_revised (c : CodeDataCandidate) (s : Repository) :
    match commitCodeData disk c s with
    | (.ok _, t) => At s.sessionId (s.logicalRevision + commitStep s (.codeData c)) t
    | (.error _, t) => At s.sessionId s.logicalRevision t := by
  rcases hc : checkCandidate disk c s with ⟨e | ⟨⟩, t⟩
  · rw [commitCodeData_error hc]
    exact (checkCandidate_error hc).at_
  · rw [commitCodeData_ok hc]
    have hat := (checkCandidate_ok hc).1.at_
    obtain ⟨-, -, -, hsid, hrev, -⟩ := install_rest c t
    show At s.sessionId (s.logicalRevision + if c.effective then 1 else 0) _
    cases c.effective with
    | true => exact ⟨hsid.trans hat.1, hrev.trans (congrArg (· + 1) hat.2)⟩
    | false => exact ⟨hat.1, hat.2.trans (Int.add_zero _).symm⟩

/-- **a reload by one,** -/
theorem commitReload_revised (c : ReloadCandidate) :
    Triple (fun _ : Throwable => False) (Untouched s₀) (commitReload disk c)
      (fun _ => At s₀.sessionId (s₀.logicalRevision + 1))
      (At s₀.sessionId s₀.logicalRevision) := by
  have hend : ∀ t, Untouched s₀ t → At s₀.sessionId s₀.logicalRevision t := fun _ h => h.at_
  refine ((keeps_checkReload stable_untouched).to hend).bind fun _ => ?_
  -- the document is in place, and the revision is not moved until the last step that may throw is
  -- over
  have hopen : Triple (fun _ : Throwable => False) (Untouched s₀) (modify (reopen c)) (fun _ =>
      At s₀.sessionId s₀.logicalRevision)
      (At s₀.sessionId s₀.logicalRevision) := triple_modify fun t ht => ht.at_
  refine hopen.bind fun _ => triple_codeDataJson_bind (fun t ht _ => .inr ht) fun json => ?_
  let Saved : Repository → Prop := fun t => At s₀.sessionId s₀.logicalRevision t ∧
    t.codeDataJson = .ok json
  have hsaved : Triple (fun _ : Throwable => False) (fun t => At s₀.sessionId s₀.logicalRevision t ∧
      t.codeDataJson = .ok json)
      (modify fun s => { s with savedCodeData := json }) (fun _ => Saved) (At s₀.sessionId s₀.logicalRevision) :=
    triple_modify fun t ht => ht
  refine hsaved.bind fun _ => ?_
  have hrefresh : Triple (fun _ : Throwable => False) Saved (refreshIdentity disk) (fun _ => Saved)
      (At s₀.sessionId s₀.logicalRevision) :=
    triple_refreshIdentity (fun _ _ _ _ ht => ht) (fun t ht => .inr ht.1) fun t ht => ht
  refine hrefresh.bind fun _ => ?_
  have hnext : Triple (fun _ : Throwable => False) Saved
      (modify fun s => { s with logicalRevision := s.logicalRevision + 1, indexRevision := s.indexRevision + 1 })
      (fun _ t => At s₀.sessionId (s₀.logicalRevision + 1) t ∧ t.codeDataJson = .ok json)
      (At s₀.sessionId s₀.logicalRevision) :=
    triple_modify fun t ht => ⟨⟨ht.1.1, congrArg (· + 1) ht.1.2⟩, ht.2⟩
  refine hnext.bind fun _ t ht => ?_
  rw [snapshot_run ht.2]
  exact ht.1

/-- **and a path by its step.** -/
theorem commitMappingsPath_revised (c : MappingCandidate) (hc : Sound (.mappings c)) :
    Triple (fun _ : Throwable => False) (Untouched s₀) (commitMappingsPath disk c)
      (fun _ => At s₀.sessionId (s₀.logicalRevision + commitStep s₀ (.mappings c)))
      (At s₀.sessionId s₀.logicalRevision) := by
  have hend : ∀ t, Untouched s₀ t → At s₀.sessionId s₀.logicalRevision t := fun _ h => h.at_
  refine (keeps_checkRevision.to hend).bind fun _ => triple_get_keep fun s hs => ?_
  refine ((keeps_checkInputBaselines stable_untouched).to hend).bind fun _ => ?_
  refine ((keeps_fingerprintOf stable_untouched).to hend).bind fun _ =>
    ((keeps_when keeps_throw).to hend).bind fun _ => ?_
  have hpath : s.mappingsPath = s₀.mappingsPath := hs.same.mappingsPath
  intro t ht
  rw [hpath]
  by_cases heq : s₀.mappingsPath = c.path
  · have hskip : (when (s₀.mappingsPath ≠ c.path) (modify (attach c)) : Section Unit) t =
      (.ok (), t) := by simp [heq]
    rw [bind_ok hskip]
    have hstep : commitStep s₀ (.mappings c) = 0 := if_pos heq
    have hkeeps : Keeps (fun _ : Throwable => False) (At s₀.sessionId s₀.logicalRevision)
      snapshot := keeps_snapshot
    rw [hstep, Int.add_zero]
    exact hkeeps t ht.at_
  · have hattach : (when (s₀.mappingsPath ≠ c.path) (modify (attach c)) : Section Unit) t =
      (.ok (), attach c t) := by simp [heq]
    rw [bind_ok hattach]
    obtain ⟨json, hjson⟩ := hc
    have hwritten : (attach c t).codeDataJson = .ok json := hjson
    have hstep : commitStep s₀ (.mappings c) = 1 := if_neg heq
    rw [snapshot_run hwritten, hstep]
    have hat := ht.at_
    exact ⟨hat.1, congrArg (· + 1) hat.2⟩

/-- **A commit moves the revision where it returns**, and only there. -/
theorem apply_revised (disk : Disk) (s : Repository) {c : RebuildCommit} (hc : Sound c) :
    match c.apply disk s with
    | (.ok _, t) => At s.sessionId (s.logicalRevision + commitStep s c) t
    | (.error _, t) => At s.sessionId s.logicalRevision t := by
  have hout : ∀ {m : Section ProjectSnapshot} {n : ℤ}, Triple (fun _ : Throwable => False)
      (Untouched s) m
      (fun _ => At s.sessionId (s.logicalRevision + n)) (At s.sessionId s.logicalRevision) →
      match m s with
      | (.ok _, t) => At s.sessionId (s.logicalRevision + n) t
      | (.error _, t) => At s.sessionId s.logicalRevision t := by
    intro m n hm
    have h := hm s (Untouched.refl s)
    rcases hr : m s with ⟨e | p, t⟩
    · rw [hr] at h
      exact h.resolve_left id
    · rw [hr] at h
      exact h
  cases c with
  | codeData c => exact commitCodeData_revised c s
  | reload c => exact hout (commitReload_revised c)
  | mappings c => exact hout (commitMappingsPath_revised c hc)

/-! ## Reading -/

/-- A published read changes nothing, and shows the session and the revision. -/
theorem read_apply (r : ProjectRuntime.PublishedRead) (s : Repository) : (r.apply s).2 = s ∧
    ∀ v, (r.apply s).1 = .ok v → v.sessionId = s.sessionId ∧
      v.logicalRevision = s.logicalRevision := by
  cases r with
  | projectSnapshot =>
    simp only [ProjectRuntime.PublishedRead.apply]
    cases hj : s.codeDataJson with
    | ok json =>
      rw [bind_ok (snapshot_run hj)]
      refine ⟨rfl, fun v hv => ?_⟩
      obtain rfl := Except.ok.inj hv
      exact ⟨rfl, rfl⟩
    | error e =>
      rw [bind_error (snapshot_error hj)]
      exact ⟨rfl, fun v hv => by simp at hv⟩
  | settingsSnapshot =>
    simp only [ProjectRuntime.PublishedRead.apply, bind_get]
    cases hj : s.codeDataJson with
    | ok json =>
      rw [bind_ok (snapshot_run hj)]
      refine ⟨rfl, fun v hv => ?_⟩
      obtain rfl := Except.ok.inj hv
      exact ⟨rfl, rfl⟩
    | error e =>
      rw [bind_error (snapshot_error hj)]
      exact ⟨rfl, fun v hv => by simp at hv⟩
  | pendingEdits =>
    simp only [ProjectRuntime.PublishedRead.apply, bind_get]
    have hjson := codeDataJson_run s
    cases hj : s.codeDataJson with
    | ok json =>
      rw [hj] at hjson
      have hdirty : dirty s = (.ok (s.savedCodeData ≠ json || s.savedMappingsPath ≠ s.mappingsPath),
          s) := by
        unfold dirty
        rw [bind_ok hjson]
        rfl
      rw [bind_ok hdirty, bind_ok hjson]
      refine ⟨rfl, fun v hv => ?_⟩
      obtain rfl := Except.ok.inj hv
      exact ⟨rfl, rfl⟩
    | error e =>
      rw [hj] at hjson
      have hdirty : dirty s = (.error e, s) := by
        unfold dirty
        rw [bind_error hjson]
      rw [bind_error hdirty]
      exact ⟨rfl, fun v hv => by simp at hv⟩

end NativeProjectRepository

end Libjadx
